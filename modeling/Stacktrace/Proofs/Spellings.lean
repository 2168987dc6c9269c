import Mathlib.Data.List.Nodup
import Stacktrace.Proofs.ValueForms

/-!
# The values that spell a failure graph

A graph can be spelled as a value in many ways: every record as an object with its fields in any
order, with others beside them and without those that can be absent, or as an array, and every
variant that holds nothing as a text or as an object. Whatever writes and reads the values in the
forms that follow from the declarations of the types, it reads each spelling as the graph that it
spells (`Forms.Derived.read_failure`). The value that is written is one of them, so that nothing is
lost by writing a graph (`Forms.failure_rewritten`).
-/

namespace Stacktrace
variable {V : Type}

namespace Format

/-! ## Spellings -/

section Spellings
variable (F : Format V)

/-- Whether a value spells a record whose fields have the given values. -/
inductive SpellsRecord (slots : List Slot) : V → List V → Prop
  | array {values : List V} (h : values.length = slots.length) :
      SpellsRecord slots (F.array values) values
  | object {members : List (Text × V)} {values : List V} (hnames : (members.map Prod.fst).Nodup)
      (h : List.Forall₂ (Slot.Holds F members) slots values) :
      SpellsRecord slots (F.object members) values

/-- Whether a value spells a variant that holds nothing. -/
inductive SpellsBare (name : String) : V → Prop
  | name : SpellsBare name (F.text name.toList)
  | object : SpellsBare name (F.object [(name.toList, F.null)])

inductive SpellsOptionText : V → Option Text → Prop
  | absent : SpellsOptionText F.null none
  | present (t : Text) : SpellsOptionText (F.text t) (some t)

inductive SpellsLine : V → LineNumber → Prop
  | number (n : Int32) :
      SpellsLine (F.object [("Number".toList, F.integer n.toInt)]) (.number n)
  | native {v : V} (h : F.SpellsBare "Native" v) : SpellsLine v .native
  | unavailable {v : V} (h : F.SpellsBare "Unavailable" v) : SpellsLine v .unavailable

def frameSlots : List Slot := [⟨"unit".toList, false⟩, ⟨"operation".toList, false⟩,
  ⟨"source_label".toList, true⟩, ⟨"line".toList, false⟩]

inductive SpellsFrame : V → Frame → Prop
  | intro {v label line : V} {f : Frame}
      (fields : F.SpellsRecord frameSlots v [F.text f.unit, F.text f.operation, label, line])
      (hlabel : F.SpellsOptionText label f.label) (hline : F.SpellsLine line f.line) :
      SpellsFrame v f

def backRefSlots : List Slot := [⟨"target".toList, false⟩, ⟨"display".toList, false⟩]

def SpellsBackRef (v : V) (link : BackRef UInt64) : Prop :=
  F.SpellsRecord backRefSlots v [F.integer link.target.toNat, F.text link.display]

inductive SpellsOrigin : V → Origin → Prop
  | resolved {v : V} (h : F.SpellsBare "Resolved" v) : SpellsOrigin v .resolved
  | surrogate {members : List (Text × V)} {indicator : Text}
      (hnames : (members.map Prod.fst).Nodup)
      (h : ("indicator".toList, F.text indicator) ∈ members) :
      SpellsOrigin (F.object [("Surrogate".toList, F.object members)]) (.surrogate indicator)

def failureSlots : List Slot := [⟨"id".toList, false⟩, ⟨"type_name".toList, false⟩,
  ⟨"message".toList, true⟩, ⟨"frames".toList, false⟩, ⟨"cause".toList, false⟩,
  ⟨"suppressed".toList, false⟩, ⟨"origin".toList, false⟩]

mutual

/-- Whether a value spells a failure graph. -/
inductive SpellsFailure : V → Failure UInt64 → Prop
  | intro {v message cause origin : V} {frames suppressed : List V} {f : Failure UInt64}
      (fields : F.SpellsRecord failureSlots v [F.integer f.id.toNat, F.text f.typeName, message,
        F.array frames, cause, F.array suppressed, origin])
      (hmessage : F.SpellsOptionText message f.message)
      (hframes : List.Forall₂ F.SpellsFrame frames f.frames) (hcause : SpellsCause cause f.cause)
      (hsuppressed : List.Forall₂ SpellsFailure suppressed f.suppressed)
      (horigin : F.SpellsOrigin origin f.origin) : SpellsFailure v f

inductive SpellsCause : V → Cause UInt64 (Failure UInt64) → Prop
  | none {v : V} (h : F.SpellsBare "None" v) : SpellsCause v .none
  | owned {v : V} {c : Failure UInt64} (h : SpellsFailure v c) :
      SpellsCause (F.object [("Owned".toList, v)]) (.owned c)
  | backRef {v : V} {link : BackRef UInt64} (h : F.SpellsBackRef v link) :
      SpellsCause (F.object [("BackRef".toList, v)]) (.backRef link)

end
end Spellings
end Format

namespace Form
variable {F : Format V} {α β : Type} {form : Form V α} {fields : List (Field V α)}

/-! ## Records and variants of any type -/

theorem IsRecord.read_of_spells (h : form.IsRecord F fields) {v : V} {values : List V} {a : α}
    (hv : F.SpellsRecord (fields.map Field.toSlot) v values)
    (hgives : List.Forall₂ (fun (field : Field V α) v => field.Gives a v) fields values) :
    form.read? v = some a := by
  cases hv with
  | array => exact h.readArray hgives
  | object hnames hholds =>
    refine h.readObject hnames fun field hfield => ?_
    rw [List.forall₂_map_left_iff] at hholds
    obtain ⟨i, hi, rfl⟩ := List.getElem_of_mem hfield
    have hi' := hgives.length_eq ▸ hi
    exact ⟨values[i], hholds.get hi hi', hgives.get hi hi'⟩

/-- A record is written as an object that spells it. -/
theorem IsRecord.spells_write (h : form.IsRecord F fields) (slots : List Slot)
    (hslots : fields.map Field.toSlot = slots) (hnames : (slots.map Slot.name).Nodup) (a : α) :
    F.SpellsRecord slots (form.write a) (fields.map (·.write a)) := by
  subst hslots
  rw [List.map_map] at hnames
  rw [h.write]
  refine .object ?_ ?_
  · rw [List.map_map]
    exact hnames
  · rw [List.forall₂_map_left_iff, List.forall₂_map_right_iff, List.forall₂_same]
    exact fun field hfield => .given (List.mem_map_of_mem hfield)

theorem HasBare.read_of_spells {name : String} {a : α} (h : form.HasBare F name a) {v : V}
    (hv : F.SpellsBare name v) : form.read? v = some a := by
  cases hv with
  | name => exact h.readName
  | object => exact h.readObject

theorem HasBare.spells_write {name : String} {a : α} (h : form.HasBare F name a) :
    F.SpellsBare name (form.write a) := by
  rw [h.write]
  exact .name

end Form

namespace Forms

namespace Derived
variable {F : Format V} {S : Forms V} (h : S.Derived F)
include h

/-! ## Reading -/

theorem read_optionText {v : V} {o : Option Text} (hv : F.SpellsOptionText v o) :
    S.optionText.read? v = some o := by
  cases hv with
  | absent => exact h.optionText.read_null
  | present t => exact h.optionText.read_item (h.text_ne_null t) (h.text.read t)

theorem read_line {v : V} {line : LineNumber} (hv : F.SpellsLine v line) :
    S.line.read? v = some line := by
  cases hv with
  | number n => exact h.number.read (h.int.read n)
  | native hv => exact h.native.read_of_spells hv
  | unavailable hv => exact h.unavailable.read_of_spells hv

theorem read_frame {v : V} {f : Frame} (hv : F.SpellsFrame v f) : S.frame.read? v = some f := by
  obtain ⟨hfields, hlabel, hline⟩ := hv
  refine h.frame.read_of_spells hfields ?_
  exact .cons (h.text.read _) (.cons (h.text.read _) (.cons (h.read_optionText hlabel)
    (.cons (h.read_line hline) .nil)))

theorem read_backRef {v : V} {link : BackRef UInt64} (hv : F.SpellsBackRef v link) :
    S.backRef.read? v = some link :=
  h.backRef.read_of_spells hv (.cons (h.id.read _) (.cons (h.text.read _) .nil))

theorem read_origin {v : V} {origin : Origin} (hv : F.SpellsOrigin v origin) :
    S.origin.read? v = some origin := by
  cases hv with
  | resolved hv => exact h.resolved.read_of_spells hv
  | surrogate hnames hindicator =>
    refine h.surrogateOrigin.read (h.surrogate.readObject hnames fun field hfield => ?_)
    obtain rfl := List.mem_singleton.1 hfield
    exact ⟨_, .given hindicator, h.text.read _⟩

theorem read_cause {v : V} {cause : Cause UInt64 (Failure UInt64)}
    (howned : ∀ c, cause = .owned c → ∀ v, F.SpellsFailure v c → S.failure.read? v = some c)
    (hv : F.SpellsCause v cause) : S.cause.read? v = some cause := by
  cases hv with
  | none hv => exact h.noCause.read_of_spells hv
  | owned hv => exact h.owned.read (howned _ rfl _ hv)
  | backRef hv => exact h.link.read (h.read_backRef hv)

theorem read_failure {f : Failure UInt64} {v : V} (hv : F.SpellsFailure v f) :
    S.failure.read? v = some f := by
  induction f generalizing v with
  | node f ihSuppressed ihCause =>
    obtain ⟨hfields, hmessage, hframes, hcause, hsuppressed, horigin⟩ := hv
    have hread : List.Forall₂ (fun s v => S.failure.read? v = some s) f.suppressed _ :=
      ((List.forall₂_and_left _ _).2 ⟨fun s hs v => ihSuppressed s hs (v := v),
        hsuppressed.flip⟩).imp fun s v hs => hs.1 v hs.2
    refine h.failure.read_of_spells hfields ?_
    exact .cons (h.id.read _) (.cons (h.text.read _) (.cons (h.read_optionText hmessage)
      (.cons (h.frames.read (hframes.imp fun _ _ => h.read_frame))
        (.cons (h.read_cause (fun c hc v => ihCause c hc) hcause)
          (.cons (h.failures.read hread.flip) (.cons (h.read_origin horigin) .nil))))))

/-! ## Writing -/

theorem spells_optionText (o : Option Text) : F.SpellsOptionText (S.optionText.write o) o := by
  cases o with
  | none =>
    rw [h.optionText.write_none]
    exact .absent
  | some t =>
    rw [h.optionText.write_some, h.text.write]
    exact .present t

theorem spells_line (line : LineNumber) : F.SpellsLine (S.line.write line) line := by
  cases line with
  | number n =>
    rw [h.number.write, h.int.write]
    exact .number n
  | native => exact .native h.native.spells_write
  | unavailable => exact .unavailable h.unavailable.spells_write

theorem spells_frame (f : Frame) : F.SpellsFrame (S.frame.write f) f := by
  have hfields := h.frame.spells_write Format.frameSlots rfl (by decide) f
  simp only [frameFields, Form.field, Form.optionalField, List.map_cons, List.map_nil,
    h.text.write] at hfields
  exact .intro hfields (h.spells_optionText f.label) (h.spells_line f.line)

theorem spells_backRef (link : BackRef UInt64) : F.SpellsBackRef (S.backRef.write link) link := by
  have hfields := h.backRef.spells_write Format.backRefSlots rfl (by decide) link
  simp only [backRefFields, Form.field, List.map_cons, List.map_nil, h.id.write,
    h.text.write] at hfields
  exact hfields

theorem spells_origin (origin : Origin) : F.SpellsOrigin (S.origin.write origin) origin := by
  cases origin with
  | resolved => exact .resolved h.resolved.spells_write
  | surrogate indicator =>
    rw [h.surrogateOrigin.write, h.surrogate.write]
    refine .surrogate (List.nodup_singleton _) ?_
    rw [← h.text.write]
    exact List.mem_singleton_self _

theorem spells_cause {cause : Cause UInt64 (Failure UInt64)}
    (howned : ∀ c, cause = .owned c → F.SpellsFailure (S.failure.write c) c) :
    F.SpellsCause (S.cause.write cause) cause := by
  cases cause with
  | none => exact .none h.noCause.spells_write
  | owned c =>
    rw [h.owned.write]
    exact .owned (howned c rfl)
  | backRef link =>
    rw [h.link.write]
    exact .backRef (h.spells_backRef link)

theorem spells_failure (f : Failure UInt64) : F.SpellsFailure (S.failure.write f) f := by
  induction f with
  | node f ihSuppressed ihCause =>
    have hfields := h.failure.spells_write Format.failureSlots rfl (by decide) f
    simp only [failureFields, Form.field, Form.optionalField, List.map_cons, List.map_nil,
      h.id.write, h.text.write, h.frames.write, h.failures.write] at hfields
    have hframes : List.Forall₂ F.SpellsFrame (f.frames.map S.frame.write) f.frames :=
      List.forall₂_map_left_iff.2 (List.forall₂_same.2 fun x _ => h.spells_frame x)
    have hsuppressed :
        List.Forall₂ F.SpellsFailure (f.suppressed.map S.failure.write) f.suppressed :=
      List.forall₂_map_left_iff.2 (List.forall₂_same.2 ihSuppressed)
    exact .intro hfields (h.spells_optionText f.message) hframes (h.spells_cause ihCause)
      hsuppressed (h.spells_origin f.origin)

end Derived

/-- A graph is read back from the value that it is written as, and from every other value that spells
it. Whatever is read as a graph is written as a value that is read as the same graph and written as
itself. -/
theorem failure_rewritten {F : Format V} {S : Forms V} (h : S.Derived F) :
    (∀ f, S.failure.read? (S.failure.write f) = some f) ∧
      (∀ v f, F.SpellsFailure v f → S.failure.read? v = some f) ∧
      ∀ v f, S.failure.read? v = some f →
        S.failure.rewritten? v = some (S.failure.write f) ∧
          S.failure.read? (S.failure.write f) = some f ∧
          S.failure.rewritten? (S.failure.write f) = some (S.failure.write f) := by
  have hback (f : Failure UInt64) : S.failure.read? (S.failure.write f) = some f :=
    h.read_failure (h.spells_failure f)
  refine ⟨hback, fun v f => h.read_failure, fun v f hread => ⟨?_, hback f, ?_⟩⟩
  · rw [Form.rewritten?, hread, Option.map_some]
  · rw [Form.rewritten?, hback f, Option.map_some]

end Forms

namespace Value

/-! Objects and arrays in turn, with fields in another order, left out and unknown. -/

def spelledFrames : List Value :=
  [array [text ['u'], text ['o'], null, object [("Native".toList, null)]],
    object [("line".toList, object [("Number".toList, integer (-2147483648))]),
      ("column".toList, integer 3), ("operation".toList, text ['p']), ("unit".toList, text [])]]

def spelledCause : Value := object [("Owned".toList, array [integer 7, text ['C'], text [], array [],
  object [("BackRef".toList, array [integer 9, text ['D']])], array [],
  object [("Resolved".toList, null)]])]

def spelledBeside : List Value := [object
  [("origin".toList, object [("Surrogate".toList, object [("indicator".toList, text ['?'])])]),
    ("cause".toList, object [("None".toList, null)]), ("suppressed".toList, array []),
    ("frames".toList, array []), ("message".toList, null), ("type_name".toList, text ['S']),
    ("id".toList, integer 7)]]

def spelled : Value := object [("cause".toList, spelledCause), ("note".toList, bool true),
  ("suppressed".toList, array spelledBeside), ("frames".toList, array spelledFrames),
  ("origin".toList, text "Resolved".toList), ("type_name".toList, text ['A']),
  ("id".toList, integer 18446744073709551615)]

def plainlySpelled : Failure UInt64 where
  id := 18446744073709551615
  typeName := ['A']
  message := none
  frames := [⟨['u'], ['o'], none, .native⟩, ⟨[], ['p'], none, .number (-2147483648)⟩]
  origin := .resolved
  suppressed := [{ Failure.ofType 7 ['S'] with origin := .surrogate ['?'] }]
  cause := .owned { Failure.ofType 7 ['C'] with message := some [], cause := .backRef ⟨9, ['D']⟩ }

theorem spells_plainlySpelled : format.SpellsFailure spelled plainlySpelled := by
  have hmem {members : List (Text × Value)} (i : Nat) {m : Text × Value}
      (h : members[i]? = some m) : m ∈ members := List.mem_of_getElem? h
  have hframes : List.Forall₂ format.SpellsFrame spelledFrames plainlySpelled.frames :=
    .cons (.intro (.array rfl) .absent (.native .object))
      (.cons (.intro (.object (by decide) (.cons (.given (hmem 3 rfl)) (.cons (.given (hmem 2 rfl))
        (.cons (.omitted (by decide)) (.cons (.given (hmem 0 rfl)) .nil))))) .absent
          (.number (-2147483648))) .nil)
  have hcause : format.SpellsCause spelledCause plainlySpelled.cause :=
    .owned (.intro (.array rfl) (.present []) .nil (.backRef (.array rfl)) .nil (.resolved .object))
  have hbeside : List.Forall₂ format.SpellsFailure spelledBeside plainlySpelled.suppressed :=
    .cons (.intro (.object (by decide) (.cons (.given (hmem 6 rfl)) (.cons (.given (hmem 5 rfl))
      (.cons (.given (hmem 4 rfl)) (.cons (.given (hmem 3 rfl)) (.cons (.given (hmem 1 rfl))
        (.cons (.given (hmem 2 rfl)) (.cons (.given (hmem 0 rfl)) .nil)))))))) .absent .nil
          (.none .object) .nil (.surrogate (by decide) (hmem 0 rfl))) .nil
  refine .intro (.object (by decide) ?_) .absent hframes hcause hbeside (.resolved .name)
  exact .cons (.given (hmem 6 rfl)) (.cons (.given (hmem 5 rfl)) (.cons (.omitted (by decide))
    (.cons (.given (hmem 3 rfl)) (.cons (.given (hmem 0 rfl)) (.cons (.given (hmem 2 rfl))
      (.cons (.given (hmem 4 rfl)) .nil))))))

theorem failure_rewritten_spelled : format.SpellsFailure spelled plainlySpelled ∧
    forms.failure.rewritten? spelled = some (ofFailure plainlySpelled) ∧
    toFailure? (ofFailure plainlySpelled) = some plainlySpelled ∧
    forms.failure.rewritten? (ofFailure plainlySpelled) = some (ofFailure plainlySpelled) := by
  obtain ⟨-, hread, hrewritten⟩ := Forms.failure_rewritten forms_derived
  exact ⟨spells_plainlySpelled,
    hrewritten spelled plainlySpelled (hread spelled plainlySpelled spells_plainlySpelled)⟩

end Value
end Stacktrace
