import Stacktrace.Value.Failure
import Stacktrace.Value.Form

/-!
# The forms of plain values

Plain values are a format of data, and failure graphs are written as them and read from them in the
forms that follow from the declarations of the types (`Value.forms_derived`). An object that names a
field twice is not read, and one that names each field once at most has one value for it at most
(`Value.named_of_mem`).
-/

namespace Stacktrace.Value

def format : Format Value := ⟨null, integer, text, array, object⟩

def forms : Forms Value where
  text := ⟨text, toText?⟩
  optionText := ⟨ofOptionText, toOptionText?⟩
  int := ⟨fun n => integer n.toInt, toInt32?⟩
  id := ⟨ofId, toId?⟩
  line := ⟨ofLine, toLine?⟩
  frame := ⟨ofFrame, toFrame?⟩
  frames := ⟨fun fs => array (fs.map ofFrame), toList? toFrame?⟩
  backRef := ⟨ofBackRef, toBackRef?⟩
  surrogate := ⟨ofIndicator, toIndicator?⟩
  origin := ⟨ofOrigin, toOrigin?⟩
  cause := ⟨ofCause, toCause?⟩
  failure := ⟨ofFailure, toFailure?⟩
  failures := ⟨fun fs => array (ofFailures fs), toFailures?⟩

/-! ## Members of an object -/

section Members
variable {members : List (Text × Value)} {name : String} {v : Value}

theorem named_eq_nil (h : name.toList ∉ members.map Prod.fst) : named members name = [] := by
  rw [named, List.map_eq_nil_iff, List.filter_eq_nil_iff]
  exact fun m hm hname => h (of_decide_eq_true hname ▸ List.mem_map_of_mem hm)

theorem named_of_mem (hnames : (members.map Prod.fst).Nodup) (h : (name.toList, v) ∈ members) :
    named members name = [v] := by
  induction members with
  | nil => cases h
  | cons m members ih =>
    obtain ⟨hfresh, hnames⟩ := List.nodup_cons.1 hnames
    rcases List.mem_cons.1 h with rfl | h
    · have hrest := named_eq_nil hfresh
      rw [named] at hrest ⊢
      rw [List.filter_cons_of_pos (by simp), List.map_cons, hrest]
    · have hother : m.1 ≠ name.toList := fun hsame => hfresh (hsame ▸ List.mem_map_of_mem h)
      rw [named, List.filter_cons_of_neg (by simpa using hother)]
      exact ih hnames h

theorem field?_of_holds {α : Type} (hnames : (members.map Prod.fst).Nodup)
    (h : Slot.Holds format members ⟨name.toList, false⟩ v) (read : Value → Option α) :
    field? members name read = read v := by
  cases h with
  | given h => rw [field?, named_of_mem hnames h]

theorem optionField?_of_holds (hnames : (members.map Prod.fst).Nodup)
    (h : Slot.Holds format members ⟨name.toList, true⟩ v) :
    optionField? members name = v.toOptionText? := by
  cases h with
  | given h => rw [optionField?, named_of_mem hnames h]
  | omitted h =>
    rw [optionField?, named_eq_nil h]
    rfl

theorem field?_cons {α : Type} (found : Text) (read : Value → Option α) :
    field? ((found, v) :: members) name read =
      if found = name.toList then (if (named members name).isEmpty then read v else none)
      else field? members name read := by
  by_cases h : found = name.toList
  · rw [if_pos h, field?, named, List.filter_cons_of_pos (by simpa using h), List.map_cons, ← named]
    cases named members name <;> rfl
  · rw [if_neg h, field?, named, List.filter_cons_of_neg (by simpa using h), ← named, field?]

theorem causeIn?_eq_field? (members : List (Text × Value)) :
    causeIn? members = field? members "cause" toCause? := by
  induction members with
  | nil => rfl
  | cons m members ih => rw [causeIn?, ih, field?_cons]

theorem suppressedIn?_eq_field? (members : List (Text × Value)) :
    suppressedIn? members = field? members "suppressed" toFailures? := by
  induction members with
  | nil => rfl
  | cons m members ih => rw [suppressedIn?, ih, field?_cons]

end Members

/-! ## Lists -/

theorem toList?_of_forall₂ {α : Type} {read : Value → Option α} {items : List Value} {as : List α}
    (h : List.Forall₂ (fun v a => read v = some a) items as) :
    toList? read (array items) = some as := by
  rw [toList?]
  induction h with
  | nil => rfl
  | cons hv _ ih => rw [List.mapM_cons, hv, ih]; rfl

theorem ofFailures_eq_map (fs : List (Failure UInt64)) : ofFailures fs = fs.map ofFailure := by
  induction fs with
  | nil => rfl
  | cons f fs ih => rw [ofFailures, ih, List.map_cons]

theorem toFailures?_eq_toList? (v : Value) : v.toFailures? = v.toList? toFailure? := by
  cases v with
  | array items =>
    rw [toFailures?, toList?]
    induction items with
    | nil => rfl
    | cons v items ih => rw [allFailures?, ih, List.mapM_cons]; rfl
  | _ => rfl

/-! ## Records -/

theorem isRecord_frame : forms.frame.IsRecord format forms.frameFields where
  write _ := rfl
  readObject {members a} hnames h := by
    simp only [Forms.frameFields, Form.field, Form.optionalField, forms,
      List.forall_mem_cons] at h
    obtain ⟨⟨_, hunit, hunit'⟩, ⟨_, hoperation, hoperation'⟩, ⟨_, hlabel, hlabel'⟩,
      ⟨_, hline, hline'⟩, -⟩ := h
    change toFrame? (object members) = some a
    rw [toFrame?, field?_of_holds hnames hunit, field?_of_holds hnames hoperation,
      optionField?_of_holds hnames hlabel, field?_of_holds hnames hline, hunit', hoperation',
      hlabel', hline']
    rfl
  readArray {values a} h := by
    simp only [Forms.frameFields, Form.field, Form.optionalField, forms,
      List.forall₂_cons_left_iff, List.forall₂_nil_left_iff] at h
    obtain ⟨_, _, hunit, ⟨_, _, hoperation, ⟨_, _, hlabel, ⟨_, _, hline, rfl, rfl⟩, rfl⟩, rfl⟩,
      rfl⟩ := h
    change toFrame? (array [_, _, _, _]) = some a
    rw [toFrame?, hunit, hoperation, hlabel, hline]
    rfl

theorem isRecord_backRef : forms.backRef.IsRecord format forms.backRefFields where
  write _ := rfl
  readObject {members a} hnames h := by
    simp only [Forms.backRefFields, Form.field, forms, List.forall_mem_cons] at h
    obtain ⟨⟨_, htarget, htarget'⟩, ⟨_, hdisplay, hdisplay'⟩, -⟩ := h
    change toBackRef? (object members) = some a
    rw [toBackRef?, field?_of_holds hnames htarget, field?_of_holds hnames hdisplay, htarget',
      hdisplay']
    rfl
  readArray {values a} h := by
    simp only [Forms.backRefFields, Form.field, forms, List.forall₂_cons_left_iff,
      List.forall₂_nil_left_iff] at h
    obtain ⟨_, _, htarget, ⟨_, _, hdisplay, rfl, rfl⟩, rfl⟩ := h
    change toBackRef? (array [_, _]) = some a
    rw [toBackRef?, htarget, hdisplay]
    rfl

theorem isRecord_failure : forms.failure.IsRecord format forms.failureFields where
  write f := by
    cases f
    exact ofFailure.eq_1 ..
  readObject {members a} hnames h := by
    simp only [Forms.failureFields, Form.field, Form.optionalField, forms,
      List.forall_mem_cons] at h
    obtain ⟨⟨_, hid, hid'⟩, ⟨_, htype, htype'⟩, ⟨_, hmessage, hmessage'⟩, ⟨_, hframes, hframes'⟩,
      ⟨_, hcause, hcause'⟩, ⟨_, hsuppressed, hsuppressed'⟩, ⟨_, horigin, horigin'⟩, -⟩ := h
    change toFailure? (object members) = some a
    rw [toFailure?, causeIn?_eq_field?, suppressedIn?_eq_field?, field?_of_holds hnames hid,
      field?_of_holds hnames htype, optionField?_of_holds hnames hmessage,
      field?_of_holds hnames hframes, field?_of_holds hnames hcause,
      field?_of_holds hnames hsuppressed, field?_of_holds hnames horigin, hid', htype', hmessage',
      hframes', hcause', hsuppressed', horigin']
    cases a
    rfl
  readArray {values a} h := by
    simp only [Forms.failureFields, Form.field, Form.optionalField, forms,
      List.forall₂_cons_left_iff, List.forall₂_nil_left_iff] at h
    obtain ⟨_, _, hid, ⟨_, _, htype, ⟨_, _, hmessage, ⟨_, _, hframes, ⟨_, _, hcause,
      ⟨_, _, hsuppressed, ⟨_, _, horigin, rfl, rfl⟩, rfl⟩, rfl⟩, rfl⟩, rfl⟩, rfl⟩, rfl⟩ := h
    change toFailure? (array [_, _, _, _, _, _, _]) = some a
    rw [toFailure?, hid, htype, hmessage, hframes, hcause, hsuppressed, horigin]
    cases a
    rfl

/-! ## Variants -/

theorem hasVariant_line : forms.line.HasVariant format "Number" forms.int .number where
  write _ := rfl
  read {v n} h := by
    cases v with
    | integer n => exact congrArg (Option.map LineNumber.number) h
    | _ => cases h

theorem hasVariant_origin :
    forms.origin.HasVariant format "Surrogate" forms.surrogate .surrogate where
  write _ := rfl
  read {v indicator} h := by
    cases v with
    | object members => exact congrArg (Option.map Origin.surrogate) h
    | _ => cases h

theorem isObject_surrogate :
    forms.surrogate.IsObject format [forms.text.field "indicator" fun indicator => indicator] where
  write _ := rfl
  readObject {members indicator} hnames h := by
    simp only [Form.field, forms, List.forall_mem_cons] at h
    obtain ⟨⟨_, hindicator, hindicator'⟩, -⟩ := h
    change toIndicator? (object members) = some indicator
    rw [toIndicator?, field?_of_holds hnames hindicator, hindicator']

theorem forms_derived : forms.Derived format where
  text := ⟨fun _ => rfl, fun _ => rfl⟩
  text_ne_null _ h := by cases h
  optionText := {
    write_none := rfl
    write_some _ := rfl
    read_null := rfl
    read_item {v t} _ h := by
      cases v with
      | text => exact congrArg some h
      | _ => cases h }
  int := ⟨fun _ => rfl, toInt32?_integer⟩
  id := ⟨fun _ => rfl, toId?_ofId⟩
  number := hasVariant_line
  native := ⟨rfl, rfl, rfl⟩
  unavailable := ⟨rfl, rfl, rfl⟩
  frame := isRecord_frame
  frames := ⟨fun _ => rfl, toList?_of_forall₂⟩
  backRef := isRecord_backRef
  surrogate := isObject_surrogate
  resolved := ⟨rfl, rfl, rfl⟩
  surrogateOrigin := hasVariant_origin
  noCause := ⟨rfl, rfl, rfl⟩
  owned := ⟨fun _ => rfl, fun h => congrArg (Option.map Cause.owned) h⟩
  link := ⟨fun _ => rfl, fun h => congrArg (Option.map Cause.backRef) h⟩
  failure := isRecord_failure
  failures := ⟨fun fs => congrArg array (ofFailures_eq_map fs),
    fun h => (toFailures?_eq_toList? _).trans (toList?_of_forall₂ h)⟩

end Stacktrace.Value
