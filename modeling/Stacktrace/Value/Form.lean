import Mathlib.Data.List.Forall2
import Stacktrace.Failure.Basic

/-!
How failure graphs are written in a format of data that has objects, arrays, texts and whole
numbers. What writes and reads the values is left open, with no more known of it than follows from
the declaration of a type (`Forms.Derived`), however deep a value is. A record is written as an
object with its fields by name. It is read from an object with all of them, in any order and
whatever else that object holds, or from an array of exactly its fields in order; a field that is
optional may be left out of the object. A variant that holds nothing is written as its name, and
any other as an object with its name and its content.
-/

namespace Stacktrace

/-- The values of a format of data. -/
structure Format (V : Type) where
  null : V
  integer : Int → V
  text : Text → V
  array : List V → V
  object : List (Text × V) → V

/-- A way to write a type as values, and to read it from them. -/
structure Form (V α : Type) where
  write : α → V
  read? : V → Option α

structure Slot where
  name : Text
  optional : Bool

/-- Whether the members of an object give the field of a record a value: the one that has its name,
or null, if it may be left out. -/
inductive Slot.Holds {V : Type} (F : Format V) (members : List (Text × V)) : Slot → V → Prop
  | given {slot : Slot} {v : V} (h : (slot.name, v) ∈ members) : Holds F members slot v
  | omitted {name : Text} (h : name ∉ members.map Prod.fst) : Holds F members ⟨name, true⟩ F.null

/-- A field of a record, with how it is written and from which values it is read. -/
structure Field (V α : Type) extends Slot where
  write : α → V
  Gives : α → V → Prop

namespace Form
variable {V α β : Type}

/-- A value that is read and then written. -/
def rewritten? (form : Form V α) (v : V) : Option V := (form.read? v).map form.write

def field (form : Form V β) (name : String) (get : α → β) : Field V α where
  name := name.toList
  optional := false
  write a := form.write (get a)
  Gives a v := form.read? v = some (get a)

def optionalField (form : Form V (Option β)) (name : String) (get : α → Option β) : Field V α :=
  { form.field name get with optional := true }

/-! ## What follows from the declaration of a type -/

/-- A type whose values stand for themselves. -/
structure IsPlain (form : Form V α) (plain : α → V) : Prop where
  write (a : α) : form.write a = plain a
  read (a : α) : form.read? (plain a) = some a

variable (F : Format V)

structure IsOption (form : Form V (Option α)) (item : Form V α) : Prop where
  write_none : form.write none = F.null
  write_some (a : α) : form.write (some a) = item.write a
  read_null : form.read? F.null = some none
  read_item {v : V} {a : α} (hv : v ≠ F.null) (h : item.read? v = some a) :
    form.read? v = some (some a)

structure IsList (form : Form V (List α)) (item : Form V α) : Prop where
  write (as : List α) : form.write as = F.array (as.map item.write)
  read {vs : List V} {as : List α} (h : List.Forall₂ (fun v a => item.read? v = some a) vs as) :
    form.read? (F.array vs) = some as

/-- A type with named fields, by whose names it is read. -/
structure IsObject (form : Form V α) (fields : List (Field V α)) : Prop where
  write (a : α) : form.write a = F.object (fields.map fun field => (field.name, field.write a))
  readObject {members : List (Text × V)} {a : α} (hnames : (members.map Prod.fst).Nodup)
    (h : ∀ field ∈ fields, ∃ v, field.Holds F members v ∧ field.Gives a v) :
    form.read? (F.object members) = some a

/-- A type with named fields, by whose names or order it is read. -/
structure IsRecord (form : Form V α) (fields : List (Field V α)) : Prop
    extends form.IsObject F fields where
  readArray {values : List V} {a : α}
    (h : List.Forall₂ (fun (field : Field V α) v => field.Gives a v) fields values) :
    form.read? (F.array values) = some a

/-- A variant that holds nothing. -/
structure HasBare (form : Form V α) (name : String) (a : α) : Prop where
  write : form.write a = F.text name.toList
  readName : form.read? (F.text name.toList) = some a
  readObject : form.read? (F.object [(name.toList, F.null)]) = some a

/-- A variant with a content. -/
structure HasVariant (form : Form V α) (name : String) (content : Form V β) (variant : β → α) :
    Prop where
  write (b : β) : form.write (variant b) = F.object [(name.toList, content.write b)]
  read {v : V} {b : β} (h : content.read? v = some b) :
    form.read? (F.object [(name.toList, v)]) = some (variant b)

end Form

/-- The forms of a failure graph whose identities are 64-bit words, and of its parts. -/
structure Forms (V : Type) where
  text : Form V Text
  optionText : Form V (Option Text)
  int : Form V Int32
  id : Form V UInt64
  line : Form V LineNumber
  frame : Form V Frame
  frames : Form V (List Frame)
  backRef : Form V (BackRef UInt64)
  surrogate : Form V Text
  origin : Form V Origin
  cause : Form V (Cause UInt64 (Failure UInt64))
  failure : Form V (Failure UInt64)
  failures : Form V (List (Failure UInt64))

namespace Forms
variable {V : Type} (S : Forms V)

def frameFields : List (Field V Frame) :=
  [S.text.field "unit" Frame.unit, S.text.field "operation" Frame.operation,
    S.optionText.optionalField "source_label" Frame.label, S.line.field "line" Frame.line]

def backRefFields : List (Field V (BackRef UInt64)) :=
  [S.id.field "target" BackRef.target, S.text.field "display" BackRef.display]

def failureFields : List (Field V (Failure UInt64)) :=
  [S.id.field "id" Failure.id, S.text.field "type_name" Failure.typeName,
    S.optionText.optionalField "message" Failure.message, S.frames.field "frames" Failure.frames,
    S.cause.field "cause" Failure.cause, S.failures.field "suppressed" Failure.suppressed,
    S.origin.field "origin" Failure.origin]

/-- Whether all forms are those that follow from the declarations of the types. -/
structure Derived (F : Format V) : Prop where
  text : S.text.IsPlain F.text
  text_ne_null (t : Text) : F.text t ≠ F.null
  optionText : S.optionText.IsOption F S.text
  int : S.int.IsPlain fun n => F.integer n.toInt
  id : S.id.IsPlain fun n => F.integer n.toNat
  number : S.line.HasVariant F "Number" S.int LineNumber.number
  native : S.line.HasBare F "Native" LineNumber.native
  unavailable : S.line.HasBare F "Unavailable" LineNumber.unavailable
  frame : S.frame.IsRecord F S.frameFields
  frames : S.frames.IsList F S.frame
  backRef : S.backRef.IsRecord F S.backRefFields
  surrogate : S.surrogate.IsObject F [S.text.field "indicator" fun indicator => indicator]
  resolved : S.origin.HasBare F "Resolved" Origin.resolved
  surrogateOrigin : S.origin.HasVariant F "Surrogate" S.surrogate Origin.surrogate
  noCause : S.cause.HasBare F "None" Cause.none
  owned : S.cause.HasVariant F "Owned" S.failure Cause.owned
  link : S.cause.HasVariant F "BackRef" S.backRef Cause.backRef
  failure : S.failure.IsRecord F S.failureFields
  failures : S.failures.IsList F S.failure

end Forms
end Stacktrace
