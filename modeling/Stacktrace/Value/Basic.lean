import Stacktrace.Frame.Basic

/-!
Plain values, which are a format of data with objects, arrays, texts and whole numbers, and the
values that write the parts of a frame. A record is written as an object with its fields by name. It
is read from an object with all of them, whatever else that object holds, or from an array of exactly
its fields in order; only a field that can be absent may be left out of the object, and none may be
in it twice.
-/

namespace Stacktrace

inductive Value
  | null
  | bool (b : Bool)
  | integer (n : Int)
  | text (t : Text)
  | array (items : List Value)
  | object (members : List (Text × Value))
deriving Inhabited

namespace Value

def ofOptionText : Option Text → Value
  | none => null
  | some t => text t

def toText? : Value → Option Text
  | text t => some t
  | _ => none

def toOptionText? : Value → Option (Option Text)
  | null => some none
  | text t => some (some t)
  | _ => none

def toList? {α : Type} (read : Value → Option α) : Value → Option (List α)
  | array items => items.mapM read
  | _ => none

/-- The name of a variant that holds nothing. -/
def bareVariant? : Value → Option Text
  | text name => some name
  | object [(name, null)] => some name
  | _ => none

/-- The name and the content of a variant that holds something. -/
def variant? : Value → Option (Text × Value)
  | object [(name, content)] => some (name, content)
  | _ => none

/-- The values of all members with a name. -/
def named (members : List (Text × Value)) (name : String) : List Value :=
  (members.filter (·.1 = name.toList)).map Prod.snd

def field? {α : Type} (members : List (Text × Value)) (name : String) (read : Value → Option α) :
    Option α :=
  match named members name with
  | [v] => read v
  | _ => none

def optionField? (members : List (Text × Value)) (name : String) : Option (Option Text) :=
  match named members name with
  | [] => some none
  | [v] => v.toOptionText?
  | _ => none

def toInt32? : Value → Option Int32
  | integer n => if (Int32.ofInt n).toInt = n then some (Int32.ofInt n) else none
  | _ => none

@[simp]
theorem toInt32?_integer (n : Int32) : toInt32? (integer n.toInt) = some n := by
  rw [toInt32?, Int32.ofInt_toInt, if_pos rfl]

def ofLine : LineNumber → Value
  | .number n => object [("Number".toList, integer n.toInt)]
  | .native => text "Native".toList
  | .unavailable => text "Unavailable".toList

def toLine? (v : Value) : Option LineNumber :=
  if v.bareVariant? = some "Native".toList then some .native
  else if v.bareVariant? = some "Unavailable".toList then some .unavailable
  else
    match v.variant? with
    | some (name, content) =>
      if name = "Number".toList then content.toInt32?.map .number else none
    | none => none

def ofFrame (f : Frame) : Value :=
  object [("unit".toList, text f.unit), ("operation".toList, text f.operation),
    ("source_label".toList, ofOptionText f.label), ("line".toList, ofLine f.line)]

def toFrame? : Value → Option Frame
  | array [unit, operation, label, line] => do
    some ⟨← unit.toText?, ← operation.toText?, ← label.toOptionText?, ← line.toLine?⟩
  | object members => do
    some ⟨← field? members "unit" toText?, ← field? members "operation" toText?,
      ← optionField? members "source_label", ← field? members "line" toLine?⟩
  | _ => none

end Value
end Stacktrace
