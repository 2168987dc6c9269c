import Stacktrace.Text.Basic

/-!
The case of ASCII letters. Other letters have none here.
-/

namespace Stacktrace.Text

def upper (t : Text) : Text := t.map Char.toUpper

/-- Whether two texts differ in the case of ASCII letters at most. -/
def sameIgnoringCase (a b : Text) : Bool := a.map Char.toLower = b.map Char.toLower

end Stacktrace.Text
