import Stacktrace.Text.Basic

/-!
Texts between double quotes. Line ends, tabs, backslashes and quotes are escaped.
-/

namespace Stacktrace.Text

def escape : Char → Text
  | '\n' => ['\x5c', 'n']
  | '\r' => ['\x5c', 'r']
  | '\t' => ['\x5c', 't']
  | '\x5c' => ['\x5c', '\x5c']
  | '\x22' => ['\x5c', '\x22']
  | c => [c]

def quoted (t : Text) : Text := '\x22' :: t.flatMap escape ++ ['\x22']

end Stacktrace.Text
