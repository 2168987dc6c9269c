import Stacktrace.Text.Basic

/-!
Lines of a text. A line ends at a line feed, one carriage return before the line feed belongs to
the line end, and a text that ends with a line feed has no further, empty line after it.
-/

namespace Stacktrace.Text

/-- A line without the carriage return at its end, if it has one. -/
def dropReturn (line : Text) : Text := (line.before? ['\r']).getD line

/-- The lines of a text, without their ends. -/
def lines (t : Text) : List Text :=
  let pieces := t.splitOn '\n'
  (if t.getLast? = some '\n' then pieces.dropLast else pieces).map dropReturn

/-- The rows one after the other, each followed by the terminator. -/
def ofRows (terminator : Text) (rows : List Text) : Text := rows.flatMap (· ++ terminator)

@[simp]
theorem ofRows_nil (terminator : Text) : ofRows terminator [] = [] := rfl

@[simp]
theorem ofRows_cons (terminator row : Text) (rows : List Text) :
    ofRows terminator (row :: rows) = row ++ terminator ++ ofRows terminator rows := rfl

@[simp]
theorem ofRows_append (terminator : Text) (rows more : List Text) :
    ofRows terminator (rows ++ more) = ofRows terminator rows ++ ofRows terminator more :=
  List.flatMap_append

end Stacktrace.Text
