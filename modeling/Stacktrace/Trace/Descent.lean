import Stacktrace.Frame.Scan
import Stacktrace.Trace.Parser
import Stacktrace.Trace.Printer

/-!
Reading a failure graph by descent. The lines are indexed by a cursor. The reader of a failure takes
the lines of its message, its frames and its elision, and calls itself for the header of each failure
that hangs off it; it hands back the cursor behind the last line that it took, which is never before
the one that it was called with. Every index and every difference of lengths is checked, and each
call leaves a record of what it did with the cursor.
-/

namespace Stacktrace

/-- Why a reader stops before the end: it refuses a line, or an index is out of range. -/
inductive Halt
  | refused (e : DecodeError)
  | outOfRange

/-- Whether a line ends the message of a failure at a depth, told by its bytes. The tabs are those
bytes that are lost with them, and an elision begins at the last of them. -/
def Mark.endsMessageByPosition? (depth : Nat) (line : Text) : Option Bool :=
  let rest : Text := line.dropWhile (· = '\t')
  let tabs := line.byteSize - rest.byteSize
  if (1 ≤ tabs && tabs ≤ depth + 1 &&
        (rest.startsWith atToken || rest.startsWith suppressedToken || rest.startsWith circularToken))
      || (tabs ≤ depth && rest.startsWith causedByToken) then some true
  else if 1 ≤ tabs then
    (line.slice? (tabs - 1) line.byteSize).map fun elision => (elided? elision).isSome
  else some false

namespace Descent

/-- A turn of a loop, by the cursors before and after it. -/
structure Turn where
  start : Nat
  stop : Nat

/-- What the call for one failure did with the cursor. -/
structure Call where
  /-- The cursor when the call is entered, which is just behind the header. -/
  entry : Nat
  message : List Turn := []
  frames : List Turn := []
  /-- The number of lines taken as an elision. -/
  elision : Nat := 0
  suppressed : List Turn := []
  /-- The number of lines taken as a circular reference. -/
  circular : Nat := 0
  /-- The cursor when the call is left. -/
  exit : Nat

/-- Where a failure stands that is to be read. -/
structure Place where
  depth : Nat
  relation : Relation
  /-- The failures above, innermost first. -/
  above : Scope Nat
  /-- The frames of the failure that it hangs off. -/
  enclosing : Option (List Frame)

def Place.below (p : Place) (depth : Nat) (relation : Relation) (f : Failure Nat) : Place :=
  ⟨depth, relation, f.scopeEntry :: p.above, some f.frames⟩

/-- How a call ends. The calls made in it stand in the order in which they were entered. -/
structure Outcome where
  result : Except Halt (Failure Nat)
  next : Nat
  cursor : Nat
  calls : List Call

/-- How the part of a call ends in which other failures are read. -/
structure Branches extends Outcome where
  turns : List Turn
  circular : Nat

structure Loop (α : Type) where
  result : Except Halt α
  turns : List Turn
  cursor : Nat

section Lines
variable (codec : Codec) (lines : List Text)

/-- What follows a token in the line at the cursor, behind the tabs of a depth. -/
def tokenAt? (depth : Nat) (token : Text) (cursor : Nat) : Option Text :=
  lines[cursor]?.bind fun line => (line.after? (Mark.indent depth)).bind (·.after? token)

/-- Takes one line after the other for as long as `take` goes on. -/
def eachLine {α : Type} (take : Nat → Text → α → Except Halt (Option α)) (cursor : Nat) (a : α) :
    Loop α :=
  match _h : lines[cursor]? with
  | none => ⟨.ok a, [], cursor⟩
  | some line =>
    match take cursor line a with
    | .error halt => ⟨.error halt, [], cursor⟩
    | .ok none => ⟨.ok a, [], cursor⟩
    | .ok (some b) =>
      let rest := eachLine take (cursor + 1) b
      { rest with turns := ⟨cursor, cursor + 1⟩ :: rest.turns }
termination_by lines.length - cursor
decreasing_by
  have := (List.getElem?_eq_some_iff.1 _h).1
  omega

def takeMessage (depth _ : Nat) (line : Text) (message : Option Text) :
    Except Halt (Option (Option Text)) :=
  match Mark.endsMessageByPosition? depth line with
  | none => .error .outOfRange
  | some true => .ok none
  | some false => .ok (message.map fun m => some (m ++ codec.config.terminator ++ line))

def takeFrame (depth cursor : Nat) (line : Text) (frames : List Frame) :
    Except Halt (Option (List Frame)) :=
  match (line.after? (Mark.indent depth)).bind (·.after? ('\t' :: Mark.atToken)) with
  | none => .ok none
  | some _ =>
    match Frame.readByPositionsAt? line
      ((Mark.indent depth).byteSize + Text.byteSize ('\t' :: Mark.atToken)) with
    | none => .error .outOfRange
    | some (.error e) => .error (.refused (.malformedFrame cursor e))
    | some (.ok frame) => .ok (some (frames ++ [frame]))

def difference? (a b : Nat) : Option Nat := if b ≤ a then some (a - b) else none

def sliceFrom? {α : Type} (as : List α) (start : Nat) : Option (List α) :=
  if start ≤ as.length then some (as.drop start) else none

/-- The frames that the line at the cursor copies, if it is an elision. -/
def takeElision (p : Place) (cursor : Nat) : Except Halt (Option (List Frame)) :=
  match lines[cursor]?.bind fun line => (line.after? (Mark.indent p.depth)).bind Mark.elided? with
  | none => .ok none
  | some count =>
    match p.enclosing with
    | none => .error (.refused (.danglingElision cursor count))
    | some available =>
      if count ≤ available.length then
        match (difference? available.length count).bind (sliceFrom? available) with
        | none => .error .outOfRange
        | some shared => .ok (some shared)
      else .error (.refused (.danglingElision cursor count))

/-- Reads the part of a failure that is between its header and all that hangs off it. -/
def readHead (p : Place) (f : Failure Nat) (cursor : Nat) : Except Halt (Failure Nat) × Call :=
  let message := eachLine lines (takeMessage codec p.depth) cursor f.message
  match message.result with
  | .error halt => (.error halt, { entry := cursor, message := message.turns, exit := message.cursor })
  | .ok text =>
    let frames := eachLine lines (takeFrame p.depth) message.cursor f.frames
    let call : Call :=
      { entry := cursor, message := message.turns, frames := frames.turns, exit := frames.cursor }
    match frames.result with
    | .error halt => (.error halt, call)
    | .ok own =>
      match takeElision lines p frames.cursor with
      | .error halt => (.error halt, call)
      | .ok none => (.ok { f with message := text, frames := own }, call)
      | .ok (some shared) =>
        (.ok { f with message := text, frames := own ++ shared },
          { call with elision := 1, exit := frames.cursor + 1 })

/-- The failure that a display text names: the innermost above with it, or else the holder. -/
def target? (p : Place) (f : Failure Nat) (display : Text) : Option Nat :=
  ((p.above.find? (·.2 = display)).map Prod.fst).or
    (if f.displayText = display then some f.id else none)

/-- Reads lines as the display text of a circular reference until it names a failure. The first of
them is the one on which the reference begins. With the link comes the number of lines taken. -/
def closeReference (p : Place) (f : Failure Nat) (first : Text) :
    (offset : Nat) → (text : Text) → (unresolved : Option Text) → List Text →
      Except Text (BackRef Nat × Nat)
  | _, _, unresolved, [] => .error (unresolved.getD first)
  | offset, text, unresolved, line :: behind =>
    let text := if offset = 0 then text else text ++ codec.config.terminator ++ line
    match text.before? Mark.circularClose with
    | none => closeReference p f first (offset + 1) text unresolved behind
    | some display =>
      match target? p f display with
      | some id => .ok (⟨id, display⟩, offset + 1)
      | none => closeReference p f first (offset + 1) text (unresolved <|> some display) behind

/-- Reads the circular reference that begins at the cursor. -/
def takeReference (p : Place) (f : Failure Nat) (first : Text) (cursor : Nat) :
    Except Halt (BackRef Nat × Nat) :=
  match sliceFrom? lines cursor with
  | none => .error .outOfRange
  | some behind =>
    match closeReference codec p f first 0 first none behind with
    | .error display => .error (.refused (.unresolvedCircularReference cursor display))
    | .ok found => .ok found

/-! ## Calls -/

variable {lines} in
theorem lt_length_of_tokenAt? {depth cursor : Nat} {token t : Text}
    (h : tokenAt? lines depth token cursor = some t) : cursor < lines.length := by
  obtain ⟨line, hline, -⟩ := Option.bind_eq_some_iff.1 h
  exact (List.getElem?_eq_some_iff.1 hline).1

theorem le_cursor_eachLine {α : Type} (take : Nat → Text → α → Except Halt (Option α))
    (cursor : Nat) (a : α) : cursor ≤ (eachLine lines take cursor a).cursor := by
  fun_induction eachLine lines take cursor a with
  | case4 cursor a line hline b hb rest ih => exact Nat.le_trans (Nat.le_succ cursor) ih
  | _ => exact Nat.le_refl _

theorem le_exit_readHead (p : Place) (f : Failure Nat) (cursor : Nat) :
    cursor ≤ (readHead codec lines p f cursor).2.exit := by
  have hmessage := le_cursor_eachLine lines (takeMessage codec p.depth) cursor f.message
  have hframes := Nat.le_trans hmessage
    (le_cursor_eachLine lines (takeFrame p.depth) _ f.frames)
  rw [readHead]
  split
  · exact hmessage
  · dsimp only
    split
    · exact hframes
    · split
      · exact hframes
      · exact hframes
      · exact Nat.le_succ_of_le hframes

mutual

/-- Reads a failure, whose header is in front of the cursor, and all that hangs off it. -/
def readFailure (p : Place) (next : Nat) (header : Text) (cursor : Nat) :
    { o : Outcome // cursor ≤ o.cursor } :=
  let f := (OpenFailure.ofHeader codec p.depth p.relation next header).node
  let head := readHead codec lines p f cursor
  have hhead := le_exit_readHead codec lines p f cursor
  match head.1 with
  | .error halt => ⟨⟨.error halt, next + 1, head.2.exit, [head.2]⟩, hhead⟩
  | .ok f =>
    let below := readBranches p f (next + 1) head.2.exit
    let call := { head.2 with
      suppressed := below.1.turns, circular := below.1.circular, exit := below.1.cursor }
    ⟨{ below.1.toOutcome with calls := call :: below.1.calls }, Nat.le_trans hhead below.2⟩
termination_by (lines.length - cursor, 1)
decreasing_by
  exact Prod.Lex.right' _ (Nat.sub_le_sub_left hhead lines.length) Nat.zero_lt_one

/-- Reads what hangs off a failure of which the rest has been read. -/
def readBranches (p : Place) (f : Failure Nat) (next cursor : Nat) :
    { o : Branches // cursor ≤ o.cursor } :=
  match _h : tokenAt? lines p.depth ('\t' :: Mark.suppressedToken) cursor with
  | some header =>
    let child := readFailure (p.below (p.depth + 1) .suppressed f) next header (cursor + 1)
    match child.1.result with
    | .error _ => ⟨⟨child.1, [], 0⟩, Nat.le_of_succ_le child.2⟩
    | .ok s =>
      let rest := readBranches p { f with suppressed := f.suppressed ++ [s] } child.1.next
        child.1.cursor
      ⟨{ rest.1 with
          calls := child.1.calls ++ rest.1.calls
          turns := ⟨cursor, child.1.cursor⟩ :: rest.1.turns },
        Nat.le_trans (Nat.le_of_succ_le child.2) rest.2⟩
  | none =>
    match tokenAt? lines p.depth ('\t' :: Mark.circularToken) cursor with
    | some first =>
      match takeReference codec lines p f first cursor with
      | .error halt => ⟨⟨⟨.error halt, next, cursor, []⟩, [], 0⟩, Nat.le_refl _⟩
      | .ok (link, taken) =>
        ⟨⟨⟨.ok { f with cause := .backRef link }, next, cursor + taken, []⟩, [], taken⟩,
          Nat.le_add_right _ _⟩
    | none =>
      match _h : tokenAt? lines p.depth Mark.causedByToken cursor with
      | some header =>
        let child := readFailure (p.below p.depth .cause f) next header (cursor + 1)
        match child.1.result with
        | .error _ => ⟨⟨child.1, [], 0⟩, Nat.le_of_succ_le child.2⟩
        | .ok c =>
          ⟨⟨{ child.1 with result := .ok { f with cause := .owned c } }, [], 0⟩,
            Nat.le_of_succ_le child.2⟩
      | none => ⟨⟨⟨.ok f, next, cursor, []⟩, [], 0⟩, Nat.le_refl _⟩
termination_by (lines.length - cursor, 0)
decreasing_by
  all_goals have hlt := lt_length_of_tokenAt? _h
  · exact Prod.Lex.left _ _ (Nat.sub_lt_sub_left hlt (Nat.lt_succ_self cursor))
  · exact Prod.Lex.left _ _ (Nat.sub_lt_sub_left hlt child.2)
  · exact Prod.Lex.left _ _ (Nat.sub_lt_sub_left hlt (Nat.lt_succ_self cursor))

end

/-- Reads lines into a graph, whose failures are numbered from `first` on. -/
def read (first : Nat) : Outcome :=
  match lines with
  | [] | [] :: _ => ⟨.error (.refused .emptyInput), first, 0, []⟩
  | header :: _ =>
    let o := (readFailure codec lines ⟨0, .root, [], none⟩ first header 1).1
    match o.result with
    | .error _ => o
    | .ok _ =>
      if o.cursor < lines.length then
        { o with result := .error (.refused (.unknownLineFormat o.cursor)) }
      else o

end Lines
end Descent
end Stacktrace
