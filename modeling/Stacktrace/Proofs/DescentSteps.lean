import Stacktrace.Trace.Descent

/-!
# The calls of a reader by descent

`Closed` lists the ways in which a call for a failure, and the part of it in which other failures are
read, can end. A property of calls that holds of each of them if it holds of the calls made in it
holds of all calls.
-/

namespace Stacktrace.Descent

/-- A property of calls and of their parts in which other failures are read that holds of one if it
holds of those made in it. -/
structure Closed (codec : Codec) (lines : List Text)
    (P : Place → Nat → Text → Nat → Outcome → Prop)
    (Q : Place → Failure Nat → Nat → Nat → Branches → Prop) : Prop where
  refused {p : Place} {next : Nat} {header : Text} {cursor : Nat} {halt : Halt} {call : Call}
    (head : readHead codec lines p
      (OpenFailure.ofHeader codec p.depth p.relation next header).node cursor = (.error halt, call)) :
    P p next header cursor ⟨.error halt, next + 1, call.exit, [call]⟩
  failure {p : Place} {next : Nat} {header : Text} {cursor : Nat} {f : Failure Nat} {call : Call}
    {b : Branches} (head : readHead codec lines p
      (OpenFailure.ofHeader codec p.depth p.relation next header).node cursor = (.ok f, call))
    (below : Q p f (next + 1) call.exit b) :
    P p next header cursor { b.toOutcome with
      calls := { call with suppressed := b.turns, circular := b.circular, exit := b.cursor } ::
        b.calls }
  suppressed_refused {p : Place} {f : Failure Nat} {next cursor : Nat} {header : Text} {o : Outcome}
    {halt : Halt} (token : tokenAt? lines p.depth ('\t' :: Mark.suppressedToken) cursor = some header)
    (child : P (p.below (p.depth + 1) .suppressed f) next header (cursor + 1) o)
    (result : o.result = .error halt) : Q p f next cursor ⟨o, [], 0⟩
  suppressed {p : Place} {f s : Failure Nat} {next cursor : Nat} {header : Text} {o : Outcome}
    {b : Branches} (token : tokenAt? lines p.depth ('\t' :: Mark.suppressedToken) cursor = some header)
    (child : P (p.below (p.depth + 1) .suppressed f) next header (cursor + 1) o)
    (result : o.result = .ok s)
    (rest : Q p { f with suppressed := f.suppressed ++ [s] } o.next o.cursor b) :
    Q p f next cursor
      { b with calls := o.calls ++ b.calls, turns := ⟨cursor, o.cursor⟩ :: b.turns }
  circular_refused {p : Place} {f : Failure Nat} {next cursor : Nat} {first : Text} {halt : Halt}
    (token : tokenAt? lines p.depth ('\t' :: Mark.circularToken) cursor = some first)
    (reference : takeReference codec lines p f first cursor = .error halt) :
    Q p f next cursor ⟨⟨.error halt, next, cursor, []⟩, [], 0⟩
  circular {p : Place} {f : Failure Nat} {next cursor taken : Nat} {first : Text} {link : BackRef Nat}
    (token : tokenAt? lines p.depth ('\t' :: Mark.circularToken) cursor = some first)
    (reference : takeReference codec lines p f first cursor = .ok (link, taken)) :
    Q p f next cursor
      ⟨⟨.ok { f with cause := .backRef link }, next, cursor + taken, []⟩, [], taken⟩
  cause_refused {p : Place} {f : Failure Nat} {next cursor : Nat} {header : Text} {o : Outcome}
    {halt : Halt} (token : tokenAt? lines p.depth Mark.causedByToken cursor = some header)
    (child : P (p.below p.depth .cause f) next header (cursor + 1) o)
    (result : o.result = .error halt) : Q p f next cursor ⟨o, [], 0⟩
  cause {p : Place} {f c : Failure Nat} {next cursor : Nat} {header : Text} {o : Outcome}
    (token : tokenAt? lines p.depth Mark.causedByToken cursor = some header)
    (child : P (p.below p.depth .cause f) next header (cursor + 1) o) (result : o.result = .ok c) :
    Q p f next cursor ⟨{ o with result := .ok { f with cause := .owned c } }, [], 0⟩
  nothing {p : Place} {f : Failure Nat} {next cursor : Nat}
    (no_suppressed : tokenAt? lines p.depth ('\t' :: Mark.suppressedToken) cursor = none)
    (no_circular : tokenAt? lines p.depth ('\t' :: Mark.circularToken) cursor = none)
    (no_cause : tokenAt? lines p.depth Mark.causedByToken cursor = none) :
    Q p f next cursor ⟨⟨.ok f, next, cursor, []⟩, [], 0⟩

namespace Closed
variable {codec : Codec} {lines : List Text} {P : Place → Nat → Text → Nat → Outcome → Prop}
  {Q : Place → Failure Nat → Nat → Nat → Branches → Prop}

mutual

theorem of_readFailure (h : Closed codec lines P Q) (p : Place) (next : Nat) (header : Text)
    (cursor : Nat) : P p next header cursor (readFailure codec lines p next header cursor).1 := by
  have hhead := le_exit_readHead codec lines p
    (OpenFailure.ofHeader codec p.depth p.relation next header).node cursor
  rw [readFailure]
  split
  · next halt hhalt => exact h.refused (Prod.ext hhalt rfl)
  · next f hf => exact h.failure (Prod.ext hf rfl) (of_readBranches h p f _ _)
termination_by (lines.length - cursor, 1)
decreasing_by exact Prod.Lex.right' _ (Nat.sub_le_sub_left hhead lines.length) Nat.zero_lt_one

theorem of_readBranches (h : Closed codec lines P Q) (p : Place) (f : Failure Nat)
    (next cursor : Nat) : Q p f next cursor (readBranches codec lines p f next cursor).1 := by
  rw [readBranches]
  split
  · next header hheader =>
    have hlt := lt_length_of_tokenAt? hheader
    have hchild := of_readFailure h (p.below (p.depth + 1) .suppressed f) next header (cursor + 1)
    have hle := (readFailure codec lines (p.below (p.depth + 1) .suppressed f) next header
      (cursor + 1)).2
    dsimp only
    split
    · next halt hhalt => exact h.suppressed_refused hheader hchild hhalt
    · next s hs => exact h.suppressed hheader hchild hs (of_readBranches h p _ _ _)
  · next hsuppressed =>
    split
    · next first hfirst =>
      split
      · next halt hhalt => exact h.circular_refused hfirst hhalt
      · next link taken hfound => exact h.circular hfirst hfound
    · next hcircular =>
      split
      · next header hheader =>
        have hlt := lt_length_of_tokenAt? hheader
        have hchild := of_readFailure h (p.below p.depth .cause f) next header (cursor + 1)
        dsimp only
        split
        · next halt hhalt => exact h.cause_refused hheader hchild hhalt
        · next c hc => exact h.cause hheader hchild hc
      · next hcause => exact h.nothing hsuppressed hcircular hcause
termination_by (lines.length - cursor, 0)
decreasing_by
  · exact Prod.Lex.left _ _ (Nat.sub_lt_sub_left hlt (Nat.lt_succ_self cursor))
  · exact Prod.Lex.left _ _ (Nat.sub_lt_sub_left hlt hle)
  · exact Prod.Lex.left _ _ (Nat.sub_lt_sub_left hlt (Nat.lt_succ_self cursor))

end
end Closed
end Stacktrace.Descent
