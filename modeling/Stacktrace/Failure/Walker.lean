import Stacktrace.Failure.Navigate
import Stacktrace.Failure.Walk

/-!
The walk through a graph, made one visit at a time. A walker holds a stack of visits that wait. It
makes the one on top and puts what hangs off the failure in its place: the cause, and above it the
suppressed failures with the first of them on top. What waits is always the rest of the walk, so all
visits that a walker makes are those of the walk (`visits_start`).
-/

namespace Stacktrace

structure Walker (ι : Type) where
  /-- The visits that wait, the next one first. -/
  stack : List (Visit ι)

namespace Walker
variable {ι : Type}

def start (root : Failure ι) : Walker ι := ⟨[⟨0, .root, root⟩]⟩

def push (w : Walker ι) (v : Visit ι) : Walker ι := ⟨v :: w.stack⟩

/-- Puts all that hangs off the failure of a visit on the stack. -/
def pushBelow (w : Walker ι) (v : Visit ι) : Walker ι :=
  let w := v.node.source?.elim w fun c => w.push ⟨v.depth, .cause, c⟩
  v.node.suppressed.reverse.foldl (fun w s => w.push ⟨v.depth + 1, .suppressed, s⟩) w

def next? (w : Walker ι) : Option (Visit ι × Walker ι) :=
  match w.stack with
  | [] => none
  | v :: rest => some (v, pushBelow ⟨rest⟩ v)

/-- The part of the walk that the stack stands for. -/
def remaining (w : Walker ι) : List (Visit ι) :=
  w.stack.flatMap fun v => v.node.visits v.depth v.relation

theorem remaining_push (w : Walker ι) (v : Visit ι) :
    (w.push v).remaining = v.node.visits v.depth v.relation ++ w.remaining := by
  rw [remaining, push, List.flatMap_cons]
  rfl

theorem remaining_foldl_push (depth : Nat) (fs : List (Failure ι)) (w : Walker ι) :
    (fs.reverse.foldl (fun w s => w.push ⟨depth, .suppressed, s⟩) w).remaining =
      Failure.visitsIn depth fs ++ w.remaining := by
  induction fs with
  | nil => rfl
  | cons f fs ih =>
    rw [List.reverse_cons, List.foldl_append, List.foldl_cons, List.foldl_nil, remaining_push, ih,
      Failure.visitsIn, List.append_assoc]

/-- A step makes the first visit of what remains and leaves the others. -/
theorem remaining_eq_cons {w rest : Walker ι} {v : Visit ι} (h : w.next? = some (v, rest)) :
    w.remaining = v :: rest.remaining := by
  obtain ⟨_ | ⟨⟨depth, relation, f⟩, stack⟩⟩ := w
  · cases h
  · cases h
    obtain ⟨id, typeName, message, frames, origin, suppressed, cause⟩ := f
    rw [pushBelow, remaining_foldl_push, remaining, List.flatMap_cons, Failure.visits]
    cases cause with
    | owned c =>
      rw [Failure.causeVisits, Failure.source?, Cause.owned?, Option.elim_some, remaining_push,
        List.cons_append, List.append_assoc]
      rfl
    | _ =>
      simp only [Failure.causeVisits, List.append_nil, List.cons_append]
      rfl

def visits (w : Walker ι) : List (Visit ι) :=
  match _h : w.next? with
  | none => []
  | some (v, rest) => v :: visits rest
termination_by w.remaining.length
decreasing_by
  rw [remaining_eq_cons _h]
  exact Nat.lt_succ_self _

theorem visits_eq_remaining (w : Walker ι) : w.visits = w.remaining := by
  fun_induction visits w with
  | case1 w h =>
    obtain ⟨_ | ⟨v, stack⟩⟩ := w
    · rfl
    · cases h
  | case2 w v rest h ih => rw [ih, remaining_eq_cons h]

theorem visits_start (root : Failure ι) : (start root).visits = root.walk := by
  rw [visits_eq_remaining, remaining, start, List.flatMap_singleton]
  rfl

end Walker
end Stacktrace
