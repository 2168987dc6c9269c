import Mathlib.Data.List.Induction
import Stacktrace.Transform.Builder

/-!
# Calls on a builder

What a call on a new builder is answered depends on the calls before it in two ways only, through a
finish and through a message rule among them (`Builder.verdict`). What a builder is depends on the
accepted calls only, and of these on the rules of each kind in their order and on whether there was
a finish (`Builder.answers_and_rules`). So calls of different kinds can be made in any order.
-/

namespace Stacktrace
variable {ι : Type}

/-- Rules kind by kind. -/
structure RuleLists (ι : Type) where
  messages : List (Failure ι → Option Text)
  unwraps : List (Failure ι → Bool)
  frameLists : List (List Frame → List Frame)
  frames : List (Frame → Option Frame)

instance : Append (RuleLists ι) where
  append a b := ⟨a.messages ++ b.messages, a.unwraps ++ b.unwraps, a.frameLists ++ b.frameLists,
    a.frames ++ b.frames⟩

theorem RuleLists.append_eq (a b : RuleLists ι) : a ++ b = ⟨a.messages ++ b.messages,
    a.unwraps ++ b.unwraps, a.frameLists ++ b.frameLists, a.frames ++ b.frames⟩ := rfl

namespace Transform

def ruleLists (t : Transform ι) : RuleLists ι :=
  ⟨t.message.toList, t.unwraps, t.frameLists, t.frames⟩

theorem eq_of_ruleLists_eq {t u : Transform ι} (h : t.ruleLists = u.ruleLists) : t = u := by
  obtain ⟨message, unwraps, frameLists, frames⟩ := t
  obtain ⟨message', unwraps', frameLists', frames'⟩ := u
  obtain ⟨hmessage, rfl, rfl, rfl⟩ := RuleLists.mk.inj h
  cases message <;> cases message' <;> simp_all

namespace Builder

namespace Call

def isFinish : Call ι → Bool
  | .finish => true
  | _ => false

def message? : Call ι → Option (Failure ι → Option Text)
  | .replaceMessage rule => some rule
  | _ => none

def unwrap? : Call ι → Option (Failure ι → Bool)
  | .unwrapWhen rule => some rule
  | _ => none

def frameList? : Call ι → Option (List Frame → List Frame)
  | .editFrames rule => some rule
  | _ => none

def frame? : Call ι → Option (Frame → Option Frame)
  | .mapFrames rule => some rule
  | _ => none

def setsMessage (c : Call ι) : Bool := c.message?.isSome

theorem isFinish_of_setsMessage {c : Call ι} (h : c.setsMessage = true) : c.isFinish = false := by
  cases c with
  | finish => cases h
  | _ => rfl

end Call

def ruleLists (calls : List (Call ι)) : RuleLists ι :=
  ⟨calls.filterMap Call.message?, calls.filterMap Call.unwrap?, calls.filterMap Call.frameList?,
    calls.filterMap Call.frame?⟩

theorem ruleLists_append (calls more : List (Call ι)) :
    ruleLists (calls ++ more) = ruleLists calls ++ ruleLists more := by
  simp only [ruleLists, List.filterMap_append]
  rfl

/-! ## One call -/

def answer (b : Builder ι) (c : Call ι) : Except ConfigError Unit := (b.call c).map fun _ => ()

def after (b : Builder ι) (c : Call ι) : Builder ι :=
  match b.call c with
  | .error _ => b
  | .ok b' => b'

/-- What a call that is accepted does to a builder. -/
structure Grows (b : Builder ι) (c : Call ι) (b' : Builder ι) : Prop where
  finished_eq : b'.finished = (b.finished || c.isFinish)
  message_eq : b'.rules.message.isSome = (b.rules.message.isSome || c.setsMessage)
  ruleLists_eq : b'.rules.ruleLists = b.rules.ruleLists ++ ruleLists [c]

section Call
variable (b : Builder ι) (c : Call ι)

theorem answer_eq : b.answer c =
    if b.finished then .error .finished
    else if c.setsMessage && b.rules.message.isSome then .error .messageRuleSet
    else .ok () := by
  cases hfinished : b.finished with
  | true => simp [answer, call, hfinished, Except.map]
  | false =>
    cases c with
    | replaceMessage rule =>
      cases hmessage : b.rules.message <;>
        simp [answer, call, hfinished, hmessage, Call.setsMessage, Call.message?, Except.map]
    | _ => simp [answer, call, hfinished, Call.setsMessage, Call.message?, Except.map]

variable {b c}

theorem after_of_answer_ne_ok (h : b.answer c ≠ .ok ()) : b.after c = b := by
  rw [answer] at h
  rw [after]
  cases hcall : b.call c with
  | error e => rfl
  | ok b' =>
    rw [hcall] at h
    exact absurd rfl h

theorem finished_or_message_of_answer_ne_ok (h : b.answer c ≠ .ok ()) :
    b.finished = true ∨ c.setsMessage = true ∧ b.rules.message.isSome = true := by
  rw [← Bool.and_eq_true]
  by_contra hnot
  obtain ⟨hfinished, hmessage⟩ := not_or.1 hnot
  rw [answer_eq, if_neg hfinished, if_neg hmessage] at h
  exact h rfl

theorem grows_of_answer (h : b.answer c = .ok ()) : Grows b c (b.after c) := by
  cases hfinished : b.finished with
  | true => simp [answer_eq, hfinished] at h
  | false =>
    cases c with
    | replaceMessage rule =>
      cases hmessage : b.rules.message with
      | some found => simp [answer_eq, hfinished, hmessage, Call.setsMessage, Call.message?] at h
      | none =>
        have hafter : b.after (.replaceMessage rule) = { b with rules.message := some rule } := by
          simp [after, call, hfinished, hmessage]
        rw [hafter]
        constructor <;> simp [Call.isFinish, Call.setsMessage, Call.message?, Call.unwrap?,
          Call.frameList?, Call.frame?, Transform.ruleLists, ruleLists, RuleLists.append_eq, hmessage]
    | _ =>
      constructor <;> simp [after, call, hfinished, Call.isFinish, Call.setsMessage, Call.message?,
        Call.unwrap?, Call.frameList?, Call.frame?, Transform.ruleLists, ruleLists,
        RuleLists.append_eq]

end Call

/-! ## Calls in a row -/

theorem run_concat (b : Builder ι) (calls : List (Call ι)) (c : Call ι) : b.run (calls ++ [c]) =
    ((b.run calls).1 ++ [(b.run calls).2.answer c], (b.run calls).2.after c) := by
  induction calls generalizing b with
  | nil => cases h : b.call c <;> simp [run, answer, after, h, Except.map]
  | cons d calls ih => cases h : b.call d <;> simp [run, h, ih]

def answers (calls : List (Call ι)) : List (Except ConfigError Unit) := (run {} calls).1

/-- What some calls make of a new builder. -/
def made (calls : List (Call ι)) : Builder ι := (run {} calls).2

/-- What a call on a new builder is answered after other calls. -/
def verdict (before : List (Call ι)) (c : Call ι) : Except ConfigError Unit :=
  if before.any Call.isFinish then .error .finished
  else if c.setsMessage && before.any Call.setsMessage then .error .messageRuleSet
  else .ok ()

def accepted (calls : List (Call ι)) : List (Call ι) :=
  (calls.zip (answers calls)).filterMap fun (c, answer) => if answer = .ok () then some c else none

theorem made_concat (calls : List (Call ι)) (c : Call ι) :
    made (calls ++ [c]) = (made calls).after c := by
  rw [made, run_concat]
  rfl

/-- What is known of a builder from the calls that were made on it. -/
structure Tracks (calls : List (Call ι)) (b : Builder ι) : Prop where
  finished_eq : b.finished = calls.any Call.isFinish
  message_eq (unfinished : b.finished = false) :
    b.rules.message.isSome = calls.any Call.setsMessage

theorem Tracks.answer_eq {calls : List (Call ι)} {b : Builder ι} (h : Tracks calls b)
    (c : Call ι) : b.answer c = verdict calls c := by
  rw [Builder.answer_eq, verdict, ← h.finished_eq]
  cases hfinished : b.finished with
  | true => rfl
  | false => rw [h.message_eq hfinished]

theorem Tracks.concat {calls : List (Call ι)} {b : Builder ι} (h : Tracks calls b)
    (c : Call ι) : Tracks (calls ++ [c]) (b.after c) := by
  by_cases hok : b.answer c = .ok ()
  · have hgrows := grows_of_answer hok
    refine ⟨by simp [hgrows.finished_eq, h.finished_eq], fun hafter => ?_⟩
    rw [hgrows.finished_eq, Bool.or_eq_false_iff] at hafter
    simp [hgrows.message_eq, h.message_eq hafter.1]
  · rw [after_of_answer_ne_ok hok]
    rcases finished_or_message_of_answer_ne_ok hok with hfinished | ⟨hsets, hmessage⟩
    · refine ⟨by simp [← h.finished_eq, hfinished], fun hunfinished => ?_⟩
      rw [hfinished] at hunfinished
      cases hunfinished
    · refine ⟨by simp [h.finished_eq, Call.isFinish_of_setsMessage hsets], fun _ => ?_⟩
      simp [hmessage, hsets]

theorem tracks_made (calls : List (Call ι)) : Tracks calls (made calls) := by
  induction calls using List.reverseRecOn with
  | nil => exact ⟨rfl, fun _ => rfl⟩
  | append_singleton calls c ih =>
    rw [made_concat]
    exact ih.concat c

theorem answers_concat (calls : List (Call ι)) (c : Call ι) :
    answers (calls ++ [c]) = answers calls ++ [verdict calls c] := by
  rw [answers, run_concat, ← (tracks_made calls).answer_eq]
  rfl

theorem length_answers (calls : List (Call ι)) : (answers calls).length = calls.length := by
  induction calls using List.reverseRecOn with
  | nil => rfl
  | append_singleton calls c ih => simp [answers_concat, ih]

theorem accepted_concat (calls : List (Call ι)) (c : Call ι) :
    accepted (calls ++ [c]) =
      accepted calls ++ if verdict calls c = .ok () then [c] else [] := by
  rw [accepted, answers_concat, List.zip_append (length_answers calls).symm, List.filterMap_append,
    List.zip_cons_cons, List.zip_nil_left, List.filterMap_cons, List.filterMap_nil, accepted]
  by_cases h : verdict calls c = .ok () <;> simp [h]

theorem made_concat_of_verdict_ne_ok {calls : List (Call ι)} {c : Call ι}
    (h : verdict calls c ≠ .ok ()) : made (calls ++ [c]) = made calls := by
  rw [made_concat, after_of_answer_ne_ok]
  rwa [(tracks_made calls).answer_eq]

theorem made_accepted (calls : List (Call ι)) : made (accepted calls) = made calls := by
  induction calls using List.reverseRecOn with
  | nil => rfl
  | append_singleton calls c ih =>
    rw [accepted_concat]
    split
    · rw [made_concat, made_concat, ih]
    · next h => rw [List.append_nil, ih, made_concat_of_verdict_ne_ok h]

theorem answers_accepted (calls : List (Call ι)) :
    answers (accepted calls) = (accepted calls).map fun _ => .ok () := by
  induction calls using List.reverseRecOn with
  | nil => rfl
  | append_singleton calls c ih =>
    rw [accepted_concat]
    split
    · next h =>
      -- the builder is the same after the accepted calls, so it gives the same answer
      rw [answers_concat, ← (tracks_made _).answer_eq, made_accepted, (tracks_made calls).answer_eq,
        h, ih, List.map_append, List.map_singleton]
    · rw [List.append_nil, ih]

theorem ruleLists_made (calls : List (Call ι)) :
    (made calls).rules.ruleLists = ruleLists (accepted calls) := by
  induction calls using List.reverseRecOn with
  | nil => rfl
  | append_singleton calls c ih =>
    rw [accepted_concat]
    split
    · next h =>
      have hgrows := grows_of_answer (((tracks_made calls).answer_eq c).trans h)
      rw [made_concat, hgrows.ruleLists_eq, ih, ruleLists_append]
    · next h => rw [List.append_nil, made_concat_of_verdict_ne_ok h, ih]

theorem made_append_finish {before : List (Call ι)} (h : before.any Call.isFinish = false)
    (later : List (Call ι)) :
    made (before ++ .finish :: later) = ⟨(made before).rules, true⟩ := by
  induction later using List.reverseRecOn with
  | nil =>
    have hunfinished : (made before).finished = false := (tracks_made before).finished_eq.trans h
    rw [made_concat]
    simp [after, call, hunfinished]
  | append_singleton later c ih =>
    have hverdict : verdict (before ++ .finish :: later) c ≠ .ok () := by
      have hfinish : (before ++ .finish :: later).any Call.isFinish = true := by
        simp [Call.isFinish]
      rw [verdict, if_pos hfinish]
      exact nofun
    rw [← List.cons_append, ← List.append_assoc, made_concat_of_verdict_ne_ok hverdict, ih]

/-- What calls on a new builder are answered, and what they make of it. A refused call could be left
out, the first finish settles the rules, and these are the accepted ones, kind by kind, so that it
does not matter how calls of different kinds were mixed. -/
theorem answers_and_rules [DecidableEq ι] :
    (∀ (before : List (Call ι)) (c : Call ι),
      answers (before ++ [c]) = answers before ++ [verdict before c] ∧
        (verdict before c ≠ .ok () → made (before ++ [c]) = made before)) ∧
    (∀ calls : List (Call ι), made (accepted calls) = made calls ∧
      answers (accepted calls) = (accepted calls).map fun _ => .ok ()) ∧
    (∀ before later : List (Call ι), before.any Call.isFinish = false →
      made (before ++ .finish :: later) = ⟨(made before).rules, true⟩) ∧
    (∀ calls : List (Call ι), (made calls).rules.ruleLists = ruleLists (accepted calls)) ∧
    ∀ calls other : List (Call ι), ruleLists (accepted calls) = ruleLists (accepted other) →
      ∀ f : Failure ι, (made calls).rules.apply f = (made other).rules.apply f ∧
        (made calls).rules.applyKeepingRoot f = (made other).rules.applyKeepingRoot f := by
  refine ⟨fun before c => ⟨answers_concat before c, made_concat_of_verdict_ne_ok⟩,
    fun calls => ⟨made_accepted calls, answers_accepted calls⟩,
    fun before later h => made_append_finish h later, ruleLists_made, ?_⟩
  intro calls other h f
  have hrules : (made calls).rules = (made other).rules := by
    refine eq_of_ruleLists_eq ?_
    rw [ruleLists_made, ruleLists_made, h]
  rw [hrules]
  exact ⟨rfl, rfl⟩

/-! Two ways to set the same rules, the second one with calls that are refused. -/

def keepOwn : Call Nat := .mapFrames fun frame => if frame.isNative then none else some frame

def turnRound : Call Nat := .editFrames List.reverse

def hush : Call Nat := .replaceMessage fun _ => none

def grouped : List (Call Nat) := [hush, turnRound, keepOwn, .finish]

def opening : List (Call Nat) := [keepOwn, hush, turnRound]

def shout : Call Nat := .replaceMessage fun f => f.message.map (· ++ ['!'])

def mixed : List (Call Nat) := opening ++ [shout] ++ .finish :: [turnRound, .finish]

theorem answers_mixed : answers mixed = [.ok (), .ok (), .ok (), .error .messageRuleSet, .ok (),
      .error .finished, .error .finished] ∧
    verdict opening shout = .error .messageRuleSet ∧ made (opening ++ [shout]) = made opening ∧
    (opening ++ [shout]).any Call.isFinish = false ∧
    made mixed = ⟨(made (opening ++ [shout])).rules, true⟩ ∧
    ruleLists (accepted mixed) = ruleLists (accepted grouped) ∧
    ∀ f : Failure Nat, (made mixed).rules.apply f = (made grouped).rules.apply f ∧
      (made mixed).rules.applyKeepingRoot f = (made grouped).rules.applyKeepingRoot f := by
  have hverdict : verdict opening shout = .error .messageRuleSet := rfl
  have hopen : (opening ++ [shout]).any Call.isFinish = false := rfl
  have hsame : ruleLists (accepted mixed) = ruleLists (accepted grouped) := rfl
  obtain ⟨hanswers, -, hfinish, -, htransform⟩ := @answers_and_rules Nat _
  refine ⟨rfl, hverdict, (hanswers opening shout).2 (by rw [hverdict]; exact nofun), hopen,
    hfinish _ _ hopen, hsame, htransform _ _ hsame⟩

end Builder
end Transform
end Stacktrace
