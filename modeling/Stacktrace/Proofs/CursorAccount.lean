import Mathlib.Algebra.GroupWithZero.Nat
import Mathlib.Data.List.Forall2
import Mathlib.Data.List.Perm.Subperm
import Stacktrace.Proofs.Descents

/-!
# What becomes of the lines

A reader by descent only ever moves its cursor on: each turn of a loop ends behind where it starts,
each call is entered behind where the call that makes it is entered, and no cursor is behind the end
of the lines (`Orderly`). When a graph has been read, each of its failures was read by one call, and
the lines that the calls took are all the lines (`Accounts`).
-/

namespace Stacktrace
namespace Descent

/-- Whether each turn of a loop moves the cursor on, from `start` at the least to `stop` at most. -/
def Advances (start stop : Nat) (turns : List Turn) : Prop :=
  ∀ turn ∈ turns, start ≤ turn.start ∧ turn.start < turn.stop ∧ turn.stop ≤ stop

/-- The number of lines that a call takes itself, with the header in front of it. -/
def Call.taken (call : Call) : Nat :=
  1 + call.message.length + call.frames.length + call.elision + call.circular

/-- Whether the turns of a call's loops lie between its entry and its exit. -/
structure Call.Orderly (call : Call) : Prop where
  le : call.entry ≤ call.exit
  advances : Advances call.entry call.exit (call.message ++ call.frames ++ call.suppressed)
  one_line : ∀ turn ∈ call.message ++ call.frames, turn.stop = turn.start + 1

/-- Whether a call can be the one in which a failure was read. -/
structure Call.Reads (call : Call) (f : Failure Nat) : Prop where
  elision_le : call.elision ≤ 1
  suppressed : call.suppressed.length = f.suppressed.length
  circular : if f.cause.backRef?.isSome then 1 ≤ call.circular else call.circular = 0

namespace Advances
variable {start middle stop : Nat} {turns : List Turn}

theorem nil (start stop : Nat) : Advances start stop [] := fun _ h => nomatch h

theorem mono {before behind : Nat} (h : Advances start stop turns) (hstart : before ≤ start)
    (hstop : stop ≤ behind) : Advances before behind turns := by
  intro turn hturn
  obtain ⟨hfrom, hlt, hto⟩ := h turn hturn
  exact ⟨Nat.le_trans hstart hfrom, hlt, Nat.le_trans hto hstop⟩

theorem cons (hlt : start < middle) (hle : middle ≤ stop) (h : Advances middle stop turns) :
    Advances start stop (⟨start, middle⟩ :: turns) := by
  intro turn hturn
  rcases List.mem_cons.1 hturn with rfl | hturn
  · exact ⟨Nat.le_refl _, hlt, hle⟩
  · exact h.mono (Nat.le_of_lt hlt) (Nat.le_refl _) turn hturn

theorem append {more : List Turn} (h : Advances start stop turns) (hmore : Advances start stop more) :
    Advances start stop (turns ++ more) :=
  List.forall_mem_append.2 ⟨h, hmore⟩

end Advances

variable {codec : Codec} {lines : List Text}

/-! ## Loops -/

/-- What a loop over single lines does with the cursor. -/
structure Steps (lines : List Text) (start : Nat) (turns : List Turn) (stop : Nat) : Prop where
  stop_eq : stop = start + turns.length
  le_length (le : start ≤ lines.length) : stop ≤ lines.length
  advances : Advances start stop turns
  one_line : ∀ turn ∈ turns, turn.stop = turn.start + 1

theorem Steps.none (lines : List Text) (cursor : Nat) : Steps lines cursor [] cursor where
  stop_eq := rfl
  le_length le := le
  advances := .nil _ _
  one_line _ h := nomatch h

theorem steps_eachLine {α : Type} (lines : List Text)
    (take : Nat → Text → α → Except Halt (Option α)) (cursor : Nat) (a : α) :
    Steps lines cursor (eachLine lines take cursor a).turns (eachLine lines take cursor a).cursor := by
  fun_induction eachLine lines take cursor a with
  | case4 cursor a line hline b hb rest ih =>
    exact {
      stop_eq := by
        rw [List.length_cons, Nat.add_comm rest.turns.length, ← Nat.add_assoc]
        exact ih.stop_eq
      le_length := fun _ => ih.le_length (List.getElem?_eq_some_iff.1 hline).1
      advances := .cons (Nat.lt_succ_self cursor) (le_cursor_eachLine lines take _ b) ih.advances
      one_line := List.forall_mem_cons.2 ⟨rfl, ih.one_line⟩ }
  | _ => exact .none lines _

/-! ## The part of a failure before all that hangs off it -/

theorem lt_length_of_takeElision {p : Place} {cursor : Nat} {shared : List Frame}
    (h : takeElision lines p cursor = .ok (some shared)) : cursor < lines.length := by
  rw [takeElision] at h
  split at h
  · cases h
  · next count hcount =>
    obtain ⟨line, hline, -⟩ := Option.bind_eq_some_iff.1 hcount
    exact (List.getElem?_eq_some_iff.1 hline).1

/-- What a call does with the cursor before other failures are read. -/
structure Call.Starts (call : Call) (lines : List Text) (cursor : Nat) : Prop where
  entry : call.entry = cursor
  exit : call.exit = cursor + call.message.length + call.frames.length + call.elision
  exit_le (le : cursor ≤ lines.length) : call.exit ≤ lines.length
  advances : Advances cursor call.exit (call.message ++ call.frames)
  one_line : ∀ turn ∈ call.message ++ call.frames, turn.stop = turn.start + 1
  elision_le : call.elision ≤ 1
  suppressed_eq : call.suppressed = []

theorem starts_of_steps {message frames : List Turn} {cursor middle stop elision : Nat}
    (hmessage : Steps lines cursor message middle) (hframes : Steps lines middle frames stop)
    (hle : elision ≤ 1) (hlt : elision = 1 → stop < lines.length) :
    Call.Starts
      { entry := cursor, message := message, frames := frames, elision := elision,
        exit := stop + elision } lines cursor where
  entry := rfl
  exit := by rw [hframes.stop_eq, hmessage.stop_eq]
  exit_le le := by
    have := hframes.le_length (hmessage.le_length le)
    dsimp only
    omega
  advances := by
    have hmiddle := hmessage.stop_eq
    have hstop := hframes.stop_eq
    exact .append (hmessage.advances.mono (Nat.le_refl _) (by dsimp only; omega))
      (hframes.advances.mono (by omega) (Nat.le_add_right _ _))
  one_line := List.forall_mem_append.2 ⟨hmessage.one_line, hframes.one_line⟩
  elision_le := hle
  suppressed_eq := rfl

theorem starts_readHead (codec : Codec) (lines : List Text) (p : Place) (f : Failure Nat)
    (cursor : Nat) : (readHead codec lines p f cursor).2.Starts lines cursor := by
  have hmessage := steps_eachLine lines (takeMessage codec p.depth) cursor f.message
  rw [readHead]
  generalize eachLine lines (takeMessage codec p.depth) cursor f.message = message at *
  cases message.result with
  | error halt =>
    exact starts_of_steps hmessage (.none lines _) (Nat.zero_le 1) fun h => absurd h Nat.zero_ne_one
  | ok text =>
    have hframes := steps_eachLine lines (takeFrame p.depth) message.cursor f.frames
    dsimp only
    generalize eachLine lines (takeFrame p.depth) message.cursor f.frames = frames at *
    have hcall := starts_of_steps hmessage hframes (Nat.zero_le 1) fun h => absurd h Nat.zero_ne_one
    cases frames.result with
    | error halt => exact hcall
    | ok own =>
      dsimp only
      split
      · exact hcall
      · exact hcall
      · next shared hshared =>
        exact starts_of_steps hmessage hframes (Nat.le_refl 1) fun _ =>
          lt_length_of_takeElision hshared

theorem bare_of_readHead {p : Place} {f g : Failure Nat} {cursor : Nat} {call : Call}
    (h : readHead codec lines p f cursor = (.ok g, call)) :
    g.suppressed = f.suppressed ∧ g.cause = f.cause := by
  rw [readHead] at h
  dsimp only at h
  split at h
  · cases h
  · split at h
    · cases h
    · split at h
      · cases h
      · cases h
        exact ⟨rfl, rfl⟩
      · cases h
        exact ⟨rfl, rfl⟩

/-- A circular reference takes the line on which it begins and none behind the last. -/
theorem taken_of_closeReference {p : Place} {f : Failure Nat} {first text : Text} {offset : Nat}
    {unresolved : Option Text} {behind : List Text} {link : BackRef Nat} {taken : Nat}
    (h : closeReference codec p f first offset text unresolved behind = .ok (link, taken)) :
    offset + 1 ≤ taken ∧ taken ≤ offset + behind.length := by
  induction behind generalizing offset text unresolved with
  | nil => cases h
  | cons line behind ih =>
    have hrest {text : Text} {unresolved : Option Text}
        (h : closeReference codec p f first (offset + 1) text unresolved behind = .ok (link, taken)) :
        offset + 1 ≤ taken ∧ taken ≤ offset + (behind.length + 1) := by
      have := ih h
      omega
    rw [closeReference] at h
    split at h
    · exact hrest h
    · split at h
      · cases h
        exact ⟨Nat.le_refl _, Nat.add_le_add_left (Nat.le_add_left 1 _) offset⟩
      · exact hrest h

theorem taken_of_takeReference {p : Place} {f : Failure Nat} {first : Text} {cursor : Nat}
    {link : BackRef Nat} {taken : Nat}
    (h : takeReference codec lines p f first cursor = .ok (link, taken)) :
    1 ≤ taken ∧ cursor + taken ≤ lines.length := by
  rw [takeReference] at h
  split at h
  · cases h
  · next behind hbehind =>
    split at h
    · cases h
    · next found hfound =>
      cases h
      obtain ⟨hpos, hle⟩ := taken_of_closeReference hfound
      rw [sliceFrom?, Option.ite_none_right_eq_some] at hbehind
      obtain ⟨hcursor, hbehind⟩ := hbehind
      rw [← Option.some.inj hbehind, List.length_drop] at hle
      omega

/-! ## Order -/

theorem Call.Starts.le {call : Call} {cursor : Nat} (h : call.Starts lines cursor) :
    cursor ≤ call.exit := by
  have := h.exit
  omega

theorem Call.Starts.orderly {call : Call} {cursor : Nat} (h : call.Starts lines cursor)
    {turns : List Turn} {exit : Nat} (circular : Nat) (hle : call.exit ≤ exit)
    (hturns : Advances call.exit exit turns) :
    Call.Orderly { call with suppressed := turns, circular := circular, exit := exit } where
  le := h.entry ▸ Nat.le_trans h.le hle
  advances := by
    dsimp only
    rw [h.entry]
    exact .append (h.advances.mono (Nat.le_refl _) hle) (hturns.mono h.le (Nat.le_refl _))
  one_line := h.one_line

theorem Call.Starts.of_readHead {p : Place} {f : Failure Nat} {cursor : Nat}
    {result : Except Halt (Failure Nat)} {call : Call}
    (h : readHead codec lines p f cursor = (result, call)) : call.Starts lines cursor := by
  have hstarts := starts_readHead codec lines p f cursor
  rw [h] at hstarts
  exact hstarts

/-- Whether calls move the cursor on from `cursor` to `stop`, none of them entered before `low`. -/
structure Orderly (lines : List Text) (low cursor : Nat) (calls : List Call) (stop : Nat) : Prop where
  le : cursor ≤ stop
  le_length : stop ≤ lines.length
  each : ∀ call ∈ calls, low ≤ call.entry ∧ call.exit ≤ stop ∧ call.Orderly
  increasing : calls.Pairwise (·.entry < ·.entry)

namespace Orderly
variable {low cursor middle stop : Nat} {calls : List Call}

theorem nil (low : Nat) (hle : cursor ≤ stop) (hlength : stop ≤ lines.length) :
    Orderly lines low cursor [] stop where
  le := hle
  le_length := hlength
  each _ h := nomatch h
  increasing := .nil

theorem of_le {earlier : Nat} (h : Orderly lines low cursor calls stop) (hle : earlier ≤ cursor) :
    Orderly lines low earlier calls stop :=
  { h with le := Nat.le_trans hle h.le }

theorem cons {call : Call} (hcall : call.Orderly) (hexit : call.exit = stop)
    (hlt : call.entry < low) (h : Orderly lines low cursor calls stop) :
    Orderly lines call.entry call.entry (call :: calls) stop where
  le := hexit ▸ hcall.le
  le_length := h.le_length
  each := List.forall_mem_cons.2 ⟨⟨Nat.le_refl _, Nat.le_of_eq hexit, hcall⟩, fun found hfound =>
    (h.each found hfound).imp_left fun hlow => Nat.le_of_lt (Nat.lt_of_lt_of_le hlt hlow)⟩
  increasing := List.pairwise_cons.2
    ⟨fun found hfound => Nat.lt_of_lt_of_le hlt (h.each found hfound).1, h.increasing⟩

theorem append {more : List Call} (h : Orderly lines low cursor calls middle)
    (hmore : Orderly lines (middle + 1) middle more stop) (hle : low ≤ middle) :
    Orderly lines low cursor (calls ++ more) stop where
  le := Nat.le_trans h.le hmore.le
  le_length := hmore.le_length
  each := by
    refine List.forall_mem_append.2 ⟨fun call hcall => ?_, fun call hcall => ?_⟩
    · obtain ⟨hlow, hexit, hcall⟩ := h.each call hcall
      exact ⟨hlow, Nat.le_trans hexit hmore.le, hcall⟩
    · obtain ⟨hlow, hexit, hcall⟩ := hmore.each call hcall
      exact ⟨by omega, hexit, hcall⟩
  increasing := by
    refine List.pairwise_append.2 ⟨h.increasing, hmore.increasing, fun a ha b hb => ?_⟩
    -- the first calls have been left when the others are entered
    obtain ⟨-, hexit, ha⟩ := h.each a ha
    exact Nat.lt_of_le_of_lt (Nat.le_trans ha.le hexit) (hmore.each b hb).1

end Orderly

theorem orderly_closed (codec : Codec) (lines : List Text) : Closed codec lines
    (fun _ _ _ cursor o => cursor ≤ lines.length → Orderly lines cursor cursor o.calls o.cursor)
    (fun _ _ _ cursor b => cursor ≤ lines.length →
      Orderly lines (cursor + 1) cursor b.calls b.cursor ∧ Advances cursor b.cursor b.turns) where
  refused {p next header cursor halt call} head hle := by
    have hstarts := Call.Starts.of_readHead head
    have hcall := hstarts.orderly call.circular (Nat.le_refl _) (.nil _ _)
    rw [← hstarts.suppressed_eq] at hcall
    obtain rfl := hstarts.entry
    exact .cons hcall rfl (Nat.lt_succ_self _)
      (.nil _ (Nat.le_refl _) (hstarts.exit_le hle))
  failure {p next header cursor f call b} head below hle := by
    have hstarts := Call.Starts.of_readHead head
    obtain ⟨hbelow, hturns⟩ := below (hstarts.exit_le hle)
    have hcall := hstarts.orderly b.circular hbelow.le hturns
    obtain rfl := hstarts.entry
    exact .cons hcall rfl (Nat.lt_succ_of_le hstarts.le) hbelow
  suppressed_refused {p f next cursor header o halt} token child result hle :=
    ⟨(child (lt_length_of_tokenAt? token)).of_le (Nat.le_succ cursor), .nil _ _⟩
  suppressed {p f s next cursor header o b} token child result rest hle := by
    have hchild := child (lt_length_of_tokenAt? token)
    obtain ⟨hrest, hturns⟩ := rest hchild.le_length
    exact ⟨(hchild.of_le (Nat.le_succ cursor)).append hrest hchild.le,
      .cons hchild.le hrest.le hturns⟩
  circular_refused {p f next cursor first halt} token reference hle :=
    ⟨.nil _ (Nat.le_refl cursor) hle, .nil _ _⟩
  circular {p f next cursor taken first link} token reference hle :=
    ⟨.nil _ (Nat.le_add_right cursor taken) (taken_of_takeReference reference).2, .nil _ _⟩
  cause_refused {p f next cursor header o halt} token child result hle :=
    ⟨(child (lt_length_of_tokenAt? token)).of_le (Nat.le_succ cursor), .nil _ _⟩
  cause {p f c next cursor header o} token child result hle :=
    ⟨(child (lt_length_of_tokenAt? token)).of_le (Nat.le_succ cursor), .nil _ _⟩
  nothing {p f next cursor} _ _ _ hle := ⟨.nil _ (Nat.le_refl cursor) hle, .nil _ _⟩

/-! ## Account -/

def takenBy (calls : List Call) : Nat := (calls.map Call.taken).sum

/-- What the calls made in a part of a call account for: the failures that were hung off one and the
lines from a cursor on. -/
structure Branches.Accounts (b : Branches) (f : Failure Nat) (cursor : Nat) (g : Failure Nat) :
    Prop where
  reads : ∃ hung, g.children = f.suppressed ++ hung ∧
    List.Forall₂ Call.Reads b.calls (hung.flatMap Failure.nodes)
  suppressed : g.suppressed.length = f.suppressed.length + b.turns.length
  circular : if g.cause.backRef?.isSome then 1 ≤ b.circular else b.circular = 0
  cursor_eq : b.cursor = cursor + takenBy b.calls + b.circular

theorem takenBy_cons (call : Call) (calls : List Call) :
    takenBy (call :: calls) = call.taken + takenBy calls := List.sum_cons

theorem takenBy_append (calls more : List Call) :
    takenBy (calls ++ more) = takenBy calls + takenBy more := by
  rw [takenBy, List.map_append, List.sum_append]
  rfl

theorem accounts_closed (codec : Codec) (lines : List Text) : Closed codec lines
    (fun _ _ _ cursor o => ∀ g, o.result = .ok g →
      List.Forall₂ Call.Reads o.calls g.nodes ∧ o.cursor + 1 = cursor + takenBy o.calls)
    (fun _ f _ cursor b => f.cause = .none → ∀ g, b.result = .ok g → b.Accounts f cursor g) where
  refused head g hg := nomatch hg
  failure {p next header cursor f call b} head below g hg := by
    have hstarts := Call.Starts.of_readHead head
    obtain ⟨hsuppressed, hcause⟩ := bare_of_readHead head
    obtain ⟨⟨hung, hchildren, hreads⟩, hlength, hcircular, hcursor⟩ := below hcause g hg
    have hbare : f.suppressed = [] := hsuppressed
    rw [hbare, List.nil_append] at hchildren
    rw [hbare, List.length_nil, Nat.zero_add] at hlength
    refine ⟨?_, ?_⟩
    · rw [Failure.nodes_eq_cons, hchildren]
      exact .cons ⟨hstarts.elision_le, hlength.symm, hcircular⟩ hreads
    · have hexit := hstarts.exit
      rw [takenBy_cons, Call.taken]
      dsimp only
      omega
  suppressed_refused {p f next cursor header o halt} token child result hcause g hg := by
    cases hg.symm.trans result
  suppressed {p f s next cursor header o b} token child result rest hcause g hg := by
    obtain ⟨hchild, htaken⟩ := child s result
    obtain ⟨⟨hung, hchildren, hreads⟩, hlength, hcircular, hcursor⟩ := rest hcause g hg
    refine ⟨⟨s :: hung, ?_, ?_⟩, ?_, hcircular, ?_⟩
    · rw [hchildren, List.append_assoc, List.singleton_append]
    · rw [List.flatMap_cons]
      exact List.rel_append hchild hreads
    · rw [hlength, List.length_append, List.length_singleton, List.length_cons]
      omega
    · rw [takenBy_append]
      dsimp only
      omega
  circular_refused {p f next cursor first halt} token reference hcause g hg := nomatch hg
  circular {p f next cursor taken first link} token reference hcause g hg := by
    cases hg
    exact ⟨⟨[], rfl, .nil⟩, rfl, (taken_of_takeReference reference).1, rfl⟩
  cause_refused {p f next cursor header o halt} token child result hcause g hg := by
    cases hg.symm.trans result
  cause {p f c next cursor header o} token child result hcause g hg := by
    cases hg
    obtain ⟨hchild, htaken⟩ := child c result
    refine ⟨⟨[c], rfl, ?_⟩, rfl, rfl, ?_⟩
    · rw [List.flatMap_singleton]
      exact hchild
    · dsimp only
      omega
  nothing {p f next cursor} _ _ _ hcause g hg := by
    cases hg
    refine ⟨⟨[], ?_, .nil⟩, rfl, ?_, rfl⟩
    · rw [Failure.children, Failure.source?, hcause]
      rfl
    · rw [hcause]
      rfl

/-! ## Texts -/

theorem read_of_ne_nil (codec : Codec) {header : Text} (hne : header ≠ []) (rest : List Text)
    (first : Nat) : ∃ o, o = (readFailure codec (header :: rest) ⟨0, .root, [], none⟩ first header 1).1 ∧
      (read codec (header :: rest) first).calls = o.calls ∧
      (read codec (header :: rest) first).cursor = o.cursor ∧
      ∀ g, (read codec (header :: rest) first).result = .ok g →
        o.result = .ok g ∧ (header :: rest).length ≤ o.cursor := by
  refine ⟨_, rfl, ?_⟩
  rw [read.eq_3 _ _ _ _ hne]
  split
  · next halt hhalt =>
    refine ⟨rfl, rfl, fun g hg => ?_⟩
    cases hhalt.symm.trans hg
  · split
    · refine ⟨rfl, rfl, fun g hg => ?_⟩
      cases hg
    · next hlt => exact ⟨rfl, rfl, fun g hg => ⟨hg, Nat.le_of_not_lt hlt⟩⟩

theorem orderly_read (codec : Codec) (lines : List Text) (first : Nat) :
    Orderly lines 1 0 (read codec lines first).calls (read codec lines first).cursor := by
  cases lines with
  | nil => exact .nil 1 (Nat.le_refl 0) (Nat.le_refl 0)
  | cons header rest =>
    by_cases hne : header = []
    · subst hne
      exact .nil 1 (Nat.le_refl 0) (Nat.zero_le _)
    · obtain ⟨o, rfl, hcalls, hcursor, -⟩ := read_of_ne_nil codec hne rest first
      rw [hcalls, hcursor]
      refine Orderly.of_le ?_ (Nat.zero_le 1)
      exact (orderly_closed codec _).of_readFailure _ first header 1 (Nat.le_add_left 1 rest.length)

theorem accounts_read {first : Nat} {g : Failure Nat}
    (h : (read codec lines first).result = .ok g) :
    List.Forall₂ Call.Reads (read codec lines first).calls g.nodes ∧
      lines.length = takenBy (read codec lines first).calls := by
  have horder := orderly_read codec lines first
  cases lines with
  | nil => cases h
  | cons header rest =>
    by_cases hne : header = []
    · subst hne
      cases h
    · obtain ⟨o, ho, hcalls, hcursor, hok⟩ := read_of_ne_nil codec hne rest first
      obtain ⟨hresult, hend⟩ := hok g h
      subst ho
      obtain ⟨hreads, htaken⟩ :=
        (accounts_closed codec (header :: rest)).of_readFailure _ first header 1 g hresult
      have hle := horder.le_length
      rw [hcursor] at hle
      rw [hcalls]
      exact ⟨hreads, by omega⟩

/-- No two calls are entered at one cursor, so there are no more of them than lines. -/
theorem Orderly.length_le {cursor stop : Nat} {calls : List Call}
    (h : Orderly lines 1 cursor calls stop) : calls.length ≤ lines.length := by
  have hnodup : (calls.map Call.entry).Nodup :=
    (List.pairwise_map.2 h.increasing).imp Nat.ne_of_lt
  have hsubset : calls.map Call.entry ⊆ List.range' 1 lines.length := by
    intro i hi
    obtain ⟨call, hcall, rfl⟩ := List.mem_map.1 hi
    obtain ⟨hlow, hexit, horderly⟩ := h.each call hcall
    have hle := horderly.le
    have hlength := h.le_length
    rw [List.mem_range'_1]
    omega
  have hle := (List.subperm_of_subset hnodup hsubset).length_le
  rwa [List.length_map, List.length_range'] at hle

end Descent

open Descent in
/-- Reading ends, with the cursor moved on in each turn of each loop, never moved back and never
behind the end of the lines; each call is entered behind those before it. If a graph has been read,
its failures were read by one call each, and what the calls took are all the lines. -/
theorem read_accounts (codec : Codec) (first : Nat) (t : Text) :
    (read codec t.lines first).result = (codec.decodeFrom first t).mapError Halt.refused ∧
      (read codec t.lines first).cursor ≤ t.lines.length ∧
      (∀ call ∈ (read codec t.lines first).calls, call.Orderly ∧ call.exit ≤ t.lines.length) ∧
      (read codec t.lines first).calls.Pairwise (·.entry < ·.entry) ∧
      (read codec t.lines first).calls.length ≤ t.lines.length ∧
      ∀ g, codec.decodeFrom first t = .ok g →
        List.Forall₂ Call.Reads (read codec t.lines first).calls g.nodes ∧
          t.lines.length = ((read codec t.lines first).calls.map Call.taken).sum ∧
          g.nodes.length ≤ t.lines.length := by
  have hresult := result_read codec t.lines first
  have horder := orderly_read codec t.lines first
  refine ⟨hresult, horder.le_length, ?_, horder.increasing, horder.length_le, ?_⟩
  · intro call hcall
    obtain ⟨-, hexit, horderly⟩ := horder.each call hcall
    exact ⟨horderly, Nat.le_trans hexit horder.le_length⟩
  · intro g hg
    rw [Codec.decodeFrom] at hg
    rw [hg] at hresult
    obtain ⟨hreads, htaken⟩ := accounts_read hresult
    exact ⟨hreads, htaken, hreads.length_eq ▸ horder.length_le⟩

theorem read_accounts_nested : Codec.decodeFrom {} 0 nestedText = .ok nested ∧
    List.Forall₂ Descent.Call.Reads (Descent.read {} nestedText.lines 0).calls nested.nodes ∧
    ((Descent.read {} nestedText.lines 0).calls.map Descent.Call.taken).sum = 9 ∧
    nested.nodes.length = 3 := by
  have hgraph : Codec.decodeFrom {} 0 nestedText = .ok nested := rfl
  obtain ⟨-, -, -, -, -, haccounts⟩ := read_accounts {} 0 nestedText
  obtain ⟨hreads, htaken, -⟩ := haccounts nested hgraph
  exact ⟨hgraph, hreads, htaken.symm, rfl⟩

end Stacktrace
