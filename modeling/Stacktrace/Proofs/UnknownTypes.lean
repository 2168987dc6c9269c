import Stacktrace.Proofs.OpenStack
import Stacktrace.Proofs.Origins

/-!
# Reading types that are not known

A failure of a type that is not known is displayed with the indicator in front, so a circular
reference that gives the plain name of the type does not find it, and a text that can be read when
every type is known cannot always be read otherwise (`decode_loopText`). Nothing else goes wrong:
the same graph is read, with surrogates for the failures of unknown types, unless one of these
stands where a link leads to, or is displayed as the text of a link begins (`decodeFrom_of_any`).
-/

namespace Stacktrace
variable {ι : Type}

/-- Whether the link of a failure, if it has one, goes to no other failure when the origins of the
failures on the way to it are decided anew. -/
def Failure.KeepsLink (origin : Text → Origin) (above : List (Text × Text)) (f : Failure ι) :
    Prop :=
  ∀ link ∈ f.cause.backRef?, ∀ faces ∈ f.faces origin :: above, link.Steady faces

abbrev Failure.AllKeepLinks (origin : Text → Origin) (depth : Nat) (above : List (Text × Text))
    (f : Failure ι) : Prop :=
  All (faces origin) (fun _ => KeepsLink origin) depth above f

theorem Failure.keepsLink_of_backRef?_eq_none {origin : Text → Origin}
    {above : List (Text × Text)} {f : Failure ι} (h : f.cause.backRef? = none) :
    f.KeepsLink origin above := by
  intro link hlink
  simp [h] at hlink

theorem Unmistaken.mono {text longer : Text} {faces : Text × Text} (h : Unmistaken longer faces)
    (hshorter : text <+: longer) : Unmistaken text faces :=
  h.imp_right fun hnot hshown => hnot (hshown.trans hshorter)

def OpenFailure.KeepsLinks (origin : Text → Origin) (f : OpenFailure) (outer : List OpenFailure) :
    Prop :=
  f.node.AllKeepLinks origin f.depth (outer.map (·.node.faces origin))

namespace ParserState
variable {origin : Text → Origin}

/-- Whether all circular references that have been read, and the one that is being read, go to no
other failure when origins are decided anew. -/
structure Trusted (origin : Text → Origin) (s : ParserState) : Prop where
  links : Stacked (OpenFailure.KeepsLinks origin) (s.current :: s.parents)
  pending (pending : PendingReference) (mem : pending ∈ s.current.phase.pending?) :
    ∀ faces ∈ s.stackFaces origin, Unmistaken pending.text faces

namespace Trusted
variable {first : Nat} {s : ParserState}

theorem steady (h : s.Trusted origin) : s.Steady origin where
  link := (Failure.all_iff.1 h.links.1).1
  pending := h.pending

theorem of_attach {child parent : OpenFailure} {outer : List OpenFailure} {next : Nat}
    (hsound : Sound first ⟨child, parent :: outer, next⟩) (hclosed : child.phase.pending? = none)
    (h : Trusted origin ⟨parent.attach child, outer, next⟩) :
    Trusted origin ⟨child, parent :: outer, next⟩ := by
  obtain ⟨hrelations, hposition⟩ := hsound.stack.1.position
  have hcause := hsound.stack.2.1.cause_eq_none
    (OpenFailure.Sound.ne_complete_of_takesRelations hrelations)
  have hattached : (parent.attach child).KeepsLinks origin outer := h.links.1
  rw [OpenFailure.KeepsLinks, OpenFailure.depth_attach] at hattached
  obtain ⟨hparent, hchild⟩ :=
    (OpenFailure.all_attach (fun _ => Failure.keepsLink_of_backRef?_eq_none)
      (OpenFailure.faces_attach origin parent child) hcause hposition).1 hattached
  exact ⟨⟨hchild, hparent, h.links.2⟩, fun pending mem => by simp [hclosed] at mem⟩

theorem of_takesFrames (hsound : s.Sound first) (hphase : s.current.phase.takesFrames = true)
    (hparents : Stacked (OpenFailure.KeepsLinks origin) s.parents) : s.Trusted origin where
  links := by
    refine ⟨Failure.all_of_bare (fun _ => Failure.keepsLink_of_backRef?_eq_none) ?_ ?_, hparents⟩
    · exact hsound.stack.1.cause_eq_none (OpenFailure.Sound.ne_complete_of_takesFrames hphase)
    · exact hsound.stack.1.suppressed_eq_nil hphase
  pending pending mem := by
    simp [Phase.pending?_of_takesRelations (Phase.takesRelations_of_takesFrames hphase)] at mem

theorem of_refer {pending : PendingReference} (hcause : s.current.node.cause = .none)
    (hpending : ∀ found ∈ s.current.phase.pending?, found.text <+: pending.text)
    (h : (s.refer pending).Trusted origin) : s.Trusted origin := by
  have hfaces : (s.refer pending).stackFaces origin = s.stackFaces origin :=
    stackFaces_refer s pending
  rcases refer_cases s pending with ⟨still, htext, hrefer⟩ | ⟨display, f, htext, htarget, hrefer⟩
  · rw [hrefer] at h
    refine ⟨h.links, fun found mem faces hmem => ?_⟩
    exact (h.pending still rfl faces hmem).mono (htext ▸ hpending found mem)
  · rw [hrefer] at h hfaces
    obtain ⟨hcurrent, hparents⟩ := h.links
    obtain ⟨-, hsuppressed, -⟩ := Failure.all_iff.1 hcurrent
    rw [OpenFailure.faces_setCause] at hsuppressed
    refine ⟨⟨Failure.all_iff.2 ⟨?_, hsuppressed, by simp [hcause]⟩, hparents⟩, ?_⟩
    · exact Failure.keepsLink_of_backRef?_eq_none (by rw [hcause]; rfl)
    · intro found mem faces hmem
      have hsteady := h.steady.link f.link rfl faces (hfaces ▸ hmem)
      refine hsteady.2.mono ?_
      rw [← (mem_stack_of_target? htarget).2] at htext
      exact htext ▸ hpending found mem

theorem of_takes {codec : Codec} {line : Nat} {text : Text} {s' : ParserState}
    (hsound : s.Sound first) (htakes : Takes codec line text s s') (h : s'.Trusted origin) :
    s.Trusted origin := by
  have hcause (hrelations : s.current.phase.takesRelations = true) :
      s.current.node.cause = .none :=
    hsound.stack.1.cause_eq_none (OpenFailure.Sound.ne_complete_of_takesRelations hrelations)
  -- in a message and in frames there are no links yet, and a new failure has none
  cases htakes with
  | message hphase => exact of_takesFrames hsound (by rw [hphase]; rfl) h.links.2
  | frame hphase => exact of_takesFrames hsound hphase h.links.2
  | elision hphase => exact of_takesFrames hsound hphase h.links.2
  | suppressed hphase =>
    exact ⟨h.links.2, fun pending mem => by simp [Phase.pending?_of_takesRelations hphase] at mem⟩
  | causedBy hphase =>
    exact ⟨h.links.2, fun pending mem => by simp [Phase.pending?_of_takesRelations hphase] at mem⟩
  | circular hphase =>
    refine of_refer (hcause hphase) (fun found mem => ?_) h
    simp [Phase.pending?_of_takesRelations hphase] at mem
  | continued hphase =>
    refine of_refer (hsound.stack.1.cause_eq_none (by simp [hphase])) (fun found mem => ?_) h
    obtain rfl : _ = found := by simpa [hphase, Phase.pending?] using mem
    simp [List.append_assoc]

end Trusted

/-- What goes wrong with a circular reference stays wrong to the end of the lines. -/
theorem mistrust_kept (codec : Codec) (first : Nat) (origin : Text → Origin) :
    Kept codec fun _ s => s.Sound first ∧ ¬ s.Trusted origin where
  attach hclosed h := ⟨h.1.attach, fun htrusted => h.2 (htrusted.of_attach h.1 hclosed)⟩
  takes htakes h := ⟨h.1.takes htakes, fun htrusted => h.2 (htrusted.of_takes h.1 htakes)⟩

end ParserState

/-- A text is read as the same graph when other types are known, if the display texts that change
are not what its links show. -/
theorem decodeFrom_of_allKeepLinks {codec codec' : Codec} (hconfig : codec'.config = codec.config)
    {first : Nat} {t : Text} {g : Failure Nat} (h : codec.decodeFrom first t = .ok g)
    (hlinks : g.AllKeepLinks codec'.originOf 0 []) :
    codec'.decodeFrom first t = .ok (g.withOrigins codec'.originOf) := by
  have hsteady (header : Text) (rest : List Text) (n : Nat) (s : ParserState)
      (hlines : t.lines = header :: rest) (hne : header ≠ [])
      (hrun : ParserState.run codec 1 (rest.take n)
        ⟨.ofHeader codec 0 .root first header, [], first + 1⟩ = .ok s) :
      s.Steady codec'.originOf := by
    -- a reference that went to another failure would leave a bad link in the graph
    refine ParserState.Trusted.steady ?_
    by_contra hmistrust
    rw [Codec.decodeFrom, hlines] at h
    have hsound := (ParserState.sound_invariant codec first).of_run_start hne hrun
    obtain ⟨root, _, hroot, rfl, hsound, hmistrust⟩ :=
      (ParserState.mistrust_kept codec first codec'.originOf).of_ofLines h hrun ⟨hsound, hmistrust⟩
    have hdepth : root.depth = 0 := hsound.stack.1.position.2
    have hkeeps : root.KeepsLinks codec'.originOf [] := by
      rw [OpenFailure.KeepsLinks, hdepth]
      exact hlinks
    exact hmistrust ⟨⟨hkeeps, trivial⟩, fun pending mem => by simp [hroot] at mem⟩
  rw [Codec.decodeFrom_withOrigins hconfig hsteady, h, Except.map]

/-! ## When every type could be known -/

theorem Failure.displayText_withOrigins_of_resolved {codec : Codec} {f : Failure ι}
    (h : f.origin = .resolved) : (f.withOrigins codec.originOf).displayText =
      if codec.resolver.resolves f.typeName then f.displayText
      else codec.config.indicator ++ f.displayText := by
  simp only [displayText, displayType, withOrigins_message, withOrigins_origin,
    withOrigins_typeName, h, Codec.originOf]
  by_cases hknown : codec.resolver.resolves f.typeName = true
  · simp only [hknown, if_true]
  · cases hmessage : f.message <;> simp [hknown]

/-- Whether a failure on the way to a link leaves the link as it is when its type need not be known:
its type is known, or its display text is not the one of the link and, with the indicator in front
and the close behind, is not how the text of the link begins. -/
def Codec.Spares (codec : Codec) (link : BackRef ι) (f : Failure ι) : Prop :=
  codec.resolver.resolves f.typeName = true ∨ codec.config.indicator = [] ∨
    f.displayText ≠ link.display ∧
      ¬ codec.config.indicator ++ f.displayText ++ Mark.circularClose <+:
        link.display ++ Mark.circularClose

instance (codec : Codec) (link : BackRef ι) (f : Failure ι) : Decidable (codec.Spares link f) :=
  inferInstanceAs (Decidable (_ ∨ _ ∨ _ ∧ ¬ _))

theorem Codec.Spares.steady {codec : Codec} {link : BackRef ι} {f : Failure ι}
    (h : codec.Spares link f) (horigin : f.origin = .resolved) :
    link.Steady (f.faces codec.originOf) := by
  have hshown : (f.withOrigins codec.originOf).displayText = _ :=
    Failure.displayText_withOrigins_of_resolved horigin
  by_cases hsame : (f.withOrigins codec.originOf).displayText = f.displayText
  · exact ⟨fun _ => hsame.symm, .inl hsame.symm⟩
  · have hunknown : ¬ codec.resolver.resolves f.typeName = true := by
      intro hknown
      exact hsame (hshown.trans (if_pos hknown))
    rw [if_neg hunknown] at hshown
    rcases h with hknown | hsilent | ⟨hdisplay, hapart⟩
    · exact absurd hknown hunknown
    · exact absurd (by rw [hshown, hsilent, List.nil_append]) hsame
    · refine ⟨fun hfirst => absurd hfirst hdisplay, .inr ?_⟩
      rw [Failure.faces, hshown]
      exact hapart

/-- A text that is read when every type is known is read as the same graph when types are unknown,
with surrogates for their failures, if these spare the links. -/
theorem decodeFrom_of_any {codec : Codec} {first : Nat} {t : Text} {g : Failure Nat}
    (h : Codec.decodeFrom { codec with resolver := .any } first t = .ok g)
    (hlinks : ∀ p ∈ g.lineages, ∀ link ∈ p.node.cause.backRef?, ∀ f ∈ p.path,
      codec.Spares link f) :
    codec.decodeFrom first t = .ok (g.withOrigins codec.originOf) := by
  have hconfig : codec.config = ({ codec with resolver := .any } : Codec).config := rfl
  refine decodeFrom_of_allKeepLinks hconfig h (Failure.all_iff_forall_mem_lineages.2 ?_)
  intro p hp link hlink faces hfaces
  rw [← List.map_cons] at hfaces
  obtain ⟨f, hf, rfl⟩ := List.mem_map.1 hfaces
  exact (hlinks p hp link hlink f hf).steady
    (origin_of_decodeFrom h (Failure.mem_nodes_of_mem_path hp hf))

def markedConfig : Config := ⟨['\n'], "[?] ".toList⟩

def topOnlyMarked : Codec := ⟨markedConfig, .known ⟨["app.Top".toList]⟩⟩

theorem decodeFrom_halfKnown :
    Codec.decodeFrom ⟨markedConfig, .any⟩ 0 halfKnownText = .ok halfKnown ∧
      topOnlyMarked.decodeFrom 0 halfKnownText =
        .ok (halfKnown.withOrigins topOnlyMarked.originOf) := by
  have h : Codec.decodeFrom ⟨markedConfig, .any⟩ 0 halfKnownText = .ok halfKnown := rfl
  refine ⟨h, decodeFrom_of_any h ?_⟩
  decide

/-! A failure of an unknown type that is its own cause. -/

def loopText : Text :=
  Text.ofRows ['\n'] ["app.Loop: again".toList, "\t[CIRCULAR REFERENCE:app.Loop: again]".toList]

def loop : Failure Nat :=
  { Failure.ofType 0 "app.Loop".toList with
    message := some "again".toList, cause := .backRef ⟨0, "app.Loop: again".toList⟩ }

theorem decode_loopText :
    Codec.decode ⟨markedConfig, .any⟩ loopText = .ok loop ∧
      Codec.decode ⟨markedConfig, .known .empty⟩ loopText =
        .error (.unresolvedCircularReference 1 "app.Loop: again".toList) := ⟨rfl, rfl⟩

end Stacktrace
