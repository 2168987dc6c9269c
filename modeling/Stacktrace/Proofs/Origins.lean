import Stacktrace.Proofs.Lineage
import Stacktrace.Proofs.Recasts

/-!
# Readers that know different types

What a reader knows decides the origins of the failures that it reads, and through these which
display texts a circular reference is compared with. `withOrigins` decides all origins of a graph
anew. Reading with other types known gives the graph with its origins decided anew, line by line, as
long as every circular reference finds the same failure (`ParserState.Steady`,
`decodeFrom_withOrigins`). With no indicator a surrogate is displayed as a failure of a known type
is, and nothing but the origins depends on what is known.
-/

namespace Stacktrace
variable {ι : Type}

def Codec.originOf (codec : Codec) (typeName : Text) : Origin :=
  if codec.resolver.resolves typeName then .resolved else .surrogate codec.config.indicator

namespace Failure

mutual

/-- The graph with each origin decided anew, by the name of the type. -/
def withOrigins (origin : Text → Origin) : Failure ι → Failure ι
  | ⟨id, typeName, message, frames, _, suppressed, cause⟩ =>
    ⟨id, typeName, message, frames, origin typeName, withOriginsIn origin suppressed,
      withOriginsCause origin cause⟩

def withOriginsCause (origin : Text → Origin) : Cause ι (Failure ι) → Cause ι (Failure ι)
  | .none => .none
  | .owned c => .owned (withOrigins origin c)
  | .backRef link => .backRef link

def withOriginsIn (origin : Text → Origin) : List (Failure ι) → List (Failure ι)
  | [] => []
  | f :: fs => withOrigins origin f :: withOriginsIn origin fs

end

theorem withOriginsIn_eq_map (origin : Text → Origin) (fs : List (Failure ι)) :
    withOriginsIn origin fs = fs.map (withOrigins origin) := by
  induction fs with
  | nil => rfl
  | cons f fs ih => rw [withOriginsIn, ih, List.map_cons]

theorem withOrigins_eq (origin : Text → Origin) (f : Failure ι) : f.withOrigins origin =
    { f with
      origin := origin f.typeName
      suppressed := f.suppressed.map (withOrigins origin)
      cause := withOriginsCause origin f.cause } := by
  cases f
  rw [withOrigins, withOriginsIn_eq_map]

section Fields
variable (origin : Text → Origin) (f : Failure ι)

@[simp]
theorem withOrigins_typeName : (f.withOrigins origin).typeName = f.typeName := by
  rw [withOrigins_eq]

@[simp]
theorem withOrigins_message : (f.withOrigins origin).message = f.message := by
  rw [withOrigins_eq]

@[simp]
theorem withOrigins_origin : (f.withOrigins origin).origin = origin f.typeName := by
  rw [withOrigins_eq]

theorem children_withOrigins :
    (f.withOrigins origin).children = f.children.map (withOrigins origin) := by
  rw [withOrigins_eq, children, children, List.map_append]
  cases h : f.cause <;> simp [source?, h, withOriginsCause, Cause.owned?]

theorem nodes_withOrigins : (f.withOrigins origin).nodes = f.nodes.map (withOrigins origin) :=
  nodes_map (children_withOrigins origin) f

end Fields

theorem displayText_congr {f g : Failure ι} (htype : f.displayType = g.displayType)
    (hmessage : f.message = g.message) : f.displayText = g.displayText := by
  rw [displayText, displayText, htype, hmessage]

/-- The display text of a failure, and the one that it has when its origin is decided anew. -/
def faces (origin : Text → Origin) (f : Failure ι) : Text × Text :=
  (f.displayText, (f.withOrigins origin).displayText)

theorem faces_congr (origin : Text → Origin) {f g : Failure ι} (htype : f.typeName = g.typeName)
    (hmessage : f.message = g.message) (horigin : f.origin = g.origin) :
    f.faces origin = g.faces origin := by
  have hfirst : f.displayText = g.displayText :=
    displayText_congr (by rw [displayType, displayType, htype, horigin]) hmessage
  have hsecond : (f.withOrigins origin).displayText = (g.withOrigins origin).displayText :=
    displayText_congr (by simp [displayType, htype]) (by simp [hmessage])
  rw [faces, faces, hfirst, hsecond]

end Failure

def Recast.withOrigins (origin : Text → Origin) : Recast where
  node := Failure.withOrigins origin
  cause := Failure.withOriginsCause origin
  id i := i
  origin typeName _ := origin typeName
  node_eq := Failure.withOrigins_eq origin
  cause_owned _ := rfl
  cause_backRef _ := rfl

namespace OpenFailure
variable (origin : Text → Origin)

theorem faces_attach (parent child : OpenFailure) :
    (parent.attach child).node.faces origin = parent.node.faces origin := by
  rw [attach]
  split <;> exact Failure.faces_congr origin rfl rfl rfl

theorem faces_setCause (f : OpenFailure) (cause : Cause Nat (Failure Nat)) :
    (f.setCause cause).node.faces origin = f.node.faces origin :=
  Failure.faces_congr origin rfl rfl rfl

end OpenFailure

/-- Whether a failure that changes its display text from the first to the second of two could not be
taken for the failure that a reference names whose text begins with `text`. -/
def Unmistaken (text : Text) (faces : Text × Text) : Prop :=
  faces.1 = faces.2 ∨ ¬ faces.2 ++ Mark.circularClose <+: text

/-- Whether a failure that changes its display text keeps being what a link shows, or keeps being
something else. -/
def BackRef.Steady (link : BackRef ι) (faces : Text × Text) : Prop :=
  (faces.1 = link.display → faces.1 = faces.2) ∧
    Unmistaken (link.display ++ Mark.circularClose) faces

theorem Unmistaken.fst_eq {display : Text} {faces : Text × Text}
    (h : Unmistaken (display ++ Mark.circularClose) faces) (hsnd : faces.2 = display) :
    faces.1 = display := by
  rcases h with heq | hnot
  · rw [heq, hsnd]
  · exact absurd (hsnd ▸ List.prefix_rfl) hnot

theorem BackRef.Steady.snd_eq_iff {link : BackRef ι} {faces : Text × Text}
    (h : link.Steady faces) : faces.2 = link.display ↔ faces.1 = link.display :=
  ⟨h.2.fst_eq, fun hfst => (h.1 hfst).symm.trans hfst⟩

namespace ParserState

def stackFaces (origin : Text → Origin) (s : ParserState) : List (Text × Text) :=
  (s.current :: s.parents).map (·.node.faces origin)

/-- Whether the circular reference of the current failure, closed or still open, goes to no other
failure when the origins of the open failures are decided anew. -/
structure Steady (origin : Text → Origin) (s : ParserState) : Prop where
  link (link : BackRef Nat) (mem : link ∈ s.current.node.cause.backRef?) :
    ∀ faces ∈ s.stackFaces origin, link.Steady faces
  pending (pending : PendingReference) (mem : pending ∈ s.current.phase.pending?) :
    ∀ faces ∈ s.stackFaces origin, Unmistaken pending.text faces

theorem displayText_ne_of_target?_eq_none {s : ParserState} {display : Text}
    (h : s.target? display = none) {f : OpenFailure} (hf : f ∈ s.current :: s.parents) :
    f.node.displayText ≠ display := by
  have hmem : f.node ∈ (s.parents ++ [s.current]).map OpenFailure.node :=
    List.mem_map_of_mem (by simpa [or_comm] using hf)
  simpa using List.find?_eq_none.1 h f.node hmem

section Refer
variable {origin : Text → Origin}

theorem stackFaces_refer (s : ParserState) (pending : PendingReference) :
    (s.refer pending).stackFaces origin = s.stackFaces origin := by
  rcases refer_cases s pending with ⟨_, -, hrefer⟩ | ⟨_, f, -, -, hrefer⟩
  · rw [hrefer]
    rfl
  · rw [hrefer, stackFaces, List.map_cons, OpenFailure.faces_setCause]
    rfl

theorem displayText_iff_of_refer {s : ParserState} {pending : PendingReference} {display : Text}
    (h : (s.refer pending).Steady origin)
    (hdisplay : pending.text.before? Mark.circularClose = some display) {f : OpenFailure}
    (hf : f ∈ s.current :: s.parents) :
    (f.node.withOrigins origin).displayText = display ↔ f.node.displayText = display := by
  have hfaces : f.node.faces origin ∈ (s.refer pending).stackFaces origin := by
    rw [stackFaces_refer]
    exact List.mem_map_of_mem hf
  cases htarget : s.target? display with
  -- no open failure has the display text, so it is enough that none gets it
  | none =>
    have hunmistaken : Unmistaken pending.text (f.node.faces origin) :=
      h.pending { pending with unresolved := pending.unresolved <|> some display }
        (by rw [refer_eq_of_target?_eq_none hdisplay htarget]; rfl) _ hfaces
    rw [Text.before?_eq_some_iff.1 hdisplay] at hunmistaken
    have hne := displayText_ne_of_target?_eq_none htarget hf
    exact ⟨hunmistaken.fst_eq, fun heq => absurd heq hne⟩
  | some target =>
    have hsteady : target.link.Steady (f.node.faces origin) :=
      h.link _ (by rw [refer_eq_of_target? hdisplay htarget]; rfl) _ hfaces
    rw [← (mem_stack_of_target? htarget).2]
    exact hsteady.snd_eq_iff

end Refer

end ParserState

section Codecs
variable {codec codec' : Codec} (hconfig : codec'.config = codec.config)
include hconfig

theorem fits_withOrigins : (Recast.withOrigins codec'.originOf).Fits codec codec'
    (ParserState.Steady codec'.originOf) where
  config_eq := hconfig
  id_succ _ := rfl
  ofHeader depth relation id header := by
    obtain ⟨config, resolver⟩ := codec'
    obtain rfl : config = codec.config := hconfig
    rfl
  displayText_iff := ParserState.displayText_iff_of_refer

/-- Reading with other types known gives the same graph with its origins decided anew, or fails in
the same way, when every circular reference keeps going to the same failure. -/
theorem Codec.decodeFrom_withOrigins {first : Nat} {t : Text}
    (h : ∀ header rest n s, t.lines = header :: rest → header ≠ [] →
      ParserState.run codec 1 (rest.take n)
        ⟨.ofHeader codec 0 .root first header, [], first + 1⟩ = .ok s →
      s.Steady codec'.originOf) :
    codec'.decodeFrom first t =
      (codec.decodeFrom first t).map (·.withOrigins codec'.originOf) :=
  Codec.ofLines_recast (fits_withOrigins hconfig) h

end Codecs

/-! ## The origins in a graph that has been read -/

namespace Failure
variable {codec codec' : Codec} {f : Failure ι}

theorem displayText_withOrigins_self (h : f.origin = codec.originOf f.typeName) :
    (f.withOrigins codec.originOf).displayText = f.displayText :=
  displayText_congr (by simp [displayType, h]) (f.withOrigins_message codec.originOf)

theorem displayType_of_indicator_eq_nil (hsilent : codec.config.indicator = [])
    (h : f.origin = codec.originOf f.typeName) : f.displayType = f.typeName := by
  rw [Codec.originOf, hsilent] at h
  split at h <;> simp [displayType, h]

theorem displayText_withOrigins_of_indicator_eq_nil (hconfig : codec'.config = codec.config)
    (hsilent : codec.config.indicator = []) (h : f.origin = codec.originOf f.typeName) :
    (f.withOrigins codec'.originOf).displayText = f.displayText := by
  refine displayText_congr ?_ (f.withOrigins_message codec'.originOf)
  rw [displayType_of_indicator_eq_nil hsilent h,
    displayType_of_indicator_eq_nil (hconfig ▸ hsilent) (by simp), withOrigins_typeName]

end Failure

namespace ParserState

theorem steady_of_forall {origin : Text → Origin} {s : ParserState}
    (h : ∀ f ∈ s.current :: s.parents,
      (f.node.withOrigins origin).displayText = f.node.displayText) : s.Steady origin where
  link _ _ := List.forall_mem_map.2 fun f hf => ⟨fun _ => (h f hf).symm, .inl (h f hf).symm⟩
  pending _ _ := List.forall_mem_map.2 fun f hf => .inl (h f hf).symm

theorem origin_invariant (codec : Codec) (first : Nat) : Invariant codec first fun _ s =>
    ∀ f ∈ s.current :: s.parents, f.node.origin = codec.originOf f.node.typeName where
  start header _ := List.forall_mem_singleton.2 rfl
  attach {_ child parent _ _} _ h := by
    obtain ⟨-, hparent, houter⟩ := List.forall_mem_cons.1 h |>.imp_right List.forall_mem_cons.1
    refine List.forall_mem_cons.2 ⟨?_, houter⟩
    rw [OpenFailure.attach]
    split <;> exact hparent
  takes {_ _ s _} htakes h := by
    obtain ⟨hcurrent, hparents⟩ := List.forall_mem_cons.1 h
    have hrefer (pending : PendingReference) :
        ∀ f ∈ (s.refer pending).current :: (s.refer pending).parents,
          f.node.origin = codec.originOf f.node.typeName := by
      rcases refer_cases s pending with ⟨_, -, hrefer⟩ | ⟨_, _, -, -, hrefer⟩ <;> rw [hrefer]
      · exact List.forall_mem_cons.2 ⟨hcurrent, hparents⟩
      · exact List.forall_mem_cons.2 ⟨hcurrent, hparents⟩
    cases htakes with
    | message => exact List.forall_mem_cons.2 ⟨hcurrent, hparents⟩
    | frame => exact List.forall_mem_cons.2 ⟨hcurrent, hparents⟩
    | elision => exact List.forall_mem_cons.2 ⟨hcurrent, hparents⟩
    | suppressed => exact List.forall_mem_cons.2 ⟨rfl, h⟩
    | causedBy => exact List.forall_mem_cons.2 ⟨rfl, h⟩
    | circular => exact hrefer _
    | continued => exact hrefer _

end ParserState

theorem origin_of_decodeFrom {codec : Codec} {first : Nat} {t : Text} {g : Failure Nat}
    (h : codec.decodeFrom first t = .ok g) {f : Failure Nat} (hf : f ∈ g.nodes) :
    f.origin = codec.originOf f.typeName := by
  -- the same reader gives the graph with its origins decided anew, so they were so before
  have hself : codec.decodeFrom first t =
      (codec.decodeFrom first t).map (·.withOrigins codec.originOf) := by
    refine Codec.decodeFrom_withOrigins rfl fun header rest n s _ hne hrun => ?_
    refine ParserState.steady_of_forall fun o ho => ?_
    exact Failure.displayText_withOrigins_self
      ((ParserState.origin_invariant codec first).of_run_start hne hrun o ho)
  rw [h, Except.map, Except.ok.injEq] at hself
  rw [hself, Failure.nodes_withOrigins] at hf
  obtain ⟨n, -, rfl⟩ := List.mem_map.1 hf
  rw [Failure.withOrigins_origin, Failure.withOrigins_typeName]

/-- With no indicator, the types that are known decide the origins of the failures that are read and
nothing else. -/
theorem decodeFrom_of_indicator_eq_nil {codec codec' : Codec}
    (hconfig : codec'.config = codec.config) (hsilent : codec.config.indicator = []) (first : Nat)
    (t : Text) :
    codec'.decodeFrom first t = (codec.decodeFrom first t).map (·.withOrigins codec'.originOf) ∧
      ∀ g, codec.decodeFrom first t = .ok g → ∀ f ∈ g.nodes,
        f.origin = if codec.resolver.resolves f.typeName then .resolved else .surrogate [] := by
  constructor
  · refine Codec.decodeFrom_withOrigins hconfig fun header rest n s _ hne hrun => ?_
    refine ParserState.steady_of_forall fun o ho => ?_
    exact Failure.displayText_withOrigins_of_indicator_eq_nil hconfig hsilent
      ((ParserState.origin_invariant codec first).of_run_start hne hrun o ho)
  · intro g h f hf
    rw [origin_of_decodeFrom h hf, Codec.originOf, hsilent]

/-! A graph whose root is of a known type and whose cause, which names the root, is not. -/

def halfKnownText : Text :=
  Text.ofRows ['\n'] ["app.Top: x".toList, "Caused by: lib.Low: y".toList,
    "\t[CIRCULAR REFERENCE:app.Top: x]".toList]

def halfKnown : Failure Nat :=
  let low : Failure Nat :=
    { Failure.ofType 1 "lib.Low".toList with
      message := some ['y'], cause := .backRef ⟨0, "app.Top: x".toList⟩ }
  { Failure.ofType 0 "app.Top".toList with message := some ['x'], cause := .owned low }

theorem decodeFrom_halfKnown_silent :
    let codec (r : Resolver) : Codec := ⟨⟨['\n'], []⟩, r⟩
    let topOnly : Codec := codec (.known ⟨["app.Top".toList]⟩)
    let read : Failure Nat := halfKnown.withOrigins topOnly.originOf
    topOnly.decodeFrom 0 halfKnownText = .ok read ∧
      (codec .any).decodeFrom 0 halfKnownText = .ok halfKnown ∧
        ∀ f ∈ read.nodes, f.origin =
          if topOnly.resolver.resolves f.typeName then .resolved else .surrogate [] := by
  intro codec topOnly read
  have h : topOnly.decodeFrom 0 halfKnownText = .ok read := rfl
  obtain ⟨hany, horigins⟩ :=
    @decodeFrom_of_indicator_eq_nil topOnly (codec .any) rfl rfl 0 halfKnownText
  refine ⟨h, ?_, horigins read h⟩
  rw [hany, h]
  rfl

end Stacktrace
