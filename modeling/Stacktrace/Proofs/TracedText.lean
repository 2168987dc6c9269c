import Stacktrace.Event
import Stacktrace.Proofs.WalkedText

/-!
# Events and the text

The text of a graph is made of pieces: a block for each failure, which is its header with the frames
below it, and a circular reference for each link, behind all that is suppressed beside its holder.
The events of a graph are told by the blocks in this order (`fields_trace_of_pieces`). Where the
holder of a link has its block, the link has an event right behind that of the holder.
-/

namespace Stacktrace
variable {ι : Type}

inductive Piece (ι : Type)
  | block (v : Visit ι)
  | circular (depth : Nat) (display : Text)

namespace Piece

def block? : Piece ι → Option (Visit ι)
  | block v => some v
  | circular _ _ => none

def rows : Piece ι → List Text
  | block v => v.rows
  | circular depth display =>
    [Mark.indent (depth + 1) ++ Mark.circularToken ++ display ++ Mark.circularClose]

end Piece

namespace Failure
variable [DecidableEq ι]

mutual

/-- The pieces that are written for a failure at a depth and in a relation, with the failures above
it in scope. -/
def piecesFrom (scope : Scope ι) (depth : Nat) (relation : Relation) :
    Failure ι → List (Piece ι)
  | f@⟨_, _, _, _, _, suppressed, cause⟩ =>
    .block ⟨depth, relation, f⟩ :: (piecesIn (f.scopeEntry :: scope) (depth + 1) suppressed
      ++ causePieces (f.scopeEntry :: scope) depth cause)

def causePieces (scope : Scope ι) (depth : Nat) : Cause ι (Failure ι) → List (Piece ι)
  | .none => []
  | .owned c => piecesFrom scope depth .cause c
  | .backRef link => [.circular depth ((scope.lookup link.target).getD link.display)]

def piecesIn (scope : Scope ι) (depth : Nat) : List (Failure ι) → List (Piece ι)
  | [] => []
  | f :: fs => piecesFrom scope depth .suppressed f ++ piecesIn scope depth fs

end

def pieces (f : Failure ι) : List (Piece ι) := f.piecesFrom [] 0 .root

theorem piecesIn_eq_flatMap (scope : Scope ι) (depth : Nat) (fs : List (Failure ι)) :
    piecesIn scope depth fs = fs.flatMap (piecesFrom scope depth .suppressed) := by
  induction fs with
  | nil => rfl
  | cons f fs ih => rw [piecesIn, ih, List.flatMap_cons]

theorem piecesFrom_eq_cons (scope : Scope ι) (depth : Nat) (relation : Relation) (f : Failure ι) :
    f.piecesFrom scope depth relation = .block ⟨depth, relation, f⟩ ::
      (f.suppressed.flatMap (piecesFrom (f.scopeEntry :: scope) (depth + 1) .suppressed)
        ++ causePieces (f.scopeEntry :: scope) depth f.cause) := by
  rw [← piecesIn_eq_flatMap]
  cases f
  rw [piecesFrom]

theorem flatMap_rows_piecesFrom (scope : Scope ι) (depth : Nat) (relation : Relation)
    (f : Failure ι) : (f.piecesFrom scope depth relation).flatMap Piece.rows =
      Visit.headerRow ⟨depth, relation, f⟩ :: f.bodyRows scope depth := by
  induction f generalizing scope depth relation with
  | node f ihSuppressed ihCause =>
    have hbeside : (f.suppressed.flatMap
          (piecesFrom (f.scopeEntry :: scope) (depth + 1) .suppressed)).flatMap Piece.rows =
        f.suppressed.flatMap fun s =>
          suppressedRow depth s :: s.bodyRows (f.scopeEntry :: scope) (depth + 1) := by
      rw [List.flatMap_assoc]
      refine List.flatMap_congr fun s hs => ?_
      rw [ihSuppressed s hs, Visit.headerRow_suppressed]
    have hbelow : (causePieces (f.scopeEntry :: scope) depth f.cause).flatMap Piece.rows =
        causeRows (f.scopeEntry :: scope) depth f.cause := by
      cases hc : f.cause with
      | none => rfl
      | owned c =>
        rw [causePieces, ihCause c hc, causeRows, Visit.headerRow_cause]
      | backRef link =>
        rw [causePieces, List.flatMap_singleton, causeRows, Piece.rows, circularRow,
          List.append_assoc, List.append_assoc, Mark.indent_succ_append]
        simp only [List.append_assoc]
    rw [piecesFrom_eq_cons, List.flatMap_cons, List.flatMap_append, hbeside, hbelow, bodyRows_eq,
      Piece.rows, Visit.rows, Visit.frameRows_eq_map]
    simp only [List.cons_append, List.append_assoc]

/-- The blocks of a text are the visits of the walk. -/
theorem filterMap_block?_piecesFrom (scope : Scope ι) (depth : Nat) (relation : Relation)
    (f : Failure ι) : (f.piecesFrom scope depth relation).filterMap Piece.block? =
      f.visits depth relation := by
  induction f generalizing scope depth relation with
  | node f ihSuppressed ihCause =>
    have hbelow : (causePieces (f.scopeEntry :: scope) depth f.cause).filterMap Piece.block? =
        f.source?.toList.flatMap (visits depth .cause) := by
      rw [source?]
      cases hc : f.cause with
      | none => rfl
      | owned c =>
        rw [causePieces, ihCause c hc]
        exact (List.flatMap_singleton _ _).symm
      | backRef link => rfl
    have hbeside : (f.suppressed.flatMap
          (piecesFrom (f.scopeEntry :: scope) (depth + 1) .suppressed)).filterMap Piece.block? =
        f.suppressed.flatMap (visits (depth + 1) .suppressed) := by
      rw [List.filterMap_flatMap]
      exact List.flatMap_congr fun s hs => ihSuppressed s hs _ _ _
    rw [piecesFrom_eq_cons, visits_eq_cons, ← hbeside, ← hbelow, ← List.filterMap_append]
    rfl

end Failure

namespace Event

/-- What an event says of how its failure hangs off the one above it. -/
def relation? (e : Event) : Option Text :=
  match e.fields.lookup "relation" with
  | some (.text t) => some t
  | _ => none

def isCircular (e : Event) : Bool := e.relation? = some "circular".toList

end Event

namespace Visit

/-- The frames of a block as they are written, without what stands in front of them. -/
def frameTexts (v : Visit ι) : List Text := v.node.frames.map Frame.render

theorem rows_eq_cons (v : Visit ι) :
    v.rows = (Mark.indent v.depth ++ v.relation.token ++ v.node.displayText) ::
      v.frameTexts.map (Mark.indent (v.depth + 1) ++ Mark.atToken ++ ·) := by
  rw [rows, headerRow, frameRows, frameTexts, List.map_map]
  rfl

/-- The fields of the event of a block. -/
def blockFields (options : TraceOptions) (v : Visit ι) : List (String × FieldValue) :=
  [("depth", .number v.depth), ("relation", .text v.relation.name.toList),
    ("type_name", .text v.node.typeName)]
    ++ (v.node.message.map fun t => ("message", .text t)).toList
    ++ if options.includeFrames then [("frames", .text ("; ".toList.intercalate v.frameTexts))]
      else []

/-- The fields of the event of a link that the failure of a block holds. -/
def linkFields (v : Visit ι) (link : BackRef ι) : List (String × FieldValue) :=
  [("depth", .number v.depth), ("relation", .text "circular".toList), ("message", .text link.display)]

variable (level : Level) (options : TraceOptions) (v : Visit ι)

theorem map_fields_events : (v.events level options).map Event.fields =
    v.blockFields options :: (v.node.cause.backRef?.map v.linkFields).toList := by
  cases hlink : v.node.cause.backRef? <;> cases hframes : options.includeFrames <;>
    simp [events, blockFields, linkFields, Event.fields, hlink, hframes, frameTexts,
      Failure.joinedFrames]

/-- The relation that they name tells the event of a failure from that of its link. -/
theorem filter_events :
    ((v.events level options).filter (!·.isCircular)).map Event.fields = [v.blockFields options] ∧
      ((v.events level options).filter Event.isCircular).map Event.fields =
        (v.node.cause.backRef?.map v.linkFields).toList := by
  obtain ⟨hblock, hlink⟩ := List.cons.inj (map_fields_events level options v)
  have hname : v.relation.name.toList ≠ "circular".toList := by
    cases v.relation <;> decide
  have hfirst (frames : Option Text) : (Event.failure level v.depth v.relation v.node.typeName
      v.node.message frames).isCircular = false :=
    decide_eq_false fun h => hname (Option.some.inj h)
  have hrest : ∀ e ∈ (v.node.cause.backRef?.map fun link =>
      Event.circular level v.depth link.display).toList, e.isCircular = true := by
    intro e he
    obtain ⟨link, -, rfl⟩ := Option.map_eq_some_iff.1 (Option.mem_toList.1 he)
    rfl
  have hnone : ∀ e ∈ (v.node.cause.backRef?.map fun link =>
      Event.circular level v.depth link.display).toList, ¬ (!e.isCircular) = true := by
    intro e he
    rw [hrest e he]
    exact Bool.false_ne_true
  constructor
  · rw [events, List.filter_cons_of_pos (by rw [hfirst, Bool.not_false]),
      List.filter_eq_nil_iff.2 hnone]
    exact congrArg (fun fields => [fields]) hblock
  · rw [events, List.filter_cons_of_neg (by rw [hfirst]; exact Bool.false_ne_true),
      List.filter_eq_self.2 hrest]
    exact hlink

theorem level_eq_of_mem_events : ∀ e ∈ v.events level options, e.level = level := by
  intro e he
  rw [events, List.mem_cons, Option.mem_toList, Option.map_eq_some_iff] at he
  rcases he with rfl | ⟨link, -, rfl⟩
  · rfl
  · rfl

end Visit

/-- The text of a graph is a list of pieces, of which the blocks are the visits of the walk. The
events are those of the blocks, each with its depth, its relation, the type name and the message of
its failure and its frames, and behind that of a failure with a link there is one for the link. -/
theorem fields_trace_of_pieces [DecidableEq ι] (codec : Codec) (level : Level)
    (options : TraceOptions) (g : Failure ι) :
    let blocks := g.pieces.filterMap Piece.block?
    let events := g.trace level options
    codec.encode g = Text.ofRows codec.config.terminator (g.pieces.flatMap Piece.rows) ∧
      (∀ v ∈ blocks, v.rows = (Mark.indent v.depth ++ v.relation.token ++ v.node.displayText) ::
        v.frameTexts.map (Mark.indent (v.depth + 1) ++ Mark.atToken ++ ·)) ∧
      (Walker.start g).visits = blocks ∧
      (events.filter (!·.isCircular)).map Event.fields =
        blocks.map (Visit.blockFields options) ∧
      (events.filter Event.isCircular).map Event.fields =
        blocks.flatMap (fun v => (v.node.cause.backRef?.map v.linkFields).toList) ∧
      events.map Event.fields = blocks.flatMap (fun v =>
        v.blockFields options :: (v.node.cause.backRef?.map v.linkFields).toList) ∧
      ∀ e ∈ events, e.level = level := by
  intro blocks events
  have hblocks : g.walk = blocks := (g.filterMap_block?_piecesFrom [] 0 .root).symm
  have hevents : events = blocks.flatMap (Visit.events level options) := by
    rw [← hblocks]
    rfl
  refine ⟨?_, fun v _ => v.rows_eq_cons, ?_, ?_, ?_, ?_, ?_⟩
  · rw [Codec.encode, Failure.print_eq_ofRows, Failure.pieces, Failure.flatMap_rows_piecesFrom]
    rfl
  · rw [Walker.visits_start, hblocks]
  · rw [hevents, List.filter_flatMap, List.map_flatMap, List.map_eq_flatMap]
    exact List.flatMap_congr fun v _ => (Visit.filter_events level options v).1
  · rw [hevents, List.filter_flatMap, List.map_flatMap]
    exact List.flatMap_congr fun v _ => (Visit.filter_events level options v).2
  · rw [hevents, List.map_flatMap]
    exact List.flatMap_congr fun v _ => Visit.map_fields_events level options v
  · intro e he
    rw [hevents] at he
    obtain ⟨v, -, he⟩ := List.mem_flatMap.1 he
    exact Visit.level_eq_of_mem_events level options v e he

/-- A link back stands behind what is suppressed beside its holder, and its event before that. -/
def looping : Failure Nat :=
  let beside : Failure Nat := { Failure.ofType 0 ['B'] with cause := .backRef ⟨0, ['A']⟩ }
  let below : Failure Nat :=
    { Failure.ofType 1 ['C'] with
      frames := [⟨['p'], ['q'], none, .native⟩, ⟨['r'], ['s'], none, .unavailable⟩]
      suppressed := [beside], cause := .backRef ⟨0, ['A']⟩ }
  { Failure.ofType 0 ['A'] with message := some ['x', '\n', 'y'], cause := .owned below }

theorem fields_trace_looping :
    Codec.encode {} looping = Text.ofRows ['\n'] ["A: x\ny".toList, "Caused by: C".toList,
      "\tat p.q(Native Method)".toList, "\tat r.s(Unknown Source)".toList,
      "\tSuppressed: B".toList, "\t\t[CIRCULAR REFERENCE:B]".toList,
      "\t[CIRCULAR REFERENCE:A: x\ny]".toList] ∧
    (looping.trace .warn {}).map Event.fields =
      [[("depth", .number 0), ("relation", .text "root".toList), ("type_name", .text ['A']),
        ("message", .text ['x', '\n', 'y']), ("frames", .text [])],
      [("depth", .number 0), ("relation", .text "cause".toList), ("type_name", .text ['C']),
        ("frames", .text "p.q(Native Method); r.s(Unknown Source)".toList)],
      [("depth", .number 0), ("relation", .text "circular".toList), ("message", .text ['A'])],
      [("depth", .number 1), ("relation", .text "suppressed".toList), ("type_name", .text ['B']),
        ("frames", .text [])],
      [("depth", .number 1), ("relation", .text "circular".toList), ("message", .text ['A'])]] := by
  obtain ⟨htext, -, -, -, -, hfields, -⟩ := fields_trace_of_pieces {} .warn {} looping
  exact ⟨htext.trans rfl, hfields.trans rfl⟩

end Stacktrace
