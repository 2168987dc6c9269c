import Stacktrace.Failure.Alike
import Stacktrace.Session.Address
import Stacktrace.Trace.Parser
import Stacktrace.Trace.Printer
import Stacktrace.Transform.Builder
import Stacktrace.Transform.Context

/-!
Sessions: named graphs and named contexts, worked on one step at a time. A step that names a
graph, a context or a place that is not there answers so and changes nothing. New failures are
numbered in the order in which they come into the session; copies keep their identities.
-/

namespace Stacktrace

/-- The names of a session with what they stand for, the latest first. -/
abbrev Table (α : Type) := List (Text × α)

namespace Table
variable {α : Type}

def erase (table : Table α) (name : Text) : Table α := table.filter (·.1 ≠ name)

def put (table : Table α) (name : Text) (a : α) : Table α := (name, a) :: table.erase name

theorem lookup_put (table : Table α) (name : Text) (a : α) :
    (table.put name a).lookup name = some a := by simp [put]

end Table

structure Session where
  graphs : Table (Failure Nat) := []
  contexts : Table (Context Nat) := []
  next : Nat := 0

structure Address where
  graph : Text
  hops : List Hop := []

structure Edit where
  typeName : Option Text := none
  message : Option (Option Text) := none
  frames : Option (List Frame) := none
  origin : Option Origin := none

def Edit.apply (e : Edit) (f : Failure Nat) : Failure Nat :=
  { f with
    typeName := e.typeName.getD f.typeName
    message := e.message.getD f.message
    frames := e.frames.getD f.frames
    origin := e.origin.getD f.origin }

inductive Step
  | new (name typeName : Text) (message : Option Text) (frames : List Frame)
  | decode (name text : Text) (codec : Codec)
  | copy (name : Text) (source : Address)
  | discard (name : Text)
  | state (name : Text)
  | edit (place : Address) (edit : Edit)
  | cause (place source : Address)
  | suppress (place source : Address)
  | backRef (place target : Address)
  | takeCause (place : Address) (name : Text)
  | encode (place : Address) (config : Config)
  | inspect (place : Address)
  | find (place target : Address)
  | resolve (place holder : Address)
  | compare (a b : Address)
  | transform (name : Text) (calls : List (Transform.Builder.Call Nat)) (keepRoot : Bool)
  | contextNew (context : Text)
  | contextSet (context : Text) (calls : List (Transform.Builder.Call Nat))
  | contextClear (context : Text)
  | contextGet (context : Text)
  | contextInherit (context child : Text)
  | contextTransform (context name : Text)
  | contextRethrow (context name : Text)

inductive Outcome
  | nothing
  | unreadable (error : DecodeError)
  | graph (f : Failure Nat)
  | text (t : Text)
  | inspected (f : Failure Nat)
  | found (f : Option (Failure Nat))
  | resolved (link : BackRef Nat) (f : Option (Failure Nat))
  | compared (alike sameId : Bool)
  | transformed (answers : List (Except ConfigError Unit)) (f : Option (Failure Nat))
  | defaultSet (answers : List (Except ConfigError Unit)) (previous : Option (Transform Nat))
  | previousDefault (t : Option (Transform Nat))
  | currentDefault (t : Option (Transform Nat))

namespace Session

def node? (s : Session) (a : Address) : Option (Failure Nat) :=
  (s.graphs.lookup a.graph).bind (·.at? a.hops)

def putGraph (s : Session) (name : Text) (f : Failure Nat) : Session :=
  { s with graphs := s.graphs.put name f }

def putContext (s : Session) (name : Text) (c : Context Nat) : Session :=
  { s with contexts := s.contexts.put name c }

def discardGraph (s : Session) (name : Text) : Session := { s with graphs := s.graphs.erase name }

def store (s : Session) (name : Text) (f : Failure Nat) : Outcome × Session :=
  (.graph f, s.putGraph name f)

/-- Changes the failure at a place and shows the graph that it belongs to. -/
def change? (s : Session) (a : Address) (change : Failure Nat → Failure Nat) :
    Option (Outcome × Session) := do
  let f ← s.graphs.lookup a.graph
  some (s.store a.graph (← f.updateAt? change a.hops))

/-- Empties the cause slot at a place. An owned cause becomes the graph of that name; otherwise no
graph has the name afterwards. -/
def takeCause? (s : Session) (a : Address) (name : Text) : Option (Outcome × Session) := do
  let f ← s.node? a
  let (_, s) ← s.change? a ({ · with cause := .none })
  match f.source? with
  | some c => some (s.store name c)
  | none => some (.nothing, s.discardGraph name)

/-- What a step tells and the session after it, if everything that the step names is there. -/
def perform? (s : Session) : Step → Option (Outcome × Session)
  | .new name typeName message frames =>
    let f := { Failure.ofType s.next typeName with message, frames }
    some ({ s with next := s.next + 1 }.store name f)
  | .decode name text codec =>
    match codec.decodeFrom s.next text with
    | .error e => some (.unreadable e, s)
    | .ok f => some ({ s with next := s.next + f.walk.length }.store name f)
  | .copy name source => do some (s.store name (← s.node? source))
  | .discard name => do
    let _ ← s.graphs.lookup name
    some (.nothing, s.discardGraph name)
  | .state name => do some (.graph (← s.graphs.lookup name), s)
  | .edit place edit => s.change? place edit.apply
  | .cause place source => do
    let c ← s.node? source
    s.change? place ({ · with cause := .owned c })
  | .suppress place source => do
    let f ← s.node? source
    s.change? place fun g => { g with suppressed := g.suppressed ++ [f] }
  | .backRef place target => do
    let f ← s.node? target
    s.change? place ({ · with cause := .backRef f.link })
  | .takeCause place name => s.takeCause? place name
  | .encode place config => do some (.text ((← s.node? place).print config), s)
  | .inspect place => do some (.inspected (← s.node? place), s)
  | .find place target => do
    let f ← s.node? place
    some (.found (f.find? (← s.node? target).id), s)
  | .resolve place holder => do
    let f ← s.node? place
    let link ← (← s.node? holder).cause.backRef?
    some (.resolved link (f.resolve? link), s)
  | .compare a b => do
    let f ← s.node? a
    let g ← s.node? b
    some (.compared (f.alike g) (f.id = g.id), s)
  | .transform name calls keepRoot => do
    let f ← s.graphs.lookup name
    let (answers, b) := Transform.Builder.run {} calls
    match if keepRoot then some (b.rules.applyKeepingRoot f) else b.rules.apply f with
    | some g => some (.transformed answers (some g), s.putGraph name g)
    | none => some (.transformed answers none, s.discardGraph name)
  | .contextNew context => some (.nothing, s.putContext context {})
  | .contextSet context calls => do
    let c ← s.contexts.lookup context
    let (answers, b) := Transform.Builder.run {} calls
    let (c, previous) := c.setDefault b.rules
    some (.defaultSet answers previous, s.putContext context c)
  | .contextClear context => do
    let (c, previous) := (← s.contexts.lookup context).clearDefault
    some (.previousDefault previous, s.putContext context c)
  | .contextGet context => do some (.currentDefault (← s.contexts.lookup context).default?, s)
  | .contextInherit context child => do
    some (.nothing, s.putContext child (← s.contexts.lookup context).inherit)
  | .contextTransform context name => do
    let c ← s.contexts.lookup context
    some (s.store name (c.transform (← s.graphs.lookup name)))
  | .contextRethrow context name => do
    let c ← s.contexts.lookup context
    match (c.rethrow (← s.graphs.lookup name) : Except (Failure Nat) Empty) with
    | .error f => some (s.store name f)

/-- What a step tells, `none` if something that it names is not there, and the session after it. -/
def perform (s : Session) (step : Step) : Option Outcome × Session :=
  match s.perform? step with
  | some (outcome, s) => (some outcome, s)
  | none => (none, s)

def run (s : Session) : List Step → List (Option Outcome)
  | [] => []
  | step :: steps =>
    let (outcome, s) := s.perform step
    outcome :: s.run steps

end Session
end Stacktrace
