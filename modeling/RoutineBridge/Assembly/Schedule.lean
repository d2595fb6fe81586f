import RoutineBridge.Catalog.Resolver
import RoutineBridge.Source.Package

/-!
# Side by side

Gathering has one job for every package and one for every composite type that is used. Jobs are
inquiries. So many of them run at a time, a look-up takes its time, and what one job is looking up
already another job waits for. The clock stands still while there is something to do.
-/

namespace RoutineBridge

/-- Why a package contributes no documentation. -/
inductive DocsError where
  | catalog (e : CatalogError)
  | lex (e : LexError)
deriving DecidableEq, Repr

def DocsError.message : DocsError → String
  | .catalog e => e.message
  | .lex e => e.message

/-- What a job has found out. -/
inductive Finding where
  | docs (package : String) (result : Except DocsError PackageDocs)
  | resolution (r : Composite.Ref) (result : Except ResolveError Resolution)

/-- Something to find out. -/
inductive Job where
  | docs (package : String)
  | resolution (r : Composite.Ref)
deriving DecidableEq, Repr

namespace Job

/-- What the source of a package contributes. -/
def readDocs (markers : List String) (package : String) :
    Except CatalogError (Option String) → Except DocsError PackageDocs
  | .error e => .error (.catalog e)
  | .ok none => .ok (.empty package)
  | .ok (some source) =>
    match PackageDocs.ofSource markers package source with
    | .ok contribution => .ok contribution
    | .error e => .error (.lex e)

def inquiry (typeCount : Nat) (markers : List String) : Job → Inquiry Finding
  | docs package =>
    .source package fun answer => .done (.docs package (readDocs markers package answer))
  | resolution r =>
    (RoutineBridge.resolution typeCount r).run.bind fun result => .done (.resolution r result)

end Job

namespace Schedule

/-- A job that can go on. -/
inductive Ready where
  /-- It has not started; it needs a free place. -/
  | start (job : Inquiry Finding)
  /-- It has a place and can go on. -/
  | resume (job : Inquiry Finding)
  /-- The definition it was looking up has arrived. -/
  | arrived (kind : Composite.Kind) (name : TypeName)
      (next : Except ResolveError Definition → Inquiry Finding)

/-- A job that waits for the definition another job is looking up. -/
structure Waiting where
  name : TypeName
  next : Except ResolveError Definition → Inquiry Finding

/-- All jobs on their way. -/
structure State where
  /-- In milliseconds. -/
  clock : Nat
  /-- Places for jobs to run. -/
  free : Nat
  /-- Jobs that can go on now, in order. -/
  ready : List Ready
  /-- Jobs that wait for a place, in order. -/
  queued : List (Inquiry Finding)
  /-- Look-ups under way with the time they end, in order. -/
  asleep : List (Nat × Ready)
  waiting : List Waiting
  lookups : Lookups
  findings : List Finding

/-- Gives a place that has become free to the next job in the queue. -/
def State.release (s : State) : State :=
  match s.queued with
  | job :: rest => { s with queued := rest, ready := s.ready ++ [.resume job] }
  | [] => { s with free := s.free + 1 }

/-- Lets a job run until it is done or has to wait. -/
def State.advance (c : Catalog) : Inquiry Finding → State → State
  | .done finding, s => { s with findings := s.findings ++ [finding] }.release
  | .define kind name next, s =>
    match s.lookups.definitions.get? name with
    | some answer => advance c (next answer) s
    | none =>
      if s.lookups.definitions.requested name then
        { s with waiting := s.waiting ++ [⟨name, next⟩] }
      else if c.latency = 0 then
        let (answer, lookups) := s.lookups.define c kind name
        advance c (next answer) { s with lookups }
      else
        { s with
          lookups := ⟨s.lookups.definitions.request name, s.lookups.fetches + 1⟩
          asleep := s.asleep ++ [(s.clock + c.latency, .arrived kind name next)] }
  | .source package next, s =>
    if c.latency = 0 then advance c (next (c.source package)) s
    else
      { s with
        asleep := s.asleep ++ [(s.clock + c.latency, .resume (next (c.source package)))] }

/-- Stores a definition that has arrived and wakes the jobs that wait for it. -/
def State.store (s : State) (name : TypeName) (answer : Except ResolveError Definition) : State :=
  let (woken, waiting) := s.waiting.partition (·.name == name)
  { s with
    lookups := { s.lookups with definitions := s.lookups.definitions.complete name answer }
    waiting
    ready := s.ready ++ woken.map fun w => .resume (w.next answer) }

/-- Lets the next job go on. -/
def State.poll (c : Catalog) (s : State) : Ready → State
  | .start job =>
    if s.free = 0 then { s with queued := s.queued ++ [job] }
    else { s with free := s.free - 1 }.advance c job
  | .resume job => s.advance c job
  | .arrived kind name next =>
    let answer := c.define kind name
    (s.store name answer).advance c (next answer)

/-- Moves the clock to the end of the next look-up. -/
def State.wake (s : State) : State :=
  match s.asleep with
  | [] => s
  | (time, _) :: _ =>
    { s with
      clock := time
      ready := s.ready ++ (s.asleep.takeWhile (·.1 == time)).map (·.2)
      asleep := s.asleep.dropWhile (·.1 == time) }

/-- Runs until nothing is left to do. The fuel bounds the number of steps. -/
def State.run (c : Catalog) : Nat → State → State
  | 0, s => s
  | fuel + 1, s =>
    match s.ready with
    | next :: rest => run c fuel ({ s with ready := rest }.poll c next)
    | [] => if s.asleep.isEmpty then s else run c fuel s.wake

/-- The start: every job is ready, in order. -/
def State.start (workers : Nat) (jobs : List (Inquiry Finding)) : State where
  clock := 0
  free := max workers 1
  ready := jobs.map .start
  queued := []
  asleep := []
  waiting := []
  lookups := .empty
  findings := []

/-- More steps than jobs can take: each starts once, gets a place once, and waits at most once for
the source of its package and for every type its definitions mention. -/
def fuelFor (c : Catalog) (jobs : Nat) : Nat := 2 * (jobs + 1) * (c.memberCount + 4)

def run (c : Catalog) (workers : Nat) (jobs : List (Inquiry Finding)) : State :=
  (State.start workers jobs).run c (fuelFor c jobs.length)

end Schedule

end RoutineBridge
