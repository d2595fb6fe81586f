import RoutineBridge.Assembly.Basic
import RoutineBridge.Assembly.Schedule

/-!
# Gathering

A run takes the rows of a catalog, finds out about the packages and types that come up in them, and
brings everything together. Only gathering is under a deadline.
-/

namespace RoutineBridge.Gathering

/-- What a run is asked for. -/
structure Request where
  catalog : Catalog
  options : Options
  /-- The objects that take part. -/
  keep : String → Bool
  /-- Directives from outside the sources. -/
  directives : List Directive

/-- The jobs that a row gives rise to: its package, and the type it refers to. -/
def jobsOfRow (r : ArgumentRow) : List Job :=
  .docs (Text.asciiUpper r.package) ::
    match r.spec.compositeKind?, r.spec.typeRef with
    | some kind, some name => [.resolution ⟨kind, name⟩]
    | _, _ => []

/-- The entries of a list that are not among `seen`, each once, in order. -/
def distinct {α : Type} [BEq α] (seen : List α) : List α → List α
  | [] => []
  | a :: as => if seen.contains a then distinct seen as else a :: distinct (a :: seen) as

/-- The jobs of a list of rows, each once, in order. -/
def jobsOfRows (rows : List ArgumentRow) : List Job := distinct [] (rows.flatMap jobsOfRow)

def resolutionsOf (findings : List Finding) : Resolutions :=
  .ofList <| findings.filterMap fun
    | .resolution r result => some (r, result)
    | .docs .. => none

/-- The documentation among findings. -/
def docsOf (findings : List Finding) : SortedMap String (Except DocsError PackageDocs) :=
  .ofList <| findings.filterMap fun
    | .docs package result => some (package, result)
    | .resolution .. => none

/-- What a package contributes; nothing if its source could not be read. -/
def contribution (package : String) : Except DocsError PackageDocs → PackageDocs
  | .ok docs => docs
  | .error _ => .empty package

/-- A warning for every package whose source could not be read, in order of packages. -/
def docsWarnings (docs : SortedMap String (Except DocsError PackageDocs)) : List String :=
  docs.entries.filterMap fun
    | (package, .error e) => some (package ++ ": " ++ e.message)
    | (_, .ok _) => none

/-- Everything that findings contribute. -/
def gathered (q : Request) (signatures : List Signature) (findings : List Finding) (fetches : Nat) :
    Gathered :=
  let docs := docsOf findings
  { signatures
    resolutions := resolutionsOf findings
    packages := .ofList (docs.entries.map fun (package, result) =>
      (package, contribution package result))
    extraDirectives := q.directives
    warnings := docsWarnings docs
    typeFetches := fetches }

/-- The rows that take part, their signatures and the jobs they give rise to. -/
def prepare (q : Request) : Except AssemblyError (List Signature × List Job) :=
  match q.catalog.argumentRows with
  | .error e => .error (.catalog e)
  | .ok rows =>
    match Grouping.signatures q.keep rows with
    | .error e => .error (.rows e)
    | .ok signatures => .ok (signatures, jobsOfRows (rows.filter (Grouping.accepts q.keep)))

def inquiries (q : Request) (jobs : List Job) : List (Inquiry Finding) :=
  jobs.map (Job.inquiry q.catalog.typeCount q.options.markers)

/-- Gathers and brings together. -/
def run (q : Request) : Except AssemblyError (Model × Summary) := do
  let (signatures, jobs) ← prepare q
  let finished := Schedule.run q.catalog q.options.workers (inquiries q jobs)
  if finished.clock > 1000 * q.options.deadlineSecs then
    throw (.timeout q.options.deadlineSecs)
  else
    Assembly.assemble q.options (gathered q signatures finished.findings finished.lookups.fetches)

end RoutineBridge.Gathering
