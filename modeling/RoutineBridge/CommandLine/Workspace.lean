import RoutineBridge.CommandLine.Files
import RoutineBridge.SortedMap
import RoutineBridge.Text.Lines

/-!
# Workspaces

Files below one folder, as a value, with as much as a run can notice of what lies around it: the
folders that every system has, those the run makes, and the null device. Texts written outside the
workspace are not kept.
-/

namespace RoutineBridge

namespace Workspace

/-- Where the names of a place are counted from. -/
inductive Base where
  | workspace
  /-- So many folders above the workspace. -/
  | above (levels : Nat)
  | root
deriving DecidableEq, Repr

/-- Where a path leads. -/
structure Place where
  base : Base
  names : List String
deriving DecidableEq, Repr

namespace Place

def workspace : Place := ⟨.workspace, []⟩

def start (path : String) : Place := if Path.isRooted path then ⟨.root, []⟩ else workspace

def child (p : Place) (name : String) : Place := { p with names := p.names ++ [name] }

/-- The folder around a folder; the root is its own. -/
def parent (p : Place) : Place :=
  match p.base, p.names with
  | .workspace, [] => ⟨.above 1, []⟩
  | .above n, [] => ⟨.above (n + 1), []⟩
  | base, names => ⟨base, names.dropLast⟩

def path (p : Place) : String := "/".intercalate p.names

/-- The folders below the root that every system has. -/
def known : List String :=
  ["bin", "boot", "dev", "etc", "home", "lib", "media", "mnt", "opt", "root", "run", "sbin", "srv",
   "tmp", "usr", "var"]

/-- The device that holds nothing and takes everything. -/
def null : Place := ⟨.root, ["dev", "null"]⟩

/-- A folder that is there before anything is made. -/
def isGiven (p : Place) : Bool :=
  p.names.isEmpty || (p.base == .root && known.any fun name => p.names == [name])

end Place

end Workspace

open Workspace in
/-- Files and folders below one folder. -/
structure Workspace where
  /-- Texts by path, the names of a path having slashes between them. -/
  files : SortedMap String String
  /-- The folders that are known to be there, inside and outside. -/
  folders : List Place
deriving Inhabited

namespace Workspace

def foldersOf (file : String) : List Place :=
  let names := (Path.names file).dropLast
  (List.range names.length).map fun i => ⟨.workspace, names.take (i + 1)⟩

/-- The workspace that holds some files, with the folders they stand in. -/
def ofFiles (files : SortedMap String String) : Workspace :=
  ⟨files, files.keys.flatMap foldersOf⟩

def hasFolder (w : Workspace) (p : Place) : Bool := p.isGiven || w.folders.contains p

def hasFile (w : Workspace) (p : Place) : Bool :=
  p == .null || (p.base == .workspace && w.files.contains p.path)

/-- Goes from a folder to the one with a name, which `make` says may be made. -/
def enter (make : Bool) (w : Workspace) (place : Place) (name : String) :
    Option (Workspace × Place) :=
  if name.isEmpty || name = "." then some (w, place)
  else if name = ".." then some (w, place.parent)
  else
    let next := place.child name
    if w.hasFolder next then some (w, next)
    else if make && !w.hasFile next then some ({ w with folders := next :: w.folders }, next)
    else none

/-- Goes along a list of names. -/
def walk (make : Bool) (w : Workspace) (place : Place) : List String → Option (Workspace × Place)
  | [] => some (w, place)
  | name :: names =>
    match w.enter make place name with
    | some (w, place) => walk make w place names
    | none => none

/-- The place of a file: its folder is there, and its name is one that a file can have. -/
def filePlace (w : Workspace) (p : String) : Option Place :=
  let names := Path.names p
  if !Path.isPossible p then none
  else
    match names.getLast?, w.walk false (.start p) names.dropLast with
    | some name, some (_, folder) =>
      if name.isEmpty || name = "." || name = ".." then none else some (folder.child name)
    | _, _ => none

def read (w : Workspace) (p : String) : Option String :=
  match w.filePlace p with
  | some place =>
    if place = .null then some ""
    else if place.base = .workspace then w.files.get? place.path
    else none
  | none => none

def makeFolder (w : Workspace) (p : String) : Option Workspace :=
  if Path.isPossible p then (w.walk true (.start p) (Path.names p)).map (·.1) else none

def write (w : Workspace) (p text : String) : Option Workspace :=
  match w.filePlace p with
  | some place =>
    if w.hasFolder place then none
    else if place.base = .workspace then some { w with files := w.files.insert place.path text }
    else some w
  | none => none

/-- A change that may not be possible. -/
def attempt (change : Workspace → Option Workspace) : StateM Workspace Bool := fun w =>
  match change w with
  | some next => (true, next)
  | none => (false, w)

/-- A workspace that goes through a run. -/
def asFiles : Files (StateM Workspace) where
  read p := fun w => (w.read p, w)
  makeFolder p := attempt (·.makeFolder p)
  write p text := attempt (·.write p text)

end Workspace

end RoutineBridge
