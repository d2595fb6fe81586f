import RoutineBridge.Routine.Basic

/-!
# Directives

A directive changes how a routine of a package is exposed. It always refers to routines by their
catalog names.
-/

namespace RoutineBridge

/-- What a directive does, in the order in which directives take effect. -/
inductive Directive.Verb where
  /-- The routine is not exposed. -/
  | hide
  | rename
  | replace
  /-- Replaced by a routine that takes and gives JSON. -/
  | replaceJson
  /-- A handler goes around every call of the package. -/
  | handle
  | maxTableSize
deriving DecidableEq, Repr, Inhabited

namespace Directive.Verb

/-- The verb that a word stands for, in either case. -/
def ofWord? (word : String) : Option Verb :=
  let word := Text.asciiLower word
  if word = "private" then some hide
  else if word = "rename" then some rename
  else if word = "replace" then some replace
  else if word = "replace_json" then some replaceJson
  else if word = "handle" then some handle
  else if word = "max-table-size" ∨ word = "max_table_size" then some maxTableSize
  else none

def word : Verb → String
  | hide => "private"
  | rename => "rename"
  | replace => "replace"
  | replaceJson => "replace_json"
  | handle => "handle"
  | maxTableSize => "max-table-size"

/-- The place of a verb in the order of effects. -/
def rank : Verb → Nat
  | hide => 0
  | rename => 1
  | replace => 2
  | replaceJson => 3
  | handle => 4
  | maxTableSize => 5

end Directive.Verb

structure Directive where
  package : String
  verb : Directive.Verb
  name : String
  /-- The second name of a rename or a replacement. -/
  other : Option String
  /-- The size of a table cap. -/
  size : Option Nat
  /-- The line of the source it stands on, if it comes from a source. -/
  line : Option Nat
deriving DecidableEq, Repr, Inhabited

namespace Directive

/-- The catalog key of the routine it is about. -/
def targetKey (d : Directive) : String := qualify d.package d.name

/-- The catalog key of its second name. -/
def otherKey? (d : Directive) : Option String := d.other.map (qualify d.package)

/-- What follows the package in the written form. -/
def clause (d : Directive) : String :=
  let head := d.verb.word ++ " " ++ d.name
  match d.other, d.size with
  | some other, _ => head ++ " => " ++ other
  | none, some size => s!"{head}={size}"
  | none, none => head

/-- The directive as it is written in messages. -/
def display (d : Directive) : String := d.package ++ "." ++ d.clause

instance : ToString Directive := ⟨display⟩

end Directive

end RoutineBridge
