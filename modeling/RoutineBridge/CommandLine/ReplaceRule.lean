import RoutineBridge.Routine.Directive
import RoutineBridge.Text.Lines
import RoutineBridge.Text.Quoted

/-!
# Replace rules

A rule `package.name => other` on the command line is a directive: the routine `other` of the same
package stands in for `name`.
-/

namespace RoutineBridge

inductive ReplaceRuleError where
  | malformed (rule : String)
  | emptyName (rule : String)
deriving DecidableEq, Repr

def ReplaceRuleError.message : ReplaceRuleError → String
  | malformed rule => "replace rule " ++ Text.quoted rule ++ ": expected pkg.a=>b"
  | emptyName rule => "replace rule " ++ Text.quoted rule ++ ": empty name"

namespace ReplaceRule

/-- The package, the name and the other name of a rule. -/
def cut? (rule : List Char) : Option (List Char × List Char × List Char) := do
  let (target, other) ← Text.splitAt? ['=', '>'] rule
  let (package, name) ← Text.splitAt? ['.'] (Text.trim target)
  pure (package, name, Text.trim other)

def read (rule : String) : Except ReplaceRuleError Directive :=
  match cut? rule.toList with
  | none => .error (.malformed rule)
  | some (package, name, other) =>
    if package.isEmpty || name.isEmpty || other.isEmpty then .error (.emptyName rule)
    else
      .ok
        { package := String.ofList package
          verb := .replace
          name := String.ofList name
          other := some (String.ofList other)
          size := none
          line := none }

end ReplaceRule

end RoutineBridge
