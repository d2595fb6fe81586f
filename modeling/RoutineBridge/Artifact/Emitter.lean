import RoutineBridge.Artifact.Fixture
import RoutineBridge.Artifact.Schema
import RoutineBridge.Artifact.Wrapper

/-!
# Emitters

The three kinds of artifacts, and what a run emits.
-/

namespace RoutineBridge

inductive Emitter where
  | schema
  | wrapper
  | fixtures
deriving DecidableEq, Repr

namespace Emitter

/-- All kinds, in the order they are emitted. -/
def all : List Emitter := [schema, wrapper, fixtures]

def name : Emitter → String
  | schema => "proto"
  | wrapper => "wrapper"
  | fixtures => "fixtures"

def emit (e : Emitter) (m : Model) (options : Options) : Except EmitError (List Artifact) :=
  match e with
  | schema => Schema.artifacts m options
  | wrapper => Wrapper.artifacts m options
  | fixtures => Fixture.artifacts m options

/-- The artifacts of several kinds, one kind after the other. -/
def emitAll (es : List Emitter) (m : Model) (options : Options) :
    Except EmitError (List Artifact) :=
  (es.mapM fun e : Emitter => e.emit m options).map List.flatten

end Emitter

end RoutineBridge
