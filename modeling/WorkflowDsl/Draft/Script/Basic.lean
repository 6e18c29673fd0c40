import WorkflowDsl.Codec.Basic
import WorkflowDsl.Duration

/-!
# Scripts

A draft can be changed by a script: a sequence of steps, each of which is a sequence of a name and
arguments. Steps are carried out one after another, up to the first that fails. A step of unknown
name, or with arguments that it does not take, changes nothing.
-/

namespace WorkflowDsl.Script

/-- What a step does to a draft, given its name and arguments. -/
abbrev Step (σ : Type) := σ → String → List Node → Except DefinitionError σ

/-- The items of a sequence; none for any other node. -/
def items : Node → List Node
  | .sequence ns => ns
  | _ => []

/-- The text of an argument; empty if it is none. -/
def textOf (n : Node) : String := n.string?.getD ""

/-- The number of an argument; zero if it is none. -/
def natOf : Node → Nat
  | .number (.int n) => n.toNat
  | _ => 0

def isTrue : Node → Bool
  | .bool b => b
  | _ => false

/-- A text, a number of milliseconds, or components. -/
def durationOf : Node → Except DefinitionError Duration
  | .number (.int n) => .ok (.ofMillis (.ofNat n.toNat))
  | n => Duration.codec.decode n

/-- The duration that stands first among arguments, if any. -/
def duration? : List Node → Except DefinitionError (Option Duration)
  | [] => .ok none
  | .null :: _ => .ok none
  | n :: _ => (durationOf n).map some

variable {σ : Type}

/-- Carries out one step. -/
def apply (step : Step σ) (s : σ) (call : Node) : Except DefinitionError σ :=
  match items call with
  | .string name :: args => step s name args
  | _ => .ok s

/-- Carries out all steps. -/
def run (step : Step σ) (s : σ) (script : Node) : Except DefinitionError σ :=
  (items script).foldlM (apply step) s

/-- What is built before the first step and after each. A failed step is the outcome of all that
follow. -/
def outcomes {α : Type} (step : Step σ) (build : σ → Except DefinitionError α) :
    Except DefinitionError σ → List Node → List (Except DefinitionError α)
  | s, [] => [s.bind build]
  | s, call :: rest => s.bind build :: outcomes step build (s.bind (apply step · call)) rest

end WorkflowDsl.Script
