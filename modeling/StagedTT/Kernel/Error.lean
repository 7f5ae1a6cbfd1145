import StagedTT.Fuel

/-!
# Kernel errors

What reduction and typing may report. The terms in an error are kept as the text they are shown
by, so an error says what it said when it arose, whatever is defined later.
-/

namespace StagedTT

/-- A failure of the typing judgment or of reduction. -/
inductive KernelError where
  /-- A constant that is not declared. -/
  | unknownConstant (name : String)
  /-- A variable whose binder is not in the context. -/
  | unboundIndex (index depth : Nat)
  /-- A term that should be a type, as `position` has it, but whose type is no universe. -/
  | notAType (position term found : String)
  /-- An applied term whose type is no function type. -/
  | notAFunction (term found : String)
  /-- An argument of another type than the function takes. -/
  | argumentMismatch (expected found : String)
  /-- A term of another type than it is checked against. -/
  | typeMismatch (expected found : String)
  /-- Metalevel code in object code. -/
  | stagedTerm (term : String)
  /-- A universe that is the last one. -/
  | universeOverflow (level : Nat)
  /-- A computation that has used up its budget of steps. -/
  | nonTermination (steps : Nat)
  /-- A sum of indices that no machine word holds. The run stops at it, in a build that checks for
  it; it is nothing that the kernel finds out about a term. -/
  | indexOverflow
  deriving DecidableEq

instance : OutOfFuel KernelError := ⟨.nonTermination⟩

/-- What an error says. -/
def KernelError.message : KernelError → String
  | .unknownConstant name => s!"unknown constant `{name}`"
  | .unboundIndex index depth => s!"variable #{index} escapes a context of {depth} binders"
  | .notAType position term found => s!"{position} is not a type: `{term}` has type `{found}`"
  | .notAFunction term found => s!"`{term}` is not a function, its type is `{found}`"
  | .argumentMismatch expected found =>
    s!"argument type mismatch: expected `{expected}`, found `{found}`"
  | .typeMismatch expected found => s!"type mismatch: expected `{expected}`, found `{found}`"
  | .stagedTerm term => s!"staging construct `{term}` in object code"
  | .universeOverflow level => s!"no universe above `(sort {level})`"
  | .nonTermination steps => s!"no termination after {steps} steps"
  | .indexOverflow => "attempt to add with overflow"

/-- What has been computed with indices, if no sum has stopped the run. -/
def KernelError.inRange {α : Type} : Option α → Except KernelError α
  | some a => .ok a
  | none => .error .indexOverflow

end StagedTT
