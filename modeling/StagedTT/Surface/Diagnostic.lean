import StagedTT.Kernel.Error
import StagedTT.Kernel.Signature
import StagedTT.Surface.SExpr

/-!
# Diagnostics

What may be wrong with an expression, and where. A diagnostic has a message, a code
for the kind of fault, and for some kinds a hint.
-/

namespace StagedTT

/-- What is wrong with an expression. -/
inductive Fault where
  /-- A symbol that no binder and no definition has for its name. -/
  | unknownIdentifier (name : String)
  /-- A form that is not written as it must be. -/
  | malformedForm (form reason : String)
  /-- A call of something that cannot be expanded. -/
  | notExpandable (name : String)
  /-- A term that the kernel refuses. -/
  | kernel (error : KernelError)
  /-- A definition of a name that is taken. -/
  | redefinition (name : String)
  deriving DecidableEq

instance : OutOfFuel Fault := ⟨fun steps => .kernel (.nonTermination steps)⟩

/-- A fault and the place it is reported at. -/
structure Diagnostic where
  fault : Fault
  location : Location
  deriving DecidableEq

namespace Diagnostic

/-- What a diagnostic says: the fault, and the place it is reported at. -/
def message (d : Diagnostic) : String :=
  let place := d.location.text
  match d.fault with
  | .unknownIdentifier name => s!"unknown identifier `{name}` at {place}"
  | .malformedForm form reason => s!"malformed {form} at {place}: {reason}"
  | .notExpandable name => s!"`{name}` is not a macro at {place}"
  | .kernel error => s!"{error.message} at {place}"
  | .redefinition name => s!"{Signature.redefinitionMessage name} at {place}"

end Diagnostic

namespace Fault

/-- The code of a kind of fault. -/
def code : Fault → String
  | .unknownIdentifier _ => "hyle::unknown_identifier"
  | .malformedForm _ _ => "hyle::malformed_form"
  | .notExpandable _ => "hyle::unknown_macro"
  | .kernel _ => "hyle::kernel"
  | .redefinition _ => "hyle::database"

/-- The hint that a kind of fault comes with. -/
def hint? : Fault → Option String
  | .unknownIdentifier _ =>
    some "names are bound by an enclosing fn or pi, or defined by an earlier form"
  | .notExpandable _ =>
    some "only definitions introduced with defmeta and carrying a body can be expanded"
  | _ => none

end Fault

/-- Reports a fault at this place. -/
def Location.fail {α : Type} (location : Location) (fault : Fault) : Except Diagnostic α :=
  .error ⟨fault, location⟩

/-- Reports the fault of a computation at this place. -/
def Location.report {α : Type} (location : Location) (result : Except Fault α) :
    Except Diagnostic α :=
  result.mapError (⟨·, location⟩)

/-- Reports a refusal of the kernel at this place. -/
def Location.reportKernel {α : Type} (location : Location) (result : Except KernelError α) :
    Except Diagnostic α :=
  location.report (result.mapError .kernel)

end StagedTT
