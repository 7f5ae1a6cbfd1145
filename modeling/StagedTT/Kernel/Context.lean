import StagedTT.Kernel.Error
import StagedTT.Kernel.Signature
import StagedTT.Term.Substitution
import StagedTT.Term.Text

/-!
# Contexts

The binders around a term that is being checked, with their types, and the phase it is checked
in. Each type is written under the binders outside its own, so looking one up moves it under all
binders between its scope and the place of use.
-/

namespace StagedTT

/-- The types of the enclosing binders, and the phase of the code inside them. -/
structure Context where
  phase : Phase
  /-- The types, that of the innermost binder first. -/
  types : List Term
  deriving DecidableEq

namespace Context

/-- The context of closed code. -/
def empty (phase : Phase) : Context := ⟨phase, []⟩

/-- The context of binders that are listed from the outermost one inward. -/
def ofOutermostFirst (phase : Phase) (types : List Term) : Context := ⟨phase, types.reverse⟩

/-- The context under one more binder. -/
def bind (ctx : Context) (type : Term) : Context := { ctx with types := type :: ctx.types }

/-- The number of binders. -/
def size (ctx : Context) : Nat := ctx.types.length

/-- Whether there is no binder. -/
def isEmpty (ctx : Context) : Bool := ctx.types.isEmpty

/-- The type of the binder at a level, as it reads outside this binder. -/
def typeAt? (ctx : Context) (level : Nat) : Option Term := ctx.types.reverse[level]?

/-- The type of a variable, as it reads inside all the binders. -/
def lookup [IndexArithmetic] (ctx : Context) (index : Nat) : Except KernelError Term :=
  match (Index.toLevel? index ctx.size).bind ctx.typeAt? with
  | some type => KernelError.inRange do type.shift? (← Index.raised? index 1) 0
  | none => .error (.unboundIndex index ctx.size)

theorem typeAt?_toLevel? (ctx : Context) (index : Nat) :
    (Index.toLevel? index ctx.size).bind ctx.typeAt? = ctx.types[index]? := by
  unfold Index.toLevel? typeAt? size
  split
  · next h =>
    rw [Option.bind_some, List.getElem?_reverse (by omega),
      show ctx.types.length - 1 - (ctx.types.length - index - 1) = index by omega]
  · next h => rw [Option.bind_none, List.getElem?_eq_none (Nat.not_lt.1 h)]

/-- If indices have no bound, a variable that is found has its type. -/
theorem lookup_eq (ctx : Context) (index : Nat) :
    ctx.lookup index =
      match ctx.types[index]? with
      | some type => .ok (type.shift (index + 1) 0)
      | none => .error (.unboundIndex index ctx.size) := by
  rw [lookup, typeAt?_toLevel?]
  cases ctx.types[index]? with
  | none => rfl
  | some type =>
    show KernelError.inRange (type.shift? (index + 1) 0) = _
    rw [Term.shift?_eq_shift]
    rfl

/-- Refuses to let `term` be in object code. -/
def requireMetalevel (ctx : Context) (term : Term) : Except KernelError Unit :=
  match ctx.phase with
  | .metalevel => .ok ()
  | .object => .error (.stagedTerm term.text)

end Context

end StagedTT
