import StagedTT.Kernel.Context
import StagedTT.Kernel.Reduction

/-!
# Typing

Two terms are convertible if they reduce to the same normal form. `infer` computes the type of
a term, `inferSort` the universe that a type lives in, and `check` compares the type of a term
with an expected one. Every normalization on the way has a budget of its own.

Quotations, splices and suspended calls are metalevel code, and so is every constant of that
phase. A suspended call has the type of the application that it stands for.
-/

namespace StagedTT

/-- The level of the last universe. -/
def lastLevel : Nat := UInt64.size - 1

namespace Environment

section Arithmetic

variable [IndexArithmetic]

/-- Whether two terms have the same normal form. -/
def convertible (env : Environment) (left right : Term) : Except KernelError Bool :=
  if left = right then .ok true
  else do
    let left ← env.normalize left
    let right ← env.normalize right
    return left = right

/-- The level of the universe `type`, which is the type of `term`. -/
def expectSort (env : Environment) (position : String) (term type : Term) :
    Except KernelError Nat := do
  let type ← env.normalize type
  match type.level? with
  | some level => return level
  | none => throw (.notAType position term.text type.text)

/-- The domain and the codomain of the function type `type`, which is the type of `fn`. -/
def expectPi (env : Environment) (fn type : Term) : Except KernelError (Term × Term) := do
  let type ← env.normalize type
  match type with
  | .pi domain body => return (domain, body)
  | _ => throw (.notAFunction fn.text type.text)

/-- The type of the application of a function from `domain` to `body` to `arg`, which is of type
`argType`. -/
def applicationType (env : Environment) (domain body arg argType : Term) :
    Except KernelError Term := do
  if ← env.convertible argType domain then
    let type ← KernelError.inRange (body.instantiate? arg)
    env.normalize type
  else
    let found ← env.normalize argType
    throw (.argumentMismatch domain.text found.text)

omit [IndexArithmetic] in
/-- The declared type of a constant. Metalevel constants are not known to object code. -/
def constantType (env : Environment) (ctx : Context) (name : String) :
    Except KernelError Term :=
  match env.signature.find? name with
  | none => .error (.unknownConstant name)
  | some decl =>
    match decl.phase with
    | .object => .ok decl.type
    | .metalevel => do
      ctx.requireMetalevel (.const name)
      return decl.type

mutual

/-- The type of a term. -/
def infer (env : Environment) : Context → Term → Except KernelError Term
  | _, .sort level =>
    if level < lastLevel then .ok (.sort (level + 1)) else .error (.universeOverflow level)
  | ctx, .const name => env.constantType ctx name
  | _, .num _ => .ok (.const "number")
  | _, .str _ => .ok (.const "string")
  | ctx, .var index => ctx.lookup index
  | ctx, .pi domain body => do
    let domainType ← infer env ctx domain
    let domainLevel ← env.expectSort "Pi parameter" domain domainType
    let bodyType ← infer env (ctx.bind domain) body
    let bodyLevel ← env.expectSort "Pi body" body bodyType
    return .sort (max domainLevel bodyLevel)
  | ctx, .lam domain body => do
    let domainType ← infer env ctx domain
    let _ ← env.expectSort "Lambda parameter" domain domainType
    let bodyType ← infer env (ctx.bind domain) body
    return .pi domain bodyType
  | ctx, .app fn arg => do
    let fnType ← infer env ctx fn
    let (domain, body) ← env.expectPi fn fnType
    let argType ← infer env ctx arg
    env.applicationType domain body arg argType
  | ctx, .quote body => do
    ctx.requireMetalevel (.quote body)
    infer env ctx body
  | ctx, .splice body => do
    ctx.requireMetalevel (.splice body)
    infer env ctx body
  | ctx, .call head args => do
    ctx.requireMetalevel (.call head args)
    let headType ← infer env ctx head
    inferArgs env ctx head headType args

/-- The type of `fn`, which is of type `fnType`, applied to each argument in turn. -/
def inferArgs (env : Environment) : Context → (fn fnType : Term) → List Term →
    Except KernelError Term
  | _, _, fnType, [] => .ok fnType
  | ctx, fn, fnType, arg :: args => do
    let (domain, body) ← env.expectPi fn fnType
    let argType ← infer env ctx arg
    let resultType ← env.applicationType domain body arg argType
    inferArgs env ctx (.app fn arg) resultType args

end

/-- The level of the universe that a type lives in; `position` names the type in an error. -/
def inferSort (env : Environment) (ctx : Context) (position : String) (term : Term) :
    Except KernelError Nat := do
  let type ← env.infer ctx term
  env.expectSort position term type

/-- Checks that a term is of a type convertible to the expected one. -/
def check (env : Environment) (ctx : Context) (term expected : Term) :
    Except KernelError Unit := do
  let type ← env.infer ctx term
  if ← env.convertible type expected then
    return ()
  else
    let expected ← env.normalize expected
    let found ← env.normalize type
    throw (.typeMismatch expected.text found.text)

/-- A suspended call in metalevel code has the type of the application that it stands for. -/
theorem infer_applyAll (env : Environment) (ctx : Context) (fn : Term) (args : List Term) :
    env.infer ctx (fn.applyAll args) = (do
      let fnType ← env.infer ctx fn
      env.inferArgs ctx fn fnType args) := by
  induction args generalizing fn with
  | nil =>
    simp only [Term.applyAll_nil, inferArgs]
    cases env.infer ctx fn <;> rfl
  | cons arg args ih =>
    simp only [Term.applyAll_cons, ih, infer, inferArgs, bind_assoc]

end Arithmetic

/-- If indices have no bound, an application has its type as soon as the argument fits. -/
theorem applicationType_eq (env : Environment) (domain body arg argType : Term) :
    env.applicationType domain body arg argType = (do
      if ← env.convertible argType domain then
        env.normalize (body.instantiate arg)
      else
        let found ← env.normalize argType
        throw (.argumentMismatch domain.text found.text)) := by
  rw [applicationType, Term.instantiate?_eq_instantiate]
  rfl

end Environment

end StagedTT
