import StagedTT.Kernel.Reduction
import StagedTT.Surface.Diagnostic
import StagedTT.Term.Text

/-!
# Expansion

Expansion runs the metalevel code in a term. A suspended call is replaced by what the called
definition computes from the arguments, less one quotation, and the result is expanded again. A
splice is replaced by its body, less one quotation. What is quoted stays as it is.

Each call costs one unit of fuel, and the computation of its result has a budget of its own.
`Environment.expandMetered_eq` is the recursion equation.
-/

namespace StagedTT

/-- A quotation's body, and any other term as it is. -/
def Term.unquote : Term → Term
  | .quote body => body
  | t => t

/-- The value of a metalevel definition that a call may run. -/
def Signature.callable? (sig : Signature) : (head : Term) → Option Term
  | .const name =>
    match sig.find? name with
    | some ⟨.metalevel, _, value?⟩ => value?
    | _ => none
  | _ => none

namespace Environment

section Arithmetic

variable [IndexArithmetic]

/-- What a call of a metalevel value computes. -/
def runCall (env : Environment) (value : Term) (args : List Term) : Except Fault Term :=
  match env.normalize (value.applyAll args) with
  | .ok result => .ok result.unquote
  | .error e => .error (.kernel e)

/-- What expansion does with a term, where `again` is what it does with the result of a call. -/
def expandBody (env : Environment) (again : Term → Metered Fault Term) :
    Term → Metered Fault Term
  | .call head args =>
    match env.signature.callable? head with
    | none => Metered.fail (.notExpandable head.text)
    | some value => do
      Metered.burn
      let result ← Metered.ofExcept (env.runCall value args)
      again result
  | .splice body => do
    let body ← expandBody env again body
    return body.unquote
  | .pi domain body => do
    let domain ← expandBody env again domain
    let body ← expandBody env again body
    return .pi domain body
  | .lam domain body => do
    let domain ← expandBody env again domain
    let body ← expandBody env again body
    return .lam domain body
  | .app fn arg => do
    let fn ← expandBody env again fn
    let arg ← expandBody env again arg
    return .app fn arg
  | .quote body => pure (.quote body)
  | .sort level => pure (.sort level)
  | .const name => pure (.const name)
  | .num value => pure (.num value)
  | .str value => pure (.str value)
  | .var index => pure (.var index)

/-- Replaces the calls and splices in a term, as long as the fuel lasts. -/
def expandMetered (env : Environment) : Term → Metered Fault Term :=
  Metered.fix (expandBody env)

/-- Replaces the calls and splices in a term, on a fresh budget. -/
def expand (env : Environment) (t : Term) : Except Fault Term :=
  (env.expandMetered t).runFresh env.limits.expansions

section Guarded

open Metered

variable {env : Environment}

private theorem spends_expandBody {f : Term → Metered Fault Term} (hf : ∀ t, Spends (f t))
    (t : Term) : Spends (env.expandBody f t) := by
  induction t with
  | call head args =>
    unfold expandBody
    split
    · exact .fail _
    · exact .bind .burn fun _ => .bind (.ofExcept _) fun _ => hf _
  | splice body ih => exact .bind ih fun _ => .pure _
  | pi domain body ihd ihb | lam domain body ihd ihb =>
    exact .bind ihd fun _ => .bind ihb fun _ => .pure _
  | app fn arg ihf iha => exact .bind ihf fun _ => .bind iha fun _ => .pure _
  | quote | sort | const | num | str | var => exact .pure _

private theorem agree_expandBody {f g : Term → Metered Fault Term} {n : Nat}
    (hf : ∀ t, Spends (f t)) (h : ∀ t, AgreeBelow n (f t) (g t)) (t : Term) :
    AgreeUpTo n (env.expandBody f t) (env.expandBody g t) := by
  have hs : ∀ t, Spends (env.expandBody f t) := spends_expandBody hf
  induction t with
  | call head args =>
    unfold expandBody
    split
    · exact .refl n _
    · exact AgreeBelow.burn_bind (.bind (.ofExcept _) (fun _ _ => rfl) fun _ => h _)
  | splice body ih => exact .bind (hs body) ih fun _ => .refl n _
  | pi domain body ihd ihb | lam domain body ihd ihb =>
    exact .bind (hs domain) ihd fun _ => .bind (hs body) ihb fun _ => .refl n _
  | app fn arg ihf iha => exact .bind (hs fn) ihf fun _ => .bind (hs arg) iha fun _ => .refl n _
  | quote | sort | const | num | str | var => exact .refl n _

theorem guarded_expandBody (env : Environment) : Guarded (expandBody env) where
  spends _ hf t := spends_expandBody hf t
  congr _ _ hf _ _ h t := agree_expandBody hf h t

end Guarded

theorem expandMetered_eq (env : Environment) (t : Term) :
    env.expandMetered t = env.expandBody env.expandMetered t :=
  Metered.fix_eq (guarded_expandBody env) t

theorem spends_expandMetered (env : Environment) (t : Term) :
    Metered.Spends (env.expandMetered t) :=
  Metered.spends_fix (guarded_expandBody env) t

end Arithmetic

end Environment

end StagedTT
