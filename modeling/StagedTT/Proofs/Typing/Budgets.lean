import StagedTT.Proofs.Typing.Imitation

/-!
# Budgets of the kernel

Reduction outlasts itself: more fuel never changes an answer (`Term.outlasts_normalizeMetered`). Of
two environments with the same signature, one of which affords all that the other one does, the one
therefore normalizes, converts and infers as the other one does, errors and the texts in them
included, unless the smaller budget runs out (`Environment.Affords.imitates`).
-/

namespace StagedTT

open Metered (Outlasts outlasts_pure outlasts_fail outlasts_burn outlasts_fix)

/-! ## Reduction -/

section Arithmetic

variable [IndexArithmetic]

namespace Spine

theorem outlasts_pay (s : Spine) : Outlasts s.pay s.pay := by
  refine outlasts_burn.bind fun _ => ?_
  split
  · exact outlasts_fail _
  · exact outlasts_pure ()

theorem outlasts_reduce (sig : Signature) (s : Spine) :
    Outlasts (s.reduce sig) (s.reduce sig) := by
  intro ⟨used, left⟩ k
  induction left generalizing used s with
  | zero =>
    rw [reduce_eq]
    cases s.step? sig with
    | none => exact outlasts_pure s ⟨used, 0⟩ k
    | some next => exact Or.inr ⟨.nonTermination used, rfl, used, rfl⟩
  | succ left ih =>
    rw [reduce_eq]
    cases s.step? sig with
    | none => exact outlasts_pure s ⟨used, left + 1⟩ k
    | some next =>
      have hmore : (⟨used, left + 1⟩ : Fuel).more k = ⟨used, left + k + 1⟩ := by
        show (⟨used, left + 1 + k⟩ : Fuel) = _
        rw [Nat.add_right_comm]
      simp only [hmore, pay_bind_succ]
      split
      · exact Or.inl rfl
      · exact ih next (used + 1)

end Spine

namespace Term

variable {sig : Signature} {again again' : Term → Metered KernelError Term}

theorem outlasts_normalizeArgs {args : List Term}
    (h : ∀ a ∈ args, Outlasts (normalizeBody sig again' a) (normalizeBody sig again a)) :
    Outlasts (normalizeArgs sig again' args) (normalizeArgs sig again args) := by
  induction args with
  | nil => exact outlasts_pure []
  | cons a as ih =>
    obtain ⟨ha, has⟩ := List.forall_mem_cons.1 h
    exact ha.bind fun _ => (ih has).bind fun _ => outlasts_pure _

theorem outlasts_normalizeBody (hagain : ∀ t, Outlasts (again' t) (again t)) (t : Term) :
    Outlasts (normalizeBody sig again' t) (normalizeBody sig again t) := by
  have hhead : ∀ s next : Spine, Outlasts
      (do s.pay; let reduced ← next.reduce sig; again' reduced.toTerm)
      (do s.pay; let reduced ← next.reduce sig; again reduced.toTerm) := fun s next =>
    s.outlasts_pay.bind fun _ => (next.outlasts_reduce sig).bind fun _ => hagain _
  induction t with
  | sort | num | str | var => exact outlasts_pure _
  | const name =>
    unfold normalizeBody
    split
    · exact hhead _ _
    · exact outlasts_pure _
  | app f a ihf iha =>
    unfold normalizeBody
    split
    · exact hhead _ _
    · exact ihf.bind fun _ => iha.bind fun _ => outlasts_pure _
  | pi A B ihA ihB => exact ihA.bind fun _ => ihB.bind fun _ => outlasts_pure _
  | lam A b ihA ihb => exact ihA.bind fun _ => ihb.bind fun _ => outlasts_pure _
  | quote b ih | splice b ih => exact ih.bind fun _ => outlasts_pure _
  | call head args _ ih => exact (outlasts_normalizeArgs ih).bind fun _ => outlasts_pure _

/-- **More fuel never changes a normal form.** -/
theorem outlasts_normalizeMetered (sig : Signature) (t : Term) :
    Outlasts (t.normalizeMetered sig) (t.normalizeMetered sig) :=
  outlasts_fix (fun _ _ h => outlasts_normalizeBody h) t

end Term

end Arithmetic

/-! ## Typing -/

/-- One budget is at most another one, for reduction and for expansion. -/
instance : LE Limits := ⟨fun l l' => l.fuel ≤ l'.fuel ∧ l.expansions ≤ l'.expansions⟩

namespace Environment

/-- An environment declares what another one does, and affords at least as much work. -/
structure Affords (env' env : Environment) : Prop where
  signature : env'.signature = env.signature
  limits : env.limits ≤ env'.limits

namespace Affords

variable [A : IndexArithmetic] {env env' : Environment} (h : env'.Affords env)

include h

theorem imitates : Imitates IsOutOfFuel A env' A env where
  signature := h.signature
  normalize t := by
    unfold Environment.normalize
    rw [h.signature]
    exact (t.outlasts_normalizeMetered env.signature).runFresh h.limits.1
  lookup _ _ := .refl _
  instantiate _ _ := .refl _

theorem normalize (t : Term) : SameUnless IsOutOfFuel (env'.normalize t) (env.normalize t) :=
  h.imitates.normalize t

/-- **A larger budget infers the same type**, or the same error, unless the smaller one runs out. -/
theorem infer (ctx : Context) (t : Term) :
    SameUnless IsOutOfFuel (env'.infer ctx t) (env.infer ctx t) :=
  h.imitates.infer ctx t

theorem inferSort (ctx : Context) (position : String) (t : Term) :
    SameUnless IsOutOfFuel (env'.inferSort ctx position t) (env.inferSort ctx position t) :=
  h.imitates.inferSort ctx position t

theorem check (ctx : Context) (t T : Term) :
    SameUnless IsOutOfFuel (env'.check ctx t T) (env.check ctx t T) :=
  h.imitates.check ctx t T

theorem convertible (left right : Term) :
    SameUnless IsOutOfFuel (env'.convertible left right) (env.convertible left right) :=
  h.imitates.convertible left right

end Affords

end Environment

end StagedTT
