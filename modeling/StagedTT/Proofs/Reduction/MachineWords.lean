import StagedTT.Kernel.Reduction
import StagedTT.Proofs.Budgets
import StagedTT.Proofs.Term.MachineWords

/-!
# Reduction of machine words

A run meets a sum that is too large exactly if it stops at one where sums are checked: `NoOverflow`
says of a run that it does not. Reduction does in every arithmetic of indices what it does where
sums are checked, unless it stops there (`Term.sameUnless_whnf`,
`Term.sameUnless_normalizeMetered`). So without an overflow it is what it would be if indices had no
bound (`NoOverflow.eq_exact`).

The steps are made in pairs (`Spine.step?_cases`). Wherever the checked run does not stop at its
step, the other one is the same, and both cost a unit (`Spine.made_cases`).
-/

namespace StagedTT

/-- What a run reports if it stops at a sum. -/
def IsOverflow (e : KernelError) : Prop := e = .indexOverflow

/-- The run meets no sum of indices that is too large for a machine word: where sums are checked,
it does not stop at one. -/
def NoOverflow {α : Type} (run : [IndexArithmetic] → Except KernelError α) : Prop :=
  @run .checked ≠ .error .indexOverflow

theorem NoOverflow.of_ok {α : Type} {run : [IndexArithmetic] → Except KernelError α} {a : α}
    (h : @run .checked = .ok a) : NoOverflow run := by
  intro hover
  cases h.symm.trans hover

/-- A run without overflow is what it is where indices have no bound, if it is what the checked run
is unless that one overflows. -/
theorem NoOverflow.eq_exact {α : Type} {run : [IndexArithmetic] → Except KernelError α}
    (hsafe : NoOverflow run)
    (h : ∀ A : IndexArithmetic, SameUnless IsOverflow (@run A) (@run .checked))
    (A : IndexArithmetic) : @run A = @run .exact := by
  have havoids : Avoids IsOverflow (@run .checked) := by
    rintro e he rfl
    exact hsafe he
  rw [(h A).eq_of_avoids havoids, (h .exact).eq_of_avoids havoids]

/-- A run on a supply of fuel that meets no overflow leaves the same of it, too. -/
theorem NoOverflow.metered_eq_exact {α : Type} {run : [IndexArithmetic] → Metered KernelError α}
    {fuel : Fuel} (hsafe : NoOverflow (run fuel).1)
    (h : ∀ A : IndexArithmetic, Metered.SameUnless IsOverflow (@run A) (@run .checked))
    (A : IndexArithmetic) : @run A fuel = @run .exact fuel := by
  have hsame : ∀ A : IndexArithmetic, @run A fuel = @run .checked fuel := by
    intro A
    rcases h A fuel with heq | ⟨e, he, rfl⟩
    · exact heq
    · exact absurd he hsafe
  rw [hsame A, hsame .exact]

theorem Refines.inRange {α : Type} {r r' : Option α} (h : Refines r' r) :
    SameUnless IsOverflow (KernelError.inRange r') (KernelError.inRange r) := by
  cases r with
  | none => exact Or.inr ⟨.indexOverflow, rfl, rfl⟩
  | some a =>
    left
    rw [h a rfl]

section Arithmetic

variable [A : IndexArithmetic]

namespace Spine

/-! ## Steps -/

/-- Whether there is a step does not depend on the arithmetic. -/
theorem step?_eq_none_iff_checked {sig : Signature} {s : Spine} :
    s.step? sig = none ↔ @step? .checked sig s = none := by
  unfold step?
  split <;> simp

/-- A step that does not stop where sums are checked is the same in every arithmetic, and does not
stop there either. -/
theorem step?_eq_checked (sig : Signature) {s : Spine} (h : @overflows .checked s = false) :
    s.step? sig = @step? .checked sig s ∧ s.overflows = false := by
  obtain ⟨head, args⟩ := s
  cases head with
  | lam A b =>
    cases args with
    | nil => exact ⟨rfl, rfl⟩
    | cons a args =>
      obtain ⟨u, hu⟩ : ∃ u, @Term.instantiate? .checked b a = some u := by
        refine Option.isSome_iff_exists.1 ?_
        simpa [overflows] using h
      have hsame : b.instantiate? a = some u := Term.refines_instantiate? b a u hu
      constructor
      · show some (((b.instantiate? a).getD b).unwind args) =
          some (((@Term.instantiate? .checked b a).getD b).unwind args)
        rw [hsame, hu]
      · show (b.instantiate? a).isNone = false
        rw [hsame, Option.isNone_some]
  | _ => exact ⟨rfl, rfl⟩

/-- There is a step at the head in both arithmetics or in neither. -/
theorem step?_cases (sig : Signature) (s : Spine) :
    (s.step? sig = none ∧ @step? .checked sig s = none) ∨
      ∃ next checkedNext,
        s.step? sig = some next ∧ @step? .checked sig s = some checkedNext := by
  cases hchecked : @step? .checked sig s with
  | none => exact .inl ⟨step?_eq_none_iff_checked.2 hchecked, rfl⟩
  | some checkedNext =>
    right
    cases hstep : s.step? sig with
    | none => rw [step?_eq_none_iff_checked.1 hstep] at hchecked; cases hchecked
    | some next => exact ⟨next, checkedNext, rfl, rfl⟩

/-- A step is the same in both arithmetics and costs a unit in both, or the checked run stops
at it. -/
theorem made_cases {sig : Signature} {s next checkedNext : Spine} (hstep : s.step? sig = some next)
    (hchecked : @step? .checked sig s = some checkedNext) :
    (next = checkedNext ∧ s.pay = Metered.burn ∧ @pay .checked s = Metered.burn) ∨
      @overflows .checked s = true := by
  cases hover : @overflows .checked s with
  | false =>
    obtain ⟨hsame, hsafe⟩ := step?_eq_checked sig hover
    rw [hsame, hchecked] at hstep
    exact .inl ⟨(Option.some.inj hstep).symm, pay_of_not_overflows hsafe,
      @pay_of_not_overflows .checked s hover⟩
  | true => exact .inr rfl

/-- Whoever pays for a step at which the checked run stops does the same as that run, whatever comes
after it, unless that run overflows. -/
theorem sameUnless_of_overflows {α : Type} {s : Spine} (h : @overflows .checked s = true)
    (k' k : Unit → Metered KernelError α) :
    Metered.SameUnless IsOverflow (s.pay >>= k') (@pay .checked s >>= k) := by
  rintro ⟨used, left⟩
  cases left with
  | zero => exact Or.inl rfl
  | succ left =>
    right
    rw [@pay_bind_succ .checked, h]
    exact ⟨.indexOverflow, rfl, rfl⟩

/-! ## Runs -/

theorem sameUnless_reduce (sig : Signature) (s : Spine) :
    Metered.SameUnless IsOverflow (s.reduce sig) (@reduce .checked sig s) := by
  rintro ⟨used, left⟩
  induction left generalizing used s with
  | zero =>
    rw [reduce_eq, @reduce_eq .checked]
    left
    rcases s.step?_cases sig with ⟨hstep, hchecked⟩ | ⟨next, checkedNext, hstep, hchecked⟩
    · rw [hstep, hchecked]
    · rw [hstep, hchecked]
      exact (s.pay_bind_zero _ used).trans (@pay_bind_zero .checked _ s _ used).symm
  | succ left ih =>
    rw [reduce_eq, @reduce_eq .checked]
    rcases s.step?_cases sig with ⟨hstep, hchecked⟩ | ⟨next, checkedNext, hstep, hchecked⟩
    · rw [hstep, hchecked]
      exact Metered.SameUnless.refl _ _
    · rw [hstep, hchecked]
      rcases made_cases hstep hchecked with ⟨rfl, hpay, hpay'⟩ | hover
      · simp only [hpay, hpay']
        exact ih next (used + 1)
      · exact sameUnless_of_overflows hover _ _ ⟨used, left + 1⟩

end Spine

namespace Term

/-- Reduction at the head is the same in every arithmetic, unless it overflows. -/
theorem sameUnless_whnf (sig : Signature) (t : Term) :
    Metered.SameUnless IsOverflow (t.whnf sig) (@whnf .checked sig t) :=
  (t.spine.sameUnless_reduce sig).bind fun _ => .refl _

variable {sig : Signature} {again checkedAgain : Term → Metered KernelError Term}

theorem sameUnless_normalizeArgs {args : List Term}
    (h : ∀ a ∈ args, Metered.SameUnless IsOverflow (normalizeBody sig again a)
      (@normalizeBody .checked sig checkedAgain a)) :
    Metered.SameUnless IsOverflow (normalizeArgs sig again args)
      (@normalizeArgs .checked sig checkedAgain args) := by
  induction args with
  | nil => exact .refl _
  | cons a as ih =>
    obtain ⟨ha, has⟩ := List.forall_mem_cons.1 h
    unfold normalizeArgs
    exact ha.bind fun _ => (ih has).bind fun _ => .refl _

theorem sameUnless_normalizeBody
    (hagain : ∀ t, Metered.SameUnless IsOverflow (again t) (checkedAgain t)) (t : Term) :
    Metered.SameUnless IsOverflow (normalizeBody sig again t)
      (@normalizeBody .checked sig checkedAgain t) := by
  have hhead : ∀ {s next checkedNext : Spine}, s.step? sig = some next →
      @Spine.step? .checked sig s = some checkedNext →
      Metered.SameUnless IsOverflow
        (do s.pay; let reduced ← next.reduce sig; again reduced.toTerm)
        (do
          @Spine.pay .checked s
          let reduced ← @Spine.reduce .checked sig checkedNext
          checkedAgain reduced.toTerm) := by
    intro s next checkedNext hstep hchecked
    rcases Spine.made_cases hstep hchecked with ⟨rfl, hpay, hpay'⟩ | hover
    · rw [hpay, hpay']
      refine (Metered.SameUnless.refl _).bind fun _ => ?_
      exact (next.sameUnless_reduce sig).bind fun _ => hagain _
    · exact Spine.sameUnless_of_overflows hover _ _
  induction t with
  | sort | num | str | var => exact .refl _
  | const name =>
    unfold normalizeBody
    rcases (const name).spine.step?_cases sig with ⟨hstep, hchecked⟩ | ⟨_, _, hstep, hchecked⟩
    · simp only [hstep, hchecked]
      exact .refl _
    · simp only [hstep, hchecked]
      exact hhead hstep hchecked
  | app f a ihf iha =>
    unfold normalizeBody
    rcases (app f a).spine.step?_cases sig with ⟨hstep, hchecked⟩ | ⟨_, _, hstep, hchecked⟩
    · simp only [hstep, hchecked]
      exact ihf.bind fun _ => iha.bind fun _ => .refl _
    · simp only [hstep, hchecked]
      exact hhead hstep hchecked
  | pi A B ihA ihB => exact ihA.bind fun _ => ihB.bind fun _ => .refl _
  | lam A b ihA ihb => exact ihA.bind fun _ => ihb.bind fun _ => .refl _
  | quote b ih | splice b ih => exact ih.bind fun _ => .refl _
  | call head args _ ih => exact (sameUnless_normalizeArgs ih).bind fun _ => .refl _

/-- **Normalization is the same in every arithmetic**, unless it overflows. -/
theorem sameUnless_normalizeMetered (sig : Signature) (t : Term) :
    Metered.SameUnless IsOverflow (t.normalizeMetered sig) (@normalizeMetered .checked sig t) :=
  Metered.sameUnless_fix (fun _ _ h => sameUnless_normalizeBody h) t

end Term

end Arithmetic

end StagedTT
