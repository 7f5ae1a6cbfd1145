import Mathlib.Logic.Function.Iterate
import StagedTT.Proofs.Costs
import StagedTT.Proofs.Settles

/-!
# Exact budgets

A computation is exact if every answer has its price: a supply with the same fuel used gives that
answer if its budget covers the price, and else uses its budget up and fails (`Metered.Exact`). It
is so if all its answers are answers that it costs a number of units to get
(`Metered.exact_of_costs`). That is so of whatever is put together from steps that are paid for,
whatever they do (`Metered.PricedBy`).

A recursion ends on a supply if it makes its calls to some depth only: unfolded further, it answers
the same whatever the calls left would do (`Metered.Ends`). A recursion that pays for each call to
itself ends on every supply (`Metered.Guarded.ends`).
-/

namespace StagedTT

namespace Metered

variable {ε α β : Type}

section Exact

variable [OutOfFuel ε] {m : Metered ε α} {Takes : Nat → α → Prop}

/-- If the computation answers on a supply, the answer takes a number of units. All supplies of
which as much is used, and whose budgets cover those units, answer the same and have used as many;
all others fail for want of fuel, with their budgets used up. -/
def ExactOn (m : Metered ε α) (fuel : Fuel) (Takes : Nat → α → Prop) : Prop :=
  ∀ a, (m fuel).1 = .ok a → ∃ k, Takes k a ∧ (m fuel).2.used = fuel.used + k ∧
    ∀ other : Fuel, other.used = fuel.used →
      (fuel.used + k ≤ other.budget →
        m other = (.ok a, ⟨fuel.used + k, other.budget - (fuel.used + k)⟩)) ∧
      (other.budget < fuel.used + k →
        m other = (.error (outOfFuel other.budget), ⟨other.budget, 0⟩))

/-- On every supply, an answer takes a number of units, those and no fewer. -/
def Exact (m : Metered ε α) (Takes : Nat → α → Prop) : Prop := ∀ fuel, m.ExactOn fuel Takes

theorem Costs.covered {k : Nat} {a : α} (h : m.Costs k a) {fuel : Fuel}
    (hk : fuel.used + k ≤ fuel.budget) :
    m fuel = (.ok a, ⟨fuel.used + k, fuel.budget - (fuel.used + k)⟩) := by
  rw [Fuel.budget] at hk ⊢
  rw [h.answer (by omega), Nat.add_sub_add_left]

theorem Costs.uncovered {k : Nat} {a : α} (h : m.Costs k a) {fuel : Fuel}
    (hk : fuel.budget < fuel.used + k) :
    m fuel = (.error (outOfFuel fuel.budget), ⟨fuel.budget, 0⟩) := by
  obtain ⟨used, left⟩ := fuel
  simp only [Fuel.budget] at hk ⊢
  exact h.short used left (by omega)

/-- A computation is exact if its answers are answers that it costs so much to get. -/
theorem exact_of_costs {E : ε → Prop}
    (hok : Settles m (fun a => ∃ k, m.Costs k a ∧ Takes k a) E) : m.Exact Takes := by
  intro fuel a ha
  obtain ⟨k, hcosts, htakes⟩ := (hok fuel).of_ok ha
  have hrun : m fuel = (.ok a, (m fuel).2) := Prod.ext ha rfl
  obtain ⟨-, -, hrest⟩ := hcosts.of_ok hrun
  refine ⟨k, htakes, congrArg Fuel.used hrest, fun other hused => ?_⟩
  rw [← hused]
  exact ⟨hcosts.covered, hcosts.uncovered⟩

end Exact

/-! ## Recursions that end -/

/-- The recursion with this body ends on a supply and gives the result: unfolded often enough, it
gives that result whatever the calls to itself that are left would do with their fuel. -/
def Ends (body : (α → Metered ε β) → α → Metered ε β) (a : α) (fuel : Fuel)
    (result : Except ε β × Fuel) : Prop :=
  ∃ depth, ∀ again : α → Metered ε β, (∀ a, Spends (again a)) → body^[depth] again a fuel = result

variable {body : (α → Metered ε β) → α → Metered ε β}

theorem Guarded.spends_iterate (h : Guarded body) {again : α → Metered ε β}
    (hagain : ∀ a, Spends (again a)) (depth : Nat) (a : α) : Spends (body^[depth] again a) := by
  induction depth generalizing a with
  | zero => exact hagain a
  | succ depth ih =>
    rw [Function.iterate_succ_apply']
    exact h.spends _ ih a

/-- **A recursion that pays for its calls ends**, as deep as the fuel lasts at most. -/
theorem Guarded.iterate_eq (h : Guarded body) {f : α → Metered ε β} (hf : ∀ a, Spends (f a))
    (heq : ∀ a, f a = body f a) {again : α → Metered ε β} (hagain : ∀ a, Spends (again a))
    {depth : Nat} {fuel : Fuel} (hdepth : fuel.left < depth) (a : α) :
    body^[depth] again a fuel = f a fuel := by
  induction depth generalizing a fuel with
  | zero => exact absurd hdepth (Nat.not_lt_zero _)
  | succ depth ih =>
    rw [Function.iterate_succ_apply', heq]
    refine h.congr _ _ (h.spends_iterate hagain depth) hf fuel.left (fun a rest hrest => ?_) a fuel
      (Nat.le_refl _)
    exact ih (by omega) a

theorem Guarded.ends (h : Guarded body) {f : α → Metered ε β} (hf : ∀ a, Spends (f a))
    (heq : ∀ a, f a = body f a) (a : α) (fuel : Fuel) : Ends body a fuel (f a fuel) :=
  ⟨fuel.left + 1, fun _ hagain => h.iterate_eq hf heq hagain (Nat.lt_succ_self _) a⟩

/-! ## Prices -/

section Prices

variable [OutOfFuel ε] {E : ε → Prop}

/-- Each answer of the first computation is one that it costs the second one a number of units to
get, and an error is as `E` has it. -/
def PricedBy (E : ε → Prop) (m m' : Metered ε α) : Prop :=
  Settles m (fun a => ∃ k, m'.Costs k a) E

theorem PricedBy.exact {m : Metered ε α} (h : PricedBy E m m) : m.Exact fun _ _ => True :=
  exact_of_costs (E := E) fun fuel => (h fuel).mono fun _ ⟨k, hk⟩ => ⟨k, hk, trivial⟩

theorem pricedBy_pure (a : α) : PricedBy E (pure a) (pure a) := settles_pure ⟨0, costs_pure a⟩

theorem pricedBy_fail {e : ε} (he : E e) (m : Metered ε α) : PricedBy E (fail e) m := fun _ => he

theorem PricedBy.bind {m m' : Metered ε α} {f f' : α → Metered ε β} (hm : PricedBy E m m')
    (hf : ∀ a, PricedBy E (f a) (f' a)) : PricedBy E (m >>= f) (m' >>= f') :=
  Settles.bind hm fun a ⟨_, hj⟩ fuel => (hf a fuel).mono fun _ ⟨_, hk⟩ => ⟨_, hj.bind hk⟩

variable (hE : ∀ steps, E (outOfFuel steps))

include hE

theorem pricedBy_burn : PricedBy E burn burn := fun fuel =>
  (settles_burn hE fuel).mono fun _ _ => ⟨1, costs_burn⟩

/-- A recursion has prices if its body has, given calls that have. -/
theorem Guarded.pricedBy_fix (hbody : Guarded body)
    (h : ∀ f f', (∀ a, PricedBy E (f a) (f' a)) → ∀ a, PricedBy E (body f a) (body f' a)) (a : α) :
    PricedBy E (fix body a) (fix body a) :=
  settles_fix (R := fun a b => ∃ k, (fix body a).Costs k b) hE (fun f hf a => by
    rw [fix_eq hbody]
    exact h f (fix body) hf a) a

end Prices

end Metered

end StagedTT
