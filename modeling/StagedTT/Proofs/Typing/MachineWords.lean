import StagedTT.Proofs.Reduction.MachineWords
import StagedTT.Proofs.Typing.Imitation

/-!
# Typing of machine words

In every arithmetic of indices an environment does what it does where sums are checked, unless it
stops there (`Environment.imitates_checked`). So judgments that meet no overflow are what they would
be if indices had no bound (`Environment.normalize_eq_exact`, `convertible_eq_exact`,
`infer_eq_exact`).
-/

namespace StagedTT

theorem Context.sameUnless_lookup [IndexArithmetic] (ctx : Context) (index : Nat) :
    SameUnless IsOverflow (ctx.lookup index) (@lookup .checked ctx index) := by
  unfold lookup
  split
  · next type _ =>
    exact Refines.inRange <| (Index.refines_raised? index 1).bind fun amount =>
      type.refines_shift? amount 0
  · exact .refl _

namespace Environment

/-- **The checked arithmetic is imitated by every other one**, unless it overflows. -/
theorem imitates_checked [A : IndexArithmetic] (env : Environment) :
    Imitates IsOverflow A env .checked env where
  signature := rfl
  normalize t := (t.sameUnless_normalizeMetered env.signature).result _
  lookup ctx index := ctx.sameUnless_lookup index
  instantiate body arg := (body.refines_instantiate? arg).inRange

variable [A : IndexArithmetic] {env : Environment}

theorem normalize_eq_exact {t : Term} (h : NoOverflow (env.normalize t)) :
    env.normalize t = @normalize .exact env t :=
  h.eq_exact (fun _ => env.imitates_checked.normalize t) A

theorem convertible_eq_exact {left right : Term} (h : NoOverflow (env.convertible left right)) :
    env.convertible left right = @convertible .exact env left right :=
  h.eq_exact (fun _ => env.imitates_checked.convertible left right) A

theorem infer_eq_exact {ctx : Context} {t : Term} (h : NoOverflow (env.infer ctx t)) :
    env.infer ctx t = @infer .exact env ctx t :=
  h.eq_exact (fun _ => env.imitates_checked.infer ctx t) A

end Environment

end StagedTT
