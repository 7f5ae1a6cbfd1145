import StagedTT.Proofs.Reduction.Normalization

/-!
# Weak head normal forms

On the spine of a term, a head step contracts a function with its first argument or unfolds the
constant at the head (`headStep_iff_spine`). A term has no head step exactly if a function at the
head has no argument and a constant there has no value (`headNormal_iff_spine`).

Normalization makes the head steps that `whnf` makes, at the same cost, and goes on from what is
left then: with the function and the argument if that is an application, and not at all if it is a
constant (`normalizeMetered_eq_resumed`). So to normalize a term is to normalize its weak head
normal form on the fuel that the head steps leave (`normalize_after_whnf`).
-/

namespace StagedTT

namespace Term

variable {sig : Signature} {t u w : Term}

/-! ## Head steps on spines -/

/-- A head step contracts the function at the head of the spine with the first argument, or unfolds
the constant there, and leaves the other arguments. -/
theorem headStep_iff_spine :
    HeadStep sig t u ↔
      (∃ A b a args, t.spine = ⟨.lam A b, a :: args⟩ ∧ u = (b.instantiate a).applyAll args) ∨
        ∃ n v args, t.spine = ⟨.const n, args⟩ ∧ sig.value? n = some v ∧ u = v.applyAll args := by
  constructor
  · intro h
    obtain ⟨next, hnext, rfl⟩ : ∃ next : Spine, t.spine.step? sig = some next ∧ u = next.toTerm :=
      ⟨u.spine, h.step?_unwind [], (toTerm_spine u).symm⟩
    unfold Spine.step? at hnext
    split at hnext
    · next A b a args hspine =>
      obtain rfl := Option.some.inj hnext
      exact .inl ⟨A, b, a, args, hspine, toTerm_unwind _ args⟩
    · next n args hspine =>
      obtain ⟨v, hv, rfl⟩ := Option.map_eq_some_iff.1 hnext
      exact .inr ⟨n, v, args, hspine, hv, toTerm_unwind v args⟩
    · cases hnext
  · rintro (⟨A, b, a, args, hspine, rfl⟩ | ⟨n, v, args, hspine, hv, rfl⟩)
    · rw [← toTerm_spine t, hspine]
      exact HeadStep.applyAll (.beta A b a) args
    · rw [← toTerm_spine t, hspine]
      exact HeadStep.applyAll (.delta hv) args

/-- There is no head step exactly if a function at the head has no argument, and a constant there
has no value. -/
theorem headNormal_iff_spine :
    HeadNormal sig t ↔
      (∀ A b, t.spine.head = .lam A b → t.spine.args = []) ∧
        ∀ n, t.spine.head = .const n → sig.value? n = none := by
  constructor
  · intro h
    constructor
    · intro A b hhead
      cases hargs : t.spine.args with
      | nil => rfl
      | cons a args =>
        have hspine : t.spine = ⟨.lam A b, a :: args⟩ := by rw [← hhead, ← hargs]
        exact absurd (headStep_iff_spine.2 (.inl ⟨A, b, a, args, hspine, rfl⟩)) (h _)
    · intro n hhead
      refine Option.eq_none_iff_forall_ne_some.2 fun v hv => ?_
      have hspine : t.spine = ⟨.const n, t.spine.args⟩ := by rw [← hhead]
      exact h _ (headStep_iff_spine.2 (.inr ⟨n, v, _, hspine, hv, rfl⟩))
  · rintro ⟨hlam, hconst⟩ u hu
    rcases headStep_iff_spine.1 hu with ⟨A, b, a, args, hspine, -⟩ | ⟨n, v, args, hspine, hv, -⟩
    · have hnil := hlam A b (by rw [hspine])
      rw [hspine] at hnil
      cases hnil
    · rw [hconst n (by rw [hspine])] at hv
      cases hv

/-! ## Normalization after the head steps -/

/-- **Normalization resumes where reduction at the head stops.** An application that is stuck is put
together from its parts. -/
theorem normalizeMetered_eq_resumed (sig : Signature) (t : Term) :
    t.normalizeMetered sig = (do
      match ← t.whnf sig with
      | .app f a => do
        let f ← f.normalizeMetered sig
        let a ← a.normalizeMetered sig
        return .app f a
      | .const n => return .const n
      | w => w.normalizeMetered sig) := by
  rw [normalizeMetered_eq_whnf]
  refine Metered.Settles.bind_congr rfl (whnf_settles sig t) fun w ⟨k, hw⟩ => ?_
  cases w with
  | app f a => exact normalizeMetered_app hw.headNormal
  | const n => exact hw.headNormal.normal_const.normalizeMetered_eq
  | _ => rfl

/-- To normalize a term is to pay for the head steps and to normalize what they leave. -/
theorem ReducesIn.normalizeMetered_eq {k : Nat} (h : ReducesIn sig t k w) {fuel : Fuel}
    (hk : k ≤ fuel.left) :
    t.normalizeMetered sig fuel = w.normalizeMetered sig ⟨fuel.used + k, fuel.left - k⟩ := by
  rw [normalizeMetered_eq_whnf, Metered.bind_ok (h.costs.answer hk)]

end Term

end StagedTT
