import StagedTT.Kernel.Reduction
import StagedTT.Proofs.Costs
import StagedTT.Proofs.Reduction.Equality
import StagedTT.Proofs.Settles

/-!
# Head reduction

`HeadStep sig t u` contracts the function at the head of `t` or unfolds the constant there. It is
the step that the reducer makes (`step?_spine_eq_some_iff`), so `whnf` makes head steps until there
is none (`whnf_settles`) and spends a unit on each (`ReducesIn`).

To normalize a term is to reduce it at the head and to normalize what comes out
(`normalizeMetered_eq_whnf`): a head step costs the one unit and nothing else
(`HeadStep.normalizeMetered_eq`).

A term is stuck if no reduction makes a function of it. A function part of an application that has
no step at its head is stuck (`HeadNormal.stuck`), and so is what it is reduced to.
-/

namespace StagedTT

open Relation (ReflTransGen)
open Metered (costs_pure costs_burn burn)

/-! ## Counted steps -/

/-- A number of steps from one term to another. -/
inductive InSteps {α : Type} (r : α → α → Prop) : Nat → α → α → Prop
  | refl (a : α) : InSteps r 0 a a
  | head {k : Nat} {a b c : α} : r a b → InSteps r k b c → InSteps r (k + 1) a c

namespace InSteps

variable {α : Type} {r : α → α → Prop} {j k : Nat} {a b c : α}

theorem trans (h : InSteps r j a b) (h' : InSteps r k b c) : InSteps r (j + k) a c := by
  induction h with
  | refl => rwa [Nat.zero_add]
  | head hstep _ ih =>
    rw [Nat.add_right_comm]
    exact .head hstep (ih h')

theorem map {β : Type} {q : β → β → Prop} {f : α → β} (hf : ∀ a b, r a b → q (f a) (f b))
    (h : InSteps r k a b) : InSteps q k (f a) (f b) := by
  induction h with
  | refl => exact .refl _
  | head hstep _ ih => exact .head (hf _ _ hstep) ih

theorem reflTransGen (h : InSteps r k a b) : ReflTransGen r a b := by
  induction h with
  | refl => exact .refl
  | head hstep _ ih => exact .head hstep ih

end InSteps

namespace Term

/-! ## Head steps -/

/-- One step at the head of a term. -/
inductive HeadStep (sig : Signature) : Term → Term → Prop
  | beta (A b a : Term) : HeadStep sig (.app (.lam A b) a) (b.instantiate a)
  | delta {n : String} {v : Term} : sig.value? n = some v → HeadStep sig (.const n) v
  | app {f f' : Term} (a : Term) : HeadStep sig f f' → HeadStep sig (.app f a) (.app f' a)

/-- A term without a step at its head. -/
def HeadNormal (sig : Signature) (t : Term) : Prop := ∀ u, ¬ HeadStep sig t u

variable {sig : Signature} {t u : Term}

theorem HeadStep.step (h : HeadStep sig t u) : Step sig t u := by
  induction h with
  | beta A b a => exact .beta A b a
  | delta hv => exact .delta hv
  | app a _ ih => exact .appFn a ih

theorem HeadStep.applyAll (h : HeadStep sig t u) (args : List Term) :
    HeadStep sig (t.applyAll args) (u.applyAll args) := by
  induction args generalizing t u with
  | nil => exact h
  | cons arg args ih => exact ih (.app arg h)

theorem Normal.headNormal (h : Normal sig t) : HeadNormal sig t := fun u hu => h u hu.step

theorem headNormal_or_exists (sig : Signature) (t : Term) :
    HeadNormal sig t ∨ ∃ u, HeadStep sig t u := by
  by_cases h : ∃ u, HeadStep sig t u
  · exact .inr h
  · exact .inl (not_exists.1 h)

/-- A term is stuck at an application if its function part is and is no function. -/
theorem HeadNormal.app {f : Term} (h : HeadNormal sig f) (hlam : ∀ A b, f ≠ .lam A b) (a : Term) :
    HeadNormal sig (.app f a) := by
  intro u hu
  cases hu with
  | beta A b _ => exact hlam A b rfl
  | app _ hf => exact h _ hf

/-! ## Stuck terms -/

/-- No reduction of the term makes a function of it. -/
def Stuck (sig : Signature) : Term → Prop
  | .lam _ _ => False
  | .const n => sig.value? n = none
  | .app f _ => Stuck sig f
  | _ => True

theorem Stuck.step {t u : Term} (ht : Stuck sig t) (h : Step sig t u) : Stuck sig u := by
  induction h with
  | beta | lamDomain | lamBody => exact ht.elim
  | delta hv => exact absurd hv (by rw [show sig.value? _ = none from ht]; simp)
  | appFn a _ ih => exact ih ht
  | appArg f _ _ => exact ht
  | _ => trivial

theorem Stuck.steps {t u : Term} (ht : Stuck sig t) (h : Steps sig t u) : Stuck sig u := by
  induction h with
  | refl => exact ht
  | tail _ hstep ih => exact ih.step hstep

theorem Stuck.ne_lam {t : Term} (h : Stuck sig t) (A b : Term) : t ≠ .lam A b := by
  rintro rfl
  exact h

theorem HeadNormal.fn {f a : Term} (h : HeadNormal sig (.app f a)) : HeadNormal sig f :=
  fun _ hf => h _ (.app a hf)

/-- What is applied is stuck if there is no step at the head. -/
theorem HeadNormal.stuck {f a : Term} (h : HeadNormal sig (.app f a)) : Stuck sig f := by
  induction f generalizing a with
  | lam A b => exact h _ (.beta A b a)
  | const n => exact Option.eq_none_iff_forall_ne_some.2 fun v hv => h _ (.app a (.delta hv))
  | app f b ihf => exact ihf h.fn
  | _ => trivial

/-! ## The steps of the reducer -/

theorem HeadStep.step?_unwind (h : HeadStep sig t u) (args : List Term) :
    (t.unwind args).step? sig = some (u.unwind args) := by
  induction h generalizing args with
  | beta A b a => rfl
  | @delta n v hv =>
    show (sig.value? n).map (·.unwind args) = _
    rw [hv]
    rfl
  | app a _ ih => exact ih (a :: args)

end Term

open Term

theorem Spine.headStep_of_step? {sig : Signature} {s next : Spine} (h : s.step? sig = some next) :
    HeadStep sig s.toTerm next.toTerm := by
  unfold Spine.step? at h
  split at h
  · next A body arg args =>
    obtain rfl := Option.some.inj h
    rw [toTerm_unwind]
    exact HeadStep.applyAll (.beta A body arg) args
  · next name args =>
    obtain ⟨value, hvalue, rfl⟩ := Option.map_eq_some_iff.1 h
    rw [toTerm_unwind]
    exact HeadStep.applyAll (.delta hvalue) args
  · cases h

theorem Spine.step_of_step? {sig : Signature} {s next : Spine} (h : s.step? sig = some next) :
    Step sig s.toTerm next.toTerm :=
  (headStep_of_step? h).step

theorem Spine.reduce_settles (sig : Signature) (s : Spine) :
    Metered.Settles (s.reduce sig) (fun r => Steps sig s.toTerm r.toTerm) IsOutOfFuel := by
  rintro ⟨used, left⟩
  induction left generalizing used s with
  | zero =>
    rw [Spine.reduce_eq, Spine.pay_eq_burn]
    cases s.step? sig with
    | none => exact .refl
    | some next => exact ⟨used, rfl⟩
  | succ left ih =>
    rw [Spine.reduce_eq, Spine.pay_eq_burn]
    cases hs : s.step? sig with
    | none => exact .refl
    | some next =>
      have hnext := ih next (used + 1)
      exact hnext.mono fun r hr => .head (Spine.step_of_step? hs) hr

namespace Term

variable {sig : Signature} {t u : Term}

/-- The reducer makes the steps at the head. -/
theorem step?_spine_eq_some_iff {next : Spine} :
    t.spine.step? sig = some next ↔ ∃ u, HeadStep sig t u ∧ next = u.spine := by
  constructor
  · intro h
    have hstep := Spine.headStep_of_step? h
    rw [toTerm_spine] at hstep
    exact ⟨next.toTerm, hstep, Option.some.inj (h.symm.trans (hstep.step?_unwind []))⟩
  · rintro ⟨u, hstep, rfl⟩
    exact hstep.step?_unwind []

theorem step?_spine_eq_none_iff : t.spine.step? sig = none ↔ HeadNormal sig t := by
  rw [Option.eq_none_iff_forall_ne_some]
  constructor
  · exact fun h u hu => h u.spine (hu.step?_unwind [])
  · intro h next hnext
    obtain ⟨u, hu, -⟩ := step?_spine_eq_some_iff.1 hnext
    exact h u hu

theorem HeadStep.whnf_eq (h : HeadStep sig t u) : t.whnf sig = (do burn; u.whnf sig) := by
  have hreduce : t.spine.reduce sig = (do burn; u.spine.reduce sig) := by
    rw [Spine.reduce_eq, Spine.pay_eq_burn, spine, h.step?_unwind []]
    rfl
  rw [whnf, hreduce, bind_assoc]
  rfl

theorem HeadNormal.whnf_eq (h : HeadNormal sig t) : t.whnf sig = pure t := by
  have hreduce : t.spine.reduce sig = pure t.spine := by
    rw [Spine.reduce_eq, step?_spine_eq_none_iff.2 h]
  rw [whnf, hreduce, pure_bind, toTerm_spine]

theorem HeadStep.normalizeBody_eq (h : HeadStep sig t u) (again : Term → Metered KernelError Term) :
    normalizeBody sig again t = (do burn; let w ← u.whnf sig; again w) := by
  have hstep : t.spine.step? sig = some u.spine := h.step?_unwind []
  have hbody : normalizeBody sig again t =
      (do burn; let reduced ← u.spine.reduce sig; again reduced.toTerm) := by
    cases h with
    | beta | delta | app =>
      unfold normalizeBody
      rw [hstep, Spine.pay_eq_burn]
  rw [hbody, whnf]
  simp only [bind_assoc, pure_bind]

/-- **To normalize a term is to reduce it at the head first.** -/
theorem normalizeMetered_eq_whnf (sig : Signature) (t : Term) :
    t.normalizeMetered sig = (do let w ← t.whnf sig; w.normalizeMetered sig) := by
  rcases headNormal_or_exists sig t with h | ⟨u, hu⟩
  · rw [h.whnf_eq, pure_bind]
  · rw [hu.whnf_eq, bind_assoc, normalizeMetered_eq, hu.normalizeBody_eq]

theorem HeadStep.normalizeMetered_eq (h : HeadStep sig t u) :
    t.normalizeMetered sig = (do burn; u.normalizeMetered sig) := by
  rw [Term.normalizeMetered_eq, h.normalizeBody_eq, ← normalizeMetered_eq_whnf]

/-! ## What reduction at the head costs -/

/-- Reduction at the head answers with `w` and spends a unit on each of `k` head steps. -/
structure ReducesIn (sig : Signature) (t : Term) (k : Nat) (w : Term) : Prop where
  costs : (t.whnf sig).Costs k w
  steps : InSteps (HeadStep sig) k t w
  headNormal : HeadNormal sig w

theorem HeadNormal.reducesIn (h : HeadNormal sig t) : ReducesIn sig t 0 t where
  costs := by
    rw [h.whnf_eq]
    exact costs_pure t
  steps := .refl t
  headNormal := h

theorem ReducesIn.head {w : Term} {k : Nat} (h : HeadStep sig t u) (hu : ReducesIn sig u k w) :
    ReducesIn sig t (k + 1) w where
  costs := by
    rw [h.whnf_eq, Nat.add_comm k 1]
    exact costs_burn.bind hu.costs
  steps := .head h hu.steps
  headNormal := hu.headNormal

/-- **Reduction at the head** makes all head steps there are, and fails for want of fuel only. -/
theorem whnf_settles (sig : Signature) (t : Term) :
    Metered.Settles (t.whnf sig) (fun w => ∃ k, ReducesIn sig t k w) IsOutOfFuel := by
  rintro ⟨used, left⟩
  induction left generalizing used t with
  | zero =>
    rcases headNormal_or_exists sig t with h | ⟨u, hu⟩
    · rw [h.whnf_eq]
      exact ⟨0, h.reducesIn⟩
    · rw [hu.whnf_eq]
      exact ⟨used, rfl⟩
  | succ left ih =>
    rcases headNormal_or_exists sig t with h | ⟨u, hu⟩
    · rw [h.whnf_eq]
      exact ⟨0, h.reducesIn⟩
    · rw [hu.whnf_eq]
      have hrest := ih u (used + 1)
      exact hrest.mono fun w ⟨k, hw⟩ => ⟨k + 1, hw.head hu⟩

end Term

end StagedTT
