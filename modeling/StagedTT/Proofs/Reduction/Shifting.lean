import StagedTT.Proofs.Correspondence
import StagedTT.Proofs.Reduction.Standardization
import StagedTT.Proofs.Term.ShiftLaws

/-!
# Reduction under more binders

To put more binders around a term, or in between those that are there, changes nothing that
reduction does. The term has the head steps that it had (`HeadStep.shift`) and no others, because
the insertion can be undone (`HeadNormal.shift`). So reduction at the head and normalization make
the same number of steps and answer with what they answered before, under the new binders
(`whnf_shift`, `normalizeMetered_shift`), or run out of fuel after as many steps as before.

All this takes is that the values in the signature are closed.
-/

namespace StagedTT

open Metered (corresponds_pure corresponds_burn corresponds_fix)

namespace Term

/-- The second term is the first one under `d` more binders, which are put in behind the inner
`c`. -/
abbrev IsShift (d c : Nat) : Term → Term → Prop := IsImage (·.shift d c)

variable {sig : Signature}

/-! ## At the head -/

theorem HeadStep.shift (hsig : sig.ValuesClosed) {t u : Term} (h : HeadStep sig t u) (d c : Nat) :
    HeadStep sig (t.shift d c) (u.shift d c) := by
  rw [shift_eq_substAll, shift_eq_substAll]
  exact h.substAll hsig _

theorem HeadNormal.shift (hsig : sig.ValuesClosed) {t : Term} (h : HeadNormal sig t) (d c : Nat) :
    HeadNormal sig (t.shift d c) := by
  intro u hu
  obtain ⟨σ, hσ⟩ := exists_substAll_shift d c
  have hback := hu.substAll hsig σ
  rw [hσ] at hback
  exact h _ hback

theorem whnf_shift (hsig : sig.ValuesClosed) (t : Term) (d c : Nat) :
    Metered.Corresponds (IsShift d c) Eq (t.whnf sig) ((t.shift d c).whnf sig) := by
  rintro ⟨used, left⟩
  induction left generalizing used t with
  | zero =>
    rcases headNormal_or_exists sig t with h | ⟨u, hu⟩
    · rw [h.whnf_eq, (h.shift hsig d c).whnf_eq]
      exact ⟨.ok rfl, rfl⟩
    · rw [hu.whnf_eq, (hu.shift hsig d c).whnf_eq]
      exact ⟨.error rfl, rfl⟩
  | succ left ih =>
    rcases headNormal_or_exists sig t with h | ⟨u, hu⟩
    · rw [h.whnf_eq, (h.shift hsig d c).whnf_eq]
      exact ⟨.ok rfl, rfl⟩
    · rw [hu.whnf_eq, (hu.shift hsig d c).whnf_eq]
      exact ih u (used + 1)

/-! ## Normal forms -/

section Body

variable {f f' : Term → Metered KernelError Term} {d c : Nat}

private theorem normalizeArgs_shift {args : List Term}
    (h : ∀ arg ∈ args, Metered.Corresponds (IsShift d c) Eq (normalizeBody sig f arg)
      (normalizeBody sig f' (arg.shift d c))) :
    Metered.Corresponds (IsImage (List.map (·.shift d c))) Eq (normalizeArgs sig f args)
      (normalizeArgs sig f' (args.map (·.shift d c))) := by
  induction args with
  | nil => exact corresponds_pure rfl
  | cons arg args ih =>
    obtain ⟨first, rest⟩ := List.forall_mem_cons.1 h
    exact first.bind_image fun a => (ih rest).bind_image fun as => corresponds_pure rfl

variable (hsig : sig.ValuesClosed)
  (hf : ∀ c t, Metered.Corresponds (IsShift d c) Eq (f t) (f' (t.shift d c)))

include hsig hf

private theorem normalizeBody_shift_of_headStep {t u : Term} (hu : HeadStep sig t u) :
    Metered.Corresponds (IsShift d c) Eq (normalizeBody sig f t)
      (normalizeBody sig f' (t.shift d c)) := by
  rw [hu.normalizeBody_eq, (hu.shift hsig d c).normalizeBody_eq]
  refine (corresponds_burn fun _ => rfl).bind_image fun _ => ?_
  exact (whnf_shift hsig u d c).bind_image fun w => hf c w

private theorem normalizeBody_shift (t : Term) :
    Metered.Corresponds (IsShift d c) Eq (normalizeBody sig f t)
      (normalizeBody sig f' (t.shift d c)) := by
  induction t generalizing c with
  | sort | num | str | var =>
    simp only [shift_sort, shift_num, shift_str, shift_var]
    exact corresponds_pure (by simp [IsShift, IsImage])
  | const n =>
    rcases headNormal_or_exists sig (.const n) with h | ⟨u, hu⟩
    · rw [shift_const, normalizeBody, normalizeBody, step?_spine_eq_none_iff.2 h]
      exact corresponds_pure (shift_const d c n).symm
    · exact normalizeBody_shift_of_headStep hsig hf hu
  | app g a ihg iha =>
    rcases headNormal_or_exists sig (.app g a) with h | ⟨u, hu⟩
    · have hshift := h.shift hsig d c
      rw [shift_app] at hshift ⊢
      rw [normalizeBody, normalizeBody, step?_spine_eq_none_iff.2 h,
        step?_spine_eq_none_iff.2 hshift]
      exact ihg.bind_image fun g => iha.bind_image fun a =>
        corresponds_pure (shift_app d c g a).symm
    · exact normalizeBody_shift_of_headStep hsig hf hu
  | pi A B ihA ihB =>
    rw [shift_pi]
    exact ihA.bind_image fun A => ihB.bind_image fun B => corresponds_pure (shift_pi d c A B).symm
  | lam A b ihA ihb =>
    rw [shift_lam]
    exact ihA.bind_image fun A => ihb.bind_image fun b => corresponds_pure (shift_lam d c A b).symm
  | quote b ih =>
    rw [shift_quote]
    exact ih.bind_image fun b => corresponds_pure (shift_quote d c b).symm
  | splice b ih =>
    rw [shift_splice]
    exact ih.bind_image fun b => corresponds_pure (shift_splice d c b).symm
  | call k as _ ih =>
    rw [shift_call]
    exact (normalizeArgs_shift fun a ha => ih a ha).bind_image fun as =>
      corresponds_pure (shift_call d c k as).symm

end Body

/-- **Normalization commutes with insertions of binders**, at the same cost. -/
theorem normalizeMetered_shift (hsig : sig.ValuesClosed) (t : Term) (d c : Nat) :
    Metered.Corresponds (IsShift d c) Eq (t.normalizeMetered sig)
      ((t.shift d c).normalizeMetered sig) :=
  corresponds_fix (fun _ => rfl) (R := IsShift d)
    (fun _ _ hf _ t => normalizeBody_shift hsig hf t) c t

end Term

open Term

namespace Environment

theorem normalize_shift {env : Environment} (hsig : env.signature.ValuesClosed) (t : Term)
    (d c : Nat) :
    Corresponds (IsShift d c) Eq (env.normalize t) (env.normalize (t.shift d c)) :=
  (normalizeMetered_shift hsig t d c).runFresh _

end Environment

end StagedTT
