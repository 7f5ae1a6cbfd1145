import StagedTT.Proofs.Typing.Judgment

/-!
# Typed substitution

Typing is stable under every kind of substitution that puts typed terms for variables and can be
taken under a binder (`HasType.substAll`). Renamings are such a kind, which gives weakening
(`HasType.weaken`). With weakening, all substitutions of typed terms are of such a kind; putting
an argument for a parameter (`HasType.instantiate`) and replacing the type of a binder by an
equal one (`HasType.convert_binder`) are two of them.
-/

namespace StagedTT

open Term

/-- No declared type and no value has a free variable. -/
structure Signature.Closed (sig : Signature) : Prop where
  values : sig.ValuesClosed
  types : ∀ n decl, sig.find? n = some decl → decl.type.Closed

variable {sig : Signature} {p : Phase} {Γ Δ : List Term} {t T : Term}

/-- A kind of substitutions from one context to another that typing is stable under. -/
structure Admissible (sig : Signature) (p : Phase)
    (K : (Γ Δ : List Term) → (Nat → Term) → Prop) : Prop where
  typed : ∀ {Γ Δ σ}, K Γ Δ σ → ∀ i A, Γ[i]? = some A →
    HasType sig p Δ (σ i) ((A.shift (i + 1) 0).substAll σ)
  within : ∀ {Γ Δ σ}, K Γ Δ σ → ∀ i, (σ i).Within p.fragment
  lift : ∀ {Γ Δ σ}, K Γ Δ σ → ∀ A, K (A :: Γ) (A.substAll σ :: Δ) (Term.lift σ)

/-- **Substitution keeps typing.** -/
theorem HasType.substAll (hsig : sig.Closed) {K : (Γ Δ : List Term) → (Nat → Term) → Prop}
    (hK : Admissible sig p K) (h : HasType sig p Γ t T) {σ : Nat → Term} (hσ : K Γ Δ σ) :
    HasType sig p Δ (t.substAll σ) (T.substAll σ) := by
  induction h generalizing Δ σ with
  | sort l => exact .sort l
  | num v => exact .num v
  | str s => exact .str s
  | const hfind hvis =>
    rw [(hsig.types _ _ hfind).substAll_eq]
    exact .const hfind hvis
  | @var _ i A hget =>
    rw [substAll_var]
    exact hK.typed hσ i A hget
  | @pi _ A B m n _ _ ihA ihB =>
    rw [substAll_pi]
    exact .pi (ihA hσ) (ihB (hK.lift hσ A))
  | @lam _ A b B s _ _ ihpi ihb =>
    have hpi := ihpi hσ
    rw [substAll_pi] at hpi
    rw [substAll_lam, substAll_pi]
    exact .lam hpi (ihb (hK.lift hσ A))
  | app _ _ ihf iha =>
    have hf := ihf hσ
    rw [substAll_pi] at hf
    rw [instantiate_substAll]
    exact .app hf (iha hσ)
  | quote hp _ ih => exact .quote hp (ih hσ)
  | splice hp _ ih => exact .splice hp (ih hσ)
  | call hp _ ih =>
    have hfn := ih hσ
    rw [substAll_applyAll] at hfn
    rw [substAll_call]
    exact .call hp hfn
  | conv _ heq _ ih ihT => exact .conv (ih hσ) (heq.substAll hsig.values (hK.within hσ)) (ihT hσ)

/-! ## Renaming -/

/-- A substitution that puts a variable for each variable, the types in step. -/
def Renames (Γ Δ : List Term) (σ : Nat → Term) : Prop :=
  ∀ i, ∃ j, σ i = .var j ∧ ∀ A, Γ[i]? = some A →
    ∃ B, Δ[j]? = some B ∧ B.shift (j + 1) 0 = (A.shift (i + 1) 0).substAll σ

theorem shift_succ (t : Term) (i : Nat) : t.shift (i + 1) 0 = (t.shift i 0).shift 1 0 :=
  (shift_shift (Nat.le_refl 0) (Nat.zero_le _) t).symm

theorem Renames.lift {σ : Nat → Term} (h : Renames Γ Δ σ) (A : Term) :
    Renames (A :: Γ) (A.substAll σ :: Δ) (Term.lift σ) := by
  intro i
  cases i with
  | zero =>
    refine ⟨0, rfl, fun A' hget => ?_⟩
    obtain rfl : A = A' := Option.some.inj hget
    exact ⟨_, rfl, (shift_substAll_lift σ A).symm⟩
  | succ i =>
    obtain ⟨j, hj, htypes⟩ := h i
    refine ⟨j + 1, ?_, fun A' hget => ?_⟩
    · rw [lift_succ, hj, shift_var, if_neg (Nat.not_lt_zero j)]
    · obtain ⟨B, hB, heq⟩ := htypes A' hget
      refine ⟨B, hB, ?_⟩
      rw [shift_succ B (j + 1), heq, shift_succ A' (i + 1), shift_substAll_lift]

theorem admissible_renames (sig : Signature) (p : Phase) : Admissible sig p Renames where
  typed {_ _ σ} h i A hget := by
    obtain ⟨j, hj, htypes⟩ := h i
    obtain ⟨B, hB, heq⟩ := htypes A hget
    rw [hj, ← heq]
    exact .var hB
  within h i := by
    obtain ⟨j, hj, -⟩ := h i
    rw [hj]
    exact .var j
  lift h A := h.lift A

theorem renames_weaken (Γ : List Term) (B : Term) :
    Renames Γ (B :: Γ) fun i => .var (i + 1) := by
  intro i
  refine ⟨i + 1, rfl, fun A hget => ⟨A, hget, ?_⟩⟩
  rw [shift_succ A (i + 1), shift_eq_substAll (A.shift (i + 1) 0)]
  rfl

/-- **Weakening.** Typing is kept under one more binder. -/
theorem HasType.weaken (hsig : sig.Closed) (h : HasType sig p Γ t T) (B : Term) :
    HasType sig p (B :: Γ) (t.shift 1 0) (T.shift 1 0) := by
  rw [shift_eq_substAll, shift_eq_substAll]
  exact h.substAll hsig (admissible_renames sig p) (renames_weaken Γ B)

/-- Closed code is typed in every context. -/
theorem HasType.of_nil (hsig : sig.Closed) (h : HasType sig p [] t T) (Γ : List Term) :
    HasType sig p Γ t T := by
  have hren : Renames [] Γ Term.var := fun i => ⟨i, rfl, fun A hget => by cases hget⟩
  simpa using h.substAll hsig (admissible_renames sig p) hren

/-- What the context says about a variable is a type, in the context. -/
theorem WellFormed.sorted (hsig : sig.Closed) (hΓ : WellFormed sig p Γ) {i : Nat} {A : Term}
    (hget : Γ[i]? = some A) : ∃ s, HasType sig p Γ (A.shift (i + 1) 0) (.sort s) := by
  induction hΓ generalizing i with
  | nil => cases hget
  | @cons Γ B s _ hB ih =>
    cases i with
    | zero =>
      obtain rfl : B = A := Option.some.inj hget
      exact ⟨s, hB.weaken hsig B⟩
    | succ i =>
      obtain ⟨k, hk⟩ := ih hget
      rw [shift_succ]
      exact ⟨k, hk.weaken hsig B⟩

/-! ## Substitution of typed terms -/

/-- A substitution that puts for each variable a term of its type. -/
structure Substitutes (sig : Signature) (p : Phase) (Γ Δ : List Term) (σ : Nat → Term) : Prop where
  typed : ∀ i A, Γ[i]? = some A → HasType sig p Δ (σ i) ((A.shift (i + 1) 0).substAll σ)
  within : ∀ i, (σ i).Within p.fragment

theorem Substitutes.lift (hsig : sig.Closed) {σ : Nat → Term} (h : Substitutes sig p Γ Δ σ)
    (A : Term) : Substitutes sig p (A :: Γ) (A.substAll σ :: Δ) (Term.lift σ) where
  typed i A' hget := by
    cases i with
    | zero =>
      obtain rfl : A = A' := Option.some.inj hget
      rw [lift_zero, shift_substAll_lift]
      exact .var rfl
    | succ i =>
      rw [lift_succ, shift_succ A' (i + 1), shift_substAll_lift]
      exact (h.typed i A' hget).weaken hsig _
  within := Within.lift h.within

theorem admissible_substitutes (hsig : sig.Closed) :
    Admissible sig p (Substitutes sig p) where
  typed h := h.typed
  within h := h.within
  lift h A := h.lift hsig A

/-- Putting an argument for a parameter keeps typing. -/
theorem HasType.instantiate (hsig : sig.Closed) {A a : Term} (h : HasType sig p (A :: Γ) t T)
    (ha : HasType sig p Γ a A) : HasType sig p Γ (t.instantiate a) (T.instantiate a) := by
  have hσ : Substitutes sig p (A :: Γ) Γ (point a) := by
    refine ⟨fun i A' hget => ?_, ha.within_fragment.point⟩
    rw [shift_succ, shift_substAll_point]
    cases i with
    | zero =>
      obtain rfl : A = A' := Option.some.inj hget
      rw [shift_zero]
      exact ha
    | succ i => exact .var hget
  rw [instantiate_eq_substAll, instantiate_eq_substAll]
  exact h.substAll hsig (admissible_substitutes hsig) hσ

/-- The type of a binder may be replaced by an equal one. -/
theorem HasType.convert_binder (hsig : sig.Closed) {A A' : Term} {s : Nat}
    (h : HasType sig p (A :: Γ) t T) (hA : HasType sig p Γ A (.sort s))
    (heq : EqualIn sig p.fragment A' A) : HasType sig p (A' :: Γ) t T := by
  have hσ : Substitutes sig p (A :: Γ) (A' :: Γ) Term.var := by
    refine ⟨fun i B hget => ?_, fun i => .var i⟩
    rw [substAll_id]
    cases i with
    | zero =>
      obtain rfl : A = B := Option.some.inj hget
      have hvar : HasType sig p (A' :: Γ) (.var 0) (A'.shift 1 0) := .var rfl
      exact hvar.conv (heq.shift hsig.values 1 0) (hA.weaken hsig A')
    | succ i => exact .var hget
  simpa using h.substAll hsig (admissible_substitutes hsig) hσ

end StagedTT
