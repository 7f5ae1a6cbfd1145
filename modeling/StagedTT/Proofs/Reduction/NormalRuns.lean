import StagedTT.Proofs.Reduction.Head

/-!
# Normalizing normal forms

A normal form has no step at its head, and its parts are normal forms. So to normalize it changes
nothing and costs nothing (`Term.Normal.normalizeMetered_eq`).
-/

namespace StagedTT

namespace Term

variable {sig : Signature} {t : Term}

/-! ## The parts of a normal form -/

theorem normal_pi {A B : Term} : Normal sig (.pi A B) ↔ Normal sig A ∧ Normal sig B := by
  refine ⟨fun h => ⟨fun _ hu => h _ (.piDomain B hu), fun _ hu => h _ (.piBody A hu)⟩, ?_⟩
  rintro ⟨hA, hB⟩ u hu
  cases hu with
  | piDomain _ hu => exact hA _ hu
  | piBody _ hu => exact hB _ hu

theorem normal_lam {A b : Term} : Normal sig (.lam A b) ↔ Normal sig A ∧ Normal sig b := by
  refine ⟨fun h => ⟨fun _ hu => h _ (.lamDomain b hu), fun _ hu => h _ (.lamBody A hu)⟩, ?_⟩
  rintro ⟨hA, hb⟩ u hu
  cases hu with
  | lamDomain _ hu => exact hA _ hu
  | lamBody _ hu => exact hb _ hu

theorem normal_app {f a : Term} :
    Normal sig (.app f a) ↔ Normal sig f ∧ Normal sig a ∧ ∀ A b, f ≠ .lam A b := by
  constructor
  · refine fun h => ⟨fun _ hu => h _ (.appFn a hu), fun _ hu => h _ (.appArg f hu), ?_⟩
    rintro A b rfl
    exact h _ (.beta A b a)
  · rintro ⟨hf, ha, hlam⟩ u hu
    cases hu with
    | beta A b _ => exact hlam A b rfl
    | appFn _ hu => exact hf _ hu
    | appArg _ hu => exact ha _ hu

theorem normal_quote {b : Term} : Normal sig (.quote b) ↔ Normal sig b := by
  refine ⟨fun h _ hu => h _ (.quote hu), fun hb u hu => ?_⟩
  cases hu with
  | quote hu => exact hb _ hu

theorem normal_splice {b : Term} : Normal sig (.splice b) ↔ Normal sig b := by
  refine ⟨fun h _ hu => h _ (.splice hu), fun hb u hu => ?_⟩
  cases hu with
  | splice hu => exact hb _ hu

theorem normal_call {head : Term} {args : List Term} :
    Normal sig (.call head args) ↔ ∀ a ∈ args, Normal sig a := by
  constructor
  · intro h a ha u hu
    obtain ⟨as, bs, rfl⟩ := List.append_of_mem ha
    exact h _ (.callArg head as bs hu)
  · intro hargs u hu
    cases hu with
    | callArg _ as bs hu => exact hargs _ (by simp) _ hu

theorem HeadNormal.normal_const {n : String} (h : HeadNormal sig (.const n)) :
    Normal sig (.const n) := by
  intro u hu
  cases hu with
  | delta hv => exact h _ (.delta hv)

/-! ## Runs on normal forms -/

theorem Normal.step?_eq_none (h : Normal sig t) : t.spine.step? sig = none :=
  step?_spine_eq_none_iff.2 h.headNormal

theorem normalizeArgs_of_normal {again : Term → Metered KernelError Term} {args : List Term}
    (h : ∀ a ∈ args, normalizeBody sig again a = pure a) :
    normalizeArgs sig again args = pure args := by
  induction args with
  | nil => rfl
  | cons a as ih =>
    obtain ⟨ha, has⟩ := List.forall_mem_cons.1 h
    rw [normalizeArgs, ha, ih has]
    rfl

theorem normalizeBody_of_normal (again : Term → Metered KernelError Term) (h : Normal sig t) :
    normalizeBody sig again t = pure t := by
  induction t with
  | sort | num | str | var => rfl
  | const name =>
    unfold normalizeBody
    rw [h.step?_eq_none]
  | pi A B ihA ihB =>
    obtain ⟨hA, hB⟩ := normal_pi.1 h
    rw [normalizeBody, ihA hA, ihB hB]
    rfl
  | lam A b ihA ihb =>
    obtain ⟨hA, hb⟩ := normal_lam.1 h
    rw [normalizeBody, ihA hA, ihb hb]
    rfl
  | app f a ihf iha =>
    obtain ⟨hf, ha, -⟩ := normal_app.1 h
    unfold normalizeBody
    rw [h.step?_eq_none]
    simp only [ihf hf, iha ha]
    rfl
  | quote b ih =>
    rw [normalizeBody, ih (normal_quote.1 h)]
    rfl
  | splice b ih =>
    rw [normalizeBody, ih (normal_splice.1 h)]
    rfl
  | call head args _ ih =>
    have hargs := normal_call.1 h
    rw [normalizeBody, normalizeArgs_of_normal fun a ha => ih a ha (hargs a ha)]
    rfl

/-- **Normalizing a normal form changes nothing and costs nothing.** -/
theorem Normal.normalizeMetered_eq (h : Normal sig t) : t.normalizeMetered sig = pure t := by
  rw [Term.normalizeMetered_eq, normalizeBody_of_normal _ h]

end Term

end StagedTT
