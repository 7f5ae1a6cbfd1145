import StagedTT.Proofs.Term.Simultaneous

/-!
# Free variables

`t.Free i` says that the variable `i` occurs free in `t`, counted from outside all binders of
`t`. A substitution is determined by what it does to the free variables (`substAll_congr`), so a
closed term is its own instance (`Closed.substAll_eq`).
-/

namespace StagedTT

namespace Term

/-- A variable occurs free in a term. -/
inductive Free : Term → Nat → Prop
  | var (i : Nat) : Free (.var i) i
  | piDomain {A B : Term} {i : Nat} : Free A i → Free (.pi A B) i
  | piBody {A B : Term} {i : Nat} : Free B (i + 1) → Free (.pi A B) i
  | lamDomain {A b : Term} {i : Nat} : Free A i → Free (.lam A b) i
  | lamBody {A b : Term} {i : Nat} : Free b (i + 1) → Free (.lam A b) i
  | appFn {f a : Term} {i : Nat} : Free f i → Free (.app f a) i
  | appArg {f a : Term} {i : Nat} : Free a i → Free (.app f a) i
  | quote {b : Term} {i : Nat} : Free b i → Free (.quote b) i
  | splice {b : Term} {i : Nat} : Free b i → Free (.splice b) i
  | callHead {h : Term} {as : List Term} {i : Nat} : Free h i → Free (.call h as) i
  | callArg {h a : Term} {as : List Term} {i : Nat} : a ∈ as → Free a i → Free (.call h as) i

section Parts

variable {i : Nat}

@[simp] theorem free_sort {l : Nat} : ¬ (sort l).Free i := nofun

@[simp] theorem free_const {n : String} : ¬ (const n).Free i := nofun

@[simp] theorem free_num {v : Int64} : ¬ (num v).Free i := nofun

@[simp] theorem free_str {s : String} : ¬ (str s).Free i := nofun

@[simp] theorem free_var {k : Nat} : (var k).Free i ↔ k = i := by
  constructor
  · intro h
    cases h
    rfl
  · rintro rfl
    exact .var k

@[simp] theorem free_pi {A B : Term} : (pi A B).Free i ↔ A.Free i ∨ B.Free (i + 1) := by
  refine ⟨fun h => ?_, fun h => h.elim .piDomain .piBody⟩
  cases h with
  | piDomain h => exact .inl h
  | piBody h => exact .inr h

@[simp] theorem free_lam {A b : Term} : (lam A b).Free i ↔ A.Free i ∨ b.Free (i + 1) := by
  refine ⟨fun h => ?_, fun h => h.elim .lamDomain .lamBody⟩
  cases h with
  | lamDomain h => exact .inl h
  | lamBody h => exact .inr h

@[simp] theorem free_app {f a : Term} : (app f a).Free i ↔ f.Free i ∨ a.Free i := by
  refine ⟨fun h => ?_, fun h => h.elim .appFn .appArg⟩
  cases h with
  | appFn h => exact .inl h
  | appArg h => exact .inr h

@[simp] theorem free_quote {b : Term} : (quote b).Free i ↔ b.Free i := by
  refine ⟨fun h => ?_, .quote⟩
  cases h with
  | quote h => exact h

@[simp] theorem free_splice {b : Term} : (splice b).Free i ↔ b.Free i := by
  refine ⟨fun h => ?_, .splice⟩
  cases h with
  | splice h => exact h

@[simp] theorem free_call {head : Term} {args : List Term} :
    (call head args).Free i ↔ head.Free i ∨ ∃ arg ∈ args, arg.Free i := by
  refine ⟨fun h => ?_, fun h => h.elim .callHead fun ⟨_, harg, h⟩ => .callArg harg h⟩
  cases h with
  | callHead h => exact .inl h
  | callArg harg h => exact .inr ⟨_, harg, h⟩

end Parts

/-- No variable occurs free in a term. -/
def Closed (t : Term) : Prop := ∀ i, ¬ t.Free i

theorem lift_congr {σ τ : Nat → Term} {p : Nat → Prop} (h : ∀ i, p (i + 1) → σ i = τ i) (i : Nat)
    (hi : p i) : lift σ i = lift τ i := by
  cases i with
  | zero => rfl
  | succ i => rw [lift_succ, lift_succ, h i hi]

/-- Substitutions that agree on the free variables of a term do the same to it. -/
theorem substAll_congr {t : Term} {σ τ : Nat → Term} (h : ∀ i, t.Free i → σ i = τ i) :
    t.substAll σ = t.substAll τ := by
  induction t generalizing σ τ with
  | sort | const | num | str => rfl
  | var i => rw [substAll_var, substAll_var, h i (.var i)]
  | pi A B ihA ihB =>
    rw [substAll_pi, substAll_pi, ihA fun i hi => h i (.piDomain hi),
      ihB (lift_congr fun i hi => h i (.piBody hi))]
  | lam A b ihA ihb =>
    rw [substAll_lam, substAll_lam, ihA fun i hi => h i (.lamDomain hi),
      ihb (lift_congr fun i hi => h i (.lamBody hi))]
  | app f a ihf iha =>
    rw [substAll_app, substAll_app, ihf fun i hi => h i (.appFn hi),
      iha fun i hi => h i (.appArg hi)]
  | quote b ih => rw [substAll_quote, substAll_quote, ih fun i hi => h i (.quote hi)]
  | splice b ih => rw [substAll_splice, substAll_splice, ih fun i hi => h i (.splice hi)]
  | call k as ihk ihas =>
    rw [substAll_call, substAll_call, ihk fun i hi => h i (.callHead hi),
      List.map_congr_left fun a ha => ihas a ha fun i hi => h i (.callArg ha hi)]

theorem Closed.substAll_eq {t : Term} (h : t.Closed) (σ : Nat → Term) : t.substAll σ = t :=
  (substAll_congr fun i hi => absurd hi (h i)).trans (substAll_id t)

theorem free_applyAll {head : Term} {args : List Term} {i : Nat} :
    (head.applyAll args).Free i ↔ head.Free i ∨ ∃ arg ∈ args, arg.Free i := by
  induction args generalizing head with
  | nil => simp
  | cons arg args ih =>
    simp only [applyAll_cons, ih, free_app, List.mem_cons, exists_eq_or_imp, or_assoc]

end Term

end StagedTT
