import StagedTT.Term.Spine

/-!
# Simultaneous substitution

`t.substAll σ` puts `σ i` for every free variable `i` of `t`. Shifting, substitution for one
variable and the contraction of a function are all of this form (`shift_eq_substAll`,
`subst_eq_substAll`, `instantiate_eq_substAll`), so that whatever commutes with `substAll`
commutes with all three, and an equation between them is an equation between two functions on
variables.

`substAll_substAll` says that two simultaneous substitutions are one.
-/

namespace StagedTT

namespace Term

/-- Traversals that start `n` binders further in. -/
theorem mapVars_add (f : Nat → Nat → Term) (c n : Nat) (t : Term) :
    mapVars f (c + n) t = mapVars (fun depth => f (depth + n)) c t := by
  induction t generalizing c with
  | sort | const | num | str | var => rfl
  | pi A B ihA ihB | lam A B ihA ihB =>
    have hB : mapVars f (c + n + 1) B = mapVars (fun depth => f (depth + n)) (c + 1) B := by
      rw [Nat.add_right_comm]
      exact ihB (c + 1)
    simp only [mapVars_pi, mapVars_lam, ihA, hB]
  | app g a ihg iha => simp only [mapVars_app, ihg, iha]
  | quote b ih | splice b ih => simp only [mapVars_quote, mapVars_splice, ih]
  | call k as ihk ihas =>
    rw [mapVars_call, mapVars_call, ihk, List.map_congr_left fun a ha => ihas a ha c]

/-- What a substitution becomes under one more binder. -/
def lift (σ : Nat → Term) : Nat → Term
  | 0 => var 0
  | i + 1 => (σ i).shift 1 0

@[simp] theorem lift_zero (σ : Nat → Term) : lift σ 0 = var 0 := rfl

@[simp] theorem lift_succ (σ : Nat → Term) (i : Nat) : lift σ (i + 1) = (σ i).shift 1 0 := rfl

/-- Substitutions that are related, whatever they are shifted by, are so under one more binder. -/
theorem lift_related {R : Term → Term → Prop} (hvar : ∀ i, R (.var i) (.var i))
    {σ τ : Nat → Term} (hστ : ∀ (d : Nat) i, R ((σ i).shift d 0) ((τ i).shift d 0)) (d i : Nat) :
    R ((lift σ i).shift d 0) ((lift τ i).shift d 0) := by
  cases i with
  | zero =>
    rw [lift_zero, lift_zero, shift_var]
    exact hvar _
  | succ i =>
    rw [lift_succ, lift_succ, shift_shift (Nat.le_refl 0) (Nat.zero_le _),
      shift_shift (Nat.le_refl 0) (Nat.zero_le _)]
    exact hστ _ i

/-- Puts `σ i` for every free variable `i`. -/
def substAll (t : Term) (σ : Nat → Term) : Term :=
  t.mapVars (fun depth i => if i < depth then .var i else (σ (i - depth)).shift depth 0) 0

section SubstAll

variable (σ τ : Nat → Term)

@[simp] theorem substAll_sort (l : Nat) : (sort l).substAll σ = sort l := rfl

@[simp] theorem substAll_const (n : String) : (const n).substAll σ = const n := rfl

@[simp] theorem substAll_num (v : Int64) : (num v).substAll σ = num v := rfl

@[simp] theorem substAll_str (s : String) : (str s).substAll σ = str s := rfl

@[simp] theorem substAll_var (i : Nat) : (var i).substAll σ = σ i := by
  rw [substAll, mapVars_var, if_neg (Nat.not_lt_zero i), Nat.sub_zero, shift_zero]

/-- The traversal of `substAll`, one binder further in. -/
private theorem mapVars_lift (t : Term) :
    t.mapVars (fun depth i => if i < depth then .var i else (σ (i - depth)).shift depth 0) (0 + 1) =
      t.substAll (lift σ) := by
  rw [mapVars_add, substAll]
  refine mapVars_congr fun depth _ i => ?_
  rcases Nat.lt_trichotomy i depth with h | rfl | h
  · rw [if_pos (by omega), if_pos h]
  · rw [if_pos (Nat.lt_succ_self i), if_neg (Nat.lt_irrefl i), Nat.sub_self, lift_zero, shift_var,
      if_neg (Nat.not_lt_zero 0), Nat.zero_add]
  · obtain ⟨k, rfl⟩ : ∃ k, i = depth + 1 + k := ⟨i - (depth + 1), by omega⟩
    rw [if_neg (by omega), if_neg (by omega), show depth + 1 + k - (depth + 1) = k by omega,
      show depth + 1 + k - depth = k + 1 by omega, lift_succ,
      shift_shift (Nat.le_refl 0) (Nat.zero_le _), Nat.add_comm 1 depth]

@[simp] theorem substAll_pi (A B : Term) :
    (pi A B).substAll σ = pi (A.substAll σ) (B.substAll (lift σ)) := by
  rw [← mapVars_lift]; rfl

@[simp] theorem substAll_lam (A b : Term) :
    (lam A b).substAll σ = lam (A.substAll σ) (b.substAll (lift σ)) := by
  rw [← mapVars_lift]; rfl

@[simp] theorem substAll_app (f a : Term) :
    (app f a).substAll σ = app (f.substAll σ) (a.substAll σ) := rfl

@[simp] theorem substAll_quote (b : Term) : (quote b).substAll σ = quote (b.substAll σ) := rfl

@[simp] theorem substAll_splice (b : Term) : (splice b).substAll σ = splice (b.substAll σ) := rfl

@[simp] theorem substAll_call (h : Term) (as : List Term) :
    (call h as).substAll σ = call (h.substAll σ) (as.map (·.substAll σ)) := by
  rw [substAll, mapVars_call]; rfl

theorem substAll_applyAll (head : Term) (args : List Term) :
    (head.applyAll args).substAll σ =
      (head.substAll σ).applyAll (args.map (·.substAll σ)) := by
  induction args generalizing head with
  | nil => rfl
  | cons arg args ih => simp [ih]

@[simp] theorem substAll_id (t : Term) : t.substAll var = t := by
  refine (mapVars_congr fun depth _ i => ?_).trans (mapVars_id t 0)
  rw [shift_var, if_neg (Nat.not_lt_zero _), ite_eq_left_iff]
  intro h
  rw [Nat.sub_add_cancel (by omega)]

/-! ## The kernel's operations -/

theorem shift_eq_substAll (t : Term) (d c : Nat) :
    t.shift d c = t.substAll fun i => var (if i < c then i else i + d) := by
  rw [shift_eq_mapVars, substAll, ← Nat.zero_add c, mapVars_add]
  refine mapVars_congr fun depth _ i => ?_
  simp only [Nat.zero_add, shift_var, Nat.not_lt_zero, if_false]
  split
  · split
    · rfl
    · rw [if_pos (by omega), Nat.sub_add_cancel (by omega)]
  · rw [if_neg (by omega), if_neg (by omega)]
    congr 1
    omega

theorem subst_eq_substAll (t : Term) (j : Nat) (r : Term) :
    t.subst j r =
      t.substAll fun i => if i < j then var i else if i = j then r else var (i - 1) := by
  rw [subst_eq_mapVars, substAll]
  refine (congrArg (mapVars _ · t) (Nat.zero_add j).symm).trans
    ((mapVars_add _ 0 j t).trans (mapVars_congr fun depth _ i => ?_))
  unfold substVar
  by_cases h : i < depth
  · rw [if_pos (by omega), if_pos h]
  rw [if_neg h]
  rcases Nat.lt_trichotomy i (depth + j) with hlt | rfl | hgt
  · rw [if_pos hlt, if_pos (by omega), shift_var, if_neg (Nat.not_lt_zero _),
      Nat.sub_add_cancel (by omega)]
  · rw [if_neg (Nat.lt_irrefl _), if_pos rfl, if_neg (by omega), if_pos (by omega),
      Nat.add_sub_cancel]
  · rw [if_neg (by omega), if_neg (by omega), if_neg (by omega), if_neg (by omega), shift_var,
      if_neg (Nat.not_lt_zero _)]
    congr 1
    omega

/-- The substitution of a term for the innermost variable. -/
def point (a : Term) : Nat → Term
  | 0 => a
  | i + 1 => var i

@[simp] theorem point_zero (a : Term) : point a 0 = a := rfl

@[simp] theorem point_succ (a : Term) (i : Nat) : point a (i + 1) = var i := rfl

theorem instantiate_eq_substAll (b a : Term) : b.instantiate a = b.substAll (point a) := by
  rw [instantiate, subst_eq_substAll]
  congr 1
  funext i
  cases i <;> simp

/-! ## Composition -/

/-- Inserting `n` binders first or last makes no difference to a substitution that leaves
them alone. -/
private theorem mapVars_shift (n : Nat) (t : Term) :
    (t.shift n 0).mapVars
        (fun depth i => if i < depth then .var i else (τ (i - depth)).shift depth 0) n =
      (t.substAll τ).shift n 0 := by
  rw [shift_eq_mapVars, shift_eq_mapVars, substAll,
    mapVars_mapVars (k := fun depth i =>
      if i < depth then .var i else (τ (i - depth)).shift (depth + n) 0) fun m i => ?_,
    mapVars_mapVars (k := fun depth i =>
      if i < depth then .var i else (τ (i - depth)).shift (depth + n) 0) fun m i => ?_]
  · simp only [Nat.zero_add]
    split
    · next h => simp only [mapVars_var, if_pos h]
    · rw [← shift_eq_mapVars, shift_shift (Nat.zero_le m) (by omega)]
  · simp only [Nat.zero_add, mapVars_var]
    split
    · rw [if_pos (by omega)]
    · rw [if_neg (by omega), show i + n - (n + m) = i - m by omega, Nat.add_comm n m]

/-- Two simultaneous substitutions are one. -/
theorem substAll_substAll (t : Term) :
    (t.substAll σ).substAll τ = t.substAll fun i => (σ i).substAll τ := by
  rw [substAll, substAll, substAll]
  refine mapVars_mapVars fun n i => ?_
  simp only [Nat.zero_add]
  split
  · next h => simp only [mapVars_var, if_pos h]
  · exact mapVars_shift τ n _

theorem shift_substAll_lift (t : Term) :
    (t.shift 1 0).substAll (lift σ) = (t.substAll σ).shift 1 0 := by
  simp only [shift_eq_substAll, substAll_substAll, Nat.not_lt_zero, if_false, substAll_var,
    lift_succ]

theorem shift_substAll_point (t a : Term) : (t.shift 1 0).substAll (point a) = t := by
  simp only [shift_eq_substAll, substAll_substAll, Nat.not_lt_zero, if_false, substAll_var,
    point_succ, substAll_id]

/-- Substitution commutes with the contraction of a function. -/
theorem instantiate_substAll (b a : Term) :
    (b.instantiate a).substAll σ = (b.substAll (lift σ)).instantiate (a.substAll σ) := by
  rw [instantiate_eq_substAll, instantiate_eq_substAll, substAll_substAll, substAll_substAll]
  congr 1
  funext i
  cases i with
  | zero => rw [point_zero, lift_zero, substAll_var, point_zero]
  | succ i => rw [point_succ, lift_succ, substAll_var, shift_substAll_point]

end SubstAll

end Term

end StagedTT
