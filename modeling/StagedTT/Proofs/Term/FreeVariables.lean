import StagedTT.Proofs.Term.FreeIndex
import StagedTT.Proofs.Term.SubstitutionLaws

/-!
# Free variables of shifted and substituted terms

A traversal leaves free what is free in the terms that it puts for free variables, and nothing else
(`free_mapVars`). So exactly these variables are free in a shifted term: those below the cutoff, and
the others moved up. And exactly these are free in a term with one variable replaced: those below
it, those above it moved down, and, if it was free itself, those of its replacement
(`free_shift_and_subst`). No binder captures a variable or loses one.
-/

namespace StagedTT

namespace Term

/-- **What a traversal leaves free**, if it puts the same for a variable under a binder, one index
on: for each free variable, what is free in the term that is put for it. -/
theorem free_mapVars {f : Nat → Nat → Term} {t : Term} {c i : Nat}
    (h : ∀ depth, c ≤ depth → ∀ k i,
      (f (depth + 1) k).Free (i + 1) ↔ ∃ l, l + 1 = k ∧ (f depth l).Free i) :
    (mapVars f c t).Free i ↔ ∃ k, t.Free k ∧ (f c k).Free i := by
  induction t generalizing c i with
  | sort | const | num | str => simp
  | var k => simp
  | pi A B ihA ihB | lam A B ihA ihB =>
    have hbody : (mapVars f (c + 1) B).Free (i + 1) ↔ ∃ k, B.Free (k + 1) ∧ (f c k).Free i := by
      rw [ihB fun depth hd => h depth (Nat.le_of_succ_le hd)]
      constructor
      · rintro ⟨k, hk, hfree⟩
        obtain ⟨l, rfl, hl⟩ := (h c (Nat.le_refl c) k i).1 hfree
        exact ⟨l, hk, hl⟩
      · rintro ⟨l, hl, hfree⟩
        exact ⟨l + 1, hl, (h c (Nat.le_refl c) (l + 1) i).2 ⟨l, rfl, hfree⟩⟩
    simp only [mapVars_pi, mapVars_lam, free_pi, free_lam, ihA h, hbody, or_and_right, exists_or]
  | app g a ihg iha => simp only [mapVars_app, free_app, ihg h, iha h, or_and_right, exists_or]
  | quote b ih | splice b ih =>
    simp only [mapVars_quote, mapVars_splice, free_quote, free_splice, ih h]
  | call head args ihHead ihArgs =>
    have hargs : (∃ arg ∈ args.map (mapVars f c), arg.Free i) ↔
        ∃ k, (∃ arg ∈ args, arg.Free k) ∧ (f c k).Free i := by
      constructor
      · rintro ⟨_, hmem, hfree⟩
        obtain ⟨arg, harg, rfl⟩ := List.mem_map.1 hmem
        obtain ⟨k, hk, hfree⟩ := (ihArgs arg harg h).1 hfree
        exact ⟨k, ⟨arg, harg, hk⟩, hfree⟩
      · rintro ⟨k, ⟨arg, harg, hk⟩, hfree⟩
        exact ⟨_, List.mem_map_of_mem harg, (ihArgs arg harg h).2 ⟨k, hk, hfree⟩⟩
    simp only [mapVars_call, free_call, ihHead h, hargs, or_and_right, exists_or]

/-- The free variables of a shifted term: those below the cutoff, and the others moved up. -/
theorem free_shift {t : Term} {d c i : Nat} :
    (t.shift d c).Free i ↔ i < c ∧ t.Free i ∨ ∃ k, c ≤ k ∧ t.Free k ∧ i = k + d := by
  rw [shift_eq_mapVars, free_mapVars fun depth _ k i => ?uniform]
  case uniform =>
    cases k with
    | zero => simp
    | succ k =>
      simp only [free_var, Nat.add_right_cancel_iff, exists_eq_left]
      split <;> split <;> omega
  constructor
  · rintro ⟨k, hk, hfree⟩
    cases hfree
    by_cases hkc : k < c
    · rw [if_pos hkc]
      exact .inl ⟨hkc, hk⟩
    · rw [if_neg hkc]
      exact .inr ⟨k, Nat.not_lt.1 hkc, hk, rfl⟩
  · rintro (⟨hic, hi⟩ | ⟨k, hck, hk, rfl⟩)
    · exact ⟨i, hi, by rw [if_pos hic]; exact .var i⟩
    · exact ⟨k, hk, by rw [if_neg (Nat.not_lt.2 hck)]; exact .var _⟩

/-- Under one more binder, a term has the same free variables, one index on. -/
theorem free_shift_succ {t : Term} {d i : Nat} :
    (t.shift (d + 1) 0).Free (i + 1) ↔ (t.shift d 0).Free i := by
  simp [free_shift, ← Nat.add_assoc]

/-- The free variables of a term with one variable replaced: those below it, those above it moved
down, and, if it was free, those of the replacement. -/
theorem free_subst {t s : Term} {j i : Nat} :
    (t.subst j s).Free i ↔
      i < j ∧ t.Free i ∨ (∃ k, j < k ∧ t.Free k ∧ i = k - 1) ∨ t.Free j ∧ s.Free i := by
  rw [subst_eq_mapVars, free_mapVars fun depth hd k i => ?uniform]
  case uniform =>
    unfold substVar
    cases k with
    | zero => simp
    | succ k =>
      simp only [Nat.add_right_cancel_iff, exists_eq_left]
      rcases Nat.lt_trichotomy k depth with hlt | rfl | hgt
      · rw [if_pos (by omega), if_pos hlt, free_var, free_var, Nat.add_right_cancel_iff]
      · rw [if_neg (by omega), if_pos rfl, if_neg (by omega), if_pos rfl, Nat.succ_sub hd,
          free_shift_succ]
      · rw [if_neg (by omega), if_neg (by omega), if_neg (by omega), if_neg (by omega), free_var,
          free_var]
        omega
  have hput : ∀ k, substVar j s j k = (var k).subst j s := fun k => by
    rw [substVar, subst_var, Nat.sub_self, shift_zero]
  simp only [hput]
  constructor
  · rintro ⟨k, hk, hfree⟩
    rcases Nat.lt_trichotomy k j with hlt | rfl | hgt
    · rw [subst_var_of_lt hlt] at hfree
      cases hfree
      exact .inl ⟨hlt, hk⟩
    · rw [subst_var_self] at hfree
      exact .inr (.inr ⟨hk, hfree⟩)
    · rw [subst_var_of_gt hgt] at hfree
      cases hfree
      exact .inr (.inl ⟨k, hgt, hk, rfl⟩)
  · rintro (⟨hlt, hi⟩ | ⟨k, hgt, hk, rfl⟩ | ⟨hj, hi⟩)
    · exact ⟨i, hi, by rw [subst_var_of_lt hlt]; exact .var i⟩
    · exact ⟨k, hk, by rw [subst_var_of_gt hgt]; exact .var _⟩
    · exact ⟨j, hj, by rwa [subst_var_self]⟩

/-- **Shifting and substitution are exact.** Free in a shifted term are the variables of the term
below the cutoff, and those from the cutoff on moved up by the amount of the shift. Free in a term
with one variable replaced are those below it, those above it moved down by one, and those of the
replacement if the variable was free, and only then. So a term under `n + 1` binders, one of which
goes with a replacement under the `n` others, is a term under these. -/
theorem free_shift_and_subst (t s : Term) (d c j : Nat) :
    (∀ i, (t.shift d c).Free i ↔ i < c ∧ t.Free i ∨ ∃ k, c ≤ k ∧ t.Free k ∧ i = k + d) ∧
      (∀ i, (t.subst j s).Free i ↔
        i < j ∧ t.Free i ∨ (∃ k, j < k ∧ t.Free k ∧ i = k - 1) ∨ t.Free j ∧ s.Free i) ∧
      ∀ n, j ≤ n → (∀ i, t.Free i → i < n + 1) → (∀ i, s.Free i → i < n) →
        ∀ i, (t.subst j s).Free i → i < n := by
  refine ⟨fun i => free_shift, fun i => free_subst, fun n hjn ht hs i hi => ?_⟩
  rcases free_subst.1 hi with ⟨hij, -⟩ | ⟨k, hjk, hk, rfl⟩ | ⟨-, hi⟩
  · exact Nat.lt_of_lt_of_le hij hjn
  · have hkn := ht k hk
    omega
  · exact hs i hi

/-- Under a binder, with the innermost, the replaced and the outermost of four variables. -/
theorem free_shift_and_subst_underBinder :
    let t : Term := .lam (.var 3) (.app (.app (.var 0) (.var 2)) (.var 1))
    let s : Term := .app (.var 0) (.var 2)
    let result : Term := .lam (.var 2) (.app (.app (.var 0) (.app (.var 1) (.var 3))) (.var 1))
    1 ≤ 3 ∧ (∀ i, t.Free i → i < 4) ∧ (∀ i, s.Free i → i < 3) ∧ t.subst 1 s = result ∧
      (∀ i, result.Free i → i < 3) ∧ ¬ (t.shift 2 1).Free 1 ∧ (t.shift 2 1).Free 5 := by
  intro t s result
  have hj : 1 ≤ 3 := by decide
  have ht : ∀ i, t.Free i → i < 4 := by
    simp only [t, free_lam, free_app, free_var]
    omega
  have hs : ∀ i, s.Free i → i < 3 := by
    simp only [s, free_app, free_var]
    omega
  have hresult : t.subst 1 s = result := by decide
  obtain ⟨hshift, -, hscoped⟩ := free_shift_and_subst t s 2 1 1
  refine ⟨hj, ht, hs, hresult, hresult ▸ hscoped 3 hj ht hs, fun hfree => ?_, ?_⟩
  · rcases (hshift 1).1 hfree with ⟨hlt, -⟩ | ⟨k, hk, -, heq⟩ <;> omega
  · exact (hshift 5).2 (.inr ⟨3, by decide, .lamDomain (.var 3), rfl⟩)

end Term

end StagedTT
