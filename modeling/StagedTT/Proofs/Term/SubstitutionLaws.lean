import StagedTT.Proofs.Term.Simultaneous

/-!
# Laws of shifting and substitution

Shifting and substitution put a term for every free variable and do nothing else, and so does all
that is composed of them (`IsSubstitution.comp`). Operations of this form that agree on variables
agree on all terms (`IsSubstitution.eq_of_var`): the binders in a term are dealt with once, and a
law is a matter of which index lies on which side of which.

To substitute for a variable that a shift has just made room for takes the shift back
(`subst_shift_self`). Two substitutions can be exchanged (`subst_subst`), and so can a shift and a
substitution, whichever side of the substituted variable the shift starts at (`shift_subst`).
-/

namespace StagedTT

namespace Term

/-! ## Operations on variables -/

/-- An operation that puts a term for every free variable and does nothing else. -/
def IsSubstitution (F : Term → Term) : Prop := ∀ t, F t = t.substAll fun i => F (.var i)

namespace IsSubstitution

variable {F G : Term → Term}

theorem shift (d c : Nat) : IsSubstitution (·.shift d c) := by
  intro t
  simp only [shift_var]
  exact shift_eq_substAll t d c

theorem subst (j : Nat) (r : Term) : IsSubstitution (·.subst j r) := by
  intro t
  simp only [subst_var]
  exact subst_eq_substAll t j r

theorem comp (hG : IsSubstitution G) (hF : IsSubstitution F) : IsSubstitution fun t => G (F t) := by
  intro t
  have hvar : ∀ i, G (F (.var i)) = (F (.var i)).substAll fun k => G (.var k) := fun i => hG _
  simp only [hvar]
  rw [hG, hF t, substAll_substAll]

/-- Operations on variables are the same if they are the same on variables. -/
theorem eq_of_var (hF : IsSubstitution F) (hG : IsSubstitution G)
    (h : ∀ i, F (.var i) = G (.var i)) (t : Term) : F t = G t := by
  rw [hF, hG, funext h]

end IsSubstitution

section Var

variable {i j d c : Nat} {r : Term}

theorem shift_var_of_lt (h : i < c) : (var i).shift d c = var i := by rw [shift_var, if_pos h]

theorem shift_var_of_le (h : c ≤ i) : (var i).shift d c = var (i + d) := by
  rw [shift_var, if_neg (Nat.not_lt.2 h)]

theorem subst_var_of_lt (h : i < j) : (var i).subst j r = var i := by rw [subst_var, if_pos h]

theorem subst_var_self (j : Nat) (r : Term) : (var j).subst j r = r := by
  rw [subst_var, if_neg (Nat.lt_irrefl j), if_pos rfl]

theorem subst_var_of_gt (h : j < i) : (var i).subst j r = var (i - 1) := by
  rw [subst_var, if_neg (by omega), if_neg (by omega)]

end Var

/-! ## Exchanging two substitutions -/

/-- No variable is left at the index that a shift has made room at. -/
theorem subst_shift_self (t : Term) (c : Nat) (r : Term) : (t.shift 1 c).subst c r = t := by
  have hsubst : IsSubstitution fun t => (t.shift 1 c).subst c r :=
    (IsSubstitution.subst c r).comp (.shift 1 c)
  have hid : IsSubstitution fun t => t := fun t => (substAll_id t).symm
  refine hsubst.eq_of_var hid (fun x => ?_) t
  rcases Nat.lt_or_ge x c with hlt | hge
  · rw [shift_var_of_lt hlt, subst_var_of_lt hlt]
  · rw [shift_var_of_le hge, subst_var_of_gt (by omega), Nat.add_sub_cancel]

/-- **The substitution lemma.** Of two substitutions, the one for the outer variable can come first,
if it is also made in what the other one puts in. -/
theorem subst_subst {i j : Nat} (hij : i ≤ j) (t s u : Term) :
    (t.subst i s).subst j u = (t.subst (j + 1) (u.shift 1 i)).subst i (s.subst j u) := by
  have hleft : IsSubstitution fun t => (t.subst i s).subst j u :=
    (IsSubstitution.subst j u).comp (.subst i s)
  have hright : IsSubstitution fun t => (t.subst (j + 1) (u.shift 1 i)).subst i (s.subst j u) :=
    (IsSubstitution.subst i _).comp (.subst (j + 1) _)
  refine hleft.eq_of_var hright (fun x => ?_) t
  rcases Nat.lt_trichotomy x i with hlt | rfl | hgt
  · rw [subst_var_of_lt hlt, subst_var_of_lt (by omega), subst_var_of_lt (by omega),
      subst_var_of_lt hlt]
  · rw [subst_var_self, subst_var_of_lt (by omega), subst_var_self]
  · -- The variable of the second substitution is `j + 1` before the first one and `j` after it.
    rw [subst_var_of_gt hgt]
    rcases Nat.lt_trichotomy x (j + 1) with hx | rfl | hx
    · rw [subst_var_of_lt (by omega), subst_var_of_lt hx, subst_var_of_gt hgt]
    · rw [Nat.add_sub_cancel, subst_var_self, subst_var_self, subst_shift_self]
    · rw [subst_var_of_gt (by omega), subst_var_of_gt hx, subst_var_of_gt (by omega)]

/-- Under a binder, of a term with both variables and with ones that neither replaces. -/
theorem subst_subst_underBinder :
    let t : Term := .lam (.var 1) (.call (.var 2) [.var 3, .app (.var 4) (.app (.var 0) (.var 5))])
    let result : Term :=
      .lam (.var 5) (.call (.var 6) [.var 2, .app (.var 6) (.app (.var 0) (.var 3))])
    1 ≤ 2 ∧ (t.subst 1 (.var 2)).subst 2 (.var 5) = result ∧
      (t.subst 3 ((var 5).shift 1 1)).subst 1 ((var 2).subst 2 (.var 5)) = result := by
  intro t result
  have hij : 1 ≤ 2 := by decide
  have hleft : (t.subst 1 (.var 2)).subst 2 (.var 5) = result := by decide
  exact ⟨hij, hleft, (subst_subst hij t (.var 2) (.var 5)).symm.trans hleft⟩

/-! ## Exchanging a shift and a substitution -/

/-- A shift that starts at the substituted variable or further in moves that variable. -/
theorem shift_subst_of_le {c j : Nat} (hcj : c ≤ j) (t s : Term) (d : Nat) :
    (t.subst j s).shift d c = (t.shift d c).subst (j + d) (s.shift d c) := by
  have hleft : IsSubstitution fun t => (t.subst j s).shift d c :=
    (IsSubstitution.shift d c).comp (.subst j s)
  have hright : IsSubstitution fun t => (t.shift d c).subst (j + d) (s.shift d c) :=
    (IsSubstitution.subst (j + d) _).comp (.shift d c)
  refine hleft.eq_of_var hright (fun x => ?_) t
  rcases Nat.lt_trichotomy x j with hlt | rfl | hgt
  · rw [subst_var_of_lt hlt]
    rcases Nat.lt_or_ge x c with hx | hx
    · rw [shift_var_of_lt hx, subst_var_of_lt (by omega)]
    · rw [shift_var_of_le hx, subst_var_of_lt (by omega)]
  · rw [subst_var_self, shift_var_of_le hcj, subst_var_self]
  · rw [subst_var_of_gt hgt, shift_var_of_le (by omega), shift_var_of_le (by omega),
      subst_var_of_gt (by omega), show x - 1 + d = x + d - 1 by omega]

/-- A shift that starts further out leaves the substituted variable where it is. -/
theorem shift_subst_of_ge {c j : Nat} (hjc : j ≤ c) (t s : Term) (d : Nat) :
    (t.subst j s).shift d c = (t.shift d (c + 1)).subst j (s.shift d c) := by
  have hleft : IsSubstitution fun t => (t.subst j s).shift d c :=
    (IsSubstitution.shift d c).comp (.subst j s)
  have hright : IsSubstitution fun t => (t.shift d (c + 1)).subst j (s.shift d c) :=
    (IsSubstitution.subst j _).comp (.shift d (c + 1))
  refine hleft.eq_of_var hright (fun x => ?_) t
  rcases Nat.lt_trichotomy x j with hlt | rfl | hgt
  · rw [subst_var_of_lt hlt, shift_var_of_lt (by omega), shift_var_of_lt (by omega),
      subst_var_of_lt hlt]
  · rw [subst_var_self, shift_var_of_lt (by omega), subst_var_self]
  · rw [subst_var_of_gt hgt]
    rcases Nat.lt_or_ge x (c + 1) with hx | hx
    · rw [shift_var_of_lt (by omega), shift_var_of_lt hx, subst_var_of_gt hgt]
    · rw [shift_var_of_le (by omega), shift_var_of_le hx, subst_var_of_gt (by omega),
        show x - 1 + d = x + d - 1 by omega]

/-- **Shifting commutes with substitution**, on both sides of the substituted variable: a shift made
after a substitution can be made before it, in the term and in what is put in. It moves the
substituted variable if it starts there or further in, and if it starts there or further out it
starts one later. -/
theorem shift_subst (t s : Term) (j d c : Nat) :
    (c ≤ j → (t.subst j s).shift d c = (t.shift d c).subst (j + d) (s.shift d c)) ∧
      (j ≤ c → (t.subst j s).shift d c = (t.shift d (c + 1)).subst j (s.shift d c)) :=
  ⟨fun hcj => shift_subst_of_le hcj t s d, fun hjc => shift_subst_of_ge hjc t s d⟩

/-- By three binders, from the substituted variable on and from the one after it. -/
theorem shift_subst_underBinder :
    let t : Term := .pi (.var 1) (.app (.app (.var 0) (.var 1)) (.app (.var 2) (.var 4)))
    1 ≤ 1 ∧ (t.shift 3 1).subst 4 ((var 1).shift 3 1) =
        .pi (.var 4) (.app (.app (.var 0) (.var 1)) (.app (.var 5) (.var 6))) ∧
      1 ≤ 2 ∧ (t.shift 3 3).subst 1 ((var 1).shift 3 2) =
        .pi (.var 1) (.app (.app (.var 0) (.var 1)) (.app (.var 2) (.var 6))) := by
  intro t
  have hinner : (t.subst 1 (.var 1)).shift 3 1 =
      .pi (.var 4) (.app (.app (.var 0) (.var 1)) (.app (.var 5) (.var 6))) := by decide
  have houter : (t.subst 1 (.var 1)).shift 3 2 =
      .pi (.var 1) (.app (.app (.var 0) (.var 1)) (.app (.var 2) (.var 6))) := by decide
  have hle : 1 ≤ 1 := Nat.le_refl 1
  have hge : 1 ≤ 2 := by decide
  exact ⟨hle, ((shift_subst t (.var 1) 1 3 1).1 hle).symm.trans hinner, hge,
    ((shift_subst t (.var 1) 1 3 2).2 hge).symm.trans houter⟩

end Term

end StagedTT
