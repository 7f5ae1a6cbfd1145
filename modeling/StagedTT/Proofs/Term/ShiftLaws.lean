import StagedTT.Proofs.Term.FreeVariables

/-!
# Laws of shifting

Two insertions of binders can be exchanged (`shift_shift_of_le`), and an insertion can be undone, so
terms that it makes the same are the same (`shift_inj`). All these laws hold from every cutoff on
(`insertion_laws`), as they must to hold under binders.

A variable does not occur free in a term exactly if the term is what an insertion at that variable
leaves (`not_free_iff_exists_shift`). So whatever commutes with insertions brings in no variable.
-/

namespace StagedTT

namespace Term

/-- Of two insertions, the one further out can come first, if it then starts as much later as the
other one takes. -/
theorem shift_shift_of_le {c e : Nat} (hce : c ≤ e) (t : Term) (a b : Nat) :
    (t.shift a e).shift b c = (t.shift b c).shift a (e + b) := by
  have hleft : IsSubstitution fun t => (t.shift a e).shift b c :=
    (IsSubstitution.shift b c).comp (.shift a e)
  have hright : IsSubstitution fun t => (t.shift b c).shift a (e + b) :=
    (IsSubstitution.shift a (e + b)).comp (.shift b c)
  refine hleft.eq_of_var hright (fun x => ?_) t
  rcases Nat.lt_or_ge x e with hx | hx
  · rw [shift_var_of_lt hx]
    rcases Nat.lt_or_ge x c with hxc | hxc
    · rw [shift_var_of_lt hxc, shift_var_of_lt (by omega)]
    · rw [shift_var_of_le hxc, shift_var_of_lt (by omega)]
  · rw [shift_var_of_le hx, shift_var_of_le (by omega), shift_var_of_le (by omega),
      shift_var_of_le (by omega), Nat.add_right_comm]

/-- Every insertion is undone by a substitution. -/
theorem exists_substAll_shift (d c : Nat) : ∃ σ, ∀ t : Term, (t.shift d c).substAll σ = t := by
  refine ⟨fun i => .var (if i < c then i else i - d), fun t => ?_⟩
  rw [shift_eq_substAll, substAll_substAll]
  refine Eq.trans ?_ (substAll_id t)
  congr 1
  funext i
  rw [substAll_var]
  by_cases hi : i < c
  · rw [if_pos hi, if_pos hi]
  · rw [if_neg hi, if_neg (by omega), Nat.add_sub_cancel]

theorem shift_inj {d c : Nat} {t u : Term} : t.shift d c = u.shift d c ↔ t = u := by
  constructor
  · intro h
    obtain ⟨σ, hσ⟩ := exists_substAll_shift d c
    rw [← hσ t, h, hσ]
  · rintro rfl
    rfl

/-- **The laws of insertion.** What is inserted can be taken out again. An insertion that starts
inside another one widens it. One further out can be made first, if it then starts as much later as
the other one takes. And none makes two terms the same. -/
theorem insertion_laws (t s : Term) (a b c e : Nat) :
    (t.shift 1 c).subst c s = t ∧
      (c ≤ e → e ≤ c + a → (t.shift a c).shift b e = t.shift (a + b) c) ∧
      (c ≤ e → (t.shift a e).shift b c = (t.shift b c).shift a (e + b)) ∧
      (t.shift a c = s.shift a c → t = s) :=
  ⟨subst_shift_self t c s, fun hce hea => shift_shift hce hea t,
    fun hce => shift_shift_of_le hce t a b, shift_inj.1⟩

/-- Under a binder, of two binders from the second variable on and of three from the third on. -/
theorem insertion_laws_underBinder :
    let t : Term := .pi (.var 1) (.call (.var 2) [.var 0, .app (.var 1) (.var 3)])
    let inside : Term := .pi (.var 6) (.call (.var 7) [.var 0, .app (.var 1) (.var 8)])
    let outside : Term := .pi (.var 4) (.call (.var 5) [.var 0, .app (.var 1) (.var 8)])
    1 ≤ 2 ∧ 2 ≤ 1 + 2 ∧ (t.shift 2 1).shift 3 2 = inside ∧ t.shift 5 1 = inside ∧
      (t.shift 2 2).shift 3 1 = outside ∧ (t.shift 3 1).shift 2 5 = outside ∧
      ((t.shift 1 1).subst 1 (.str "s")).shift 2 1 = t.shift 2 1 ∧
      (t.shift 1 1).subst 1 (.str "s") = t := by
  intro t inside outside
  have hce : 1 ≤ 2 := by decide
  have hea : 2 ≤ 1 + 2 := by decide
  have hinside : t.shift 5 1 = inside := by decide
  have houtside : (t.shift 3 1).shift 2 5 = outside := by decide
  have hsame : ((t.shift 1 1).subst 1 (.str "s")).shift 2 1 = t.shift 2 1 := by decide
  obtain ⟨-, hwiden, hexchange, -⟩ := insertion_laws t t 2 3 1 2
  obtain ⟨-, -, -, hinj⟩ := insertion_laws ((t.shift 1 1).subst 1 (.str "s")) t 2 3 1 2
  exact ⟨hce, hea, (hwiden hce hea).trans hinside, hinside, (hexchange hce).trans houtside,
    houtside, hsame, hinj hsame⟩

theorem Closed.shift_eq {t : Term} (h : t.Closed) (d c : Nat) : t.shift d c = t := by
  rw [shift_eq_substAll]
  exact h.substAll_eq _

/-! ## Free variables -/

/-- An insertion leaves room. -/
theorem not_free_shift (t : Term) (c : Nat) : ¬ (t.shift 1 c).Free c := by
  rw [free_shift]
  rintro (⟨hlt, -⟩ | ⟨k, hle, -, heq⟩) <;> omega

/-- **A variable is not free in a term exactly if the term leaves room for it.** -/
theorem not_free_iff_exists_shift {t : Term} {i : Nat} :
    ¬ t.Free i ↔ ∃ u : Term, t = u.shift 1 i := by
  constructor
  · intro h
    -- What is put for a variable that is not there makes no difference.
    refine ⟨t.subst i (.var i), ?_⟩
    have hsubst : IsSubstitution fun t => (t.subst i (.var i)).shift 1 i :=
      (IsSubstitution.shift 1 i).comp (.subst i (.var i))
    refine Eq.trans ?_ (hsubst t).symm
    refine (substAll_id t).symm.trans (substAll_congr fun j hj => ?_)
    show var j = ((var j).subst i (.var i)).shift 1 i
    rcases Nat.lt_trichotomy j i with hlt | rfl | hgt
    · rw [subst_var_of_lt hlt, shift_var_of_lt hlt]
    · exact absurd hj h
    · rw [subst_var_of_gt hgt, shift_var_of_le (by omega), Nat.sub_add_cancel (by omega)]
  · rintro ⟨u, rfl⟩
    exact not_free_shift u i

end Term

end StagedTT
