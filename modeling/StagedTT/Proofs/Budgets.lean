import StagedTT.Proofs.Settles

/-!
# Larger budgets

`SameUnless E r' r` says that `r'` is the result that `r` is, unless `r` is an error that `E` has.
Computations whose parts are the same unless they fail so are so themselves (`SameUnless.bind`),
also when they spend fuel (`Metered.SameUnless`).

`Metered.Outlasts m' m` says what more fuel is good for: on a larger supply `m'` answers as `m` does
on a smaller one and has the difference left over, unless `m` runs out. A recursion outlasts another
one if its body does, given calls that do (`Metered.outlasts_fix`), and on fresh budgets the two
answer the same unless the smaller budget runs out (`Metered.Outlasts.runFresh`).
-/

namespace StagedTT

variable {ε α β : Type}

/-- One result is the other one, unless the other one is an error that `E` has. -/
def SameUnless (E : ε → Prop) (r' r : Except ε α) : Prop := r' = r ∨ ∃ e, r = .error e ∧ E e

/-- A result that is no error which `E` has. -/
def Avoids (E : ε → Prop) (r : Except ε α) : Prop := ∀ e, r = .error e → ¬ E e

namespace SameUnless

variable {E : ε → Prop}

theorem refl (r : Except ε α) : SameUnless E r r := Or.inl rfl

theorem bind {r r' : Except ε α} {f f' : α → Except ε β} (hr : SameUnless E r' r)
    (hf : ∀ a, SameUnless E (f' a) (f a)) : SameUnless E (r' >>= f') (r >>= f) := by
  rcases hr with rfl | ⟨e, rfl, he⟩
  · cases r' with
    | ok a => exact hf a
    | error e => exact Or.inl rfl
  · exact Or.inr ⟨e, rfl, he⟩

theorem mapError {ε' : Type} {E' : ε' → Prop} {r r' : Except ε α} (h : SameUnless E r' r)
    {f : ε → ε'} (hf : ∀ e, E e → E' (f e)) : SameUnless E' (r'.mapError f) (r.mapError f) := by
  rcases h with rfl | ⟨e, rfl, he⟩
  · exact refl _
  · exact Or.inr ⟨f e, rfl, hf e he⟩

theorem mono {E' : ε → Prop} {r r' : Except ε α} (h : SameUnless E r' r) (hE : ∀ e, E e → E' e) :
    SameUnless E' r' r :=
  h.imp_right fun ⟨e, herror, he⟩ => ⟨e, herror, hE e he⟩

theorem of_ok {r r' : Except ε α} {a : α} (h : SameUnless E r' r) (hr : r = .ok a) :
    r' = .ok a := by
  subst hr
  rcases h with heq | ⟨e, herror, -⟩
  · exact heq
  · cases herror

theorem eq_of_avoids {r r' : Except ε α} (h : SameUnless E r' r) (hr : Avoids E r) : r' = r := by
  rcases h with heq | ⟨e, herror, he⟩
  · exact heq
  · exact absurd he (hr e herror)

end SameUnless

namespace Metered

variable {E : ε → Prop}

/-- On every supply, the one does what the other one does, unless that one fails as `E` has it. -/
def SameUnless (E : ε → Prop) (m' m : Metered ε α) : Prop :=
  ∀ fuel, m' fuel = m fuel ∨ ∃ e, (m fuel).1 = .error e ∧ E e

theorem SameUnless.refl (m : Metered ε α) : SameUnless E m m := fun _ => Or.inl rfl

theorem SameUnless.bind {m m' : Metered ε α} {f f' : α → Metered ε β} (hm : SameUnless E m' m)
    (hf : ∀ a, SameUnless E (f' a) (f a)) : SameUnless E (m' >>= f') (m >>= f) := by
  intro fuel
  rcases hm fuel with hsame | ⟨e, herror, he⟩
  · rcases hr : m fuel with ⟨e | a, rest⟩
    · left
      rw [bind_error hr, bind_error (hsame.trans hr)]
    · rw [bind_ok hr, bind_ok (hsame.trans hr)]
      exact hf a rest
  · right
    have hr : m fuel = (.error e, (m fuel).2) := Prod.ext herror rfl
    exact ⟨e, congrArg Prod.fst (bind_error hr f), he⟩

theorem sameUnless_ofExcept {r r' : Except ε α} (h : StagedTT.SameUnless E r' r) :
    SameUnless E (ofExcept r') (ofExcept r) := by
  intro fuel
  rcases h with rfl | herror
  · exact Or.inl rfl
  · exact Or.inr herror

/-- A recursion does what another one does if its body does, given calls that do. -/
theorem sameUnless_fix [OutOfFuel ε] {body body' : (α → Metered ε β) → α → Metered ε β}
    (h : ∀ f f', (∀ a, SameUnless E (f' a) (f a)) → ∀ a, SameUnless E (body' f' a) (body f a))
    (a : α) : SameUnless E (fix body' a) (fix body a) := by
  have hrec : ∀ depth a, SameUnless E (recurse body' depth a) (recurse body depth a) := by
    intro depth
    induction depth with
    | zero => exact h _ _ fun _ => .refl _
    | succ depth ih => exact h _ _ ih
  exact fun fuel => hrec fuel.left a fuel

/-- What a computation answers on a supply is the same, unless the other one fails there. -/
theorem SameUnless.result {m m' : Metered ε α} (h : SameUnless E m' m) (fuel : Fuel) :
    StagedTT.SameUnless E (m' fuel).1 (m fuel).1 :=
  (h fuel).imp_left fun hsame => congrArg Prod.fst hsame

end Metered

/-- The supply with some units more. -/
def Fuel.more (fuel : Fuel) (k : Nat) : Fuel := ⟨fuel.used, fuel.left + k⟩

namespace Metered

variable [OutOfFuel ε]

/-- On a larger supply, the one does what the other does on a smaller supply, unless that one runs
out. -/
def Outlasts (m' m : Metered ε α) : Prop :=
  ∀ fuel k, m' (fuel.more k) = ((m fuel).1, (m fuel).2.more k) ∨
    ∃ e, (m fuel).1 = .error e ∧ IsOutOfFuel e

theorem outlasts_pure (a : α) : Outlasts (pure a : Metered ε α) (pure a) := by
  intro fuel k
  exact Or.inl rfl

theorem outlasts_fail (e : ε) : Outlasts (fail e : Metered ε α) (fail e) := by
  intro fuel k
  exact Or.inl rfl

theorem outlasts_exhausted (m : Metered ε α) : Outlasts m exhausted := by
  intro fuel k
  exact Or.inr ⟨outOfFuel fuel.used, rfl, fuel.used, rfl⟩

theorem outlasts_burn : Outlasts (burn : Metered ε Unit) burn := by
  intro ⟨used, left⟩ k
  cases left with
  | zero => exact Or.inr ⟨outOfFuel used, rfl, used, rfl⟩
  | succ left =>
    left
    show burn ⟨used, left + 1 + k⟩ = _
    rw [show left + 1 + k = left + k + 1 by omega]
    rfl

theorem outlasts_ofExcept {r r' : Except ε α} (h : StagedTT.SameUnless IsOutOfFuel r' r) :
    Outlasts (ofExcept r') (ofExcept r) := by
  intro fuel k
  rcases h with rfl | herror
  · exact Or.inl rfl
  · exact Or.inr herror

theorem Outlasts.bind {m m' : Metered ε α} {f f' : α → Metered ε β} (hm : Outlasts m' m)
    (hf : ∀ a, Outlasts (f' a) (f a)) : Outlasts (m' >>= f') (m >>= f) := by
  intro fuel k
  have hfuel := hm fuel k
  rcases hr : m fuel with ⟨e | a, rest⟩
  · rw [hr] at hfuel
    rw [bind_error hr]
    rcases hfuel with hsame | hout
    · left
      exact bind_error hsame f'
    · right
      obtain ⟨e', he, hout⟩ := hout
      obtain rfl := Except.error.inj he
      exact ⟨e, rfl, hout⟩
  · rw [hr] at hfuel
    rw [bind_ok hr]
    rcases hfuel with hsame | ⟨e, he, -⟩
    · rw [bind_ok hsame]
      exact hf a rest k
    · cases he

/-- A recursion outlasts another one if its body does, given calls that do. -/
theorem outlasts_fix {body body' : (α → Metered ε β) → α → Metered ε β}
    (h : ∀ f f', (∀ a, Outlasts (f' a) (f a)) → ∀ a, Outlasts (body' f' a) (body f a)) (a : α) :
    Outlasts (fix body' a) (fix body a) := by
  have hrec : ∀ depth more a, Outlasts (recurse body' (depth + more) a) (recurse body depth a) := by
    intro depth more
    induction depth with
    | zero =>
      intro a
      rw [Nat.zero_add]
      cases more with
      | zero => exact h _ _ (fun _ => outlasts_exhausted _) a
      | succ more => exact h _ _ (fun _ => outlasts_exhausted _) a
    | succ depth ih =>
      rw [Nat.add_right_comm]
      exact h _ _ ih
  intro fuel k
  exact hrec fuel.left k a fuel k

/-- A larger budget gives the same answer, unless the smaller one runs out. -/
theorem Outlasts.runFresh {m m' : Metered ε α} (h : Outlasts m' m) {budget budget' : Nat}
    (hle : budget ≤ budget') :
    StagedTT.SameUnless IsOutOfFuel (m'.runFresh budget') (m.runFresh budget) := by
  obtain ⟨k, rfl⟩ := Nat.exists_eq_add_of_le hle
  rcases h (.ofBudget budget) k with hsame | hout
  · left
    show (m' ((Fuel.ofBudget budget).more k)).1 = (m (.ofBudget budget)).1
    rw [hsame]
  · exact Or.inr hout

end Metered

end StagedTT
