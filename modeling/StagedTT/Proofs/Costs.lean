import StagedTT.Fuel

/-!
# What a computation costs

`m.Costs k a` says that `m` answers with `a` for `k` units of fuel: a supply of at least `k` units
is left with `k` less, and a smaller one is used up. In a sequence the costs add up
(`Metered.Costs.bind`).
-/

namespace StagedTT

namespace Metered

variable {ε α β : Type} [OutOfFuel ε]

/-- A computation answers for a number of units, and for no fewer. -/
structure Costs (m : Metered ε α) (k : Nat) (a : α) : Prop where
  paid : ∀ used left, m ⟨used, left + k⟩ = (.ok a, ⟨used + k, left⟩)
  short : ∀ used left, left < k →
    m ⟨used, left⟩ = (.error (outOfFuel (used + left)), ⟨used + left, 0⟩)

theorem costs_pure (a : α) : (pure a : Metered ε α).Costs 0 a where
  paid _ _ := rfl
  short _ _ h := absurd h (Nat.not_lt_zero _)

theorem costs_burn : (burn : Metered ε Unit).Costs 1 () where
  paid _ _ := rfl
  short used left h := by
    obtain rfl : left = 0 := by omega
    rfl

theorem Costs.answer {m : Metered ε α} {k : Nat} {a : α} (h : m.Costs k a) {fuel : Fuel}
    (hk : k ≤ fuel.left) : m fuel = (.ok a, ⟨fuel.used + k, fuel.left - k⟩) := by
  obtain ⟨used, left⟩ := fuel
  obtain ⟨rest, rfl⟩ := Nat.exists_eq_add_of_le' (show k ≤ left from hk)
  rw [h.paid, Nat.add_sub_cancel]

/-- Whoever is answered has paid. -/
theorem Costs.of_ok {m : Metered ε α} {k : Nat} {a b : α} (h : m.Costs k a) {fuel rest : Fuel}
    (hok : m fuel = (.ok b, rest)) :
    k ≤ fuel.left ∧ b = a ∧ rest = ⟨fuel.used + k, fuel.left - k⟩ := by
  have hk : k ≤ fuel.left := Nat.not_lt.1 fun hlt => by
    rw [h.short fuel.used fuel.left hlt] at hok
    cases hok
  rw [h.answer hk] at hok
  obtain ⟨hb, hrest⟩ := Prod.mk.inj hok
  exact ⟨hk, (Except.ok.inj hb).symm, hrest.symm⟩

theorem Costs.bind {m : Metered ε α} {f : α → Metered ε β} {j k : Nat} {a : α} {b : β}
    (hm : m.Costs j a) (hf : (f a).Costs k b) : (m >>= f).Costs (j + k) b where
  paid used left := by
    have hpaid := hm.paid used (left + k)
    rw [Nat.add_assoc, Nat.add_comm k j] at hpaid
    rw [bind_ok hpaid, hf.paid, Nat.add_assoc]
  short used left h := by
    by_cases hleft : left < j
    · exact bind_error (hm.short used left hleft) f
    · obtain ⟨rest, rfl⟩ : ∃ rest, left = rest + j := ⟨left - j, by omega⟩
      rw [bind_ok (hm.paid used rest), hf.short _ _ (by omega), Nat.add_assoc, Nat.add_comm j]

theorem Costs.bind_pure {m : Metered ε α} {k : Nat} {a : α} (hm : m.Costs k a) (g : α → β) :
    (m >>= fun a => pure (g a)).Costs k (g a) :=
  hm.bind (f := fun a => pure (g a)) (costs_pure (g a))

end Metered

end StagedTT
