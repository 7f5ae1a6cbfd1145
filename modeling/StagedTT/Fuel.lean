/-!
# Fuel

Reduction and expansion need not end, so each step of theirs costs a unit of fuel. A `Metered`
computation passes the fuel along; what it has spent stays spent when it fails, so that several
computations can share one budget.

`Metered.fix` runs a recursion that spends fuel before each call to itself. `Metered.fix_eq` says
that it satisfies the equation it is meant to solve.
-/

namespace StagedTT

/-- A budget of steps, in two parts. -/
structure Fuel where
  used : Nat
  left : Nat
  deriving DecidableEq

namespace Fuel

/-- A budget of which nothing is used. -/
def ofBudget (budget : Nat) : Fuel := ⟨0, budget⟩

/-- All the steps that a supply of fuel was meant for. -/
def budget (fuel : Fuel) : Nat := fuel.used + fuel.left

end Fuel

/-- Errors among which there is one for the end of the fuel, told how many steps were made. -/
class OutOfFuel (ε : Type) where
  outOfFuel (steps : Nat) : ε

export OutOfFuel (outOfFuel)

/-- A computation that spends fuel and may fail. -/
def Metered (ε α : Type) : Type := Fuel → Except ε α × Fuel

namespace Metered

variable {ε α β : Type}

instance : Monad (Metered ε) where
  pure a := fun fuel => (.ok a, fuel)
  bind m k := fun fuel =>
    match m fuel with
    | (.ok a, rest) => k a rest
    | (.error e, rest) => (.error e, rest)

/-- Fails and spends nothing. -/
def fail (e : ε) : Metered ε α := fun fuel => (.error e, fuel)

/-- A result that costs nothing. -/
def ofExcept (result : Except ε α) : Metered ε α := fun fuel => (result, fuel)

/-- Fails for want of fuel. -/
def exhausted [OutOfFuel ε] : Metered ε α := fun fuel => (.error (outOfFuel fuel.used), fuel)

/-- Pays for one step. -/
def burn [OutOfFuel ε] : Metered ε Unit := fun fuel =>
  match fuel.left with
  | 0 => (.error (outOfFuel fuel.used), fuel)
  | left + 1 => (.ok (), ⟨fuel.used + 1, left⟩)

/-- The result of a computation on a fresh budget. -/
def runFresh (m : Metered ε α) (budget : Nat) : Except ε α := (m (.ofBudget budget)).1

theorem bind_apply (m : Metered ε α) (k : α → Metered ε β) (fuel : Fuel) :
    (m >>= k) fuel =
      match m fuel with
      | (.ok a, rest) => k a rest
      | (.error e, rest) => (.error e, rest) := rfl

theorem bind_ok {m : Metered ε α} {a : α} {fuel rest : Fuel} (h : m fuel = (.ok a, rest))
    (k : α → Metered ε β) : (m >>= k) fuel = k a rest := by rw [bind_apply, h]

theorem bind_error {m : Metered ε α} {e : ε} {fuel rest : Fuel} (h : m fuel = (.error e, rest))
    (k : α → Metered ε β) : (m >>= k) fuel = (.error e, rest) := by rw [bind_apply, h]

instance : LawfulMonad (Metered ε) := LawfulMonad.mk' _
  (fun m => by
    funext fuel
    change (match m fuel with
      | (.ok a, rest) => (.ok a, rest)
      | (.error e, rest) => (.error e, rest)) = m fuel
    rcases m fuel with ⟨_ | _, _⟩ <;> rfl)
  (fun _ _ => rfl)
  (fun m k j => by
    funext fuel
    simp only [bind_apply]
    rcases m fuel with ⟨_ | _, _⟩ <;> rfl)

/-! ## Spending -/

/-- A computation that only moves fuel from what is left to what is used. -/
def Spends (m : Metered ε α) : Prop :=
  ∀ fuel, (m fuel).2.left ≤ fuel.left ∧ (m fuel).2.budget = fuel.budget

namespace Spends

theorem pure (a : α) : Spends (Pure.pure a : Metered ε α) := fun _ => ⟨Nat.le_refl _, rfl⟩

theorem ofExcept (r : Except ε α) : Spends (Metered.ofExcept r) := fun _ => ⟨Nat.le_refl _, rfl⟩

theorem fail (e : ε) : Spends (Metered.fail e : Metered ε α) := fun _ => ⟨Nat.le_refl _, rfl⟩

theorem exhausted [OutOfFuel ε] : Spends (Metered.exhausted : Metered ε α) :=
  fun _ => ⟨Nat.le_refl _, rfl⟩

theorem burn [OutOfFuel ε] : Spends (Metered.burn : Metered ε Unit) := fun ⟨used, left⟩ => by
  cases left with
  | zero => exact ⟨Nat.le_refl _, rfl⟩
  | succ left => exact ⟨Nat.le_succ left, by simp only [Fuel.budget, Metered.burn]; omega⟩

theorem bind {m : Metered ε α} {k : α → Metered ε β} (hm : Spends m) (hk : ∀ a, Spends (k a)) :
    Spends (m >>= k) := fun fuel => by
  have h := hm fuel
  rw [bind_apply]
  rcases hr : m fuel with ⟨_ | a, rest⟩
  · rwa [hr] at h
  · rw [hr] at h
    have h' := hk a rest
    exact ⟨Nat.le_trans h'.1 h.1, h'.2.trans h.2⟩

end Spends

/-! ## Recursion -/

/-- Unfolds `body` around itself, `depth` times more. -/
def recurse [OutOfFuel ε] (body : (α → Metered ε β) → α → Metered ε β) : Nat → α → Metered ε β
  | 0 => body fun _ => exhausted
  | depth + 1 => body (recurse body depth)

/-- The recursion with this body, which pays for each call to itself. -/
def fix [OutOfFuel ε] (body : (α → Metered ε β) → α → Metered ε β) (a : α) : Metered ε β :=
  fun fuel => recurse body fuel.left a fuel

/-- Two computations that do the same on all supplies with at most `n` units left. -/
def AgreeUpTo (n : Nat) (m m' : Metered ε α) : Prop := ∀ fuel, fuel.left ≤ n → m fuel = m' fuel

/-- Two computations that do the same on all supplies with less than `n` units left. -/
def AgreeBelow (n : Nat) (m m' : Metered ε α) : Prop := ∀ fuel, fuel.left < n → m fuel = m' fuel

theorem AgreeUpTo.refl (n : Nat) (m : Metered ε α) : AgreeUpTo n m m := fun _ _ => rfl

theorem AgreeUpTo.bind {n : Nat} {m m' : Metered ε α} {k k' : α → Metered ε β}
    (hs : Spends m) (hm : AgreeUpTo n m m') (hk : ∀ a, AgreeUpTo n (k a) (k' a)) :
    AgreeUpTo n (m >>= k) (m' >>= k') := fun fuel hn => by
  have hl := (hs fuel).1
  rw [bind_apply, bind_apply, ← hm fuel hn]
  rcases hr : m fuel with ⟨_ | a, rest⟩
  · rfl
  · rw [hr] at hl
    exact hk a rest (Nat.le_trans hl hn)

theorem AgreeBelow.burn_bind [OutOfFuel ε] {n : Nat} {m m' : Metered ε α}
    (h : AgreeBelow n m m') :
    AgreeUpTo n (Metered.burn >>= fun _ => m) (Metered.burn >>= fun _ => m') :=
  fun ⟨used, left⟩ hn => by
    cases left with
    | zero => rfl
    | succ left => exact h ⟨used + 1, left⟩ hn

theorem AgreeBelow.bind {n : Nat} {m m' : Metered ε α} {k k' : α → Metered ε β}
    (hs : Spends m) (hm : AgreeBelow n m m') (hk : ∀ a, AgreeBelow n (k a) (k' a)) :
    AgreeBelow n (m >>= k) (m' >>= k') := fun fuel hn =>
  AgreeUpTo.bind hs (fun f hf => hm f (Nat.lt_of_le_of_lt hf hn))
    (fun a f hf => hk a f (Nat.lt_of_le_of_lt hf hn)) fuel (Nat.le_refl _)

/-- A recursion whose body has spent some fuel whenever it calls itself. -/
structure Guarded (body : (α → Metered ε β) → α → Metered ε β) : Prop where
  spends : ∀ f, (∀ a, Spends (f a)) → ∀ a, Spends (body f a)
  congr : ∀ f g : α → Metered ε β, (∀ a, Spends (f a)) → (∀ a, Spends (g a)) → ∀ n,
    (∀ a, AgreeBelow n (f a) (g a)) → ∀ a, AgreeUpTo n (body f a) (body g a)

section Fix

variable [OutOfFuel ε] {body : (α → Metered ε β) → α → Metered ε β}

theorem spends_recurse (h : Guarded body) (n : Nat) (a : α) : Spends (recurse body n a) := by
  induction n generalizing a with
  | zero => exact h.spends _ (fun _ => .exhausted) a
  | succ n ih => exact h.spends _ ih a

theorem spends_fix (h : Guarded body) (a : α) : Spends (fix body a) :=
  fun fuel => spends_recurse h fuel.left a fuel

theorem recurse_congr (h : Guarded body) {n m : Nat} {a : α} {fuel : Fuel}
    (hn : fuel.left ≤ n) (hm : fuel.left ≤ m) :
    recurse body n a fuel = recurse body m a fuel := by
  induction n generalizing m a fuel with
  | zero =>
    cases m with
    | zero => rfl
    | succ m =>
      exact h.congr _ _ (fun _ => .exhausted) (spends_recurse h m) 0
        (fun _ _ hlt => absurd hlt (Nat.not_lt_zero _)) a fuel hn
  | succ n ih =>
    cases m with
    | zero =>
      exact h.congr _ _ (spends_recurse h n) (fun _ => .exhausted) 0
        (fun _ _ hlt => absurd hlt (Nat.not_lt_zero _)) a fuel hm
    | succ m =>
      exact h.congr _ _ (spends_recurse h n) (spends_recurse h m) fuel.left
        (fun a fuel' hlt => ih (by omega) (by omega)) a fuel (Nat.le_refl _)

/-- The fixed point solves the equation that its body describes. -/
theorem fix_eq (h : Guarded body) (a : α) : fix body a = body (fix body) a := by
  funext fuel
  have hb := h.congr _ _ (spends_recurse h fuel.left) (spends_fix h) fuel.left
    (fun a fuel' hlt => recurse_congr h (Nat.le_of_lt hlt) (Nat.le_refl _)) a fuel
    (Nat.le_refl _)
  rw [← hb]
  exact recurse_congr h (Nat.le_refl _) (Nat.le_succ _)

end Fix

end Metered

end StagedTT
