import StagedTT.Fuel

/-!
# What a computation settles

`Settles r P E` says that a result is as `P` has it and an error as `E` has it. A computation that
is put together from parts settles what its parts settle, step by step (`Settles.bind`), and a
recursion that pays for its calls settles what its body settles of any calls that do
(`Metered.settles_fix`). What is settled is also all that has to be known to tell two computations
the same (`Settles.bind_congr`, `Metered.fix_congr_on`).
-/

namespace StagedTT

variable {ε α β : Type}

/-- A result satisfies `P`, or an error satisfies `E`. -/
def Settles (r : Except ε α) (P : α → Prop) (E : ε → Prop) : Prop :=
  match r with
  | .ok a => P a
  | .error e => E e

/-- The error for the end of the fuel. -/
def IsOutOfFuel [OutOfFuel ε] (e : ε) : Prop := ∃ steps, e = outOfFuel steps

namespace Settles

variable {P : α → Prop} {Q : β → Prop} {E : ε → Prop}

theorem bind {r : Except ε α} {f : α → Except ε β} (hr : Settles r P E)
    (hf : ∀ a, P a → Settles (f a) Q E) : Settles (r >>= f) Q E := by
  cases r with
  | ok a => exact hf a hr
  | error e => exact hr

theorem mono {r : Except ε α} {P' : α → Prop} (h : Settles r P E) (hP : ∀ a, P a → P' a) :
    Settles r P' E := by
  cases r with
  | ok a => exact hP a h
  | error e => exact h

theorem mono_error {r : Except ε α} {E' : ε → Prop} (h : Settles r P E) (hE : ∀ e, E e → E' e) :
    Settles r P E' := by
  cases r with
  | ok a => exact h
  | error e => exact hE e h

/-- Two ways to go on are the same if they are on all that is settled. -/
theorem bind_congr {r r' : Except ε α} {f f' : α → Except ε β} (hr : r' = r) (h : Settles r P E)
    (hf : ∀ a, P a → f' a = f a) : r' >>= f' = r >>= f := by
  subst hr
  cases r' with
  | ok a => exact hf a h
  | error e => rfl

theorem of_ok {r : Except ε α} {a : α} (h : Settles r P E) (hr : r = .ok a) : P a := by
  subst hr
  exact h

theorem of_error {r : Except ε α} {e : ε} (h : Settles r P E) (hr : r = .error e) : E e := by
  subst hr
  exact h

theorem self {r : Except ε α} (h : Settles r P E) : Settles r (fun a => r = .ok a) E := by
  cases r with
  | ok a => exact rfl
  | error e => exact h

/-- A result that satisfies `P`, or an error that satisfies `E`. -/
theorem exists_ok_or_error {r : Except ε α} (h : Settles r P E) :
    (∃ a, r = .ok a ∧ P a) ∨ ∃ e, r = .error e ∧ E e := by
  cases r with
  | ok a => exact .inl ⟨a, rfl, h⟩
  | error e => exact .inr ⟨e, rfl, h⟩

end Settles

/-- A result satisfies `P`, whatever the errors. -/
abbrev Yields (r : Except ε α) (P : α → Prop) : Prop := Settles r P fun _ => True

theorem yields_of_ok {r : Except ε α} {P : α → Prop} (h : ∀ a, r = .ok a → P a) : Yields r P := by
  cases r with
  | ok a => exact h a rfl
  | error e => trivial

theorem yields_self (r : Except ε α) : Yields r fun a => r = .ok a := yields_of_ok fun _ h => h

theorem yields_any (r : Except ε α) : Yields r fun _ => True := yields_of_ok fun _ _ => trivial

theorem Settles.yields {r : Except ε α} {P : α → Prop} {E : ε → Prop} (h : Settles r P E) :
    Yields r P :=
  h.mono_error fun _ _ => trivial

namespace Metered

/-- On every supply of fuel, a result satisfies `P` and an error satisfies `E`. -/
def Settles (m : Metered ε α) (P : α → Prop) (E : ε → Prop) : Prop :=
  ∀ fuel, StagedTT.Settles (m fuel).1 P E

variable {P : α → Prop} {Q : β → Prop} {E : ε → Prop}

theorem settles_pure {a : α} (h : P a) : Settles (pure a : Metered ε α) P E := fun _ => h

theorem Settles.bind {m : Metered ε α} {k : α → Metered ε β} (hm : Settles m P E)
    (hk : ∀ a, P a → Settles (k a) Q E) : Settles (m >>= k) Q E := fun fuel => by
  have h := hm fuel
  rw [bind_apply]
  rcases hr : m fuel with ⟨_ | a, rest⟩
  · rwa [hr] at h
  · rw [hr] at h
    exact hk a h rest

theorem Settles.bind_congr {m m' : Metered ε α} {k k' : α → Metered ε β} (hm : m' = m)
    (h : Settles m P E) (hk : ∀ a, P a → k' a = k a) : m' >>= k' = m >>= k := by
  subst hm
  funext fuel
  have hfuel := h fuel
  rw [bind_apply, bind_apply]
  rcases hr : m' fuel with ⟨_ | a, rest⟩
  · rfl
  · rw [hr] at hfuel
    exact congrFun (hk a hfuel) rest

/-- Two recursions are the same on the arguments that `I` has if their bodies are, given calls that
are the same on such arguments. -/
theorem fix_congr_on [OutOfFuel ε] {body body' : (α → Metered ε β) → α → Metered ε β}
    {I : α → Prop}
    (h : ∀ f f', (∀ a, I a → f' a = f a) → ∀ a, I a → body' f' a = body f a) {a : α} (ha : I a) :
    fix body' a = fix body a := by
  have hrec : ∀ depth a, I a → recurse body' depth a = recurse body depth a := by
    intro depth
    induction depth with
    | zero => exact h _ _ fun _ _ => rfl
    | succ depth ih => exact h _ _ ih
  funext fuel
  exact congrFun (hrec fuel.left a ha) fuel

section OutOfFuel

variable [OutOfFuel ε] (hE : ∀ steps, E (outOfFuel steps))

include hE

theorem settles_exhausted : Settles (exhausted : Metered ε α) P E := fun _ => hE _

theorem settles_burn : Settles (burn : Metered ε Unit) (fun _ => True) E := fun ⟨used, left⟩ => by
  cases left with
  | zero => exact hE used
  | succ left => trivial

/-- A recursion settles, of the arguments that `I` has, what its body settles of all calls on such
arguments that do. -/
theorem settles_fix_on {body : (α → Metered ε β) → α → Metered ε β} {I : α → Prop}
    {R : α → β → Prop}
    (h : ∀ f, (∀ a, I a → Settles (f a) (R a) E) → ∀ a, I a → Settles (body f a) (R a) E) {a : α}
    (ha : I a) : Settles (fix body a) (R a) E := by
  have hrec : ∀ depth a, I a → Settles (recurse body depth a) (R a) E := by
    intro depth
    induction depth with
    | zero => exact h _ fun _ _ => settles_exhausted hE
    | succ depth ih => exact h _ ih
  exact fun fuel => hrec fuel.left a ha fuel

/-- A recursion settles what its body settles of all calls that do. -/
theorem settles_fix {body : (α → Metered ε β) → α → Metered ε β} {R : α → β → Prop}
    (h : ∀ f, (∀ a, Settles (f a) (R a) E) → ∀ a, Settles (body f a) (R a) E) (a : α) :
    Settles (fix body a) (R a) E :=
  settles_fix_on (I := fun _ => True) hE (fun f hf a _ => h f (fun a => hf a trivial) a) trivial

end OutOfFuel

end Metered

end StagedTT
