import StagedTT.Kernel.Error

/-!
# Computations in step

`Corresponds R E r r'` says that two results are both answers, which `R` relates, or both errors,
which `E` relates. Two computations that are put together alike correspond if their parts do
(`Corresponds.bind`). Often the second answer is an image of the first one. Then what follows has
to be compared on answers and their images only (`Corresponds.bind_image`), and if the image is
one-to-one, the one is answered exactly if the other is (`Corresponds.ok_iff`).

Computations that spend fuel correspond if they do so on every supply and leave the same of it. A
recursion corresponds to another one if its body does, given calls that do
(`Metered.corresponds_fix`).

Kernel errors that differ in no more than the texts and numbers they show are of the same kind
(`KernelError.SameKind`).
-/

namespace StagedTT

variable {ε ε' α α' β β' : Type}

/-- Two results are both answers that `R` relates, or both errors that `E` relates. -/
inductive Corresponds (R : α → α' → Prop) (E : ε → ε' → Prop) : Except ε α → Except ε' α' → Prop
  | ok {a : α} {a' : α'} : R a a' → Corresponds R E (.ok a) (.ok a')
  | error {e : ε} {e' : ε'} : E e e' → Corresponds R E (.error e) (.error e')

/-- The second answer is what `f` makes of the first one. -/
abbrev IsImage (f : α → α') (a : α) (a' : α') : Prop := a' = f a

/-- Both answers are the same. -/
abbrev IsSame : α → α → Prop := IsImage fun a => a

namespace Corresponds

variable {R : α → α' → Prop} {S : β → β' → Prop} {E : ε → ε' → Prop} {r : Except ε α}
  {r' : Except ε' α'}

theorem bind {f : α → Except ε β} {f' : α' → Except ε' β'} (hr : Corresponds R E r r')
    (hf : ∀ a a', R a a' → Corresponds S E (f a) (f' a')) :
    Corresponds S E (r >>= f) (r' >>= f') := by
  cases hr with
  | ok h => exact hf _ _ h
  | error h => exact .error h

theorem bind_image {g : α → α'} {f : α → Except ε β} {f' : α' → Except ε' β'}
    (hr : Corresponds (IsImage g) E r r') (hf : ∀ a, Corresponds S E (f a) (f' (g a))) :
    Corresponds S E (r >>= f) (r' >>= f') :=
  hr.bind fun a a' h => by
    subst h
    exact hf a

theorem mono (hr : Corresponds R E r r') {R' : α → α' → Prop} {E' : ε → ε' → Prop}
    (hR : ∀ a a', R a a' → R' a a') (hE : ∀ e e', E e e' → E' e e') : Corresponds R' E' r r' := by
  cases hr with
  | ok h => exact .ok (hR _ _ h)
  | error h => exact .error (hE _ _ h)

theorem exists_error (hr : Corresponds R E r r') {e : ε} (h : r = .error e) :
    ∃ e', r' = .error e' ∧ E e e' := by
  subst h
  cases hr with
  | error h => exact ⟨_, rfl, h⟩

/-- If the errors are the same as well, the second result is the image of the first one. -/
theorem eq_map {f : α → α'} {s : Except ε α} {s' : Except ε α'}
    (h : Corresponds (IsImage f) IsSame s s') : s' = s.map f := by
  cases h with
  | ok h => exact congrArg Except.ok h
  | error h => exact congrArg Except.error h

/-- What is answered with an image is answered exactly if the image is. -/
theorem ok_iff {f : α → α'} (hf : ∀ a b, f a = f b → a = b)
    (hr : Corresponds (IsImage f) E r r') (a : α) : r = .ok a ↔ r' = .ok (f a) := by
  cases hr with
  | ok h =>
    subst h
    simp only [Except.ok.injEq]
    exact ⟨congrArg f, hf _ _⟩
  | error h => simp

end Corresponds

namespace Metered

/-- On every supply of fuel two computations leave the same of it, and their results
correspond. -/
def Corresponds (R : α → α' → Prop) (E : ε → ε' → Prop) (m : Metered ε α) (m' : Metered ε' α') :
    Prop :=
  ∀ fuel, StagedTT.Corresponds R E (m fuel).1 (m' fuel).1 ∧ (m' fuel).2 = (m fuel).2

variable {R : α → α' → Prop} {S : β → β' → Prop} {E : ε → ε' → Prop}

theorem corresponds_pure {a : α} {a' : α'} (h : R a a') :
    Corresponds R E (pure a : Metered ε α) (pure a' : Metered ε' α') := fun _ => ⟨.ok h, rfl⟩

theorem corresponds_fail {e : ε} {e' : ε'} (h : E e e') :
    Corresponds R E (fail e : Metered ε α) (fail e' : Metered ε' α') := fun _ => ⟨.error h, rfl⟩

theorem corresponds_ofExcept {r : Except ε α} {r' : Except ε' α'}
    (h : StagedTT.Corresponds R E r r') : Corresponds R E (ofExcept r) (ofExcept r') :=
  fun _ => ⟨h, rfl⟩

theorem Corresponds.bind {m : Metered ε α} {m' : Metered ε' α'} {k : α → Metered ε β}
    {k' : α' → Metered ε' β'} (hm : Corresponds R E m m')
    (hk : ∀ a a', R a a' → Corresponds S E (k a) (k' a')) :
    Corresponds S E (m >>= k) (m' >>= k') := by
  intro fuel
  obtain ⟨hresult, hfuel⟩ := hm fuel
  rw [bind_apply, bind_apply]
  rcases hr : m fuel with ⟨r, rest⟩
  rcases hr' : m' fuel with ⟨r', rest'⟩
  rw [hr, hr'] at hresult hfuel
  obtain rfl : rest' = rest := hfuel
  cases hresult with
  | ok h => exact hk _ _ h rest'
  | error h => exact ⟨.error h, rfl⟩

theorem Corresponds.bind_image {g : α → α'} {m : Metered ε α} {m' : Metered ε' α'}
    {k : α → Metered ε β} {k' : α' → Metered ε' β'}
    (hm : Corresponds (IsImage g) E m m')
    (hk : ∀ a, Corresponds S E (k a) (k' (g a))) : Corresponds S E (m >>= k) (m' >>= k') :=
  hm.bind fun a a' h => by
    subst h
    exact hk a

/-- On fresh budgets of one size, results correspond. -/
theorem Corresponds.runFresh {m : Metered ε α} {m' : Metered ε' α'} (h : Corresponds R E m m')
    (budget : Nat) : StagedTT.Corresponds R E (m.runFresh budget) (m'.runFresh budget) :=
  (h (.ofBudget budget)).1

section OutOfFuel

variable [OutOfFuel ε] [OutOfFuel ε'] (hE : ∀ steps, E (outOfFuel steps) (outOfFuel steps))

include hE

theorem corresponds_burn :
    Corresponds IsSame E (burn : Metered ε Unit) (burn : Metered ε' Unit) := by
  intro ⟨used, left⟩
  cases left with
  | zero => exact ⟨.error (hE used), rfl⟩
  | succ left => exact ⟨.ok rfl, rfl⟩

/-- A recursion corresponds to another one, on arguments and their images, if its body does, given
calls on such arguments that do. -/
theorem corresponds_fix {ι : Type} {g : ι → α → α'} {R : ι → β → β' → Prop}
    {body : (α → Metered ε β) → α → Metered ε β}
    {body' : (α' → Metered ε' β') → α' → Metered ε' β'}
    (h : ∀ f f', (∀ i a, Corresponds (R i) E (f a) (f' (g i a))) →
      ∀ i a, Corresponds (R i) E (body f a) (body' f' (g i a)))
    (i : ι) (a : α) : Corresponds (R i) E (fix body a) (fix body' (g i a)) := by
  have hexhausted : ∀ i, Corresponds (R i) E (exhausted : Metered ε β)
      (exhausted : Metered ε' β') := fun _ fuel => ⟨.error (hE fuel.used), rfl⟩
  have hrec : ∀ depth i a,
      Corresponds (R i) E (recurse body depth a) (recurse body' depth (g i a)) := by
    intro depth
    induction depth with
    | zero => exact h _ _ fun i _ => hexhausted i
    | succ depth ih => exact h _ _ ih
  exact fun fuel => hrec fuel.left i a fuel

end OutOfFuel

end Metered

/-- Errors of the same kind: the same thing is wrong, whatever the terms and numbers shown. -/
def KernelError.SameKind (e e' : KernelError) : Prop := e.ctorIdx = e'.ctorIdx

end StagedTT
