import StagedTT.Kernel.Error
import StagedTT.Term.Substitution

/-!
# Machine words and unbounded indices

A sum of indices that a machine word holds is the same in every arithmetic of indices. So what
`shift?` and `subst?` give where sums are checked, they give in every arithmetic, unbounded indices
included: `Refines r' r` says that `r'` is defined as `r` is, wherever `r` is (`refines_shift?`,
`refines_subst?`). `Term.ShiftFits` says that a term can be moved within the range of a word. Then
it is moved to the same place everywhere (`Term.ShiftFits.shift_eq`).
-/

namespace StagedTT

variable {α β : Type}

/-- Where the second value is defined, the first one is the same. -/
def Refines (r' r : Option α) : Prop := ∀ a, r = some a → r' = some a

namespace Refines

theorem refl (r : Option α) : Refines r r := fun _ h => h

theorem bind {r r' : Option α} {f f' : α → Option β} (hr : Refines r' r)
    (hf : ∀ a, Refines (f' a) (f a)) : Refines (r' >>= f') (r >>= f) := by
  intro b h
  obtain ⟨a, ha, hb⟩ := Option.bind_eq_some_iff.1 h
  exact Option.bind_eq_some_iff.2 ⟨a, hr a ha, hf a b hb⟩

theorem map {r r' : Option α} (hr : Refines r' r) (f : α → β) : Refines (r'.map f) (r.map f) := by
  intro b h
  obtain ⟨a, ha, hb⟩ := Option.map_eq_some_iff.1 h
  exact Option.map_eq_some_iff.2 ⟨a, hr a ha, hb⟩

end Refines

variable [A : IndexArithmetic]

theorem Index.refines_raised? (index amount : Nat) :
    Refines (Index.raised? index amount) (@Index.raised? .checked index amount) := by
  intro sum h
  change (if index + amount < UInt64.size then some (index + amount) else none) = some sum at h
  split at h
  · next hlt =>
    obtain rfl := Option.some.inj h
    exact IndexArithmetic.add?_of_lt hlt
  · cases h

namespace Term

/-! ## Shifting -/

theorem refines_shiftFrom? (amount cutoff : Nat) (t : Term) :
    Refines (shiftFrom? amount cutoff t) (@shiftFrom? .checked amount cutoff t) := by
  induction t generalizing cutoff with
  | sort | const | num | str => exact .refl _
  | var i =>
    unfold shiftFrom?
    split
    · exact .refl _
    · exact (Index.refines_raised? i amount).map _
  | pi A B ihA ihB | lam A B ihA ihB =>
    unfold shiftFrom?
    refine (ihA cutoff).bind fun _ => (Index.refines_raised? cutoff 1).bind fun under => ?_
    exact (ihB under).bind fun _ => .refl _
  | app f a ihf iha =>
    unfold shiftFrom?
    exact (ihf cutoff).bind fun _ => (iha cutoff).bind fun _ => .refl _
  | quote b ih | splice b ih =>
    unfold shiftFrom?
    exact (ih cutoff).bind fun _ => .refl _
  | call h as ihh ihas =>
    have hargs : Refines (shiftArgs? amount cutoff as) (@shiftArgs? .checked amount cutoff as) := by
      clear ihh
      induction as with
      | nil => exact .refl _
      | cons a as ih =>
        obtain ⟨ha, has⟩ := List.forall_mem_cons.1 ihas
        unfold shiftArgs?
        exact (ha cutoff).bind fun _ => (ih has).bind fun _ => .refl _
    unfold shiftFrom?
    exact (ihh cutoff).bind fun _ => hargs.bind fun _ => .refl _

/-- What is moved within the range of a word is moved to the same place in every arithmetic. -/
theorem refines_shift? (t : Term) (amount cutoff : Nat) :
    Refines (t.shift? amount cutoff) (@shift? .checked t amount cutoff) := by
  unfold shift?
  split
  · exact .refl _
  · exact refines_shiftFrom? amount cutoff t

/-- A term can be moved within the range of a machine word. -/
def ShiftFits (t : Term) (amount cutoff : Nat) : Prop :=
  @shift? .checked t amount cutoff ≠ none

/-- A term that fits is moved as if indices had no bound. -/
theorem ShiftFits.shift_eq {t : Term} {amount cutoff : Nat} (h : t.ShiftFits amount cutoff) :
    t.shift amount cutoff = @shift .exact t amount cutoff := by
  obtain ⟨u, hu⟩ := Option.ne_none_iff_exists'.1 h
  have hexact : @shift? .exact t amount cutoff = some u :=
    @refines_shift? .exact t amount cutoff u hu
  unfold shift
  rw [refines_shift? t amount cutoff u hu, hexact]

/-! ## Substitution -/

theorem refines_substFrom? (index : Nat) (replacement t : Term) :
    Refines (substFrom? index replacement t) (@substFrom? .checked index replacement t) := by
  induction t generalizing index replacement with
  | sort | const | num | str | var => exact .refl _
  | pi A B ihA ihB | lam A B ihA ihB =>
    unfold substFrom?
    refine (ihA index replacement).bind fun _ => (refines_shift? replacement 1 0).bind fun lifted =>
      (Index.refines_raised? index 1).bind fun under => ?_
    exact (ihB under lifted).bind fun _ => .refl _
  | app f a ihf iha =>
    unfold substFrom?
    exact (ihf index replacement).bind fun _ => (iha index replacement).bind fun _ => .refl _
  | quote b ih | splice b ih =>
    unfold substFrom?
    exact (ih index replacement).bind fun _ => .refl _
  | call h as ihh ihas =>
    have hargs : Refines (substArgs? index replacement as)
        (@substArgs? .checked index replacement as) := by
      clear ihh
      induction as with
      | nil => exact .refl _
      | cons a as ih =>
        obtain ⟨ha, has⟩ := List.forall_mem_cons.1 ihas
        unfold substArgs?
        exact (ha index replacement).bind fun _ => (ih has).bind fun _ => .refl _
    unfold substFrom?
    exact (ihh index replacement).bind fun _ => hargs.bind fun _ => .refl _

/-- **A contraction within the range of a word is the same in every arithmetic.** -/
theorem refines_instantiate? (body arg : Term) :
    Refines (body.instantiate? arg) (@instantiate? .checked body arg) :=
  refines_substFrom? 0 arg body

end Term

end StagedTT
