import StagedTT.Kernel.Context
import StagedTT.Proofs.Reduction.Equality

/-!
# The typing judgment

`HasType sig p Γ t T` says that `t` is of type `T` in code of the phase `p`, under binders whose
types are `Γ`, that of the innermost one first. Universes go on for ever, and a type may be
replaced by an equal one that lives in a universe.

Every rule but conversion belongs to one way of forming a term, so a derivation ends in that rule
and conversions (`HasType.generation`). Typed terms are code of their phase (`HasType.within`)
whose free variables the context binds (`HasType.scoped`).
-/

namespace StagedTT

open Term

/-- The terms that equality of code of a phase may lead through. -/
def Phase.fragment : Phase → Fragment
  | .object => .stageFree
  | .metalevel => .namedCalls

/-- A name that code of a phase may mention. -/
def Signature.Visible (sig : Signature) (p : Phase) (n : String) : Prop :=
  ∃ decl, sig.find? n = some decl ∧ (decl.phase = .object ∨ p = .metalevel)

/-- Code of a phase. -/
def Fragment.code (sig : Signature) (p : Phase) : Fragment :=
  ⟨fun _ => True, sig.Visible p, p = .metalevel⟩

theorem Fragment.code_le (sig : Signature) (p : Phase) : code sig p ≤ p.fragment := by
  cases p with
  | object => exact ⟨fun _ _ => trivial, fun _ _ => trivial, fun h => by cases h⟩
  | metalevel => exact le_namedCalls _

/-- A term has a type in code of a phase, under binders of the given types. -/
inductive HasType (sig : Signature) (p : Phase) : List Term → Term → Term → Prop
  | sort {Γ : List Term} (l : Nat) : HasType sig p Γ (.sort l) (.sort (l + 1))
  | num {Γ : List Term} (v : Int64) : HasType sig p Γ (.num v) (.const "number")
  | str {Γ : List Term} (s : String) : HasType sig p Γ (.str s) (.const "string")
  | const {Γ : List Term} {n : String} {decl : Declaration} : sig.find? n = some decl →
      decl.phase = .object ∨ p = .metalevel → HasType sig p Γ (.const n) decl.type
  | var {Γ : List Term} {i : Nat} {A : Term} : Γ[i]? = some A →
      HasType sig p Γ (.var i) (A.shift (i + 1) 0)
  | pi {Γ : List Term} {A B : Term} {m n : Nat} : HasType sig p Γ A (.sort m) →
      HasType sig p (A :: Γ) B (.sort n) → HasType sig p Γ (.pi A B) (.sort (max m n))
  | lam {Γ : List Term} {A b B : Term} {s : Nat} : HasType sig p Γ (.pi A B) (.sort s) →
      HasType sig p (A :: Γ) b B → HasType sig p Γ (.lam A b) (.pi A B)
  | app {Γ : List Term} {f a A B : Term} : HasType sig p Γ f (.pi A B) → HasType sig p Γ a A →
      HasType sig p Γ (.app f a) (B.instantiate a)
  | quote {Γ : List Term} {b T : Term} : p = .metalevel → HasType sig p Γ b T →
      HasType sig p Γ (.quote b) T
  | splice {Γ : List Term} {b T : Term} : p = .metalevel → HasType sig p Γ b T →
      HasType sig p Γ (.splice b) T
  /-- A suspended call has the type of the application that it stands for. -/
  | call {Γ : List Term} {n : String} {args : List Term} {T : Term} : p = .metalevel →
      HasType sig p Γ ((Term.const n).applyAll args) T → HasType sig p Γ (.call (.const n) args) T
  | conv {Γ : List Term} {t T T' : Term} {s : Nat} : HasType sig p Γ t T →
      EqualIn sig p.fragment T T' → HasType sig p Γ T' (.sort s) → HasType sig p Γ t T'

/-- Each type lives in a universe, under the binders outside its own. -/
inductive WellFormed (sig : Signature) (p : Phase) : List Term → Prop
  | nil : WellFormed sig p []
  | cons {Γ : List Term} {A : Term} {s : Nat} : WellFormed sig p Γ →
      HasType sig p Γ A (.sort s) → WellFormed sig p (A :: Γ)

variable {sig : Signature} {p : Phase} {Γ : List Term} {t T : Term}

/-! ## What typed terms are made of -/

theorem HasType.within (h : HasType sig p Γ t T) : t.Within (.code sig p) := by
  induction h with
  | sort l => exact .sort trivial
  | num v => exact .num v
  | str s => exact .str s
  | const hfind hvis => exact .const ⟨_, hfind, hvis⟩
  | var _ => exact .var _
  | pi _ _ ihA ihB => exact .pi ihA ihB
  | lam _ _ ihpi ihb => exact .lam ihpi.of_pi.1 ihb
  | app _ _ ihf iha => exact .app ihf iha
  | quote hp _ ih => exact .quote hp ih
  | splice hp _ ih => exact .splice hp ih
  | call hp _ ih =>
    obtain ⟨hhead, hargs⟩ := Within.applyAll.1 ih
    cases hhead with
    | const hn => exact .call hp hn hargs
  | conv _ _ _ ih _ => exact ih

theorem HasType.named (h : HasType sig p Γ t T) : t.Within .namedCalls := h.within.named

theorem HasType.within_fragment (h : HasType sig p Γ t T) : t.Within p.fragment :=
  h.within.mono (Fragment.code_le sig p)

/-- The context binds what occurs free in a typed term. -/
theorem HasType.scoped (h : HasType sig p Γ t T) {i : Nat} (hi : t.Free i) : i < Γ.length := by
  induction h generalizing i with
  | sort | num | str | const => cases hi
  | var hget =>
    cases hi with
    | var => exact (List.getElem?_eq_some_iff.1 hget).1
  | pi _ _ ihA ihB =>
    cases hi with
    | piDomain hi => exact ihA hi
    | piBody hi => exact Nat.lt_of_succ_lt_succ (ihB hi)
  | lam _ _ ihpi ihb =>
    cases hi with
    | lamDomain hi => exact ihpi (.piDomain hi)
    | lamBody hi => exact Nat.lt_of_succ_lt_succ (ihb hi)
  | app _ _ ihf iha => exact (free_app.1 hi).elim ihf iha
  | quote _ _ ih =>
    cases hi with
    | quote hi => exact ih hi
  | splice _ _ ih =>
    cases hi with
    | splice hi => exact ih hi
  | call _ _ ih =>
    refine ih (free_applyAll.2 ?_)
    cases hi with
    | callHead hi => exact .inl hi
    | callArg ha hi => exact .inr ⟨_, ha, hi⟩
  | conv _ _ _ ih _ => exact ih hi

theorem HasType.closed (h : HasType sig p [] t T) : t.Closed :=
  fun i hi => absurd (h.scoped hi) (Nat.not_lt_zero i)

/-- Object code is metalevel code too. -/
theorem HasType.of_object (h : HasType sig .object Γ t T) (p : Phase) : HasType sig p Γ t T := by
  induction h with
  | sort l => exact .sort l
  | num v => exact .num v
  | str s => exact .str s
  | const hfind hvis => exact .const hfind (.inl (hvis.resolve_right Phase.noConfusion))
  | var hget => exact .var hget
  | pi _ _ ihA ihB => exact .pi ihA ihB
  | lam _ _ ihpi ihb => exact .lam ihpi ihb
  | app _ _ ihf iha => exact .app ihf iha
  | quote hp | splice hp | call hp => cases hp
  | conv _ heq _ ih ihT =>
    cases p with
    | object => exact .conv ih heq ihT
    | metalevel => exact .conv ih (heq.mono (Fragment.le_namedCalls _)) ihT

/-- What a visible declaration is typed by, code that sees it is typed by. -/
theorem HasType.of_visible {q : Phase} (h : HasType sig q Γ t T)
    (hvis : q = .object ∨ p = .metalevel) : HasType sig p Γ t T := by
  rcases hvis with rfl | rfl
  · exact h.of_object p
  · cases q with
    | object => exact h.of_object _
    | metalevel => exact h

/-! ## Generation -/

/-- The type that a term gets from the rule for what it is formed by. -/
def Generates (sig : Signature) (p : Phase) (Γ : List Term) : (t T : Term) → Prop
  | .sort l, T => T = .sort (l + 1)
  | .num _, T => T = .const "number"
  | .str _, T => T = .const "string"
  | .const n, T => ∃ decl, sig.find? n = some decl ∧ (decl.phase = .object ∨ p = .metalevel) ∧
      T = decl.type
  | .var i, T => ∃ A, Γ[i]? = some A ∧ T = A.shift (i + 1) 0
  | .pi A B, T => ∃ m n, HasType sig p Γ A (.sort m) ∧ HasType sig p (A :: Γ) B (.sort n) ∧
      T = .sort (max m n)
  | .lam A b, T => ∃ B s, HasType sig p Γ (.pi A B) (.sort s) ∧ HasType sig p (A :: Γ) b B ∧
      T = .pi A B
  | .app f a, T => ∃ A B, HasType sig p Γ f (.pi A B) ∧ HasType sig p Γ a A ∧
      T = B.instantiate a
  | .quote b, T => p = .metalevel ∧ HasType sig p Γ b T
  | .splice b, T => p = .metalevel ∧ HasType sig p Γ b T
  | .call h args, T => p = .metalevel ∧ (∃ n, h = .const n) ∧ HasType sig p Γ (h.applyAll args) T

/-- The type of a term is the one from its rule, up to equality. -/
theorem HasType.generation (h : HasType sig p Γ t T) :
    ∃ T₀, Generates sig p Γ t T₀ ∧ EqualIn sig p.fragment T₀ T := by
  induction h with
  | sort | num | str => exact ⟨_, rfl, .refl _⟩
  | const hfind hvis => exact ⟨_, ⟨_, hfind, hvis, rfl⟩, .refl _⟩
  | var hget => exact ⟨_, ⟨_, hget, rfl⟩, .refl _⟩
  | pi hA hB => exact ⟨_, ⟨_, _, hA, hB, rfl⟩, .refl _⟩
  | lam hpi hb => exact ⟨_, ⟨_, _, hpi, hb, rfl⟩, .refl _⟩
  | app hf ha => exact ⟨_, ⟨_, _, hf, ha, rfl⟩, .refl _⟩
  | quote hp hb | splice hp hb => exact ⟨_, ⟨hp, hb⟩, .refl _⟩
  | call hp hfn => exact ⟨_, ⟨hp, ⟨_, rfl⟩, hfn⟩, .refl _⟩
  | conv _ heq _ ih _ =>
    obtain ⟨T₀, hgen, hT₀⟩ := ih
    exact ⟨T₀, hgen, hT₀.trans heq⟩

end StagedTT
