import StagedTT.Proofs.Typing.Preservation

/-!
# Consistency

Over a sound signature without axioms, no normal form is of the type that all types follow from
(`not_normal_falsity`).

A type is atomic if it is equal to a universe or to a constant without a value. As long as the
types of all variables are atomic, a normal form of object code is a function or has an atomic type
(`HasType.function_or_atomic`): what it applies would have to be a function, and is none. A normal
form of type `falsity` is thus a function from types, whose body is a normal form of a variable's
type; and that is neither atomic nor a function type.
-/

namespace StagedTT

open Term

/-- The type whose terms give a term of every type. -/
def falsity : Term := .pi (.sort 0) (.var 0)

theorem hasType_falsity (sig : Signature) (p : Phase) : HasType sig p [] falsity (.sort 1) := by
  show HasType sig p [] (.pi (.sort 0) (.var 0)) (.sort (max 1 0))
  exact .pi (.sort 0) (HasType.var (A := .sort 0) rfl)

/-- The types of literals are the only names without a value. -/
def Signature.Axiomless (sig : Signature) : Prop :=
  ∀ n decl, sig.find? n = some decl → decl.value? = none → decl = .literalType

/-- Nothing but a type of literals is declared without a value. -/
def Signature.Valued (sig : Signature) : Prop :=
  ∀ n decl, sig.find? n = some decl → decl.value? = none → n = "number" ∨ n = "string"

theorem Signature.Valued.axiomless {sig : Signature} (h : sig.Valued) (hsig : sig.Sound) :
    sig.Axiomless := by
  intro n decl hfind hvalue
  rcases h n decl hfind hvalue with rfl | rfl
  · exact Option.some.inj (hfind.symm.trans hsig.number)
  · exact Option.some.inj (hfind.symm.trans hsig.string)

/-- A type that is equal to a universe or to a constant without a value. -/
inductive Atomic (sig : Signature) (T : Term) : Prop
  | sort {l : Nat} : EqualIn sig .stageFree (.sort l) T → Atomic sig T
  | const {n : String} : sig.value? n = none → EqualIn sig .stageFree (.const n) T → Atomic sig T

/-- A context in which every variable has an atomic type. -/
def AtomicContext (sig : Signature) (Γ : List Term) : Prop :=
  ∀ (i : Nat) (A : Term), Γ[i]? = some A → Atomic sig (A.shift (i + 1) 0)

variable {sig : Signature} {Γ : List Term} {t T : Term} (hsig : sig.Sound)

include hsig

/-- An atomic type is formed neither by a function type nor by a variable. -/
theorem Atomic.former_ne (hT : Atomic sig T) {k : Former} (hk : T.former? sig = some k) :
    k ≠ .pi ∧ ∀ i, k ≠ .var i := by
  cases hT with
  | sort heq =>
    obtain rfl := heq.former_eq hsig.orderly (.sort trivial) rfl hk
    exact ⟨nofun, nofun⟩
  | @const n hv heq =>
    have hn : (Term.const n).former? sig = some (.const n) := if_pos hv
    obtain rfl := heq.former_eq hsig.orderly (.const trivial) hn hk
    exact ⟨nofun, nofun⟩

theorem Atomic.not_pi {A B : Term} (h : Atomic sig (.pi A B)) : False :=
  (h.former_ne hsig (k := .pi) rfl).1 rfl

theorem Atomic.not_var {i : Nat} (h : Atomic sig (.var i)) : False :=
  (h.former_ne hsig (k := .var i) rfl).2 i rfl

/-- A normal form of object code is a function or has an atomic type, if all variables have. -/
theorem HasType.function_or_atomic (haxiomless : sig.Axiomless) (hΓ : AtomicContext sig Γ)
    (h : HasType sig .object Γ t T) (hnormal : Normal sig t) :
    (∃ A b, t = .lam A b) ∨ Atomic sig T := by
  induction t generalizing T with
  | sort l =>
    obtain ⟨_, rfl, heq⟩ := h.generation
    exact .inr (.sort heq)
  | num v =>
    obtain ⟨_, rfl, heq⟩ := h.generation
    exact .inr (.const (by rw [Signature.value?, hsig.number]; rfl) heq)
  | str s =>
    obtain ⟨_, rfl, heq⟩ := h.generation
    exact .inr (.const (by rw [Signature.value?, hsig.string]; rfl) heq)
  | const n =>
    obtain ⟨_, ⟨decl, hfind, _, rfl⟩, heq⟩ := h.generation
    have hvalue : decl.value? = none := by
      by_contra hsome
      obtain ⟨v, hv⟩ := Option.ne_none_iff_exists'.1 hsome
      exact hnormal v (.delta (Option.bind_eq_some_iff.2 ⟨decl, hfind, hv⟩))
    obtain rfl := haxiomless n decl hfind hvalue
    exact .inr (.sort heq)
  | var i =>
    obtain ⟨_, ⟨A, hget, rfl⟩, heq⟩ := h.generation
    cases hΓ i A hget with
    | sort hA => exact .inr (.sort (hA.trans heq))
    | const hv hA => exact .inr (.const hv (hA.trans heq))
  | pi A B _ _ =>
    obtain ⟨_, ⟨m, n, _, _, rfl⟩, heq⟩ := h.generation
    exact .inr (.sort heq)
  | lam A b _ _ => exact .inl ⟨A, b, rfl⟩
  | app f a ihf _ =>
    obtain ⟨_, ⟨A, B, hf, _, _⟩, _⟩ := h.generation
    have hfnormal : Normal sig f := fun f' hstep => hnormal _ (.appFn a hstep)
    rcases ihf hf hfnormal with ⟨A', b, rfl⟩ | hatomic
    · exact absurd (.beta A' b a) (hnormal _)
    · exact (hatomic.not_pi hsig).elim
  | quote b _ | splice b _ =>
    obtain ⟨_, ⟨hp, _⟩, _⟩ := h.generation
    cases hp
  | call head args _ _ =>
    obtain ⟨_, ⟨hp, _⟩, _⟩ := h.generation
    cases hp

/-- No normal form is of a type that is a variable, if all variables have atomic types. -/
theorem not_normal_var (haxiomless : sig.Axiomless) (hΓ : AtomicContext sig Γ) {i : Nat}
    (h : HasType sig .object Γ t (.var i)) (hnormal : Normal sig t) : False := by
  rcases h.function_or_atomic hsig haxiomless hΓ hnormal with ⟨A, b, rfl⟩ | hatomic
  · obtain ⟨_, ⟨B, s, hpi, _, rfl⟩, heq⟩ := h.generation
    have hformer := heq.former_eq hsig.orderly hpi.named rfl (k := .var i) rfl
    cases hformer
  · exact hatomic.not_var hsig

/-- **No normal form proves everything.** -/
theorem not_normal_falsity (haxiomless : sig.Axiomless) (h : HasType sig .object [] t falsity)
    (hnormal : Normal sig t) : False := by
  have hnil : AtomicContext sig [] := fun i A hget => by cases hget
  rcases h.function_or_atomic hsig haxiomless hnil hnormal with ⟨A, b, rfl⟩ | hatomic
  · obtain ⟨_, ⟨B, s, hpi, hb, rfl⟩, heq⟩ := h.generation
    obtain ⟨hA, hB⟩ := hpi.pi_inj hsig (hasType_falsity sig .object) heq
    -- The body is of the type that the variable stands for.
    have hvar : HasType sig .object [A] (.var 0) (.sort 0) :=
      (HasType.var (A := .sort 0) rfl).convert_binder hsig.closed (.sort 0) hA
    have hbody : HasType sig .object [A] b (.var 0) := hb.conv hB hvar
    have hbnormal : Normal sig b := fun b' hstep => hnormal _ (.lamBody A hstep)
    have hcontext : AtomicContext sig [A] := by
      intro i C hget
      cases i with
      | zero =>
        obtain rfl : A = C := Option.some.inj hget
        exact .sort (hA.symm.shift hsig.closed.values 1 0)
      | succ i => cases hget
    exact not_normal_var hsig haxiomless hcontext hbody hbnormal
  · exact hatomic.not_pi hsig

end StagedTT
