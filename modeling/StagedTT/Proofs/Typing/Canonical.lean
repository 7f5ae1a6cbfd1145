import StagedTT.Proofs.Reduction.Linked
import StagedTT.Proofs.Typing.Consistency

/-!
# Canonical forms

Over a sound signature in which only the types of literals have no value, a closed normal form of
object code introduces its type (`HasType.introduces`): it is a literal, a function or a type, and
what its type is linked to says which (`HasType.introduces_of_linked`). All else is ruled out: no
variable is bound, a name with a value unfolds, and what is applied is a normal form too, so it is a
function that is contracted, or no function at all.
-/

namespace StagedTT

open Term

/-- A term introduces types that are formed in a certain way. -/
inductive Introduces : Term → Former → Prop
  | num (v : Int64) : Introduces (.num v) (.const "number")
  | str (s : String) : Introduces (.str s) (.const "string")
  | lam (A b : Term) : Introduces (.lam A b) .pi
  | sort (l k : Nat) : Introduces (.sort l) (.sort k)
  | pi (A B : Term) (k : Nat) : Introduces (.pi A B) (.sort k)
  | number (k : Nat) : Introduces (.const "number") (.sort k)
  | string (k : Nat) : Introduces (.const "string") (.sort k)

theorem Introduces.of_const {t : Term} {c : String} (h : Introduces t (.const c)) :
    (c = "number" ∧ ∃ v, t = .num v) ∨ (c = "string" ∧ ∃ s, t = .str s) := by
  cases h with
  | num v => exact .inl ⟨rfl, v, rfl⟩
  | str s => exact .inr ⟨rfl, s, rfl⟩

variable {sig : Signature} {t T : Term} (hsig : sig.Sound)

include hsig

theorem Signature.Sound.former?_number :
    (Term.const "number").former? sig = some (.const "number") :=
  if_pos (by rw [value?, hsig.number]; rfl)

theorem Signature.Sound.former?_string :
    (Term.const "string").former? sig = some (.const "string") :=
  if_pos (by rw [value?, hsig.string]; rfl)

/-- **A closed normal form of object code introduces its type.** -/
theorem HasType.introduces (hvalued : sig.Valued) (h : HasType sig .object [] t T)
    (hnormal : Normal sig t) :
    ∃ S k, S.former? sig = some k ∧ Introduces t k ∧ EqualIn sig .stageFree S T := by
  have hnil : AtomicContext sig [] := fun i A hget => by cases hget
  obtain ⟨S, hgen, heq⟩ := h.generation
  cases t with
  | sort l =>
    obtain rfl := hgen
    exact ⟨_, _, rfl, .sort l _, heq⟩
  | num v =>
    obtain rfl := hgen
    exact ⟨_, _, hsig.former?_number, .num v, heq⟩
  | str s =>
    obtain rfl := hgen
    exact ⟨_, _, hsig.former?_string, .str s, heq⟩
  | const n =>
    obtain ⟨decl, hfind, -, rfl⟩ := hgen
    have hvalue : decl.value? = none := by
      by_contra hsome
      obtain ⟨v, hv⟩ := Option.ne_none_iff_exists'.1 hsome
      exact hnormal v (.delta (Option.bind_eq_some_iff.2 ⟨decl, hfind, hv⟩))
    obtain rfl := hvalued.axiomless hsig n decl hfind hvalue
    rcases hvalued n _ hfind hvalue with rfl | rfl
    · exact ⟨_, _, rfl, .number 0, heq⟩
    · exact ⟨_, _, rfl, .string 0, heq⟩
  | var i =>
    obtain ⟨A, hget, -⟩ := hgen
    cases hget
  | pi A B =>
    obtain ⟨m, n, -, -, rfl⟩ := hgen
    exact ⟨_, _, rfl, .pi A B _, heq⟩
  | lam A b =>
    obtain ⟨B, s, -, -, rfl⟩ := hgen
    exact ⟨_, _, rfl, .lam A b, heq⟩
  | app f a =>
    obtain ⟨A, B, hf, -, -⟩ := hgen
    have hfnormal : Normal sig f := fun f' hstep => hnormal _ (.appFn a hstep)
    rcases hf.function_or_atomic hsig (hvalued.axiomless hsig) hnil hfnormal with
      ⟨A', b, rfl⟩ | hatomic
    · exact absurd (.beta A' b a) (hnormal _)
    · exact (hatomic.not_pi hsig).elim
  | quote b | splice b | call head args =>
    obtain ⟨hp, -⟩ := hgen
    cases hp

/-- What the type of a closed normal form is linked to says what the normal form introduces. -/
theorem HasType.introduces_of_linked (hvalued : sig.Valued) (h : HasType sig .object [] t T)
    (hnormal : Normal sig t) {T' : Term} (hlinked : Linked sig T T') {k : Former}
    (hT' : T'.former? sig = some k) : Introduces t k := by
  obtain ⟨S, j, hS, hintroduces, heq⟩ := h.introduces hsig hvalued hnormal
  have hST' : Linked sig S T' := heq.linked.trans _ _ _ hlinked
  obtain rfl := hST'.former_eq hsig.closed.values hS hT'
  exact hintroduces

end StagedTT
