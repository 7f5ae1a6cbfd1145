import StagedTT.Proofs.Session.Consistency
import StagedTT.Proofs.Typing.Canonical

/-!
# Canonical answers of a session

Without axioms, the normal form that a session answers with has the form that the type it answers
with asks for (`Session.Reachable.canonical`): whatever is expanded and reduced on the way, a closed
expression never gets stuck.
-/

namespace StagedTT

open Term

namespace Session

variable {s : Session}

theorem infer_yields (s : Session) (e : SExpr) :
    Yields (s.infer e)
      fun T => ∃ t, s.elaborate e = .ok t ∧ s.env.infer (.empty .object) t = .ok T := by
  rw [infer_eq]
  exact (yields_self (s.elaborate e)).bind fun t ht =>
    ((yields_self (s.inferTerm t)).reportKernel e.location).mono fun _ hT => ⟨t, ht, hT⟩

theorem normalize_yields (s : Session) (e : SExpr) :
    Yields (s.normalize e)
      fun n => ∃ t, s.elaborate e = .ok t ∧ s.env.normalize t = .ok n := by
  rw [normalize_eq]
  exact (yields_self (s.elaborate e)).bind fun t ht =>
    ((yields_self (s.normalizeTerm t)).reportKernel e.location).mono fun _ hn => ⟨t, ht, hn⟩

/-- What is inferred of an expression is a type of its normal form. -/
theorem Reachable.normalize_typed {allowed : SExpr → Prop} (hs : Reachable allowed s) {e : SExpr}
    {T n : Term} (hT : s.infer e = .ok T) (hn : s.normalize e = .ok n) :
    HasType s.env.signature .object [] n T ∧ Normal s.env.signature n := by
  obtain ⟨t, ht, hinfer⟩ := (s.infer_yields e).of_ok hT
  obtain ⟨t', ht', hnormalize⟩ := (s.normalize_yields e).of_ok hn
  obtain rfl := Except.ok.inj (ht.symm.trans ht')
  have htyped := (Environment.infer_yields hs.sound .nil (by rintro ⟨⟩)).of_ok hinfer
  have hform := (s.env.normalize_settles t).of_ok hnormalize
  exact ⟨htyped.typed.steps hs.sound .nil hform.steps, hform.normal⟩

/-- **Answers are canonical in a session without axioms.** The normal form of an expression is a
number, a string or a function if its type is linked to `number`, to `string` or to a function type,
and it is a universe, a function type or a type of literals if its type is linked to a universe. -/
theorem Reachable.canonical (hs : Reachable NoAxiom s) {e : SExpr} {T n : Term}
    (hT : s.infer e = .ok T) (hn : s.normalize e = .ok n) :
    (Linked s.env.signature T (.const "number") → ∃ v, n = .num v) ∧
      (Linked s.env.signature T (.const "string") → ∃ v, n = .str v) ∧
      (∀ A B, Linked s.env.signature T (.pi A B) → ∃ C b, n = .lam C b) ∧
      ∀ l, Linked s.env.signature T (.sort l) →
        (∃ k, n = .sort k) ∨ (∃ A B, n = .pi A B) ∨ n = .const "number" ∨ n = .const "string" := by
  obtain ⟨htyped, hnormal⟩ := hs.normalize_typed hT hn
  have hsig := hs.sound
  have hintroduces : ∀ {T' : Term} {k : Former}, Linked s.env.signature T T' →
      T'.former? s.env.signature = some k → Introduces n k :=
    fun h hk => htyped.introduces_of_linked hsig hs.valued hnormal h hk
  refine ⟨fun h => ?_, fun h => ?_, fun A B h => ?_, fun l h => ?_⟩
  · rcases (hintroduces h hsig.former?_number).of_const with ⟨-, hnum⟩ | ⟨hname, -⟩
    · exact hnum
    · exact absurd hname (by decide)
  · rcases (hintroduces h hsig.former?_string).of_const with ⟨hname, -⟩ | ⟨-, hstr⟩
    · exact absurd hname (by decide)
    · exact hstr
  · cases hintroduces h rfl with
    | lam C b => exact ⟨C, b, rfl⟩
  · cases hintroduces h rfl with
    | sort k => exact .inl ⟨k, rfl⟩
    | pi A B => exact .inr (.inl ⟨A, B, rfl⟩)
    | number => exact .inr (.inr (.inl rfl))
    | string => exact .inr (.inr (.inr rfl))

/-- `(id number)` is a function, and `(id number 7)` is a number. -/
theorem canonical_withIdentity :
    let idNumber : SExpr := .list {} [.sym {} "id", .sym {} "number"]
    let idSeven : SExpr := .list {} [.sym {} "id", .sym {} "number", .num {} 7]
    (∃ T n, withIdentity.infer idNumber = .ok T ∧ withIdentity.normalize idNumber = .ok n ∧
      ∃ C b, n = .lam C b) ∧
    ∃ T n, withIdentity.infer idSeven = .ok T ∧ withIdentity.normalize idSeven = .ok n ∧
      ∃ v, n = .num v := by
  intro idNumber idSeven
  have hs : Reachable NoAxiom withIdentity :=
    reachable_withIdentity (show identityForm.headSymbol? ≠ some "axiom" by decide)
  constructor
  · have hT : withIdentity.infer idNumber = .ok (.pi (.const "number") (.const "number")) := by
      decide +kernel
    have hn : withIdentity.normalize idNumber = .ok (.lam (.const "number") (.var 0)) := by
      decide +kernel
    exact ⟨_, _, hT, hn, (hs.canonical hT hn).2.2.1 _ _ (.refl _)⟩
  · have hT : withIdentity.infer idSeven = .ok (.const "number") := by decide +kernel
    have hn : withIdentity.normalize idSeven = .ok (.num 7) := by decide +kernel
    exact ⟨_, _, hT, hn, (hs.canonical hT hn).1 (.refl _)⟩

end Session

end StagedTT
