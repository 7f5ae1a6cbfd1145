import StagedTT.Proofs.Session.Reachable

/-!
# Inference in a session

Over what a session has declared, inference in object code is sound and complete for the typing
judgment (`Session.Reachable.infer_object`), and normalization keeps inferred types in code of
both phases (`Session.Reachable.infer_normalize`).
-/

namespace StagedTT

open Term

/-- A context whose types are each found to live in a universe, under the binders outside. -/
inductive Environment.ContextChecked (env : Environment) (p : Phase) : List Term → Prop
  | nil : ContextChecked env p []
  | cons {Γ : List Term} {A : Term} {position : String} {l : Nat} : ContextChecked env p Γ →
      env.inferSort ⟨p, Γ⟩ position A = .ok l → ContextChecked env p (A :: Γ)

theorem Environment.ContextChecked.wellFormed {env : Environment} (hsig : env.signature.Sound)
    {p : Phase} {Γ : List Term} (h : env.ContextChecked p Γ)
    (hcalls : ∀ A ∈ Γ, A.Within .namedCalls) : WellFormed env.signature p Γ := by
  induction h with
  | nil => exact .nil
  | cons _ hsort ih =>
    obtain ⟨hA, hΓcalls⟩ := List.forall_mem_cons.1 hcalls
    have hΓ := ih hΓcalls
    exact hΓ.cons ((inferSort_yields hsig hΓ _ fun _ => hA).of_ok hsort).typed

namespace Session

/-- `(defn id (fn {A: (sort 0), x: A} x))` -/
def identityForm : SExpr :=
  .list {} [.sym {} "defn", .sym {} "id",
    .list {} [.sym {} "fn",
      .dict {} [(.sym {} "A", .list {} [.sym {} "sort", .num {} 0]), (.sym {} "x", .sym {} "A")],
      .sym {} "x"]]

/-- A session that has loaded one definition. -/
def withIdentity : Session := ((Session.start ⟨100, 100⟩ .failFast).load [identityForm]).2

theorem reachable_withIdentity {allowed : SExpr → Prop} (h : allowed identityForm) :
    Reachable allowed withIdentity :=
  .load (.start _ _) fun form hform => by
    rw [List.mem_singleton] at hform
    rwa [hform]

variable {s : Session} (hs : Reachable (fun _ => True) s)

include hs

/-- **Inference in object code is typing.** What it accepts has no metalevel construct and is of the
type it answers with; and to a term of some type that does not mention the last universe it answers
with an equal type, unless the fuel runs out. -/
theorem Reachable.infer_object {Γ : List Term} (hΓ : WellFormed s.env.signature .object Γ)
    (t : Term) :
    (∀ T, s.env.infer ⟨.object, Γ⟩ t = .ok T →
      t.Within .stageFree ∧ HasType s.env.signature .object Γ t T) ∧
    ∀ T, HasType s.env.signature .object Γ t T → t.Within .belowLast →
      (∃ T', s.env.infer ⟨.object, Γ⟩ t = .ok T' ∧ EqualIn s.env.signature .stageFree T' T) ∨
        ∃ steps, s.env.infer ⟨.object, Γ⟩ t = .error (.nonTermination steps) := by
  constructor
  · intro T hT
    have hsound := (Environment.infer_yields hs.sound hΓ (by rintro ⟨⟩)).of_ok hT
    exact ⟨(Environment.infer_object_yields s.env Γ t).of_ok hT, hsound.typed⟩
  · intro T hT hbelow
    exact Environment.infer_complete hs.sound hΓ ⟨hT, hbelow⟩

omit hs in
theorem infer_object_withIdentity :
    let seven : Term := .app (.app (.const "id") (.const "number")) (.num 7)
    let Γ : List Term := [.sort 0]
    HasType withIdentity.env.signature .object Γ seven (.const "number") ∧
      ∃ T, withIdentity.env.infer ⟨.object, Γ⟩ seven = .ok T ∧
        EqualIn withIdentity.env.signature .stageFree T (.const "number") := by
  intro seven Γ
  have hΓ : WellFormed withIdentity.env.signature .object Γ := .cons .nil (.sort 0)
  have hcorrect := (reachable_withIdentity trivial).infer_object hΓ seven
  have hok : withIdentity.env.infer ⟨.object, Γ⟩ seven = .ok (.const "number") := by
    decide +kernel
  have htyped := (hcorrect.1 _ hok).2
  have hbelow : seven.Within .belowLast :=
    .app (.app (.const trivial) (.const trivial)) (.num 7)
  refine ⟨htyped, (hcorrect.2 _ htyped hbelow).resolve_right ?_⟩
  rintro ⟨steps, herror⟩
  rw [hok] at herror
  cases herror

/-- **Normalization keeps inferred types.** The type of the normal form of a term is equal to that
of the term; there is no other error than for want of fuel. -/
theorem Reachable.infer_normalize {p : Phase} {Γ : List Term} (hΓ : s.env.ContextChecked p Γ)
    (hcalls : ∀ A ∈ Γ, A.Within .namedCalls) {t T n : Term} (ht : t.Within .namedCalls)
    (hT : s.env.infer ⟨p, Γ⟩ t = .ok T) (hn : s.env.normalize t = .ok n) :
    (∃ T', s.env.infer ⟨p, Γ⟩ n = .ok T' ∧ EqualIn s.env.signature .namedCalls T' T) ∨
      ∃ steps, s.env.infer ⟨p, Γ⟩ n = .error (.nonTermination steps) := by
  have hsig := hs.sound
  have hwf := hΓ.wellFormed hsig hcalls
  have htyped := (Environment.infer_yields hsig hwf fun _ => ht).of_ok hT
  have hform := (s.env.normalize_settles t).of_ok hn
  have hntyped : Infers s.env.signature p Γ n T :=
    ⟨htyped.typed.steps hsig hwf hform.steps,
      Steps.within hsig.keeps_belowLast hform.steps htyped.belowLast⟩
  refine (Environment.infer_complete hsig hwf hntyped).imp_left ?_
  rintro ⟨T', hok, heq⟩
  exact ⟨T', hok, heq.mono (Fragment.le_namedCalls _)⟩

omit hs in
theorem infer_normalize_withIdentity :
    let Γ : List Term := [.app (.lam (.sort 1) (.var 0)) (.sort 0)]
    let t : Term := .splice (.quote (.app (.app (.const "id") (.const "number")) (.num 7)))
    withIdentity.env.normalize t = .ok (.splice (.quote (.num 7))) ∧
      ∃ T, withIdentity.env.infer ⟨.metalevel, Γ⟩ (.splice (.quote (.num 7))) = .ok T ∧
        EqualIn withIdentity.env.signature .namedCalls T (.const "number") := by
  intro Γ t
  have hnormal : withIdentity.env.normalize t = .ok (.splice (.quote (.num 7))) := by
    decide +kernel
  have hΓ : withIdentity.env.ContextChecked .metalevel Γ :=
    .cons .nil (show withIdentity.env.inferSort _ "" _ = .ok 1 by decide +kernel)
  have hid : (Term.const "id").Within .namedCalls := .const trivial
  have hcalls : ∀ A ∈ Γ, A.Within .namedCalls := by
    intro A hA
    obtain rfl := List.mem_singleton.1 hA
    exact .app (.lam (.sort trivial) (.var 0)) (.sort trivial)
  have ht : t.Within .namedCalls :=
    .splice trivial (.quote trivial (.app (.app hid (.const trivial)) (.num 7)))
  refine ⟨hnormal, ?_⟩
  refine ((reachable_withIdentity trivial).infer_normalize hΓ hcalls ht
    (by decide +kernel) hnormal).resolve_right ?_
  rintro ⟨steps, herror⟩
  have hok : withIdentity.env.infer ⟨.metalevel, Γ⟩ (.splice (.quote (.num 7))) =
      .ok (.const "number") := by decide +kernel
  rw [hok] at herror
  cases herror

end Session

end StagedTT
