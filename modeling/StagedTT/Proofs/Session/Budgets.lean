import StagedTT.Proofs.Session.Imitation
import StagedTT.Proofs.Session.Stored
import StagedTT.Proofs.Typing.Budgets

/-!
# Budgets of a session

Expansion outlasts itself as reduction does. So an environment that affords more imitates forms and
queries (`Environment.Affords.imitatesForms`), and whatever a session answers within some limits it
answers within all larger ones, unless the answer is that a budget has run out
(`Session.same_of_limits_le`).
-/

namespace StagedTT

open Metered (Outlasts outlasts_pure outlasts_fail outlasts_burn outlasts_ofExcept outlasts_fix)

/-- A diagnostic of a budget that has run out. -/
def Diagnostic.IsOutOfFuel (d : Diagnostic) : Prop := StagedTT.IsOutOfFuel d.fault

theorem Fault.isKernel_isOutOfFuel {fault : Fault} :
    fault.IsKernel IsOutOfFuel ↔ IsOutOfFuel fault := by
  constructor
  · rintro ⟨e, rfl, steps, rfl⟩
    exact ⟨steps, rfl⟩
  · rintro ⟨steps, rfl⟩
    exact ⟨.nonTermination steps, rfl, steps, rfl⟩

theorem SameUnless.outOfFuel {α : Type} {r r' : Except Diagnostic α}
    (h : SameUnless (Diagnostic.IsKernel IsOutOfFuel) r' r) :
    SameUnless Diagnostic.IsOutOfFuel r' r :=
  h.mono fun _ hd => Fault.isKernel_isOutOfFuel.1 hd

namespace Environment.Affords

variable [A : IndexArithmetic] {env env' : Environment} (h : env'.Affords env)

include h

theorem expandBody {again again' : Term → Metered Fault Term}
    (hagain : ∀ t, Outlasts (again' t) (again t)) (t : Term) :
    Outlasts (env'.expandBody again' t) (env.expandBody again t) := by
  induction t with
  | sort | const | num | str | var | quote => exact outlasts_pure _
  | pi A B ihA ihB => exact ihA.bind fun _ => ihB.bind fun _ => outlasts_pure _
  | lam A b ihA ihb => exact ihA.bind fun _ => ihb.bind fun _ => outlasts_pure _
  | app f a ihf iha => exact ihf.bind fun _ => iha.bind fun _ => outlasts_pure _
  | splice b ih => exact ih.bind fun _ => outlasts_pure _
  | call head args =>
    unfold Environment.expandBody
    rw [h.signature]
    cases env.signature.callable? head with
    | none => exact outlasts_fail _
    | some value =>
      refine outlasts_burn.bind fun _ => Outlasts.bind (outlasts_ofExcept ?_) hagain
      exact (h.imitates.runCall value args).mono fun _ => Fault.isKernel_isOutOfFuel.1

/-- **A larger budget expands to the same term and declares the same**, or fails in the same way,
unless the smaller one runs out. -/
theorem imitatesForms : ImitatesForms IsOutOfFuel A env' A env where
  toImitates := h.imitates
  expand t := by
    have hmetered : Outlasts (env'.expandMetered t) (env.expandMetered t) :=
      outlasts_fix (fun _ _ hagain => h.expandBody hagain) t
    exact (hmetered.runFresh h.limits.2).mono fun _ => Fault.isKernel_isOutOfFuel.2

end Environment.Affords

/-! ## Sessions -/

namespace Session

/-- The session within other limits. -/
def withLimits (s : Session) (limits : Limits) : Session :=
  { s with env := { s.env with limits } }

section Limits

variable (s : Session) {limits limits' : Limits} (h : limits ≤ limits')

include h

theorem affords_withLimits : (s.withLimits limits').env.Affords (s.withLimits limits).env where
  signature := rfl
  limits := h

variable [A : IndexArithmetic]

theorem imitates_withLimits :
    Imitates IsOutOfFuel A (s.withLimits limits') A (s.withLimits limits) where
  env := (s.affords_withLimits h).imitatesForms
  scope := rfl

/-- A form that does not run out of fuel declares the same, and leads to the same session but for
the limits. -/
theorem define_of_limits_le {form : SExpr}
    (hform : Avoids Diagnostic.IsOutOfFuel ((s.withLimits limits).define form).1) :
    (s.withLimits limits').define form =
      ((s.withLimits limits).define form).map id (·.withLimits limits') := by
  refine define_map (s := s.withLimits limits) (f := (·.withLimits limits')) ?_ fun _ => rfl
  exact ((s.imitates_withLimits h).define form).outOfFuel.eq_of_avoids hform

/-- **Budgets never change an answer.** What a form declares, what a query is answered with, and
what either is refused for within some limits is the same within all larger limits, unless it is
that a budget has run out; and so are the answers of the kernel over any signature, to inference, to
checking and to conversion. -/
theorem same_of_limits_le :
    (∀ form, Avoids Diagnostic.IsOutOfFuel ((s.withLimits limits).define form).1 →
      (s.withLimits limits').define form =
        ((s.withLimits limits).define form).map id (·.withLimits limits')) ∧
    (∀ e,
      (Avoids Diagnostic.IsOutOfFuel ((s.withLimits limits).elaborate e) →
        (s.withLimits limits').elaborate e = (s.withLimits limits).elaborate e) ∧
      (Avoids Diagnostic.IsOutOfFuel ((s.withLimits limits).infer e) →
        (s.withLimits limits').infer e = (s.withLimits limits).infer e) ∧
      (Avoids Diagnostic.IsOutOfFuel ((s.withLimits limits).normalize e) →
        (s.withLimits limits').normalize e = (s.withLimits limits).normalize e)) ∧
    ∀ (sig : Signature) (ctx : Context) (t u : Term),
      let small : Environment := ⟨sig, limits⟩
      let large : Environment := ⟨sig, limits'⟩
      (Avoids IsOutOfFuel (small.infer ctx t) → large.infer ctx t = small.infer ctx t) ∧
      (Avoids IsOutOfFuel (small.check ctx t u) → large.check ctx t u = small.check ctx t u) ∧
      (Avoids IsOutOfFuel (small.convertible t u) →
        large.convertible t u = small.convertible t u) := by
  refine ⟨fun form hform => s.define_of_limits_le h hform, fun e => ?_, fun sig ctx t u => ?_⟩
  · have hsame := s.imitates_withLimits h
    exact ⟨(hsame.elaborate e).outOfFuel.eq_of_avoids, (hsame.infer e).outOfFuel.eq_of_avoids,
      (hsame.normalize e).outOfFuel.eq_of_avoids⟩
  · intro small large
    have hafford : large.Affords small := ⟨rfl, h⟩
    exact ⟨(hafford.infer ctx t).eq_of_avoids, (hafford.check ctx t u).eq_of_avoids,
      (hafford.convertible t u).eq_of_avoids⟩

end Limits

/-- A refusal is as stable as a definition. -/
theorem same_of_limits_le_withSeven :
    let small : Limits := ⟨2, 1⟩
    let large : Limits := ⟨100, 100⟩
    let form : SExpr := .list {} [.sym {} "defn", .sym {} "y", .list {} [.sym {} "seven"]]
    let bad : SExpr := .list {} [.num {} 1, .list {} [.sym {} "seven"]]
    let d : Diagnostic := ⟨.kernel (.notAFunction "1" "number"), {}⟩
    small ≤ large ∧
      ((withSeven.withLimits large).define form).1 =
        .ok ("y", ⟨.object, .const "number", some (.num 7)⟩) ∧
      (withSeven.withLimits large).infer bad = .error d := by
  intro small large form bad d
  have hle : small ≤ large := ⟨by decide, by decide⟩
  obtain ⟨hdefine, hquery, -⟩ := withSeven.same_of_limits_le hle
  have hok : ((withSeven.withLimits small).define form).1 =
      .ok ("y", ⟨.object, .const "number", some (.num 7)⟩) := by decide +kernel
  have herror : (withSeven.withLimits small).infer bad = .error d := by decide +kernel
  refine ⟨hle, ?_, ?_⟩
  · rw [hdefine form fun e he => (by rw [he] at hok; cases hok)]
    exact hok
  · have hsame := (hquery bad).2.1 fun e he ⟨steps, hsteps⟩ => by
      rw [herror] at he
      obtain rfl := Except.error.inj he
      cases hsteps
    rw [hsame, herror]

end Session

end StagedTT
