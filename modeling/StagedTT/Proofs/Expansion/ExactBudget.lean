import StagedTT.Proofs.Expansion.Relation
import StagedTT.Proofs.Reduction.ExactFuel
import StagedTT.Proofs.Surface.Declares

/-!
# Exact expansion

Expansion ends on every supply of fuel, even of calls that compute calls of themselves, and so does
the reduction that each call starts on a budget of its own. An answer costs a unit for every call
that was made on the way to it, whatever those reductions have cost
(`Environment.exact_expansion`). Nothing is asked of the signature or the term.
-/

namespace StagedTT

open Metered (Ends)
open Term (normalizeBody normalizeMetered)

namespace Environment

theorem ends_expandMetered (env : Environment) (t : Term) (fuel : Fuel) :
    Ends env.expandBody t fuel (env.expandMetered t fuel) :=
  (guarded_expandBody env).ends (spends_expandMetered env) (expandMetered_eq env) t fuel

theorem exact_expandMetered (env : Environment) (t : Term) :
    (env.expandMetered t).Exact fun k t' => env.Expands t k t' :=
  Metered.exact_of_costs fun fuel =>
    (env.expandMetered_settles t fuel).yields.mono fun _ ⟨k, h⟩ => ⟨k, h.costs, h⟩

/-- **Expansion costs what it does.** It ends on every supply of fuel, and so does the reduction of
each call. An answer that takes `k` calls takes `k` units: with as much used before, every budget
that covers them gives that answer, and every smaller one is used up and reported so, wherever
faults are reported. -/
theorem exact_expansion (env : Environment) (t : Term) (loc : Location) :
    (∀ fuel, Ends env.expandBody t fuel (env.expandMetered t fuel)) ∧
      (∀ (value : Term) (args : List Term) (fuel : Fuel),
        Ends (normalizeBody env.signature) (value.applyAll args) fuel
          (normalizeMetered env.signature (value.applyAll args) fuel)) ∧
      ∀ (fuel : Fuel) (t' : Term), loc.report (env.expandMetered t fuel).1 = .ok t' →
        ∃ k, env.Expands t k t' ∧ (env.expandMetered t fuel).2.used = fuel.used + k ∧
          ∀ other : Fuel, other.used = fuel.used →
            (fuel.used + k ≤ other.budget →
              loc.report (env.expandMetered t other).1 = .ok t' ∧
                (env.expandMetered t other).2.used = fuel.used + k) ∧
            (other.budget < fuel.used + k →
              loc.report (env.expandMetered t other).1 =
                loc.fail (.kernel (.nonTermination other.budget))) := by
  refine ⟨env.ends_expandMetered t, fun value args => (value.applyAll args).ends_normalizeMetered _,
    fun fuel t' hreport => ?_⟩
  have hok : (env.expandMetered t fuel).1 = .ok t' := ((yields_self _).report loc).of_ok hreport
  obtain ⟨k, hexpands, hused, hother⟩ := env.exact_expandMetered t fuel t' hok
  refine ⟨k, hexpands, hused, fun other hsame => ⟨fun hcovered => ?_, fun hshort => ?_⟩⟩
  · rw [(hother other hsame).1 hcovered]
    exact ⟨rfl, rfl⟩
  · rw [(hother other hsame).2 hshort]
    rfl

/-- An environment with three metalevel definitions. One computes code for a number, one computes
two calls of it, and one throws its argument away and computes a call of the second. -/
def withCalls : Environment :=
  let seven : Term := .call (.const "seven") []
  ⟨⟨[("drop", ⟨.metalevel, .pi (.const "number") (.const "number"),
        some (.lam (.const "number") (.quote (.call (.const "twice") [])))⟩),
      ("twice", ⟨.metalevel, .const "number", some (.quote (.app seven seven))⟩),
      ("seven", ⟨.metalevel, .const "number", some (.quote (.num 7))⟩)],
    ["seven", "twice", "drop"]⟩, ⟨10, 10⟩⟩

/-- A call that throws away a call of something that cannot be called, with five units used. -/
theorem exact_expansion_withCalls :
    let t : Term := .call (.const "drop") [.call (.const "missing") []]
    let loc : Location := ⟨2, 1, 24⟩
    withCalls.Expands t 4 (.app (.num 7) (.num 7)) ∧
      loc.report (withCalls.expandMetered t ⟨5, 4⟩).1 = .ok (.app (.num 7) (.num 7)) ∧
      loc.report (withCalls.expandMetered t ⟨5, 3⟩).1 = loc.fail (.kernel (.nonTermination 8)) := by
  intro t loc
  have h : loc.report (withCalls.expandMetered t ⟨5, 9⟩).1 = .ok (.app (.num 7) (.num 7)) := by
    decide +kernel
  obtain ⟨k, hexpands, hused, hother⟩ := (exact_expansion withCalls t loc).2.2 ⟨5, 9⟩ _ h
  have hspent : (withCalls.expandMetered t ⟨5, 9⟩).2.used = 9 := by decide +kernel
  have hnine : 9 = 5 + k := hspent.symm.trans hused
  obtain rfl : k = 4 := by omega
  exact ⟨hexpands, ((hother ⟨5, 4⟩ rfl).1 (by decide)).1, (hother ⟨5, 3⟩ rfl).2 (by decide)⟩

end Environment

end StagedTT
