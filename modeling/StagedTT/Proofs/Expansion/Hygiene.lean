import StagedTT.Proofs.Expansion.Relation
import StagedTT.Proofs.Reduction.Shifting

/-!
# Hygiene

Expansion knows nothing of the binders around a call. It puts the arguments, with whatever variables
are free in them, into a closed value, reduces, and expands what comes out. Still it does the same
under more binders, wherever they are put: it makes as many calls and answers with the same term
under the new binders, or fails in the same way (`Environment.expand_hygienic`).

So no binder captures a variable of an argument, no variable is left without its binder, and no
variable comes in that was not there.
-/

namespace StagedTT

open Term
open Metered (corresponds_pure corresponds_burn corresponds_fail corresponds_fix
  corresponds_ofExcept)

/-- Faults of the same kind: the same thing is wrong, whatever the terms and names shown. -/
def Fault.SameKind : Fault → Fault → Prop
  | .kernel e, .kernel e' => e.SameKind e'
  | f, f' => f.ctorIdx = f'.ctorIdx

theorem Fault.sameKind_outOfFuel (steps : Nat) :
    Fault.SameKind (outOfFuel steps) (outOfFuel steps) := rfl

theorem Term.unquote_shift (t : Term) (d c : Nat) :
    (t.shift d c).unquote = t.unquote.shift d c := by
  cases t <;> simp [unquote]

theorem Signature.callable?_shift (sig : Signature) (head : Term) (d c : Nat) :
    sig.callable? (head.shift d c) = sig.callable? head := by
  cases head <;> simp [callable?]

namespace Environment

variable {env : Environment} (hsig : env.signature.ValuesClosed)

include hsig

theorem runCall_shift {head value : Term} (hvalue : env.signature.callable? head = some value)
    (args : List Term) (d c : Nat) :
    Corresponds (IsShift d c) Fault.SameKind (env.runCall value args)
      (env.runCall value (args.map (·.shift d c))) := by
  have hcall : (value.applyAll args).shift d c = value.applyAll (args.map (·.shift d c)) := by
    obtain ⟨n, type, rfl, -⟩ := Signature.callable?_eq_some.1 hvalue
    have hclosed : value.Closed := hsig n value (Signature.value?_of_callable? hvalue)
    rw [shift_applyAll, hclosed.shift_eq]
  have hnormalize := normalize_shift hsig (value.applyAll args) d c
  rw [hcall] at hnormalize
  unfold runCall
  generalize env.normalize (value.applyAll args) = r at hnormalize ⊢
  generalize env.normalize (value.applyAll (args.map (·.shift d c))) = r' at hnormalize ⊢
  cases hnormalize with
  | ok h =>
    subst h
    exact .ok (unquote_shift _ d c)
  | error h =>
    subst h
    exact .error rfl

section Body

variable {f f' : Term → Metered Fault Term} {d c : Nat}

private theorem expandBody_shift
    (hf : ∀ c t, Metered.Corresponds (IsShift d c) Fault.SameKind (f t) (f' (t.shift d c)))
    (t : Term) :
    Metered.Corresponds (IsShift d c) Fault.SameKind (env.expandBody f t)
      (env.expandBody f' (t.shift d c)) := by
  induction t generalizing c with
  | sort | const | num | str | var | quote =>
    simp only [shift_sort, shift_const, shift_num, shift_str, shift_var, shift_quote]
    exact corresponds_pure (by simp [IsShift, IsImage])
  | pi A B ihA ihB =>
    rw [shift_pi]
    exact ihA.bind_image fun A => ihB.bind_image fun B => corresponds_pure (shift_pi d c A B).symm
  | lam A b ihA ihb =>
    rw [shift_lam]
    exact ihA.bind_image fun A => ihb.bind_image fun b => corresponds_pure (shift_lam d c A b).symm
  | app g a ihg iha =>
    rw [shift_app]
    exact ihg.bind_image fun g => iha.bind_image fun a => corresponds_pure (shift_app d c g a).symm
  | splice b ih =>
    rw [shift_splice]
    exact ih.bind_image fun b => corresponds_pure (unquote_shift b d c)
  | call head args =>
    rw [shift_call]
    unfold expandBody
    rw [Signature.callable?_shift]
    cases hvalue : env.signature.callable? head with
    | none => exact corresponds_fail rfl
    | some value =>
      refine (corresponds_burn Fault.sameKind_outOfFuel).bind_image fun _ => ?_
      exact (corresponds_ofExcept (runCall_shift hsig hvalue args d c)).bind_image fun t => hf c t

end Body

/-- Expansion commutes with insertions of binders, at the same cost. -/
theorem expandMetered_shift (t : Term) (d c : Nat) :
    Metered.Corresponds (IsShift d c) Fault.SameKind (env.expandMetered t)
      (env.expandMetered (t.shift d c)) :=
  corresponds_fix Fault.sameKind_outOfFuel (R := IsShift d)
    (fun _ _ hf _ t => expandBody_shift hsig hf t) c t

/-- A variable that is free in an expansion is free in the term. -/
theorem free_of_expand {t t' : Term} (h : env.expand t = .ok t') {i : Nat} (hi : t'.Free i) :
    t.Free i := by
  -- A term without the variable has room for it, and so has what it expands to.
  by_contra hnot
  obtain ⟨u, rfl⟩ := not_free_iff_exists_shift.1 hnot
  have hcorresponds := (expandMetered_shift hsig u 1 i).runFresh env.limits.expansions
  rw [← expand, ← expand, h] at hcorresponds
  generalize env.expand u = r at hcorresponds
  cases hcorresponds with
  | ok hu => exact not_free_iff_exists_shift.2 ⟨_, hu⟩ hi

/-- **Expansion is hygienic.** With `d` more binders behind the inner `c`, a term expands to what it
expanded to, under those binders, or fails in the same way. On every supply of fuel it makes as many
calls as before. And only variables of the term are free in what it expands to. -/
theorem expand_hygienic (t : Term) (d c : Nat) :
    (∀ t', env.expand t = .ok t' ↔ env.expand (t.shift d c) = .ok (t'.shift d c)) ∧
      (∀ e, env.expand t = .error e →
        ∃ e', env.expand (t.shift d c) = .error e' ∧ e.SameKind e') ∧
      (∀ fuel, (env.expandMetered (t.shift d c) fuel).2 = (env.expandMetered t fuel).2) ∧
      ∀ t', env.expand t = .ok t' → ∀ i, t'.Free i → t.Free i := by
  have h := expandMetered_shift hsig t d c
  have hfresh := h.runFresh env.limits.expansions
  refine ⟨hfresh.ok_iff fun _ _ => shift_inj.1, fun _ => hfresh.exists_error, fun fuel => ?_,
    fun t' ht' i hi => free_of_expand hsig ht' hi⟩
  exact (h fuel).2

omit hsig

/-- An environment with one metalevel definition, which computes code for a function that answers
with the definition's argument, whatever its own is. -/
def withConstantly : Environment :=
  ⟨⟨[("constantly", ⟨.metalevel, .pi (.const "number") (.pi (.const "number") (.const "number")),
    some (.lam (.const "number") (.quote (.lam (.const "number") (.var 1))))⟩)],
    ["constantly"]⟩, ⟨10, 10⟩⟩

theorem valuesClosed_withConstantly : withConstantly.signature.ValuesClosed := by
  intro n v hv i hi
  obtain ⟨decl, hfind, hdecl⟩ := Option.bind_eq_some_iff.1 hv
  obtain ⟨rfl, rfl⟩ : n = "constantly" ∧ decl = _ := by
    simpa [withConstantly] using Signature.mem_of_find? hfind
  obtain rfl := Option.some.inj hdecl
  cases hi with
  | lamDomain h => cases h
  | lamBody h =>
    cases h with
    | quote h =>
      cases h with
      | lamDomain h => cases h
      | lamBody h => cases h

/-- A call with an open argument, which the expansion takes under one more binder, and a call of
something that cannot be called. -/
theorem expand_hygienic_openArgument :
    let number : Term := .const "number"
    let t : Term := .lam number (.call (.const "constantly") [.app (.var 0) (.var 1)])
    withConstantly.signature.ValuesClosed ∧
      withConstantly.expand (t.shift 3 0) =
        .ok (.lam number (.lam number (.app (.var 1) (.var 5)))) ∧
      (∀ fuel, (withConstantly.expandMetered (t.shift 3 0) fuel).2 =
        (withConstantly.expandMetered t fuel).2) ∧
      ∃ e, withConstantly.expand ((call (.var 4) []).shift 3 2) = .error e ∧
        (Fault.notExpandable "#4").SameKind e := by
  intro number t
  have hexpand : withConstantly.expand t =
      .ok (.lam number (.lam number (.app (.var 1) (.var 2)))) := by decide +kernel
  have hfail : withConstantly.expand (.call (.var 4) []) = .error (.notExpandable "#4") := by
    decide +kernel
  obtain ⟨hiff, -, hcalls, -⟩ := expand_hygienic valuesClosed_withConstantly t 3 0
  obtain ⟨-, herror, -, -⟩ := expand_hygienic valuesClosed_withConstantly (.call (.var 4) []) 3 2
  exact ⟨valuesClosed_withConstantly, (hiff _).1 hexpand, hcalls, herror _ hfail⟩

end Environment

end StagedTT
