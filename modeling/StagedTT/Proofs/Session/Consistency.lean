import StagedTT.Proofs.Reduction.Linked
import StagedTT.Proofs.Session.Inference
import StagedTT.Proofs.Typing.Consistency

/-!
# Consistency of a session

Without axioms a session declares no object definition whose type is equal to `falsity`
(`Session.Reachable.consistent`): what it stores as the value of a definition is a normal form, and
it is of the stored type. Equality may lead through any terms here, also those that no expression
stands for.
-/

namespace StagedTT

open Term

namespace Session

/-- A form that does not start with the word for axioms. -/
def NoAxiom (form : SExpr) : Prop := form.headSymbol? ≠ some "axiom"

variable {s : Session}

/-- Forms other than axioms give every name a value. -/
theorem Reachable.valued (hs : Reachable NoAxiom s) : s.env.signature.Valued := by
  refine hs.invariant (P := fun s => s.env.signature.Valued)
    (fun s form entry s' hs hform hok => ?_) fun _ _ n decl hfind _ => ?_
  · obtain ⟨signature, hdeclares, hinsert, rfl⟩ := define_eq_ok hok
    have hvalue := hdeclares.value_isSome hform
    intro n decl hfind hnone
    rw [Signature.find?_insert? hinsert] at hfind
    split at hfind
    · obtain rfl := Option.some.inj hfind
      rw [hnone] at hvalue
      cases hvalue
    · exact hs n decl hfind hnone
  · have hfind' : Signature.empty.withBaseTypes.find? n = some decl := hfind
    rw [Signature.find?_withBaseTypes] at hfind'
    split at hfind'
    · next hn => exact hn.symm
    · cases hfind'

theorem Reachable.axiomless (hs : Reachable NoAxiom s) : s.env.signature.Axiomless :=
  hs.valued.axiomless hs.sound

/-- **A session without axioms is consistent.** No type of an object definition leads to `falsity`
by steps of reduction, forward or backward, through any terms. -/
theorem Reachable.consistent (hs : Reachable NoAxiom s) {n : String} {decl : Declaration}
    (hentry : (n, decl) ∈ s.env.signature.entries) (hphase : decl.phase = .object) :
    ¬ Linked s.env.signature decl.type falsity := by
  intro hlinked
  have hsig := hs.sound
  have hfind := hs.find?_of_mem hentry
  have hdecl := hsig.decl n decl hfind
  obtain ⟨l, hsort⟩ := hdecl.sorted
  rw [hphase] at hsort
  have hfalsity := hasType_falsity s.env.signature .object
  have hobject : Phase.object ≠ .metalevel := by decide
  have heq : EqualIn s.env.signature (.code s.env.signature .object) decl.type falsity :=
    (linked_iff_equalIn hsig.closed.values hobject (hsig.keeps_code .object) hsort.within
      hfalsity.within).1 hlinked
  cases hvalue : decl.value? with
  | some v =>
    have hv := hdecl.typed v hvalue
    rw [hphase] at hv
    have hv' : HasType s.env.signature .object [] v falsity :=
      hv.conv (heq.mono (Fragment.code_le _ _)) hfalsity
    exact not_normal_falsity hsig hs.axiomless hv' (hdecl.normal v hvalue)
  | none =>
    obtain rfl := hs.axiomless n decl hfind hvalue
    have hformer := heq.former_eq hsig.orderly (.sort trivial) rfl (k := .pi) rfl
    cases hformer

theorem consistent_withIdentity :
    let type : Term := .pi (.sort 0) (.pi (.var 0) (.var 1))
    let value : Term := .lam (.sort 0) (.lam (.var 0) (.var 0))
    ("id", ⟨.object, type, some value⟩) ∈ withIdentity.env.signature.entries ∧
      ¬ Linked withIdentity.env.signature type falsity := by
  intro type value
  have hentry : ("id", ⟨.object, type, some value⟩) ∈ withIdentity.env.signature.entries := by
    decide +kernel
  have hreachable : Reachable NoAxiom withIdentity :=
    reachable_withIdentity (show identityForm.headSymbol? ≠ some "axiom" by decide)
  exact ⟨hentry, hreachable.consistent hentry rfl⟩

end Session

end StagedTT
