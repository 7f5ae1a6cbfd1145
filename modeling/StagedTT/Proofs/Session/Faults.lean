import StagedTT.Proofs.Session.Stored
import StagedTT.Proofs.Surface.Faults

/-!
# Faults that a session reports

Whatever a reached session declares is formed (`Session.Reachable.formed`), so nothing that it is
given leads to an internal fault (`Session.Reachable.never_internal`).
-/

namespace StagedTT

open Term

theorem Signature.Formed.insert? {sig sig' : Signature} (hsig : sig.Formed) {name : String}
    {decl : Declaration} (h : sig.insert? name decl = some sig')
    (hvalue : ∀ v, decl.value? = some v → v.Formed sig.phase? 0)
    (hmeta : decl.phase = .metalevel → ∃ v, decl.value? = some v) : sig'.Formed where
  value n v hv := by
    have hold : ∀ n p, sig.phase? n = some p → sig'.phase? n = some p := by
      intro n p hn
      obtain ⟨d, hfind, hphase⟩ := Option.map_eq_some_iff.1 hn
      exact Option.map_eq_some_iff.2 ⟨d, extends_insert? h n d hfind, hphase⟩
    rcases value?_insert? h hv with hnew | hv
    · exact (hvalue v hnew).mono hold (Nat.le_refl 0)
    · exact (hsig.value n v hv).mono hold (Nat.le_refl 0)
  metalevel n hn := by
    obtain ⟨d, hfind, hphase⟩ := Option.map_eq_some_iff.1 hn
    rw [find?_insert? h] at hfind
    split at hfind
    · next heq =>
      obtain rfl := Option.some.inj hfind
      obtain ⟨v, hv⟩ := hmeta hphase
      refine ⟨v, Option.bind_eq_some_iff.2 ⟨decl, ?_, hv⟩⟩
      rw [find?_insert? h, if_pos heq]
    · obtain ⟨v, hv⟩ := hsig.metalevel n (Option.map_eq_some_iff.2 ⟨d, hfind, hphase⟩)
      exact ⟨v, (extends_insert? h).value? hv⟩

theorem Signature.formed_withBaseTypes : empty.withBaseTypes.Formed where
  value n v hv := by
    obtain ⟨decl, hfind, hvalue⟩ := Option.bind_eq_some_iff.1 hv
    rw [find?_withBaseTypes] at hfind
    split at hfind
    · obtain rfl := Option.some.inj hfind
      cases hvalue
    · cases hfind
  metalevel n hn := by
    obtain ⟨decl, hfind, hphase⟩ := Option.map_eq_some_iff.1 hn
    rw [find?_withBaseTypes] at hfind
    split at hfind
    · obtain rfl := Option.some.inj hfind
      cases hphase
    · cases hfind

namespace Session

variable {allowed : SExpr → Prop} {s : Session}

section Formed

variable (hs : Reachable allowed s)

include hs

/-- The values of a reached session are closed formed terms, and every metalevel name has one. -/
theorem Reachable.formed : s.env.signature.Formed := by
  refine hs.invariant_of_reachable (P := fun s => s.env.signature.Formed)
    (fun s form entry s' hreach hsig _ hok => ?_) fun _ _ => Signature.formed_withBaseTypes
  obtain ⟨signature, hdeclares, hinsert, rfl⟩ := define_eq_ok hok
  obtain ⟨hvalue, hmeta⟩ := hdeclares.formed hsig hreach.mirrors
  exact hsig.insert? hinsert hvalue hmeta

theorem Reachable.define_ordinary (form : SExpr) : Ordinary (s.define form).1 := by
  rw [define_fst]
  exact Environment.elaborateForm_ordinary hs.formed hs.mirrors form

theorem Reachable.elaborate_formed (e : SExpr) :
    Settles (s.elaborate e) (fun t => t.Formed s.env.signature.phase? 0)
      fun d => ¬ d.fault.IsInternal :=
  SExpr.elaborate_closed hs.formed hs.mirrors e.location e

theorem Reachable.infer_ordinary (e : SExpr) : Ordinary (s.infer e) := by
  rw [infer_eq]
  refine (hs.elaborate_formed e).bind fun t ht => ?_
  exact (Environment.infer_ordinary ht rfl).reportKernel e.location

theorem Reachable.normalize_ordinary (e : SExpr) : Ordinary (s.normalize e) := by
  rw [normalize_eq]
  refine (hs.elaborate_formed e).bind fun t _ => ?_
  exact (s.env.normalize_ordinary t).reportKernel e.location

end Formed

/-- **No expression leads to an internal fault.** Nothing that a session reports, at a definition,
at a list of forms or at a query, is about a name that is not declared or a variable that is not
bound, about a call that cannot be run, or about the last universe. -/
theorem Reachable.never_internal (hs : Reachable (fun _ => True) s) :
    (∀ form, Ordinary (s.define form).1) ∧
      (∀ forms report, (s.load forms).1 = .error report →
        ∀ d ∈ report.diagnostics, ¬ d.fault.IsInternal) ∧
      ∀ e, Ordinary (s.elaborate e) ∧ Ordinary (s.infer e) ∧ Ordinary (s.normalize e) := by
  refine ⟨hs.define_ordinary, fun forms report hreport => ?_, fun e => ?_⟩
  · refine hs.load_diagnostics (Q := fun d => ¬ d.fault.IsInternal)
      (fun s form d hreach herror => ?_) (fun _ _ => trivial) hreport
    exact (hreach.define_ordinary form).of_error herror
  · have helaborate : Ordinary (s.elaborate e) := (hs.elaborate_formed e).mono fun _ _ => trivial
    exact ⟨helaborate, hs.infer_ordinary e, hs.normalize_ordinary e⟩

theorem never_internal_withSeven :
    let form : SExpr :=
      .list {} [.sym {} "defn", .sym {} "y", .list {} [.sym {} "quote", .num {} 7]]
    let d : Diagnostic := ⟨.kernel (.stagedTerm (Term.quote (.num 7)).text), {}⟩
    (withSeven.define form).1 = .error d ∧ ¬ d.fault.IsInternal ∧
      Ordinary (withSeven.infer (.sym {} "seven")) := by
  intro form d
  obtain ⟨hdefine, -, hquery⟩ := reachable_withSeven.never_internal
  have herror : (withSeven.define form).1 = .error d := by decide +kernel
  exact ⟨herror, (hdefine form).of_error herror, (hquery _).2.1⟩

end Session

end StagedTT
