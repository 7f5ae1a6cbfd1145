import StagedTT.Proofs.Surface.Occurrences
import StagedTT.Proofs.Term.FreeIndex
import StagedTT.Proofs.Term.Subterms

/-!
# Scoping

What an expression is lowered to is well scoped: no variable of it is free but those of the binders
around, each constant in it is defined, and what is called is the name of a metalevel definition. An
unknown identifier is reported only where a symbol occurs whose name no binder around it and no
definition has (`SExpr.lower_scoped`).

What lowering reports besides is a part that is not written as it must be
(`SExpr.lower_concerns`).
-/

namespace StagedTT

/-! ## Formed terms -/

namespace Term.Formed

variable {names : String → Option Phase} {d : Nat} {t u : Term}

theorem lt_of_free (h : t.Formed names d) {i : Nat} (hi : t.Free i) : i < d := by
  induction h generalizing i with
  | sort | const | num | str => cases hi
  | var hlt =>
    cases hi
    exact hlt
  | pi _ _ ihA ihB =>
    cases hi with
    | piDomain hi => exact ihA hi
    | piBody hi => exact Nat.lt_of_succ_lt_succ (ihB hi)
  | lam _ _ ihA ihb =>
    cases hi with
    | lamDomain hi => exact ihA hi
    | lamBody hi => exact Nat.lt_of_succ_lt_succ (ihb hi)
  | app _ _ ihf iha =>
    cases hi with
    | appFn hi => exact ihf hi
    | appArg hi => exact iha hi
  | quote _ ih =>
    cases hi with
    | quote hi => exact ih hi
  | splice _ ih =>
    cases hi with
    | splice hi => exact ih hi
  | call _ _ ih =>
    cases hi with
    | callHead hi => cases hi
    | callArg ha hi => exact ih _ ha hi

/-- The parts of a formed term are formed, under the binders around them. -/
theorem of_part (h : t.Formed names d) (hu : u ∈ t.parts) : ∃ e, u.Formed names e := by
  cases h with
  | sort | const | num | str | var => cases hu
  | pi hA hB =>
    rcases List.mem_pair.1 hu with rfl | rfl
    · exact ⟨d, hA⟩
    · exact ⟨d + 1, hB⟩
  | lam hA hb =>
    rcases List.mem_pair.1 hu with rfl | rfl
    · exact ⟨d, hA⟩
    · exact ⟨d + 1, hb⟩
  | app hf ha =>
    rcases List.mem_pair.1 hu with rfl | rfl
    · exact ⟨d, hf⟩
    · exact ⟨d, ha⟩
  | quote hb | splice hb =>
    obtain rfl := List.mem_singleton.1 hu
    exact ⟨d, hb⟩
  | call hn has =>
    rcases List.mem_cons.1 hu with rfl | ha
    · exact ⟨d, .const hn⟩
    · exact ⟨d, has u ha⟩

theorem of_subterm (h : t.Formed names d) (hu : u ∈ t.subterms) : ∃ e, u.Formed names e := by
  induction t using inductParts generalizing d with
  | h t ih =>
    rcases mem_subterms.1 hu with rfl | hu
    · exact ⟨d, h⟩
    · obtain ⟨part, hpart, hu⟩ := mem_subtermsAll.1 hu
      obtain ⟨e, he⟩ := h.of_part hpart
      exact ih part hpart he hu

end Term.Formed

/-! ## Names that nothing has -/

theorem Scope.resolve?_eq_none {scope : Scope} {name : String} :
    scope.resolve? name = none ↔ name ∉ scope.binders ∧ scope.phase? name = none := by
  rw [← List.idxOf?_eq_none_iff, resolve?]
  cases scope.binders.idxOf? name with
  | some index => simp
  | none => simp

/-- What lowering may report where these symbols occur and these parts are written: a symbol whose
name no binder around it and no definition has, or a part that is not written as it must be. -/
def Diagnostic.Concerns (defined : String → Option Phase) (os : List SExpr.Occurrence)
    (es : List SExpr) (d : Diagnostic) : Prop :=
  match d.fault with
  | .unknownIdentifier name =>
    ∃ o ∈ os, o.location = d.location ∧ o.name = name ∧ name ∉ o.binders ∧ defined name = none
  | .malformedForm _ _ => ∃ part ∈ es, part.location = d.location
  | _ => False

namespace SExpr

/-- An expression of which lowering reports what it may. -/
def ReportsConcerns (e : SExpr) : Prop :=
  ∀ (scope : Scope) {os : List Occurrence} {es : List SExpr},
    e.occurrences scope.binders ⊆ os → e.subexpressions ⊆ es →
      Settles (e.lower scope) (fun _ => True) (Diagnostic.Concerns scope.phase? os es)

section Concerns

variable {os : List Occurrence} {es : List SExpr}

theorem location_mem {e : SExpr} (h : e.subexpressions ⊆ es) :
    ∃ part ∈ es, part.location = e.location := ⟨e, h e.self_mem_subexpressions, rfl⟩

theorem binderName_concerns (defined : String → Option Phase) (os : List Occurrence) {key : SExpr}
    (h : key.subexpressions ⊆ es) :
    Settles key.binderName (fun _ => True) (Diagnostic.Concerns defined os es) := by
  unfold binderName
  split
  · next loc word =>
    by_cases hempty : trimColons word = ""
    · simp only [hempty, if_true]
      exact location_mem h
    · simp only [hempty, if_false]
      trivial
  · exact location_mem h

theorem lowerSymbol_concerns {scope : Scope} {loc : Location} {name : String}
    (h : (sym loc name).occurrences scope.binders ⊆ os) :
    Settles (lowerSymbol scope loc name) (fun _ => True)
      (Diagnostic.Concerns scope.phase? os es) := by
  unfold lowerSymbol
  split
  · trivial
  · trivial
  · next hnone =>
    obtain ⟨hfree, hundefined⟩ := Scope.resolve?_eq_none.1 hnone
    exact ⟨_, h List.mem_cons_self, rfl, rfl, hfree, hundefined⟩

theorem lowerSort_concerns (defined : String → Option Phase) {e : SExpr}
    (h : e.subexpressions ⊆ es) :
    Settles e.lowerSort (fun _ => True) (Diagnostic.Concerns defined os es) := by
  unfold lowerSort
  split
  · split
    · trivial
    · exact location_mem h
  · exact location_mem h

theorem lowerArgs_concerns {args : List SExpr} (h : ∀ arg ∈ args, arg.ReportsConcerns)
    (scope : Scope) (hos : argOccurrences scope.binders args ⊆ os)
    (hin : ∀ arg ∈ args, arg.subexpressions ⊆ es) :
    Settles (lowerArgs scope args) (fun _ => True)
      (Diagnostic.Concerns scope.phase? os es) := by
  induction args with
  | nil => trivial
  | cons arg args ih =>
    obtain ⟨harg, hargs⟩ := List.forall_mem_cons.1 h
    obtain ⟨hargInside, hargsInside⟩ := List.forall_mem_cons.1 hin
    obtain ⟨hargOs, hargsOs⟩ := List.append_subset.1 hos
    rw [lowerArgs]
    refine (harg scope hargOs hargInside).bind fun _ _ => ?_
    exact (ih hargs hargsOs hargsInside).bind fun _ _ => trivial

theorem lowerTelescope_concerns (binder : Binder) {body : SExpr} (hbody : body.ReportsConcerns)
    {entries : List (SExpr × SExpr)} (h : ∀ entry ∈ entries, entry.2.ReportsConcerns)
    (scope : Scope)
    (hos : telescopeOccurrences (fun inner => occurrences inner body) scope.binders entries ⊆ os)
    (hbodyInside : body.subexpressions ⊆ es)
    (hin : ∀ entry ∈ entries, entry.1.subexpressions ⊆ es ∧ entry.2.subexpressions ⊆ es) :
    Settles (lowerTelescope binder (fun inner => body.lower inner) scope entries)
      (fun _ => True) (Diagnostic.Concerns scope.phase? os es) := by
  induction entries generalizing scope with
  | nil => exact hbody scope hos hbodyInside
  | cons entry entries ih =>
    obtain ⟨key, type⟩ := entry
    obtain ⟨htype, hentries⟩ := List.forall_mem_cons.1 h
    obtain ⟨⟨hkeyInside, htypeInside⟩, hrestInside⟩ := List.forall_mem_cons.1 hin
    obtain ⟨htypeOs, hrestOs⟩ := List.append_subset.1 hos
    have hname := binderName_concerns scope.phase? os hkeyInside
    rw [lowerTelescope]
    cases hkey : key.binderName with
    | error d =>
      rw [hkey] at hname
      exact hname
    | ok name =>
      rw [hkey] at hrestOs
      refine (htype scope htypeOs htypeInside).bind fun _ _ => ?_
      exact (ih hentries (scope.bind name) hrestOs hrestInside).bind fun _ _ => trivial

end Concerns

/-- **Lowering reports a symbol that stands for nothing where it occurs**, and what is not written
as it must be where it is written. It reports nothing else. -/
theorem lower_concerns (e : SExpr) : e.ReportsConcerns := by
  induction e using inductLowered with
  | num | str => exact fun _ _ _ _ _ => trivial
  | sym loc name => exact fun scope _ _ hos _ => lowerSymbol_concerns hos
  | vector | dict => exact fun _ _ _ _ hin => location_mem hin
  | quote loc body ih | splice loc body ih =>
    intro scope os es hos hin
    rw [lower]
    exact (ih scope hos (List.subset_of_cons_subset hin)).bind fun _ _ => trivial
  | list loc items ih ihdict =>
    intro scope os es hos hin
    have hitem : ∀ item ∈ items, item.subexpressions ⊆ es :=
      fun item hitem => List.Subset.trans (subset_list hitem) hin
    cases items with
    | nil => exact location_mem hin
    | cons head args =>
      unfold occurrences at hos
      unfold lower
      split
      · next binder dictLoc entry entries body hkeyword =>
        simp only [hkeyword] at hos
        have hdict : .dict dictLoc (entry :: entries) ∈
          [head, .dict dictLoc (entry :: entries), body] := by simp
        have hentries : ∀ e ∈ entry :: entries,
            e.1.subexpressions ⊆ es ∧ e.2.subexpressions ⊆ es := fun e he =>
          ⟨List.Subset.trans (subset_dict he).1 (hitem _ hdict),
            List.Subset.trans (subset_dict he).2 (hitem _ hdict)⟩
        exact lowerTelescope_concerns binder (ih body (by simp)) (ihdict _ _ hdict) scope hos
          (hitem body (by simp)) hentries
      · exact location_mem (hitem _ (by simp))
      · exact location_mem hin
      · exact lowerSort_concerns _ (hitem _ (by simp))
      · exact location_mem hin
      · next staging body hkeyword =>
        simp only [hkeyword] at hos
        exact (ih body (by simp) scope hos (hitem body (by simp))).bind fun _ _ => trivial
      · exact location_mem hin
      · next hkeyword =>
        simp only [hkeyword] at hos
        obtain ⟨hheadOs, hargsOs⟩ := List.append_subset.1 hos
        obtain ⟨hhead, hargs⟩ := List.forall_mem_cons.1 ih
        obtain ⟨hheadInside, hargsInside⟩ := List.forall_mem_cons.1 hitem
        refine (hhead scope hheadOs hheadInside).bind fun _ _ => ?_
        exact (lowerArgs_concerns hargs scope hargsOs hargsInside).bind fun _ _ => trivial

/-! ## Lowered terms -/

/-- **Lowering respects scopes.** The free variables of a lowered term are the binders of the scope,
its constants are definitions, and what it calls are metalevel ones. An unknown identifier is
reported where a symbol has a name that no binder around it, in the expression or in the scope, and
no definition has. -/
theorem lower_scoped (e : SExpr) (scope : Scope) :
    (∀ t, e.lower scope = .ok t →
      (∀ i, t.Free i → i < scope.depth) ∧
      (∀ n, .const n ∈ t.subterms → ∃ p, scope.phase? n = some p) ∧
      ∀ head args, .call head args ∈ t.subterms →
        ∃ n, head = .const n ∧ scope.phase? n = some .metalevel) ∧
    ∀ name loc, e.lower scope = .error ⟨.unknownIdentifier name, loc⟩ →
      ∃ o ∈ e.occurrences scope.binders, o.location = loc ∧ o.name = name ∧
        name ∉ o.binders ∧ scope.phase? name = none := by
  constructor
  · intro t ht
    have hformed : t.Formed scope.phase? scope.depth := (lower_formed e scope).of_ok ht
    refine ⟨fun i hi => hformed.lt_of_free hi, fun n hn => ?_, fun head args hcall => ?_⟩
    · obtain ⟨d, hconst⟩ := hformed.of_subterm hn
      cases hconst with
      | const hdefined => exact ⟨_, hdefined⟩
    · obtain ⟨d, hcall⟩ := hformed.of_subterm hcall
      cases hcall with
      | call hdefined _ => exact ⟨_, rfl, hdefined⟩
  · intro name loc herror
    exact (lower_concerns e scope (List.Subset.refl _) (List.Subset.refl _)).of_error herror

/-- A call under a binder, and a symbol with the name of a binder that it is not inside of. -/
theorem lower_scoped_call :
    let scope : Scope := ⟨["y"], [("m", .metalevel), ("number", .object)]⟩
    let sym (column : Nat) (name : String) : SExpr := .sym ⟨1, column, 1⟩ name
    let code (argument : SExpr) : SExpr :=
      .list {} [sym 2 "m", .list {} [sym 5 "fn", .dict {} [(sym 9 "x:", sym 12 "number")],
        .list {} [sym 21 "m", sym 23 "x", sym 25 "y"]], argument]
    let t : Term := .call (.const "m") [.lam (.const "number")
      (.call (.const "m") [.var 0, .var 1]), .var 0]
    (code (sym 29 "y")).lower scope = .ok t ∧ t.Free 0 ∧ (∀ i, t.Free i → i < 1) ∧
      (code (sym 29 "x")).lower scope = .error ⟨.unknownIdentifier "x", ⟨1, 29, 1⟩⟩ ∧
      ∃ o ∈ (code (sym 29 "x")).occurrences ["y"], o.location = ⟨1, 29, 1⟩ ∧ o.name = "x" ∧
        "x" ∉ o.binders ∧ scope.phase? "x" = none := by
  intro scope sym code t
  have hok : (code (sym 29 "y")).lower scope = .ok t := by rfl
  have herror : (code (sym 29 "x")).lower scope = .error ⟨.unknownIdentifier "x", ⟨1, 29, 1⟩⟩ := by
    rfl
  have hfree : t.Free 0 := .callArg (.tail _ (.head _)) (.var 0)
  exact ⟨hok, hfree, ((lower_scoped _ scope).1 t hok).1, herror,
    (lower_scoped _ scope).2 _ _ herror⟩

end SExpr

end StagedTT
