import StagedTT.Proofs.Expansion.Relation
import StagedTT.Proofs.Session.Stored
import StagedTT.Proofs.Surface.Scoping

/-!
# Places of diagnostics

A diagnostic is placed in the expression that a session is given. What is not written as it must
be, and a symbol that stands for nothing, is reported where it is; what the kernel refuses, and a
call that cannot be expanded, at the whole expression; and a name that is taken at the name
(`Session.diagnostics_placed`).

A form is elaborated item by item. What is reported of an item is placed in the form, since the
parts of an item are parts of the form (`SExpr.elaborate_placed`).
-/

namespace StagedTT

/-- A diagnostic about an expression is placed in it. -/
structure Diagnostic.PlacedIn (e : SExpr) (d : Diagnostic) : Prop where
  inside : ∃ part ∈ e.subexpressions, part.location = d.location
  /-- What the kernel refuses is reported at the expression. -/
  kernel : ∀ error, d.fault = .kernel error → d.location = e.location
  /-- So is a call that cannot be expanded. -/
  notExpandable : ∀ name, d.fault = .notExpandable name → d.location = e.location
  /-- A name that is taken is reported at the name that a form defines. -/
  redefinition : ∀ name, d.fault = .redefinition name →
    ∃ loc head rest, e = .list loc (head :: .sym d.location name :: rest)

namespace Diagnostic.PlacedIn

variable {e part : SExpr}

theorem malformed (h : part ∈ e.subexpressions) (form reason : String) :
    PlacedIn e ⟨.malformedForm form reason, part.location⟩ :=
  ⟨⟨part, h, rfl⟩, nofun, nofun, nofun⟩

theorem of_isOfExpansion (e : SExpr) {fault : Fault} (h : fault.IsOfExpansion) :
    PlacedIn e ⟨fault, e.location⟩ := by
  cases fault with
  | kernel | notExpandable =>
    exact ⟨⟨e, e.self_mem_subexpressions, rfl⟩, fun _ _ => rfl, fun _ _ => rfl, nofun⟩
  | unknownIdentifier | malformedForm | redefinition => exact h.elim

/-- What lowering reports about symbols and parts in an expression is placed in it. -/
theorem of_concerns {defined : String → Option Phase} {os : List SExpr.Occurrence} {d : Diagnostic}
    (h : d.Concerns defined os e.subexpressions)
    (hos : ∀ o ∈ os, .sym o.location o.name ∈ e.subexpressions) : PlacedIn e d := by
  obtain ⟨fault, loc⟩ := d
  cases fault with
  | unknownIdentifier name =>
    obtain ⟨o, ho, hloc, -⟩ := h
    exact ⟨⟨_, hos o ho, hloc⟩, nofun, nofun, nofun⟩
  | malformedForm => exact ⟨h, nofun, nofun, nofun⟩
  | kernel | notExpandable | redefinition => exact h.elim

end Diagnostic.PlacedIn

open Diagnostic (PlacedIn)

/-- Whatever a computation reports is placed in the expression. -/
abbrev Places {α : Type} (e : SExpr) (r : Except Diagnostic α) : Prop :=
  Settles r (fun _ => True) (PlacedIn e)

theorem places_report {α : Type} {r : Except Fault α} {P : α → Prop}
    (h : Settles r P Fault.IsOfExpansion) (e : SExpr) : Places e (e.location.report r) := by
  cases r with
  | ok a => trivial
  | error fault => exact .of_isOfExpansion e h

theorem places_reportKernel {α : Type} (r : Except KernelError α) (e : SExpr) :
    Places e (e.location.reportKernel r) := by
  cases r with
  | ok a => trivial
  | error error =>
    have hfault : (Fault.kernel error).IsOfExpansion := trivial
    exact .of_isOfExpansion e hfault

/-! ## Expressions -/

namespace SExpr

variable {form e : SExpr} (h : e.subexpressions ⊆ form.subexpressions)

include h

theorem lower_placed (scope : Scope) : Places form (e.lower scope) := by
  have hconcerns := e.lower_concerns scope (List.Subset.refl (e.occurrences scope.binders)) h
  exact hconcerns.mono_error fun d hd => .of_concerns hd fun o ho => h (e.occurs_inside _ o ho)

/-- What is reported of a part of a form is placed in the form. -/
theorem elaborate_placed (env : Environment) (scope : Scope) :
    Places form (e.elaborate env scope form.location) :=
  (lower_placed h scope).bind fun t _ =>
    places_report (env.expandMetered_settles t (.ofBudget env.limits.expansions)) form

end SExpr

/-! ## Forms -/

namespace Environment

variable {env : Environment} {scope : Scope} {form : SExpr}

/-- A form is told where its name is taken. -/
theorem freeName_placed (env : Environment) (loc : Location) (head name : SExpr)
    (rest : List SExpr) : Places (.list loc (head :: name :: rest)) (env.freeName name) := by
  have hname : name ∈ (SExpr.list loc (head :: name :: rest)).subexpressions :=
    SExpr.subset_list (by simp) name.self_mem_subexpressions
  unfold freeName
  split
  · next nameLoc word =>
    split
    · refine ⟨⟨_, hname, rfl⟩, nofun, nofun, ?_⟩
      rintro _ ⟨⟩
      exact ⟨loc, head, rest, rfl⟩
    · trivial
  · exact .malformed hname _ _

theorem definitionType_placed {annotation? : Option SExpr}
    (h : ∀ type, annotation? = some type → type.subexpressions ⊆ form.subexpressions) (t : Term) :
    Places form (env.definitionType scope form.location annotation? t) := by
  cases annotation? with
  | none => exact places_reportKernel _ form
  | some type =>
    refine (SExpr.elaborate_placed (h type rfl) env scope).bind fun T _ => ?_
    refine (places_reportKernel _ form).bind fun _ _ => ?_
    exact (places_reportKernel _ form).bind fun _ _ => trivial

section Forms

variable {name body : SExpr} (hname : Places form (env.freeName name))
  (hbody : body.subexpressions ⊆ form.subexpressions)

include hname hbody

theorem defineObject_placed {annotation? : Option SExpr}
    (h : ∀ type, annotation? = some type → type.subexpressions ⊆ form.subexpressions) :
    Places form (env.defineObject scope form.location name annotation? body) := by
  rw [defineObject_eq]
  refine hname.bind fun n _ => (SExpr.elaborate_placed hbody env scope).bind fun t _ => ?_
  refine (definitionType_placed h t).bind fun T _ => ?_
  exact (places_reportKernel _ form).bind fun _ _ => trivial

theorem defineMetalevel_placed :
    Places form (env.defineMetalevel scope form.location name body) := by
  rw [defineMetalevel_eq]
  refine hname.bind fun n _ => (SExpr.lower_placed hbody scope).bind fun t _ => ?_
  refine (places_reportKernel _ form).bind fun _ _ => ?_
  exact (places_reportKernel _ form).bind fun _ _ => trivial

theorem postulate_placed : Places form (env.postulate scope form.location name body) := by
  rw [postulate_eq]
  refine hname.bind fun n _ => (SExpr.elaborate_placed hbody env scope).bind fun T _ => ?_
  exact (places_reportKernel _ form).bind fun _ _ => trivial

end Forms

theorem elaborateForm_placed (env : Environment) (scope : Scope) (form : SExpr) :
    Places form (env.elaborateForm scope form) := by
  have hself := form.self_mem_subexpressions
  unfold elaborateForm Elaboration.form
  split
  · next loc items =>
    have hitem : ∀ item ∈ items,
        item.subexpressions ⊆ (SExpr.list loc items).subexpressions := fun _ => SExpr.subset_list
    split
    · next head name body _ =>
      exact defineObject_placed (env.freeName_placed loc head name _) (hitem body (by simp)) nofun
    · next head name type body _ =>
      refine defineObject_placed (env.freeName_placed loc head name _) (hitem body (by simp)) ?_
      rintro _ ⟨⟩
      exact hitem type (by simp)
    · exact .malformed hself _ _
    · next head name body _ =>
      exact defineMetalevel_placed (env.freeName_placed loc head name _) (hitem body (by simp))
    · exact .malformed hself _ _
    · next head name type _ =>
      exact postulate_placed (env.freeName_placed loc head name _) (hitem type (by simp))
    · exact .malformed hself _ _
    · exact .malformed hself _ _
  · exact .malformed hself _ _

end Environment

/-! ## Sessions -/

namespace Session

theorem define_placed (s : Session) (form : SExpr) : Places form (s.define form).1 := by
  rw [define_fst]
  exact s.env.elaborateForm_placed s.scope form

theorem elaborate_placed (s : Session) (e : SExpr) : Places e (s.elaborate e) :=
  SExpr.elaborate_placed (List.Subset.refl _) s.env s.scope

/-- **Diagnostics point into what a session was given**, be it a form or the expression of a query:
to the whole of it for a refusal of the kernel or a call that cannot be expanded, to the name of a
form that defines one that is taken, and to a part of it in any case. -/
theorem diagnostics_placed (s : Session) (e : SExpr) (d : Diagnostic)
    (h : (s.define e).1 = .error d ∨ s.elaborate e = .error d ∨ s.infer e = .error d ∨
      s.normalize e = .error d) : d.PlacedIn e := by
  have hinfer : Places e (s.infer e) := by
    rw [infer_eq]
    exact (s.elaborate_placed e).bind fun t _ => places_reportKernel _ e
  have hnormalize : Places e (s.normalize e) := by
    rw [normalize_eq]
    exact (s.elaborate_placed e).bind fun t _ => places_reportKernel _ e
  rcases h with h | h | h | h
  · exact (s.define_placed e).of_error h
  · exact (s.elaborate_placed e).of_error h
  · exact hinfer.of_error h
  · exact hnormalize.of_error h

/-- A name that is taken, and a quotation in a query, which the kernel refuses in object code. -/
theorem diagnostics_placed_withSeven :
    let sym (column : Nat) (name : String) : SExpr := .sym ⟨1, column, name.length⟩ name
    let form : SExpr := .list ⟨1, 1, 14⟩ [sym 2 "defn", sym 7 "seven", .num ⟨1, 13, 1⟩ 8]
    let query : SExpr := .list ⟨1, 1, 14⟩ [sym 2 "pi",
      .dict ⟨1, 5, 7⟩ [(sym 6 "n:", .quote ⟨1, 9, 2⟩ (.num ⟨1, 10, 1⟩ 7))], sym 13 "n"]
    let taken : Diagnostic := ⟨.redefinition "seven", ⟨1, 7, 5⟩⟩
    let staged : Diagnostic := ⟨.kernel (.stagedTerm (Term.quote (.num 7)).text), ⟨1, 1, 14⟩⟩
    (withSeven.define form).1 = .error taken ∧ taken.PlacedIn form ∧
      withSeven.infer query = .error staged ∧ staged.PlacedIn query := by
  intro sym form query taken staged
  have hdefine : (withSeven.define form).1 = .error taken := by decide +kernel
  have hinfer : withSeven.infer query = .error staged := by decide +kernel
  exact ⟨hdefine, withSeven.diagnostics_placed form _ (.inl hdefine), hinfer,
    withSeven.diagnostics_placed query _ (.inr (.inr (.inl hinfer)))⟩

end Session

end StagedTT
