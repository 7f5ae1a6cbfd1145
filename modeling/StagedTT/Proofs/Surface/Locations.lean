import StagedTT.Proofs.Surface.LoweredTerms
import StagedTT.Proofs.Surface.Elaborations

/-!
# Locations

Locations serve diagnostics alone. An expression without its locations reads the same
(`SExpr.text_eraseLocations`), is lowered to the same term (`SExpr.unplaced_lower`), and a form
without them declares the same (`Environment.unplaced_elaborateForm`); what is refused is refused
for the same fault, if perhaps at another place.
-/

namespace StagedTT

/-! ## Erasure -/

namespace SExpr

mutual

/-- The expression with every location forgotten. -/
def eraseLocations : SExpr → SExpr
  | .num _ value => .num {} value
  | .str _ value => .str {} value
  | .sym _ name => .sym {} name
  | .list _ items => .list {} (eraseItems items)
  | .vector _ items => .vector {} (eraseItems items)
  | .dict _ entries => .dict {} (eraseEntries entries)
  | .quote _ body => .quote {} (eraseLocations body)
  | .splice _ body => .splice {} (eraseLocations body)

/-- Items with every location forgotten. -/
def eraseItems : List SExpr → List SExpr
  | [] => []
  | item :: items => eraseLocations item :: eraseItems items

/-- Entries with every location forgotten. -/
def eraseEntries : List (SExpr × SExpr) → List (SExpr × SExpr)
  | [] => []
  | (key, value) :: entries => (eraseLocations key, eraseLocations value) :: eraseEntries entries

end

theorem symbol?_eraseLocations (e : SExpr) : e.eraseLocations.symbol? = e.symbol? := by
  cases e <;> rfl

theorem keyword?_eraseLocations (e : SExpr) : e.eraseLocations.keyword? = e.keyword? := by
  rw [keyword?, symbol?_eraseLocations, keyword?]

theorem headSymbol?_eraseLocations (e : SExpr) :
    e.eraseLocations.headSymbol? = e.headSymbol? := by
  cases e with
  | list loc items =>
    cases items with
    | nil => rfl
    | cons head args => exact symbol?_eraseLocations head
  | _ => rfl

theorem isMetalevelHead_eraseLocations (scope : Scope) (head : SExpr) :
    isMetalevelHead scope head.eraseLocations = isMetalevelHead scope head := by
  rw [isMetalevelHead, symbol?_eraseLocations, isMetalevelHead]

theorem itemTexts_eraseItems {items : List SExpr}
    (h : ∀ item ∈ items, item.eraseLocations.text = item.text) :
    itemTexts (eraseItems items) = itemTexts items := by
  induction items with
  | nil => rfl
  | cons item items ih =>
    obtain ⟨hitem, hitems⟩ := List.forall_mem_cons.1 h
    rw [eraseItems, itemTexts, itemTexts, hitem, ih hitems]

theorem entryTexts_eraseEntries {entries : List (SExpr × SExpr)}
    (h : ∀ entry ∈ entries, entry.1.eraseLocations.text = entry.1.text ∧
      entry.2.eraseLocations.text = entry.2.text) :
    entryTexts (eraseEntries entries) = entryTexts entries := by
  induction entries with
  | nil => rfl
  | cons entry entries ih =>
    obtain ⟨⟨hkey, hvalue⟩, hentries⟩ := List.forall_mem_cons.1 h
    rw [eraseEntries, entryTexts, entryTexts, hkey, hvalue, ih hentries]

/-- **The text of an expression shows no location.** -/
theorem text_eraseLocations (e : SExpr) : e.eraseLocations.text = e.text := by
  induction e with
  | num | str | sym => rfl
  | list loc items ih | vector loc items ih =>
    rw [eraseLocations, text, text, itemTexts_eraseItems ih]
  | dict loc entries ih => rw [eraseLocations, text, text, entryTexts_eraseEntries ih]
  | quote loc body ih | splice loc body ih => rw [eraseLocations, text, text, ih]

end SExpr

/-! ## Results -/

/-- A result, less the place at which a fault is reported. -/
def unplaced {α : Type} (r : Except Diagnostic α) : Except Fault α := r.mapError (·.fault)

section Unplaced

variable {α β : Type}

@[simp] theorem unplaced_fail (loc : Location) (fault : Fault) :
    unplaced (loc.fail fault : Except Diagnostic α) = .error fault := rfl

@[simp] theorem unplaced_report (loc : Location) (r : Except Fault α) :
    unplaced (loc.report r) = r := by
  cases r <;> rfl

@[simp] theorem unplaced_reportKernel (loc : Location) (r : Except KernelError α) :
    unplaced (loc.reportKernel r) = r.mapError .kernel := unplaced_report loc _

/-- Two computations are the same up to places if their parts are. -/
theorem unplaced_bind_congr {r r' : Except Diagnostic α} {f f' : α → Except Diagnostic β}
    (hr : unplaced r' = unplaced r) (hf : ∀ a, unplaced (f' a) = unplaced (f a)) :
    unplaced (r' >>= f') = unplaced (r >>= f) := by
  have hbind : ∀ (r : Except Diagnostic α) (f : α → Except Diagnostic β),
      unplaced (r >>= f) = unplaced r >>= fun a => unplaced (f a) := by
    intro r f
    cases r <;> rfl
  rw [hbind, hbind, hr]
  exact bind_congr hf

end Unplaced

/-! ## Lowering -/

namespace SExpr

/-- A complaint about how an expression is written shows its text. -/
theorem unplaced_malformed {α : Type} (e : SExpr) (reason : String) (loc loc' : Location) :
    unplaced (loc'.fail (.malformedForm e.eraseLocations.text reason) : Except Diagnostic α) =
      unplaced (loc.fail (.malformedForm e.text reason)) := by
  rw [text_eraseLocations, unplaced_fail, unplaced_fail]

theorem unplaced_binderName (key : SExpr) :
    unplaced key.eraseLocations.binderName = unplaced key.binderName := by
  cases key with
  | sym loc word =>
    rw [eraseLocations]
    unfold binderName
    by_cases h : trimColons word = ""
    · simp only [if_pos h, unplaced_fail]
    · simp only [if_neg h]
  | _ => exact unplaced_malformed _ "binder names must be symbols" _ _

theorem unplaced_lowerSymbol (scope : Scope) (loc : Location) (name : String) :
    unplaced (lowerSymbol scope {} name) = unplaced (lowerSymbol scope loc name) := by
  unfold lowerSymbol
  cases scope.resolve? name with
  | none => rfl
  | some resolution => cases resolution <;> rfl

theorem unplaced_lowerSort (level : SExpr) :
    unplaced (lowerSort level.eraseLocations) = unplaced (lowerSort level) := by
  cases level with
  | num loc value =>
    rw [eraseLocations]
    unfold lowerSort
    by_cases h : 0 ≤ value
    · simp only [if_pos h]
    · simp only [if_neg h, unplaced_fail]
  | _ => rfl

/-- An expression is lowered to the same without its locations. -/
def LowersUnplaced (e : SExpr) : Prop :=
  ∀ scope, unplaced (e.eraseLocations.lower scope) = unplaced (e.lower scope)

theorem unplaced_lowerArgs {args : List SExpr} (h : ∀ arg ∈ args, arg.LowersUnplaced)
    (scope : Scope) :
    unplaced (lowerArgs scope (eraseItems args)) = unplaced (lowerArgs scope args) := by
  induction args with
  | nil => rfl
  | cons arg args ih =>
    obtain ⟨harg, hargs⟩ := List.forall_mem_cons.1 h
    rw [eraseItems, lowerArgs, lowerArgs]
    exact unplaced_bind_congr (harg scope) fun _ => unplaced_bind_congr (ih hargs) fun _ => rfl

theorem unplaced_lowerTelescope (binder : Binder) {body : SExpr} (hbody : body.LowersUnplaced)
    {entries : List (SExpr × SExpr)} (h : ∀ entry ∈ entries, entry.2.LowersUnplaced)
    (scope : Scope) :
    unplaced (lowerTelescope binder (fun inner => lower inner body.eraseLocations) scope
        (eraseEntries entries)) =
      unplaced (lowerTelescope binder (fun inner => lower inner body) scope entries) := by
  induction entries generalizing scope with
  | nil =>
    rw [eraseEntries, lowerTelescope, lowerTelescope]
    exact hbody scope
  | cons entry entries ih =>
    obtain ⟨key, type⟩ := entry
    obtain ⟨htype, hentries⟩ := List.forall_mem_cons.1 h
    rw [eraseEntries, lowerTelescope, lowerTelescope]
    refine unplaced_bind_congr (unplaced_binderName key) fun name => ?_
    refine unplaced_bind_congr (htype scope) fun domain => ?_
    exact unplaced_bind_congr (ih hentries (scope.bind name)) fun _ => rfl

theorem unplaced_lower_binder {binder : Binder} {loc : Location} {head : SExpr}
    {args : List SExpr} (hkeyword : head.keyword? = some (.binder binder))
    (hargs : ∀ arg ∈ args, arg.LowersUnplaced)
    (hdict : ∀ dictLoc entries, .dict dictLoc entries ∈ args →
      ∀ entry ∈ entries, entry.2.LowersUnplaced) :
    (list loc (head :: args)).LowersUnplaced := by
  intro scope
  rw [eraseLocations, eraseItems]
  unfold lower
  rw [keyword?_eraseLocations, hkeyword]
  rcases args with _ | ⟨params, _ | ⟨body, _ | ⟨extra, rest⟩⟩⟩
  · rfl
  -- Parameters are looked at first, whatever stands behind them.
  · cases params with
    | dict dictLoc entries => cases entries <;> rfl
    | _ => rfl
  · cases params with
    | dict dictLoc entries =>
      cases entries with
      | nil => rfl
      | cons entry entries =>
        exact unplaced_lowerTelescope binder (hargs body (by simp))
          (hdict dictLoc (entry :: entries) (by simp)) scope
    | _ => exact unplaced_malformed _ "expected a non-empty binder dictionary" _ _
  · cases params with
    | dict dictLoc entries => cases entries <;> rfl
    | _ => rfl

theorem unplaced_lower_staging {staging : Staging} {loc : Location} {head : SExpr}
    {args : List SExpr} (hkeyword : head.keyword? = some (.staging staging))
    (hargs : ∀ arg ∈ args, arg.LowersUnplaced) : (list loc (head :: args)).LowersUnplaced := by
  intro scope
  rw [eraseLocations, eraseItems]
  unfold lower
  rw [keyword?_eraseLocations, hkeyword]
  rcases args with _ | ⟨body, _ | ⟨extra, rest⟩⟩
  · rfl
  · exact unplaced_bind_congr (hargs body (by simp) scope) fun _ => rfl
  · rfl

theorem unplaced_lower_sort {loc : Location} {head : SExpr} {args : List SExpr}
    (hkeyword : head.keyword? = some .sort) : (list loc (head :: args)).LowersUnplaced := by
  intro scope
  rw [eraseLocations, eraseItems]
  unfold lower
  rw [keyword?_eraseLocations, hkeyword]
  rcases args with _ | ⟨level, _ | ⟨extra, rest⟩⟩
  · rfl
  · exact unplaced_lowerSort level
  · rfl

theorem unplaced_lower_application {loc : Location} {head : SExpr} {args : List SExpr}
    (hkeyword : head.keyword? = none) (hhead : head.LowersUnplaced)
    (hargs : ∀ arg ∈ args, arg.LowersUnplaced) : (list loc (head :: args)).LowersUnplaced := by
  intro scope
  rw [eraseLocations, eraseItems]
  unfold lower
  rw [keyword?_eraseLocations, hkeyword]
  refine unplaced_bind_congr (hhead scope) fun fn => ?_
  refine unplaced_bind_congr (unplaced_lowerArgs hargs scope) fun _ => ?_
  rw [isMetalevelHead_eraseLocations]

/-- **Lowering looks at no location**, except to say where a fault is. -/
theorem unplaced_lower (e : SExpr) : e.LowersUnplaced := by
  induction e using inductLowered with
  | num | str => exact fun _ => rfl
  | sym loc name => exact fun scope => unplaced_lowerSymbol scope loc name
  | vector loc items =>
    intro scope
    exact unplaced_malformed (.vector loc items) "vectors are not terms" loc {}
  | dict loc entries =>
    intro scope
    exact unplaced_malformed (.dict loc entries)
      "dictionaries are only allowed as binder lists" loc {}
  | quote loc body ih | splice loc body ih =>
    intro scope
    rw [eraseLocations, lower, lower]
    exact unplaced_bind_congr (ih scope) fun _ => rfl
  | list loc items ih ihdict =>
    cases items with
    | nil => exact fun _ => rfl
    | cons head args =>
      obtain ⟨hhead, hargs⟩ := List.forall_mem_cons.1 ih
      cases hkeyword : head.keyword? with
      | none => exact unplaced_lower_application hkeyword hhead hargs
      | some keyword =>
        cases keyword with
        | binder binder =>
          refine unplaced_lower_binder hkeyword hargs fun dictLoc entries hdict => ?_
          exact ihdict dictLoc entries (List.mem_cons_of_mem _ hdict)
        | staging staging => exact unplaced_lower_staging hkeyword hargs
        | sort => exact unplaced_lower_sort hkeyword

end SExpr

/-! ## Forms -/

theorem SExpr.unplaced_elaborate [IndexArithmetic] (env : Environment) (scope : Scope)
    (loc loc' : Location) (e : SExpr) :
    unplaced (e.eraseLocations.elaborate env scope loc') =
      unplaced (e.elaborate env scope loc) := by
  refine unplaced_bind_congr (e.unplaced_lower scope) fun t => ?_
  rw [unplaced_report, unplaced_report]

namespace Environment

variable (env : Environment) (scope : Scope) (loc loc' : Location)

theorem unplaced_freeName (name : SExpr) :
    unplaced (env.freeName name.eraseLocations) = unplaced (env.freeName name) := by
  cases name with
  | sym loc word =>
    rw [SExpr.eraseLocations]
    unfold freeName
    by_cases h : env.signature.contains word = true
    · simp only [if_pos h, unplaced_fail]
    · simp only [if_neg h]
  | _ => exact SExpr.unplaced_malformed _ "definition names must be symbols" _ _

variable [IndexArithmetic]

theorem unplaced_definitionType (type? : Option SExpr) (t : Term) :
    unplaced (env.definitionType scope loc' (type?.map SExpr.eraseLocations) t) =
      unplaced (env.definitionType scope loc type? t) := by
  cases type? with
  | none =>
    show unplaced (loc'.reportKernel _) = unplaced (loc.reportKernel _)
    rw [unplaced_reportKernel, unplaced_reportKernel]
  | some type =>
    refine unplaced_bind_congr (type.unplaced_elaborate env scope loc loc') fun T => ?_
    refine unplaced_bind_congr (by simp only [unplaced_reportKernel]) fun _ => ?_
    exact unplaced_bind_congr (by simp only [unplaced_reportKernel]) fun _ => rfl

theorem unplaced_defineObject (name : SExpr) (type? : Option SExpr) (body : SExpr) :
    unplaced (env.defineObject scope loc' name.eraseLocations
        (type?.map SExpr.eraseLocations) body.eraseLocations) =
      unplaced (env.defineObject scope loc name type? body) := by
  rw [defineObject_eq, defineObject_eq]
  refine unplaced_bind_congr (env.unplaced_freeName name) fun n => ?_
  refine unplaced_bind_congr (body.unplaced_elaborate env scope loc loc') fun t => ?_
  refine unplaced_bind_congr (env.unplaced_definitionType scope loc loc' type? t) fun T => ?_
  exact unplaced_bind_congr (by simp only [unplaced_reportKernel]) fun _ => rfl

theorem unplaced_defineMetalevel (name body : SExpr) :
    unplaced (env.defineMetalevel scope loc' name.eraseLocations body.eraseLocations) =
      unplaced (env.defineMetalevel scope loc name body) := by
  rw [defineMetalevel_eq, defineMetalevel_eq]
  refine unplaced_bind_congr (env.unplaced_freeName name) fun n => ?_
  refine unplaced_bind_congr (body.unplaced_lower scope) fun t => ?_
  refine unplaced_bind_congr (by simp only [unplaced_reportKernel]) fun T => ?_
  exact unplaced_bind_congr (by simp only [unplaced_reportKernel]) fun _ => rfl

theorem unplaced_postulate (name type : SExpr) :
    unplaced (env.postulate scope loc' name.eraseLocations type.eraseLocations) =
      unplaced (env.postulate scope loc name type) := by
  rw [postulate_eq, postulate_eq]
  refine unplaced_bind_congr (env.unplaced_freeName name) fun n => ?_
  refine unplaced_bind_congr (type.unplaced_elaborate env scope loc loc') fun T => ?_
  exact unplaced_bind_congr (by simp only [unplaced_reportKernel]) fun _ => rfl

/-- **What a form declares depends on no location**, and neither does what it is refused for. -/
theorem unplaced_elaborateForm (form : SExpr) :
    unplaced (env.elaborateForm scope form.eraseLocations) =
      unplaced (env.elaborateForm scope form) := by
  cases form with
  | list loc items =>
    have hhead := SExpr.headSymbol?_eraseLocations (.list loc items)
    have htext := SExpr.unplaced_malformed (α := Entry) (.list loc items)
      "expected defn, defmeta or axiom" loc {}
    rw [SExpr.eraseLocations] at hhead htext ⊢
    unfold elaborateForm Elaboration.form
    simp only [hhead]
    cases (SExpr.list loc items).headSymbol?.bind FormKind.ofWord? with
    | none => exact htext
    | some kind =>
      cases kind with
      | defn =>
        match items with
        | [_, name, body] => exact env.unplaced_defineObject scope loc {} name none body
        | [_, name, type, body] =>
          exact env.unplaced_defineObject scope loc {} name (some type) body
        | [] | [_] | [_, _] | _ :: _ :: _ :: _ :: _ :: _ => rfl
      | defmeta =>
        match items with
        | [_, name, body] => exact env.unplaced_defineMetalevel scope loc {} name body
        | [] | [_] | [_, _] | _ :: _ :: _ :: _ :: _ => rfl
      | postulate =>
        match items with
        | [_, name, type] => exact env.unplaced_postulate scope loc {} name type
        | [] | [_] | [_, _] | _ :: _ :: _ :: _ :: _ => rfl
  | _ => exact SExpr.unplaced_malformed _ "top-level forms must be lists" _ _

end Environment

end StagedTT
