import StagedTT.Proofs.Correspondence
import StagedTT.Proofs.Surface.Agreement

/-!
# Renaming binders

Names serve to find binders and are gone once an expression is lowered. `Renamed ρ e e'` says that
`e'` is `e` with other names for some of its binders, and with other symbols where they mean those
binders: an occurrence still means the binder that it meant, and no other symbol comes to mean one.
`ρ` has the binders around the two.

Both expressions are lowered to the same term, or both are refused (`SExpr.lower_renamed`). The
innermost binder of a name is the one that is meant, be it in the same dictionary or around it, so
the index of an occurrence stays what it was, and what a binder hid is hidden by it still. A binder
must have a name, so none can be renamed to the empty one (`SExpr.lower_renamed_empty`).
-/

namespace StagedTT

/-! ## Symbols -/

/-- The binders around an expression, innermost first: what each is called, and what it is called
after renaming. -/
abbrev Renaming : Type := List (String × String)

namespace Renaming

/-- What the binders are called. -/
def before (ρ : Renaming) : List String := ρ.map Prod.fst

/-- What the binders are called after renaming. -/
def after (ρ : Renaming) : List String := ρ.map Prod.snd

end Renaming

/-- What a symbol becomes: it means the same binder before and after, or none of them. -/
inductive SymbolRenamed : Renaming → String → String → Prop
  | free (x : String) : SymbolRenamed [] x x
  | here (ρ : Renaming) (x z : String) : SymbolRenamed ((x, z) :: ρ) x z
  | there {ρ : Renaming} {x y z w : String} : x ≠ y → z ≠ w → SymbolRenamed ρ x z →
      SymbolRenamed ((y, w) :: ρ) x z

/-- A symbol means the binder that it meant, or it is the same symbol and means the same. -/
theorem SymbolRenamed.resolve? {ρ : Renaming} {x z : String} (h : SymbolRenamed ρ x z)
    (scope : Scope) :
    (∃ index, (scope.inside ρ.before).resolve? x = some (.bound index) ∧
      (scope.inside ρ.after).resolve? z = some (.bound index)) ∨
    x = z ∧ (scope.inside ρ.before).resolve? x = (scope.inside ρ.after).resolve? z := by
  induction h with
  | free x => exact .inr ⟨rfl, rfl⟩
  | here ρ x z =>
    exact .inl ⟨0, (scope.inside ρ.before).resolve?_bind_self x,
      (scope.inside ρ.after).resolve?_bind_self z⟩
  | @there ρ x y z w hx hz _ ih =>
    have hbefore := (scope.inside ρ.before).resolve?_bind_of_ne hx
    have hafter := (scope.inside ρ.after).resolve?_bind_of_ne hz
    rcases ih with ⟨index, hi, hi'⟩ | ⟨heq, hsame⟩
    · rw [hi] at hbefore
      rw [hi'] at hafter
      exact .inl ⟨index + 1, hbefore, hafter⟩
    · rw [hsame] at hbefore
      exact .inr ⟨heq, hbefore.trans hafter.symm⟩

namespace SExpr

/-! ## Expressions -/

/-- A keyword with other arguments than it demands. -/
def Misused : Keyword → (args : List SExpr) → Prop
  | .binder _, [.dict _ (_ :: _), _] => False
  | .sort, [_] => False
  | .staging _, [_] => False
  | _, _ => True

/-- Expressions that are refused for their shape: brackets and braces in the place of a term, the
empty list, and forms that misuse their keyword. -/
def IllFormed : SExpr → Prop
  | .vector _ _ | .dict _ _ | .list _ [] => True
  | .list _ (head :: args) => ∃ keyword, head.keyword? = some keyword ∧ Misused keyword args
  | _ => False

mutual

/-- The second expression is the first one after renaming. Locations do not matter. A form keeps
its keyword, if it has one, and has none otherwise. -/
inductive Renamed : Renaming → SExpr → SExpr → Prop
  | num {ρ : Renaming} (loc loc' : Location) (value : Int64) :
      Renamed ρ (.num loc value) (.num loc' value)
  | str {ρ : Renaming} (loc loc' : Location) (value : String) :
      Renamed ρ (.str loc value) (.str loc' value)
  | sym {ρ : Renaming} (loc loc' : Location) {x z : String} : SymbolRenamed ρ x z →
      Renamed ρ (.sym loc x) (.sym loc' z)
  | quote {ρ : Renaming} (loc loc' : Location) {body body' : SExpr} : Renamed ρ body body' →
      Renamed ρ (.quote loc body) (.quote loc' body')
  | splice {ρ : Renaming} (loc loc' : Location) {body body' : SExpr} : Renamed ρ body body' →
      Renamed ρ (.splice loc body) (.splice loc' body')
  | staging {ρ : Renaming} (loc loc' : Location) {head head' body body' : SExpr}
      {staging : Staging} : head.keyword? = some (.staging staging) →
      head'.keyword? = some (.staging staging) → Renamed ρ body body' →
      Renamed ρ (.list loc [head, body]) (.list loc' [head', body'])
  | sort {ρ : Renaming} (loc loc' : Location) {head head' level level' : SExpr} :
      head.keyword? = some .sort → head'.keyword? = some .sort → Renamed ρ level level' →
      Renamed ρ (.list loc [head, level]) (.list loc' [head', level'])
  | binder {ρ : Renaming} (loc loc' dictLoc dictLoc' : Location) {head head' body body' : SExpr}
      {binder : Binder} {entry entry' : SExpr × SExpr} {entries entries' : List (SExpr × SExpr)} :
      head.keyword? = some (.binder binder) → head'.keyword? = some (.binder binder) →
      RenamedTelescope ρ (entry :: entries) body (entry' :: entries') body' →
      Renamed ρ (.list loc [head, .dict dictLoc (entry :: entries), body])
        (.list loc' [head', .dict dictLoc' (entry' :: entries'), body'])
  | application {ρ : Renaming} (loc loc' : Location) {head head' : SExpr}
      {args args' : List SExpr} : head.keyword? = none → head'.keyword? = none →
      Renamed ρ head head' → RenamedAll ρ args args' →
      Renamed ρ (.list loc (head :: args)) (.list loc' (head' :: args'))
  /-- What is refused for its shape has no binders and no occurrences. -/
  | illFormed {ρ : Renaming} {e e' : SExpr} : e.IllFormed → e'.IllFormed → Renamed ρ e e'

/-- Renaming in each of several expressions. -/
inductive RenamedAll : Renaming → List SExpr → List SExpr → Prop
  | nil {ρ : Renaming} : RenamedAll ρ [] []
  | cons {ρ : Renaming} {e e' : SExpr} {es es' : List SExpr} : Renamed ρ e e' →
      RenamedAll ρ es es' → RenamedAll ρ (e :: es) (e' :: es')

/-- Renaming of binders and in what is inside them. A type is inside the binders before its own. -/
inductive RenamedTelescope : Renaming → List (SExpr × SExpr) → SExpr → List (SExpr × SExpr) →
    SExpr → Prop
  | nil {ρ : Renaming} {body body' : SExpr} : Renamed ρ body body' →
      RenamedTelescope ρ [] body [] body'
  | cons {ρ : Renaming} {key key' type type' body body' : SExpr} {x z : String}
      {entries entries' : List (SExpr × SExpr)} : key.binderName = .ok x →
      key'.binderName = .ok z → Renamed ρ type type' →
      RenamedTelescope ((x, z) :: ρ) entries body entries' body' →
      RenamedTelescope ρ ((key, type) :: entries) body ((key', type') :: entries') body'
  /-- A key that gives no name is refused, and what stands after it is not looked at. -/
  | unnamed {ρ : Renaming} {key key' type type' body body' : SExpr} {d d' : Diagnostic}
      {entries entries' : List (SExpr × SExpr)} : key.binderName = .error d →
      key'.binderName = .error d' →
      RenamedTelescope ρ ((key, type) :: entries) body ((key', type') :: entries') body'

end

/-! ## Lowering -/

/-- The same term, or a refusal of both. -/
abbrev SameTerm {α : Type} (r r' : Except Diagnostic α) : Prop :=
  Corresponds IsSame (fun _ _ => True) r r'

theorem SameTerm.answers {α : Type} {r r' : Except Diagnostic α} (h : SameTerm r r') :
    (∀ a, r = .ok a ↔ r' = .ok a) ∧ ∀ d, r = .error d → ∃ d', r' = .error d' := by
  refine ⟨h.ok_iff fun _ _ h => h, fun d hd => ?_⟩
  obtain ⟨d', hd', -⟩ := h.exists_error hd
  exact ⟨d', hd'⟩

theorem IllFormed.lower {e : SExpr} (h : e.IllFormed) (scope : Scope) :
    ∃ d, e.lower scope = .error d := by
  cases e with
  | num | str | sym | quote | splice => exact h.elim
  | vector loc items => exact ⟨_, rfl⟩
  | dict loc entries => exact ⟨_, rfl⟩
  | list loc items =>
    cases items with
    | nil => exact ⟨_, rfl⟩
    | cons head args =>
      obtain ⟨keyword, hkeyword, hmisused⟩ := h
      unfold SExpr.lower
      split
      · next binder _ entry entries body hbinder =>
        obtain rfl := Option.some.inj (hkeyword.symm.trans hbinder)
        exact hmisused.elim
      · exact ⟨_, rfl⟩
      · exact ⟨_, rfl⟩
      · next level hsort =>
        obtain rfl := Option.some.inj (hkeyword.symm.trans hsort)
        exact hmisused.elim
      · exact ⟨_, rfl⟩
      · next staging body hstaging =>
        obtain rfl := Option.some.inj (hkeyword.symm.trans hstaging)
        exact hmisused.elim
      · exact ⟨_, rfl⟩
      · next hnone => exact absurd (hkeyword.symm.trans hnone) (by simp)

theorem IllFormed.lowerSort {e : SExpr} (h : e.IllFormed) : ∃ d, e.lowerSort = .error d := by
  cases e with
  | num => exact h.elim
  | _ => exact ⟨_, rfl⟩

theorem IllFormed.symbol? {e : SExpr} (h : e.IllFormed) : e.symbol? = none := by
  cases e with
  | sym => exact h.elim
  | _ => rfl

variable {ρ : Renaming} {e e' : SExpr}

theorem lowerSymbol_renamed {x z : String} (h : SymbolRenamed ρ x z) (scope : Scope)
    (loc loc' : Location) :
    SameTerm (lowerSymbol (scope.inside ρ.before) loc x)
      (lowerSymbol (scope.inside ρ.after) loc' z) := by
  unfold lowerSymbol
  rcases h.resolve? scope with ⟨index, hx, hz⟩ | ⟨rfl, hsame⟩
  · rw [hx, hz]
    exact .ok rfl
  · rw [hsame]
    cases (scope.inside ρ.after).resolve? x with
    | none => exact .error trivial
    | some r =>
      cases r with
      | bound index => exact .ok rfl
      | defined p => exact .ok rfl

theorem Renamed.lowerSort (h : Renamed ρ e e') : SameTerm e.lowerSort e'.lowerSort := by
  cases h with
  | num loc loc' value =>
    unfold SExpr.lowerSort
    by_cases hlevel : 0 ≤ value
    · simp only [if_pos hlevel]
      exact .ok rfl
    · simp only [if_neg hlevel]
      exact .error trivial
  | illFormed h h' =>
    obtain ⟨d, hd⟩ := h.lowerSort
    obtain ⟨d', hd'⟩ := h'.lowerSort
    rw [hd, hd']
    exact .error trivial
  | _ => exact .error trivial

/-- A head that means a definition means it after renaming, and no other head does. -/
theorem Renamed.isMetalevelHead (h : Renamed ρ e e') (scope : Scope) :
    isMetalevelHead (scope.inside ρ.before) e = isMetalevelHead (scope.inside ρ.after) e' := by
  have hresolve : (e.symbol?.bind (scope.inside ρ.before).resolve? = some (.defined .metalevel)) ↔
      (e'.symbol?.bind (scope.inside ρ.after).resolve? = some (.defined .metalevel)) := by
    cases h with
    | @sym _ loc loc' x z h =>
      show (scope.inside ρ.before).resolve? x = _ ↔ (scope.inside ρ.after).resolve? z = _
      rcases h.resolve? scope with ⟨index, hx, hz⟩ | ⟨rfl, hsame⟩
      · rw [hx, hz]
      · rw [hsame]
    | illFormed h h' => rw [h.symbol?, h'.symbol?]; rfl
    | _ => rfl
  unfold SExpr.isMetalevelHead
  simp only [hresolve]

mutual

theorem Renamed.lower {ρ : Renaming} {e e' : SExpr} (h : Renamed ρ e e') (scope : Scope) :
    SameTerm (e.lower (scope.inside ρ.before)) (e'.lower (scope.inside ρ.after)) := by
  match h with
  | .num loc loc' value => exact .ok rfl
  | .str loc loc' value => exact .ok rfl
  | .sym loc loc' h =>
    rw [SExpr.lower, SExpr.lower]
    exact lowerSymbol_renamed h scope loc loc'
  | .quote loc loc' h =>
    rw [SExpr.lower, SExpr.lower]
    exact (h.lower scope).bind_image fun b => .ok rfl
  | .splice loc loc' h =>
    rw [SExpr.lower, SExpr.lower]
    exact (h.lower scope).bind_image fun b => .ok rfl
  | .staging loc loc' hhead hhead' h =>
    unfold SExpr.lower
    simp only [hhead, hhead']
    exact (h.lower scope).bind_image fun b => .ok rfl
  | .sort loc loc' hhead hhead' h =>
    unfold SExpr.lower
    simp only [hhead, hhead']
    exact h.lowerSort
  | .binder loc loc' dictLoc dictLoc' hhead hhead' h =>
    unfold SExpr.lower
    simp only [hhead, hhead']
    exact h.lower _ scope
  | .application loc loc' hkeyword hkeyword' hhead hargs =>
    unfold SExpr.lower
    simp only [hkeyword, hkeyword']
    refine (hhead.lower scope).bind_image fun fn => ?_
    refine (hargs.lower scope).bind_image fun args => .ok ?_
    rw [hhead.isMetalevelHead scope]
  | .illFormed h h' =>
    obtain ⟨d, hd⟩ := h.lower (scope.inside ρ.before)
    obtain ⟨d', hd'⟩ := h'.lower (scope.inside ρ.after)
    rw [hd, hd']
    exact .error trivial

theorem RenamedAll.lower {ρ : Renaming} {es es' : List SExpr} (h : RenamedAll ρ es es')
    (scope : Scope) :
    SameTerm (lowerArgs (scope.inside ρ.before) es) (lowerArgs (scope.inside ρ.after) es') := by
  match h with
  | .nil => exact .ok rfl
  | .cons hfirst hrest =>
    rw [lowerArgs, lowerArgs]
    exact (hfirst.lower scope).bind_image fun t => (hrest.lower scope).bind_image fun ts => .ok rfl

theorem RenamedTelescope.lower {ρ : Renaming} {entries entries' : List (SExpr × SExpr)}
    {body body' : SExpr} (h : RenamedTelescope ρ entries body entries' body') (binder : Binder)
    (scope : Scope) :
    SameTerm
      (lowerTelescope binder (fun inner => body.lower inner) (scope.inside ρ.before) entries)
      (lowerTelescope binder (fun inner => body'.lower inner) (scope.inside ρ.after) entries') := by
  match h with
  | .nil h =>
    rw [lowerTelescope, lowerTelescope]
    exact h.lower scope
  | .cons hkey hkey' htype hrest =>
    rw [lowerTelescope, lowerTelescope, hkey, hkey']
    refine (htype.lower scope).bind_image fun A => ?_
    exact (hrest.lower binder scope).bind_image fun b => .ok rfl
  | .unnamed hkey hkey' =>
    rw [lowerTelescope, lowerTelescope, hkey, hkey']
    exact .error trivial

end

/-- **Lowering does not depend on the names of binders.** In every scope, an expression is lowered
to the terms that it is lowered to after renaming, and refused if it is refused after renaming. -/
theorem lower_renamed (h : Renamed [] e e') (scope : Scope) :
    (∀ t, e.lower scope = .ok t ↔ e'.lower scope = .ok t) ∧
      ∀ d, e.lower scope = .error d → ∃ d', e'.lower scope = .error d' :=
  SameTerm.answers (h.lower scope)

/-- One binder of a dictionary hides a metalevel definition, and the name of the other one is taken
again further in. -/
theorem lower_renamed_nested :
    let scope : Scope := ⟨[], [("m", .metalevel), ("number", .object)]⟩
    let sym (name : String) : SExpr := .sym {} name
    let inner (key x : String) : SExpr :=
      .list {} [sym "fn", .dict {} [(sym key, sym "number")], .quote {} (sym x)]
    let code (key key' m x : String) (body : SExpr) : SExpr :=
      .list {} [sym "fn", .dict {} [(sym key, sym "number"), (sym key', sym "number")],
        .list {} [sym m, sym x, body]]
    let number : Term := .const "number"
    Renamed [] (code ":m" "x" "m" "x" (inner "x:" "x")) (code "a" ":b" "a" "b" (inner "c" "c")) ∧
      (code "a" ":b" "a" "b" (inner "c" "c")).lower scope =
        .ok (.lam number (.lam number (.app (.app (.var 1) (.var 0))
          (.lam number (.quote (.var 0)))))) := by
  intro scope sym inner code number
  have hnumber := SymbolRenamed.free "number"
  have hnumber₁ : SymbolRenamed [("m", "a")] "number" "number" :=
    .there (by decide) (by decide) hnumber
  have hnumber₂ : SymbolRenamed [("x", "b"), ("m", "a")] "number" "number" :=
    .there (by decide) (by decide) hnumber₁
  have hm : SymbolRenamed [("x", "b"), ("m", "a")] "m" "a" :=
    .there (by decide) (by decide) (.here [] "m" "a")
  have hx := SymbolRenamed.here [("m", "a")] "x" "b"
  have hx' := SymbolRenamed.here [("x", "b"), ("m", "a")] "x" "c"
  have hinner : Renamed [("x", "b"), ("m", "a")] (inner "x:" "x") (inner "c" "c") :=
    .binder {} {} {} {} rfl rfl (.cons (by decide) (by decide) (.sym {} {} hnumber₂)
      (.nil (.quote {} {} (.sym {} {} hx'))))
  have hbody : Renamed [("x", "b"), ("m", "a")] (.list {} [sym "m", sym "x", inner "x:" "x"])
      (.list {} [sym "a", sym "b", inner "c" "c"]) :=
    .application {} {} rfl rfl (.sym {} {} hm) (.cons (.sym {} {} hx) (.cons hinner .nil))
  have hcode : Renamed [] (code ":m" "x" "m" "x" (inner "x:" "x"))
      (code "a" ":b" "a" "b" (inner "c" "c")) :=
    .binder {} {} {} {} rfl rfl (.cons (by decide) (by decide) (.sym {} {} hnumber)
      (.cons (by decide) (by decide) (.sym {} {} hnumber₁) (.nil hbody)))
  exact ⟨hcode, ((lower_renamed hcode scope).1 _).1 rfl⟩

/-- The empty name is new, is no keyword and has no colon, but it is not a name for a binder: a
function is refused after renaming its parameter to it. -/
theorem lower_renamed_empty :
    let scope : Scope := .ofSignature Signature.empty.withBaseTypes
    let code (x : String) : SExpr :=
      .list {} [.sym {} "fn", .dict {} [(.sym {} x, .sym {} "number")], .num {} 7]
    "" ∉ (code "x").symbols ∧ scope.resolve? "" = none ∧
      Keyword.ofWord? "x" = none ∧ Keyword.ofWord? "" = none ∧ trimColons "" = "" ∧
      (code "x").lower scope = .ok (.lam (.const "number") (.num 7)) ∧
      (code "").lower scope = .error ⟨.malformedForm "" "empty binder name", {}⟩ := by
  intro scope code
  refine ⟨by decide, by decide, rfl, rfl, by decide, by decide +kernel, by decide +kernel⟩

end SExpr

end StagedTT
