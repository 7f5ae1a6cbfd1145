import StagedTT.Surface.Lowering

/-!
# Nested forms

A dictionary of binders is short for nested binder forms, and an application to several arguments
for nested applications: wherever a form is split in two, the nested forms are lowered to the same
term, or refused with the same diagnostic (`SExpr.lower_nested`). A call is no application: its
arguments stay together.
-/

namespace StagedTT

namespace SExpr

variable {scope : Scope}

/-! ## Binders -/

/-- The binders of a telescope are those of its first part around those of its second part. -/
theorem lowerTelescope_append (binder : Binder) (body : Scope → Except Diagnostic Term)
    (scope : Scope) (entries entries' : List (SExpr × SExpr)) :
    lowerTelescope binder body scope (entries ++ entries') =
      lowerTelescope binder (fun inner => lowerTelescope binder body inner entries') scope
        entries := by
  induction entries generalizing scope with
  | nil => rw [List.nil_append, lowerTelescope]
  | cons entry entries ih =>
    obtain ⟨key, type⟩ := entry
    rw [List.cons_append, lowerTelescope, lowerTelescope]
    simp only [ih]

theorem lower_binder (scope : Scope) (binder : Binder) {entries : List (SExpr × SExpr)}
    (h : entries ≠ []) (loc headLoc dictLoc : Location) (body : SExpr) :
    lower scope (.list loc [.sym headLoc binder.word, .dict dictLoc entries, body]) =
      lowerTelescope binder (fun inner => lower inner body) scope entries := by
  obtain ⟨entry, entries, rfl⟩ := List.exists_cons_of_ne_nil h
  cases binder with
  | fn => rw [lower]; rfl
  | pi => rw [lower]; rfl

/-! ## Applications -/

theorem lowerArgs_append (scope : Scope) (args args' : List SExpr) :
    lowerArgs scope (args ++ args') = do
      let ts ← lowerArgs scope args
      let us ← lowerArgs scope args'
      return ts ++ us := by
  induction args with
  | nil =>
    rw [List.nil_append, lowerArgs]
    cases lowerArgs scope args' with
    | ok us => rfl
    | error d => rfl
  | cons arg args ih =>
    rw [List.cons_append, lowerArgs, lowerArgs, ih]
    simp only [bind_assoc, pure_bind, List.cons_append]

theorem lower_application {head : SExpr} (hkeyword : head.keyword? = none)
    (hcall : isMetalevelHead scope head = false) (loc : Location) (args : List SExpr) :
    lower scope (.list loc (head :: args)) = do
      let fn ← lower scope head
      let ts ← lowerArgs scope args
      return fn.applyAll ts := by
  conv => lhs; unfold lower
  simp only [hkeyword, hcall]
  rfl

/-! ## Splitting -/

/-- **Telescopes and applications are short for nested ones.** The binders of a form may be split
between a form and another one inside it, and the arguments of an application between an application
and another one of it: the result is the same, diagnostics included. The head of an application is
no keyword and no metalevel definition. -/
theorem lower_nested (scope : Scope) :
    (∀ (binder : Binder) (entries entries' : List (SExpr × SExpr)) (body : SExpr),
      entries ≠ [] → entries' ≠ [] →
      ∀ loc headLoc dictLoc outerLoc outerHeadLoc outerDictLoc innerLoc innerHeadLoc innerDictLoc,
        lower scope (.list loc
          [.sym headLoc binder.word, .dict dictLoc (entries ++ entries'), body]) =
        lower scope (.list outerLoc [.sym outerHeadLoc binder.word, .dict outerDictLoc entries,
          .list innerLoc [.sym innerHeadLoc binder.word, .dict innerDictLoc entries', body]])) ∧
    ∀ (head : SExpr) (args args' : List SExpr), head.keyword? = none →
      isMetalevelHead scope head = false →
      ∀ loc outerLoc innerLoc,
        lower scope (.list loc (head :: (args ++ args'))) =
          lower scope (.list outerLoc (.list innerLoc (head :: args) :: args')) := by
  constructor
  · intro binder entries entries' body hentries hentries'
    intros
    rw [lower_binder scope binder (List.append_ne_nil_of_left_ne_nil hentries _),
      lower_binder scope binder hentries, lowerTelescope_append]
    congr 1
    funext inner
    exact (lower_binder inner binder hentries' ..).symm
  · intro head args args' hkeyword hcall
    intros
    -- The inner application is a list, so it is no keyword and no definition itself.
    rw [lower_application hkeyword hcall, lower_application rfl rfl,
      lower_application hkeyword hcall, lowerArgs_append]
    simp only [bind_assoc, pure_bind, Term.applyAll_append]

/-- A type that names the binder before it in the same dictionary, and a bound name that takes its
arguments one by one. -/
theorem lower_nested_pair :
    let scope : Scope := ⟨[], [("number", .object)]⟩
    let sym (name : String) : SExpr := .sym {} name
    let code : SExpr := .list {} [sym "x", .num {} 1, .num {} 2]
    let code' : SExpr := .list {} [.list {} [sym "x", .num {} 1], .num {} 2]
    let entries : List (SExpr × SExpr) := [(sym "x", sym "number")]
    let entries' : List (SExpr × SExpr) := [(sym "y", sym "x")]
    let t : Term := .lam (.const "number") (.lam (.var 0) (.app (.app (.var 1) (.num 1)) (.num 2)))
    code.lower (scope.bind "x") = code'.lower (scope.bind "x") ∧
      lower scope (.list {} [sym "fn", .dict {} (entries ++ entries'), code]) = .ok t ∧
      lower scope (.list {} [sym "fn", .dict {} entries,
        .list {} [sym "fn", .dict {} entries', code]]) = .ok t := by
  intro scope sym code code' entries entries' t
  have hcode : code.lower (scope.bind "x") = code'.lower (scope.bind "x") :=
    (lower_nested (scope.bind "x")).2 (sym "x") [.num {} 1] [.num {} 2] (by decide) (by decide)
      {} {} {}
  have hsplit := (lower_nested scope).1 .fn entries entries' code (by simp [entries])
    (by simp [entries']) {} {} {} {} {} {} {} {} {}
  have ht : lower scope (.list {} [sym "fn", .dict {} (entries ++ entries'), code]) = .ok t := by
    rfl
  exact ⟨hcode, ht, hsplit.symm.trans ht⟩

end SExpr

end StagedTT
