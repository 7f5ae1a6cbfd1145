import StagedTT.Proofs.Correspondence
import StagedTT.Proofs.Surface.Occurrences
import StagedTT.Proofs.Term.ShiftLaws

/-!
# Weakening of scopes

A binder whose name does not occur in an expression is one that the lowered term leaves room for:
lowering commutes with its insertion among the binders around the expression
(`SExpr.lower_weaken`).

A name resolves to the same binder past the inserted ones, and a definition stays one, so that what
was a call is a call still. Only the names that an expression leaves unbound have to resolve so
(`SExpr.lower_widens`): a binder in it may have the name of an inserted one.
-/

namespace StagedTT

/-! ## Resolution -/

namespace Resolution

/-- What a resolution is inside one more binder. -/
def inner : Resolution → Resolution
  | .bound index => .bound (index + 1)
  | .defined phase => .defined phase

/-- What a resolution becomes if `amount` binders are inserted outside the innermost `cutoff`. -/
def shift (amount cutoff : Nat) : Resolution → Resolution
  | .bound index => .bound (if index < cutoff then index else index + amount)
  | .defined phase => .defined phase

theorem inner_shift (amount cutoff : Nat) (r : Resolution) :
    (r.shift amount cutoff).inner = r.inner.shift amount (cutoff + 1) := by
  cases r with
  | bound index =>
    rcases Nat.lt_or_ge index cutoff with h | h
    · simp [shift, inner, h]
    · simp [shift, inner, Nat.not_lt.2 h, Nat.add_right_comm]
  | defined phase => rfl

theorem shift_zero (cutoff : Nat) (r : Resolution) : r.shift 0 cutoff = r := by
  cases r with
  | bound index => simp [shift]
  | defined phase => rfl

end Resolution

namespace Scope

/-- The scope inside binders of these names, the innermost first. -/
def inside (scope : Scope) (names : List String) : Scope :=
  { scope with binders := names ++ scope.binders }

theorem resolve?_bind_self (scope : Scope) (name : String) :
    (scope.bind name).resolve? name = some (.bound 0) := by
  simp [resolve?, bind, List.idxOf?_cons]

theorem resolve?_bind_of_ne (scope : Scope) {name other : String} (h : name ≠ other) :
    (scope.bind other).resolve? name = (scope.resolve? name).map Resolution.inner := by
  unfold resolve? bind
  simp only [List.idxOf?_cons, beq_iff_eq, if_neg h.symm]
  cases scope.binders.idxOf? name with
  | some index => rfl
  | none =>
    show (scope.phase? name).map _ = ((scope.phase? name).map _).map _
    rw [Option.map_map]
    rfl

/-- The names that `P` has resolve to the same in the second scope, past `amount` more binders. -/
def Widens (scope scope' : Scope) (amount : Nat) (P : String → Prop) : Prop :=
  ∀ x, P x → scope'.resolve? x = (scope.resolve? x).map (.shift amount 0)

/-- A binder is one more for all names but its own. -/
theorem widens_bind (scope : Scope) (name : String) :
    scope.Widens (scope.bind name) 1 (· ≠ name) := by
  intro x hx
  rw [scope.resolve?_bind_of_ne hx]
  rfl

/-- The binders inside keep their places, and those outside move on. -/
theorem Widens.resolve?_inside {scope scope' : Scope} {amount : Nat} {P : String → Prop}
    (h : scope.Widens scope' amount P) {names : List String} {x : String}
    (hx : x ∉ names → P x) :
    (scope'.inside names).resolve? x =
      ((scope.inside names).resolve? x).map (.shift amount names.length) := by
  induction names with
  | nil => exact h x (hx List.not_mem_nil)
  | cons name names ih =>
    show ((scope'.inside names).bind name).resolve? x =
      (((scope.inside names).bind name).resolve? x).map (.shift amount (names.length + 1))
    by_cases hname : x = name
    · subst hname
      rw [resolve?_bind_self, resolve?_bind_self]
      rfl
    · have hrest := ih fun hnames => hx (by simp [hname, hnames])
      rw [resolve?_bind_of_ne _ hname, resolve?_bind_of_ne _ hname, hrest, Option.map_map,
        Option.map_map]
      congr 1
      funext r
      exact r.inner_shift amount names.length

end Scope

namespace SExpr

/-! ## Lowering -/

/-- The answers of the second computation are those of the first one, shifted past `amount` binders
outside `cutoff` ones. -/
abbrev ShiftedBy (amount cutoff : Nat) (r r' : Except Diagnostic Term) : Prop :=
  Corresponds (IsImage (·.shift amount cutoff)) IsSame r r'

/-- An expression that is lowered in the wider scope to the shifted term, in any binders inside of
which it leaves none but names that `P` has unbound. -/
def LowersShifted (scope scope' : Scope) (amount : Nat) (P : String → Prop) (e : SExpr) : Prop :=
  ∀ names, (∀ o ∈ e.occurrences names, o.name ∉ o.binders → P o.name) →
    ShiftedBy amount names.length (e.lower (scope.inside names)) (e.lower (scope'.inside names))

section Widens

variable {scope scope' : Scope} {amount : Nat} {P : String → Prop}

theorem lowerSymbol_widens (h : scope.Widens scope' amount P) {names : List String} {x : String}
    (hx : x ∉ names → P x) (loc : Location) :
    ShiftedBy amount names.length (lowerSymbol (scope.inside names) loc x)
      (lowerSymbol (scope'.inside names) loc x) := by
  unfold lowerSymbol
  rw [h.resolve?_inside hx]
  cases (scope.inside names).resolve? x with
  | none => exact .error rfl
  | some r =>
    cases r with
    | bound index => exact .ok (Term.shift_var ..).symm
    | defined phase => exact .ok (Term.shift_const ..).symm

/-- What is a call stays one, and nothing else becomes one. -/
theorem isMetalevelHead_widens (h : scope.Widens scope' amount P) {names : List String}
    {head : SExpr} (hhead : ∀ o ∈ head.occurrences names, o.name ∉ o.binders → P o.name) :
    isMetalevelHead (scope'.inside names) head = isMetalevelHead (scope.inside names) head := by
  have hresolve : head.symbol?.bind (scope'.inside names).resolve? = some (.defined .metalevel) ↔
      head.symbol?.bind (scope.inside names).resolve? = some (.defined .metalevel) := by
    cases head with
    | sym loc x =>
      show (scope'.inside names).resolve? x = _ ↔ (scope.inside names).resolve? x = _
      rw [h.resolve?_inside (hhead ⟨loc, x, names⟩ List.mem_cons_self)]
      cases (scope.inside names).resolve? x with
      | none => rfl
      | some r => cases r <;> simp [Resolution.shift]
    | _ => rfl
  unfold isMetalevelHead
  simp only [hresolve]

theorem lowerArgs_widens {args : List SExpr}
    (h : ∀ arg ∈ args, arg.LowersShifted scope scope' amount P) {names : List String}
    (hargs : ∀ o ∈ argOccurrences names args, o.name ∉ o.binders → P o.name) :
    Corresponds (IsImage (List.map (·.shift amount names.length))) IsSame
      (lowerArgs (scope.inside names) args) (lowerArgs (scope'.inside names) args) := by
  induction args with
  | nil => exact .ok rfl
  | cons arg args ih =>
    obtain ⟨hfirst, hrest⟩ := List.forall_mem_cons.1 h
    obtain ⟨hnames, hrestNames⟩ := List.forall_mem_append.1 hargs
    rw [lowerArgs, lowerArgs]
    refine (hfirst names hnames).bind_image fun t => ?_
    exact (ih hrest hrestNames).bind_image fun ts => .ok rfl

theorem lowerTelescope_widens (binder : Binder) {body : SExpr}
    (hbody : body.LowersShifted scope scope' amount P) {entries : List (SExpr × SExpr)}
    (h : ∀ entry ∈ entries, entry.2.LowersShifted scope scope' amount P) (names : List String)
    (hnames : ∀ o ∈ telescopeOccurrences (fun inner => body.occurrences inner) names entries,
      o.name ∉ o.binders → P o.name) :
    ShiftedBy amount names.length
      (lowerTelescope binder (fun inner => body.lower inner) (scope.inside names) entries)
      (lowerTelescope binder (fun inner => body.lower inner) (scope'.inside names) entries) := by
  induction entries generalizing names with
  | nil => exact hbody names hnames
  | cons entry entries ih =>
    obtain ⟨key, type⟩ := entry
    obtain ⟨htype, hentries⟩ := List.forall_mem_cons.1 h
    obtain ⟨htypeNames, hrestNames⟩ := List.forall_mem_append.1 hnames
    rw [lowerTelescope, lowerTelescope]
    cases hkey : key.binderName with
    | error d => exact .error rfl
    | ok name =>
      rw [hkey] at hrestNames
      refine (htype names htypeNames).bind_image fun A => ?_
      -- The rest stands inside one more binder, so that the cutoff is one more.
      refine Corresponds.bind_image (ih hentries (name :: names) hrestNames) fun b => ?_
      cases binder with
      | fn => exact .ok (Term.shift_lam ..).symm
      | pi => exact .ok (Term.shift_pi ..).symm

/-- **In a wider scope an expression is lowered to the shifted term**, or refused with the same
diagnostic. -/
theorem lower_widens (h : scope.Widens scope' amount P) (e : SExpr) :
    e.LowersShifted scope scope' amount P := by
  induction e using inductLowered with
  | num loc value => exact fun _ _ => .ok (Term.shift_num ..).symm
  | str loc value => exact fun _ _ => .ok (Term.shift_str ..).symm
  | vector | dict => exact fun _ _ => .error rfl
  | sym loc x =>
    intro names hnames
    rw [lower, lower]
    exact lowerSymbol_widens h (hnames ⟨loc, x, names⟩ List.mem_cons_self) loc
  | quote loc body ih =>
    intro names hnames
    rw [lower, lower]
    exact (ih names hnames).bind_image fun b => .ok (Term.shift_quote ..).symm
  | splice loc body ih =>
    intro names hnames
    rw [lower, lower]
    exact (ih names hnames).bind_image fun b => .ok (Term.shift_splice ..).symm
  | list loc items ih ihdict =>
    intro names hnames
    cases items with
    | nil => exact .error rfl
    | cons head args =>
      unfold occurrences at hnames
      unfold lower
      split
      · next binder dictLoc entry entries body hkeyword =>
        simp only [hkeyword] at hnames
        have hentries := ihdict dictLoc (entry :: entries) (by simp)
        exact lowerTelescope_widens binder (ih body (by simp)) hentries names hnames
      · exact .error rfl
      · exact .error rfl
      · next level _ =>
        unfold lowerSort
        split
        · split
          · exact .ok (Term.shift_sort ..).symm
          · exact .error rfl
        · exact .error rfl
      · exact .error rfl
      · next staging body hkeyword =>
        simp only [hkeyword] at hnames
        refine (ih body (by simp) names hnames).bind_image fun b => ?_
        cases staging with
        | quote => exact .ok (Term.shift_quote ..).symm
        | splice => exact .ok (Term.shift_splice ..).symm
      · exact .error rfl
      · next hkeyword =>
        simp only [hkeyword] at hnames
        obtain ⟨hheadNames, hargsNames⟩ := List.forall_mem_append.1 hnames
        obtain ⟨hhead, hargs⟩ := List.forall_mem_cons.1 ih
        refine (hhead names hheadNames).bind_image fun fn => ?_
        refine (lowerArgs_widens hargs hargsNames).bind_image fun ts => .ok ?_
        rw [isMetalevelHead_widens h hheadNames]
        split
        · exact (Term.shift_call ..).symm
        · exact (Term.shift_applyAll ..).symm

end Widens

/-- **A binder that an expression does not use is a shift.** With one more binder around those of
`names`, an expression is lowered to exactly the terms that it is lowered to without it, shifted
past it, and otherwise it is refused with the same diagnostic. No symbol may mean the binder: its
name does not occur in the expression, or only where a binder further in has it. -/
theorem lower_weaken {e : SExpr} {name : String} {names : List String}
    (h : ∀ o ∈ e.occurrences names, o.name = name → name ∈ o.binders) (scope : Scope) :
    (∀ t, e.lower (scope.inside names) = .ok t ↔
      e.lower ((scope.bind name).inside names) = .ok (t.shift 1 names.length)) ∧
    ∀ d, e.lower (scope.inside names) = .error d ↔
      e.lower ((scope.bind name).inside names) = .error d := by
  have hshifted : ShiftedBy 1 names.length (e.lower (scope.inside names))
      (e.lower ((scope.bind name).inside names)) := by
    refine lower_widens (scope.widens_bind name) e names fun o ho hfree hname => ?_
    subst hname
    exact hfree (h o ho rfl)
  refine ⟨hshifted.ok_iff fun _ _ => Term.shift_inj.1, fun d => ?_⟩
  rw [hshifted.eq_map]
  cases e.lower (scope.inside names) with
  | ok t => exact iff_of_false nofun nofun
  | error d' => rfl

/-- A binder between two others, one of which is on the far side of it. Its name is that of a
metalevel definition, and of a binder further in. -/
theorem lower_weaken_nested :
    let scope : Scope := ⟨["x"], [("m", .metalevel), ("n", .metalevel), ("number", .object)]⟩
    let sym (name : String) : SExpr := .sym {} name
    let code : SExpr := .list {} [sym "m", .list {} [sym "fn", .dict {} [(sym "n:", sym "number")],
      .list {} [sym "n", sym "y", sym "x"]]]
    let term (x : Nat) : Term := .call (.const "m") [.lam (.const "number")
      (.app (.app (.var 0) (.var 1)) (.var x))]
    (∀ o ∈ code.occurrences ["y"], o.name = "n" → "n" ∈ o.binders) ∧
      code.lower (scope.inside ["y"]) = .ok (term 2) ∧ (term 2).shift 1 1 = term 3 ∧
      code.lower ((scope.bind "n").inside ["y"]) = .ok (term 3) := by
  intro scope sym code term
  have hunused : ∀ o ∈ code.occurrences ["y"], o.name = "n" → "n" ∈ o.binders := by decide
  have hlower : code.lower (scope.inside ["y"]) = .ok (term 2) := by rfl
  exact ⟨hunused, hlower, by decide, ((lower_weaken hunused scope).1 (term 2)).1 hlower⟩

end SExpr

end StagedTT
