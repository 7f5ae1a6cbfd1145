import StagedTT.Proofs.Settles
import StagedTT.Proofs.Term.Fragment
import StagedTT.Surface.Lowering

/-!
# What expressions mention

The level of a universe is written as a number, the names in an expression are bound or defined,
and a form is a call only if its head is the name of a metalevel definition. So what an expression
is lowered to is formed over the definitions of the scope and under its binders, and it is refused
for how it is written only (`SExpr.lower_formed`). It mentions universes below `literalBound` and
defined names, and calls names only (`SExpr.lower_yields`).
-/

namespace StagedTT

/-- The levels of universes that expressions can name are below this one. -/
def literalBound : Nat := Nat.pow 2 63

/-- A term over names of known phases and under a number of binders: names are declared, variables
are bound, what is called is a metalevel name, and expressions can name the universes. -/
inductive Term.Formed (names : String → Option Phase) : Nat → Term → Prop
  | sort {d l : Nat} : l < literalBound → Formed names d (.sort l)
  | const {d : Nat} {n : String} {p : Phase} : names n = some p → Formed names d (.const n)
  | num {d : Nat} (v : Int64) : Formed names d (.num v)
  | str {d : Nat} (s : String) : Formed names d (.str s)
  | var {d i : Nat} : i < d → Formed names d (.var i)
  | pi {d : Nat} {A B : Term} : Formed names d A → Formed names (d + 1) B →
      Formed names d (.pi A B)
  | lam {d : Nat} {A b : Term} : Formed names d A → Formed names (d + 1) b →
      Formed names d (.lam A b)
  | app {d : Nat} {f a : Term} : Formed names d f → Formed names d a → Formed names d (.app f a)
  | quote {d : Nat} {b : Term} : Formed names d b → Formed names d (.quote b)
  | splice {d : Nat} {b : Term} : Formed names d b → Formed names d (.splice b)
  | call {d : Nat} {n : String} {as : List Term} : names n = some .metalevel →
      (∀ a ∈ as, Formed names d a) → Formed names d (.call (.const n) as)

theorem Term.Formed.of_app {names : String → Option Phase} {d : Nat} {f a : Term}
    (h : (Term.app f a).Formed names d) : f.Formed names d ∧ a.Formed names d := by
  cases h with
  | app hf ha => exact ⟨hf, ha⟩

theorem Term.Formed.applyAll {names : String → Option Phase} {d : Nat} {head : Term}
    {args : List Term} :
    (head.applyAll args).Formed names d ↔
      head.Formed names d ∧ ∀ arg ∈ args, arg.Formed names d := by
  induction args generalizing head with
  | nil => simp
  | cons arg args ih =>
    have happ : (Term.app head arg).Formed names d ↔ head.Formed names d ∧ arg.Formed names d :=
      ⟨of_app, fun h => .app h.1 h.2⟩
    rw [applyAll_cons, ih, happ, and_assoc, List.forall_mem_cons]

/-- A fragment has all that expressions in a scope may mention. -/
structure Fragment.Covers (F : Fragment) (scope : Scope) : Prop where
  level : ∀ l, l < literalBound → F.level l
  name : ∀ n p, scope.phase? n = some p → F.name n
  staged : F.staged

theorem Fragment.namedCalls_covers (scope : Scope) : namedCalls.Covers scope where
  level _ _ := trivial
  name _ _ _ := trivial
  staged := trivial

/-- What is formed over the definitions of a scope is in every fragment that covers the scope. -/
theorem Term.Formed.within {F : Fragment} {scope : Scope} {d : Nat} {t : Term}
    (h : t.Formed scope.phase? d) (hF : F.Covers scope) : t.Within F := by
  induction h with
  | sort hl => exact .sort (hF.level _ hl)
  | const hn => exact .const (hF.name _ _ hn)
  | num v => exact .num v
  | str s => exact .str s
  | var _ => exact .var _
  | pi _ _ ihA ihB => exact .pi ihA ihB
  | lam _ _ ihA ihb => exact .lam ihA ihb
  | app _ _ ihf iha => exact .app ihf iha
  | quote _ ih => exact .quote hF.staged ih
  | splice _ ih => exact .splice hF.staged ih
  | call hn _ ih => exact .call hF.staged (hF.name _ _ hn) ih

namespace Scope

variable {scope : Scope} {name : String}

/-- What is not bound is defined. -/
theorem phase?_of_resolve? {p : Phase} (h : scope.resolve? name = some (.defined p)) :
    scope.phase? name = some p := by
  unfold resolve? at h
  split at h
  · cases h
  · obtain ⟨q, hq, hdefined⟩ := Option.map_eq_some_iff.1 h
    cases hdefined
    exact hq

/-- The index of a bound name counts binders of the scope. -/
theorem lt_depth_of_resolve? {i : Nat} (h : scope.resolve? name = some (.bound i)) :
    i < scope.depth := by
  unfold resolve? at h
  split at h
  · next index hindex =>
    cases h
    exact (List.findIdx?_eq_some_iff_findIdx_eq.1 hindex).1
  · obtain ⟨q, -, hdefined⟩ := Option.map_eq_some_iff.1 h
    cases hdefined

/-- A scope of closed expressions, with the definitions of a signature. -/
structure Mirrors (scope : Scope) (sig : Signature) : Prop where
  binders : scope.binders = []
  phase? : ∀ n, scope.phase? n = sig.phase? n

theorem Mirrors.depth {sig : Signature} (h : scope.Mirrors sig) : scope.depth = 0 := by
  rw [Scope.depth, h.binders]
  rfl

end Scope

theorem toNatClampNeg_lt (level : Int64) : level.toNatClampNeg < literalBound := by
  have h := level.toInt_lt
  have hbound : literalBound = 9223372036854775808 := rfl
  rw [Int64.toNatClampNeg, hbound]
  omega

/-- A fault in how an expression is written. -/
def Diagnostic.InWriting (d : Diagnostic) : Prop :=
  match d.fault with
  | .unknownIdentifier _ | .malformedForm _ _ => True
  | _ => False

namespace SExpr

/-- What lowering settles of a result in a scope: it is formed over the definitions and under the
binders of the scope, or the fault is in how the expression is written. -/
abbrev FormedIn (scope : Scope) (r : Except Diagnostic Term) : Prop :=
  Settles r (fun t => t.Formed scope.phase? scope.depth) Diagnostic.InWriting

/-- An expression that lowering forms a term of in every scope. -/
def LowersFormed (e : SExpr) : Prop := ∀ scope, FormedIn scope (e.lower scope)

theorem binderName_settles (key : SExpr) :
    Settles key.binderName (fun _ => True) Diagnostic.InWriting := by
  unfold binderName
  split
  · next loc word =>
    by_cases hempty : trimColons word = ""
    · simp only [hempty, if_true]
      trivial
    · simp only [hempty, if_false]
      trivial
  · trivial

theorem lowerSymbol_formed (scope : Scope) (loc : Location) (name : String) :
    FormedIn scope (lowerSymbol scope loc name) := by
  unfold lowerSymbol
  split
  · next index hbound => exact .var (Scope.lt_depth_of_resolve? hbound)
  · next p hdefined => exact .const (Scope.phase?_of_resolve? hdefined)
  · trivial

theorem lowerSort_formed (scope : Scope) (e : SExpr) : FormedIn scope e.lowerSort := by
  unfold lowerSort
  split
  · next level =>
    split
    · exact .sort (toNatClampNeg_lt level)
    · trivial
  · trivial

theorem lowerArgs_formed {args : List SExpr} (h : ∀ arg ∈ args, arg.LowersFormed) (scope : Scope) :
    Settles (lowerArgs scope args) (fun ts => ∀ t ∈ ts, t.Formed scope.phase? scope.depth)
      Diagnostic.InWriting := by
  induction args with
  | nil =>
    rw [lowerArgs]
    exact List.forall_mem_nil _
  | cons arg args ih =>
    obtain ⟨harg, hargs⟩ := List.forall_mem_cons.1 h
    rw [lowerArgs]
    refine (harg scope).bind fun t ht => (ih hargs).bind fun ts hts => ?_
    exact List.forall_mem_cons.2 ⟨ht, hts⟩

theorem lowerTelescope_formed (binder : Binder) {body : Scope → Except Diagnostic Term}
    (hbody : ∀ scope, FormedIn scope (body scope))
    {entries : List (SExpr × SExpr)} (h : ∀ entry ∈ entries, entry.2.LowersFormed)
    (scope : Scope) :
    FormedIn scope (lowerTelescope binder body scope entries) := by
  induction entries generalizing scope with
  | nil =>
    rw [lowerTelescope]
    exact hbody scope
  | cons entry entries ih =>
    obtain ⟨key, type⟩ := entry
    obtain ⟨htype, hentries⟩ := List.forall_mem_cons.1 h
    rw [lowerTelescope]
    refine (binderName_settles key).bind fun name _ => (htype scope).bind fun A hA => ?_
    refine (ih hentries (scope.bind name)).bind fun b hb => ?_
    -- A binder adds a variable and defines nothing.
    have hb' : b.Formed scope.phase? (scope.depth + 1) := hb
    cases binder with
    | fn => exact .lam hA hb'
    | pi => exact .pi hA hb'

/-- What is called is the name of a metalevel definition. -/
theorem lower_of_isMetalevelHead {scope : Scope} {head : SExpr}
    (h : isMetalevelHead scope head = true) :
    ∃ n, head.lower scope = .ok (.const n) ∧ scope.phase? n = some .metalevel := by
  have hresolve : head.symbol?.bind scope.resolve? = some (.defined .metalevel) :=
    of_decide_eq_true h
  cases head with
  | sym loc name =>
    have hname : scope.resolve? name = some (.defined .metalevel) := hresolve
    refine ⟨name, ?_, Scope.phase?_of_resolve? hname⟩
    rw [lower, lowerSymbol, hname]
  | _ => cases hresolve

theorem lowerApplication_formed {head : SExpr} {args : List SExpr} (hhead : head.LowersFormed)
    (hargs : ∀ arg ∈ args, arg.LowersFormed) (scope : Scope) :
    FormedIn scope (do
      let fn ← head.lower scope
      let args ← lowerArgs scope args
      return if isMetalevelHead scope head then .call fn args else fn.applyAll args) := by
  cases hcall : isMetalevelHead scope head with
  | true =>
    obtain ⟨n, hn, hphase⟩ := lower_of_isMetalevelHead hcall
    rw [hn]
    exact (lowerArgs_formed hargs scope).bind fun ts hts => .call hphase hts
  | false =>
    refine (hhead scope).bind fun fn hfn => (lowerArgs_formed hargs scope).bind fun ts hts => ?_
    exact Term.Formed.applyAll.2 ⟨hfn, hts⟩

/-- Induction on what is lowered. A dictionary is no term, but the values of one that stands in a
form are. -/
@[elab_as_elim]
theorem inductLowered {motive : SExpr → Prop}
    (num : ∀ loc value, motive (.num loc value))
    (str : ∀ loc value, motive (.str loc value))
    (sym : ∀ loc name, motive (.sym loc name))
    (list : ∀ loc items, (∀ item ∈ items, motive item) →
      (∀ dictLoc entries, .dict dictLoc entries ∈ items → ∀ entry ∈ entries, motive entry.2) →
      motive (.list loc items))
    (vector : ∀ loc items, motive (.vector loc items))
    (dict : ∀ loc entries, motive (.dict loc entries))
    (quote : ∀ loc body, motive body → motive (.quote loc body))
    (splice : ∀ loc body, motive body → motive (.splice loc body))
    (e : SExpr) : motive e := by
  suffices h : motive e ∧
      ∀ loc entries, e = .dict loc entries → ∀ entry ∈ entries, motive entry.2 from h.1
  induction e with
  | num loc value => exact ⟨num loc value, nofun⟩
  | str loc value => exact ⟨str loc value, nofun⟩
  | sym loc name => exact ⟨sym loc name, nofun⟩
  | list loc items ih =>
    refine ⟨list loc items (fun item hitem => (ih item hitem).1) ?_, nofun⟩
    exact fun dictLoc entries hdict => (ih _ hdict).2 dictLoc entries rfl
  | vector loc items _ => exact ⟨vector loc items, nofun⟩
  | dict loc entries ih =>
    refine ⟨dict loc entries, fun _ _ heq entry hentry => ?_⟩
    cases heq
    exact (ih entry hentry).2.1
  | quote loc body ih => exact ⟨quote loc body ih.1, nofun⟩
  | splice loc body ih => exact ⟨splice loc body ih.1, nofun⟩

/-- **Lowering forms terms over the definitions of the scope and under its binders**, unless an
expression is not written as it must be. -/
theorem lower_formed (e : SExpr) : e.LowersFormed := by
  induction e using inductLowered with
  | num loc value => exact fun _ => .num value
  | str loc value => exact fun _ => .str value
  | sym loc name =>
    intro scope
    rw [lower]
    exact lowerSymbol_formed scope loc name
  | vector loc items => exact fun _ => trivial
  | dict loc entries => exact fun _ => trivial
  | quote loc body ih =>
    intro scope
    rw [lower]
    exact (ih scope).bind fun b hb => .quote hb
  | splice loc body ih =>
    intro scope
    rw [lower]
    exact (ih scope).bind fun b hb => .splice hb
  | list loc items ih ihdict =>
    intro scope
    cases items with
    | nil => trivial
    | cons head args =>
      obtain ⟨hhead, hargs⟩ := List.forall_mem_cons.1 ih
      unfold lower
      split
      · next binder dictLoc entry entries body _ =>
        have hentries := ihdict dictLoc (entry :: entries) (by simp)
        exact lowerTelescope_formed binder (hargs body (by simp)) hentries scope
      · trivial
      · trivial
      · exact lowerSort_formed scope _
      · trivial
      · next staging body _ =>
        refine (hargs body (by simp) scope).bind fun b hb => ?_
        cases staging with
        | quote => exact .quote hb
        | splice => exact .splice hb
      · trivial
      · exact lowerApplication_formed hhead hargs scope

/-- Lowering stays in every fragment that covers the scope. -/
theorem lower_yields (F : Fragment) (e : SExpr) (scope : Scope) (hF : F.Covers scope) :
    Yields (e.lower scope) fun t => t.Within F :=
  (lower_formed e scope).yields.mono fun _ ht => ht.within hF

end SExpr

end StagedTT
