import StagedTT.Proofs.Surface.Levels
import StagedTT.Proofs.Surface.Weakening
import StagedTT.Proofs.Typing.Agreement

/-!
# Agreement on expressions

An expression names all that its elaboration starts from: two scopes with the same binders lower it
to the same term if they define the same of its symbols (`SExpr.lower_agrees`). If two environments
agree on what these symbols lead to, they also expand it to the same term, and a form declares the
same in both or is refused for the same reason (`Environment.AgreesIn.elaborateForm`).
-/

namespace StagedTT

open Term
open Metered (fix_congr_on settles_ofExcept)

/-! ## Expansion -/

namespace Environment

variable {env env' : Environment} {F : Fragment}

theorem runCall_within (hkeeps : env.signature.Keeps F) {value : Term} {args : List Term}
    (happlied : (value.applyAll args).Within F) :
    Yields (env.runCall value args) fun t => t.Within F := by
  refine yields_of_ok fun t ht => ?_
  obtain ⟨n, hn, rfl⟩ := runCall_eq_ok ht
  exact (Steps.within hkeeps hn.steps happlied).unquote

namespace AgreesOn

variable (h : env'.AgreesOn env F)

include h

theorem callable? {n : String} (hn : F.name n) :
    env'.signature.callable? (.const n) = env.signature.callable? (.const n) := by
  rw [Signature.callable?, h.find? n hn, Signature.callable?]

theorem runCall {value : Term} {args : List Term} (happlied : (value.applyAll args).Within F) :
    env'.runCall value args = env.runCall value args := by
  rw [Environment.runCall, h.normalize happlied, Environment.runCall]

theorem expandBody {again again' : Term → Metered Fault Term}
    (hagain : ∀ t, t.Within F → again' t = again t) {t : Term} (ht : t.Within F) :
    env'.expandBody again' t = env.expandBody again t := by
  induction t with
  | sort | const | num | str | var | quote => rfl
  | pi A B ihA ihB =>
    obtain ⟨hA, hB⟩ := ht.of_pi
    rw [Environment.expandBody, Environment.expandBody, ihA hA, ihB hB]
  | lam A b ihA ihb =>
    obtain ⟨hA, hb⟩ := ht.of_lam
    rw [Environment.expandBody, Environment.expandBody, ihA hA, ihb hb]
  | app f a ihf iha =>
    obtain ⟨hf, ha⟩ := ht.of_app
    rw [Environment.expandBody, Environment.expandBody, ihf hf, iha ha]
  | splice b ih => rw [Environment.expandBody, Environment.expandBody, ih ht.of_splice]
  | call head args _ _ =>
    obtain ⟨n, rfl, hn, -, hargs⟩ := ht.of_call
    rw [Environment.expandBody, h.callable? hn, Environment.expandBody]
    cases hvalue : env.signature.callable? (.const n) with
    | none => rfl
    | some value =>
      have hv : value.Within F := h.types.keeps n value hn (Signature.value?_of_callable? hvalue)
      have happlied : (value.applyAll args).Within F := Within.applyAll.2 ⟨hv, hargs⟩
      have hresult := settles_ofExcept (runCall_within h.types.keeps happlied)
      refine bind_congr fun _ => ?_
      exact hresult.bind_congr (congrArg Metered.ofExcept (h.runCall happlied)) hagain

/-- **Expansion is the same**, and takes as many calls. -/
theorem expandMetered {t : Term} (ht : t.Within F) :
    env'.expandMetered t = env.expandMetered t := by
  refine fix_congr_on (I := Within F) (fun again again' hagain u hu => ?_) ht
  exact h.expandBody hagain hu

theorem expand {t : Term} (ht : t.Within F) : env'.expand t = env.expand t := by
  rw [Environment.expand, h.limits, h.expandMetered ht, Environment.expand]

end AgreesOn

end Environment

/-! ## Symbols -/

namespace SExpr

mutual

/-- The symbols in an expression, whatever they stand for. -/
def symbols : SExpr → List String
  | .num _ _ | .str _ _ => []
  | .sym _ name => [name]
  | .list _ items | .vector _ items => allSymbols items
  | .dict _ entries => entrySymbols entries
  | .quote _ body | .splice _ body => symbols body

/-- The symbols in items. -/
def allSymbols : List SExpr → List String
  | [] => []
  | item :: items => symbols item ++ allSymbols items

/-- The symbols in the keys and values of a dictionary. -/
def entrySymbols : List (SExpr × SExpr) → List String
  | [] => []
  | (key, value) :: entries => symbols key ++ symbols value ++ entrySymbols entries

end

theorem mem_allSymbols {n : String} {item : SExpr} {items : List SExpr} (hitem : item ∈ items)
    (hn : n ∈ item.symbols) : n ∈ allSymbols items := by
  induction hitem with
  | head => exact List.mem_append_left _ hn
  | tail _ _ ih => exact List.mem_append_right _ ih

theorem mem_entrySymbols {n : String} {entry : SExpr × SExpr} {entries : List (SExpr × SExpr)}
    (hentry : entry ∈ entries) (hn : n ∈ entry.1.symbols ∨ n ∈ entry.2.symbols) :
    n ∈ entrySymbols entries := by
  induction hentry with
  | head => exact List.mem_append_left _ (List.mem_append.2 hn)
  | tail _ _ ih => exact List.mem_append_right _ ih

theorem mem_symbols {loc : Location} {n : String} {e : SExpr}
    (h : sym loc n ∈ e.subexpressions) : n ∈ e.symbols := by
  induction e with
  | num | str => simp [subexpressions] at h
  | sym _ name =>
    obtain ⟨-, rfl⟩ := SExpr.sym.inj (List.mem_singleton.1 h)
    exact List.mem_cons_self
  | list _ items ih | vector _ items ih =>
    rcases List.mem_cons.1 h with h | h
    · cases h
    · obtain ⟨item, hitem, hn⟩ := mem_itemSubexpressions.1 h
      exact mem_allSymbols hitem (ih item hitem hn)
  | dict _ entries ih =>
    rcases List.mem_cons.1 h with h | h
    · cases h
    · obtain ⟨entry, hentry, hn⟩ := mem_entrySubexpressions.1 h
      exact mem_entrySymbols hentry (hn.imp (ih entry hentry).1 (ih entry hentry).2)
  | quote _ body ih | splice _ body ih =>
    rcases List.mem_cons.1 h with h | h
    · cases h
    · exact ih h

/-- All symbols of an expression are among the names that `P` has. -/
def Names (P : String → Prop) (e : SExpr) : Prop := ∀ n ∈ e.symbols, P n

variable {P : String → Prop}

theorem Names.of_list {loc : Location} {items : List SExpr} (h : (list loc items).Names P) :
    ∀ item ∈ items, item.Names P :=
  fun _ hitem n hn => h n (mem_allSymbols hitem hn)

theorem Names.of_dict {loc : Location} {entries : List (SExpr × SExpr)}
    (h : (dict loc entries).Names P) : ∀ entry ∈ entries, entry.1.Names P ∧ entry.2.Names P :=
  fun _ hentry => ⟨fun n hn => h n (mem_entrySymbols hentry (.inl hn)),
    fun n hn => h n (mem_entrySymbols hentry (.inr hn))⟩

end SExpr

/-! ## Lowering -/

/-- Two scopes with the same binders that define the same of the names that `P` has. -/
structure Scope.AgreesOn (scope' scope : Scope) (P : String → Prop) : Prop where
  binders : scope'.binders = scope.binders
  phase? : ∀ n, P n → scope'.phase? n = scope.phase? n

namespace Scope.AgreesOn

variable {scope scope' : Scope} {P : String → Prop} (h : scope'.AgreesOn scope P)

include h

theorem resolve? {n : String} (hn : P n) : scope'.resolve? n = scope.resolve? n := by
  rw [Scope.resolve?, h.binders, h.phase? n hn, Scope.resolve?]

end Scope.AgreesOn

namespace SExpr

variable {P : String → Prop}

/-- An expression that is lowered the same in all scopes that agree. -/
def LowersAlike (P : String → Prop) (e : SExpr) : Prop :=
  ∀ scope scope' : Scope, scope'.AgreesOn scope P → e.lower scope' = e.lower scope

/-- **Lowering looks at the symbols of an expression only.** -/
theorem lower_agrees {e : SExpr} (h : e.Names P) : e.LowersAlike P := by
  intro scope scope' hscope
  -- No binder is inserted, so that nothing is shifted.
  have hwidens : scope.Widens scope' 0 P := by
    intro x hx
    rw [hscope.resolve? hx]
    cases scope.resolve? x with
    | none => rfl
    | some r => exact congrArg some (r.shift_zero 0).symm
  have hnames : ∀ o ∈ e.occurrences [], o.name ∉ o.binders → P o.name := fun o ho _ =>
    h o.name (mem_symbols (e.occurs_inside [] o ho))
  have hlower : e.lower scope' = (e.lower scope).map (·.shift 0 0) :=
    (lower_widens hwidens e [] hnames).eq_map
  rw [hlower]
  cases e.lower scope with
  | ok t => exact congrArg Except.ok (Term.shift_zero ..)
  | error d => rfl

end SExpr

/-! ## Forms -/

/-- Two environments agree on what the expressions of a scope lead to, and on which of the names
that `P` has are taken. -/
structure Environment.AgreesIn (env' env : Environment) (scope' scope : Scope) (F : Fragment)
    (P : String → Prop) : Prop extends env'.AgreesOn env F where
  scopes : scope'.AgreesOn scope P
  covers : F.Covers scope
  contains : ∀ n, P n → env'.signature.contains n = env.signature.contains n

namespace Environment.AgreesIn

variable {env env' : Environment} {scope scope' : Scope} {F : Fragment} {P : String → Prop}
  (h : env'.AgreesIn env scope' scope F P)

include h

theorem lower {e : SExpr} (he : e.Names P) : e.lower scope' = e.lower scope :=
  SExpr.lower_agrees he scope scope' h.scopes

theorem elaborate {e : SExpr} (he : e.Names P) (loc : Location) :
    e.elaborate env' scope' loc = e.elaborate env scope loc := by
  refine (e.lower_yields F scope h.covers).bind_congr (h.lower he) fun t ht => ?_
  rw [h.expand ht]

theorem freeName {name : SExpr} (hname : name.Names P) :
    env'.freeName name = env.freeName name := by
  cases name with
  | sym loc word =>
    rw [Environment.freeName, h.contains word (hname word (List.mem_singleton.2 rfl)),
      Environment.freeName]
  | _ => rfl

theorem definitionType (loc : Location) {annotation? : Option SExpr}
    (hsome : ∀ e, annotation? = some e → e.Names P) {t : Term} (ht : t.Within F) :
    env'.definitionType scope' loc annotation? t = env.definitionType scope loc annotation? t := by
  cases annotation? with
  | none =>
    rw [Environment.definitionType, Environment.definitionType]
    exact congrArg loc.reportKernel (h.infer (List.forall_mem_nil _) ht)
  | some e =>
    have hwithin := e.elaborate_within h.types.keeps h.covers loc
    rw [Environment.definitionType, Environment.definitionType]
    refine hwithin.bind_congr (h.elaborate (hsome e rfl) loc) fun T hT => ?_
    rw [h.inferSort _ hT, h.check ht hT]

theorem defineObject (loc : Location) {name body : SExpr} {annotation? : Option SExpr}
    (hname : name.Names P) (hsome : ∀ e, annotation? = some e → e.Names P)
    (hbody : body.Names P) :
    env'.defineObject scope' loc name annotation? body =
      env.defineObject scope loc name annotation? body := by
  rw [defineObject_eq, defineObject_eq]
  have hwithin := body.elaborate_within h.types.keeps h.covers loc
  refine (yields_any _).bind_congr (h.freeName hname) fun n _ => ?_
  refine hwithin.bind_congr (h.elaborate hbody loc) fun t ht => ?_
  rw [h.definitionType loc hsome ht, h.normalize ht]

theorem defineMetalevel (loc : Location) {name body : SExpr} (hname : name.Names P)
    (hbody : body.Names P) :
    env'.defineMetalevel scope' loc name body = env.defineMetalevel scope loc name body := by
  rw [defineMetalevel_eq, defineMetalevel_eq]
  refine (yields_any _).bind_congr (h.freeName hname) fun n _ => ?_
  refine (body.lower_yields F scope h.covers).bind_congr (h.lower hbody) fun t ht => ?_
  have hinfer : env'.infer (.empty .metalevel) t = env.infer (.empty .metalevel) t :=
    h.infer (List.forall_mem_nil _) ht
  rw [hinfer, h.normalize ht]

theorem postulate (loc : Location) {name type : SExpr} (hname : name.Names P)
    (htype : type.Names P) :
    env'.postulate scope' loc name type = env.postulate scope loc name type := by
  rw [postulate_eq, postulate_eq]
  have hwithin := type.elaborate_within h.types.keeps h.covers loc
  refine (yields_any _).bind_congr (h.freeName hname) fun n _ => ?_
  refine hwithin.bind_congr (h.elaborate htype loc) fun T hT => ?_
  rw [h.inferSort _ hT]

/-- **A form declares the same, or is refused for the same reason.** -/
theorem elaborateForm {form : SExpr} (hform : form.Names P) :
    env'.elaborateForm scope' form = env.elaborateForm scope form := by
  unfold Environment.elaborateForm Elaboration.form
  split
  · next loc items =>
    have hitems := hform.of_list
    split
    · next name body _ =>
      exact h.defineObject loc (hitems name (by simp)) (by simp) (hitems body (by simp))
    · next name type body _ =>
      refine h.defineObject loc (hitems name (by simp)) (fun e he => ?_) (hitems body (by simp))
      obtain rfl := Option.some.inj he
      exact hitems _ (by simp)
    · rfl
    · next name body _ =>
      exact h.defineMetalevel loc (hitems name (by simp)) (hitems body (by simp))
    · rfl
    · next name type _ =>
      exact h.postulate loc (hitems name (by simp)) (hitems type (by simp))
    · rfl
    · rfl
  · rfl

end Environment.AgreesIn

end StagedTT
