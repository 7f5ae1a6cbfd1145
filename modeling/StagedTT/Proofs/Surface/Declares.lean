import StagedTT.Proofs.Surface.Elaborations

/-!
# Inversion of forms

`env.Declares scope form entry` says all that is done to find out what a form declares: what the
form looks like, that its name is free, what its parts stand for, and what the kernel answers. A
form that does not fail declares something in one of four ways
(`Environment.elaborateForm_declares`).
-/

namespace StagedTT

section Report

variable {α : Type} {P : α → Prop} {E : Fault → Prop}

/-- What is reported at a place is as it was, and so are the faults. -/
theorem Settles.report {r : Except Fault α} (h : Settles r P E) (loc : Location) :
    Settles (loc.report r) P fun d => E d.fault := by
  cases r with
  | ok a => exact h
  | error e => exact h

theorem Settles.reportKernel {r : Except KernelError α} (h : Settles r P fun e => E (.kernel e))
    (loc : Location) : Settles (loc.reportKernel r) P fun d => E d.fault := by
  cases r with
  | ok a => exact h
  | error e => exact h

theorem Yields.report {r : Except Fault α} (h : Yields r P) (loc : Location) :
    Yields (loc.report r) P :=
  Settles.report (E := fun _ => True) h loc

theorem Yields.reportKernel {r : Except KernelError α} (h : Yields r P) (loc : Location) :
    Yields (loc.reportKernel r) P :=
  Settles.reportKernel (E := fun _ => True) h loc

end Report

/-- Object code is an expansion of what the expression is lowered to. -/
theorem SExpr.elaborate_yields [IndexArithmetic] (env : Environment) (scope : Scope)
    (loc : Location) (e : SExpr) :
    Yields (e.elaborate env scope loc)
      fun t => ∃ raw, e.lower scope = .ok raw ∧ env.expand raw = .ok t :=
  (yields_self (e.lower scope)).bind fun raw hraw =>
    ((yields_self (env.expand raw)).report loc).mono fun _ ht => ⟨raw, hraw, ht⟩

namespace FormKind

/-- The word that a top-level form of a kind starts with. -/
def word : FormKind → String
  | .defn => "defn"
  | .defmeta => "defmeta"
  | .postulate => "axiom"

theorem word_of_ofWord? {word : String} {kind : FormKind} (h : ofWord? word = some kind) :
    word = kind.word := by
  unfold ofWord? at h
  split at h
  all_goals
    cases h
    try rfl

end FormKind

namespace Environment

variable [IndexArithmetic]

/-- What a form declares, and how that is found out. -/
inductive Declares (env : Environment) (scope : Scope) : SExpr → Entry → Prop
  /-- An object definition without an annotation is of the inferred type. -/
  | inferred {loc : Location} {head name body : SExpr} {n : String} {t T v : Term} :
      head.symbol? = some FormKind.defn.word → env.freeName name = .ok n →
      body.elaborate env scope loc = .ok t → env.infer (.empty .object) t = .ok T →
      env.normalize t = .ok v →
      Declares env scope (.list loc [head, name, body]) (n, ⟨.object, T, some v⟩)
  /-- An annotation must be a type, and the definition is checked against it. -/
  | annotated {loc : Location} {head name type body : SExpr} {n : String} {t T v : Term} {l : Nat} :
      head.symbol? = some FormKind.defn.word → env.freeName name = .ok n →
      body.elaborate env scope loc = .ok t → type.elaborate env scope loc = .ok T →
      env.inferSort (.empty .object) "definition annotation" T = .ok l →
      env.check (.empty .object) t T = .ok () → env.normalize t = .ok v →
      Declares env scope (.list loc [head, name, type, body]) (n, ⟨.object, T, some v⟩)
  /-- A metalevel definition is not expanded. -/
  | metalevel {loc : Location} {head name body : SExpr} {n : String} {t T v : Term} :
      head.symbol? = some FormKind.defmeta.word → env.freeName name = .ok n →
      body.lower scope = .ok t → env.infer (.empty .metalevel) t = .ok T →
      env.normalize t = .ok v →
      Declares env scope (.list loc [head, name, body]) (n, ⟨.metalevel, T, some v⟩)
  /-- An axiom has a type and no value. -/
  | postulate {loc : Location} {head name type : SExpr} {n : String} {T : Term} {l : Nat} :
      head.symbol? = some FormKind.postulate.word → env.freeName name = .ok n →
      type.elaborate env scope loc = .ok T →
      env.inferSort (.empty .object) "axiom type" T = .ok l →
      Declares env scope (.list loc [head, name, type]) (n, ⟨.object, T, none⟩)

variable {env : Environment} {scope : Scope}

theorem defineObject_inferred {loc : Location} {head name body : SExpr}
    (hhead : head.symbol? = some FormKind.defn.word) :
    Yields (env.defineObject scope loc name none body)
      (env.Declares scope (.list loc [head, name, body])) := by
  rw [defineObject_eq]
  refine (yields_self _).bind fun n hn => (yields_self _).bind fun t ht => ?_
  refine ((yields_self _).reportKernel loc).bind fun T hT => ?_
  exact ((yields_self _).reportKernel loc).bind fun v hv => .inferred hhead hn ht hT hv

theorem defineObject_annotated {loc : Location} {head name type body : SExpr}
    (hhead : head.symbol? = some FormKind.defn.word) :
    Yields (env.defineObject scope loc name (some type) body)
      (env.Declares scope (.list loc [head, name, type, body])) := by
  rw [defineObject_eq]
  refine (yields_self _).bind fun n hn => (yields_self _).bind fun t ht => ?_
  have htype : Yields (env.definitionType scope loc (some type) t) fun T =>
      type.elaborate env scope loc = .ok T ∧
        (∃ l, env.inferSort (.empty .object) "definition annotation" T = .ok l) ∧
        env.check (.empty .object) t T = .ok () := by
    refine (yields_self _).bind fun T hT => ((yields_self _).reportKernel loc).bind fun l hl => ?_
    exact ((yields_self _).reportKernel loc).bind fun _ hcheck => ⟨hT, ⟨l, hl⟩, hcheck⟩
  refine htype.bind fun T ⟨hT, ⟨l, hl⟩, hcheck⟩ => ?_
  exact ((yields_self _).reportKernel loc).bind
    fun v hv => .annotated hhead hn ht hT hl hcheck hv

theorem defineMetalevel_declares {loc : Location} {head name body : SExpr}
    (hhead : head.symbol? = some FormKind.defmeta.word) :
    Yields (env.defineMetalevel scope loc name body)
      (env.Declares scope (.list loc [head, name, body])) := by
  rw [defineMetalevel_eq]
  refine (yields_self _).bind fun n hn => (yields_self _).bind fun t ht => ?_
  refine ((yields_self _).reportKernel loc).bind fun T hT => ?_
  exact ((yields_self _).reportKernel loc).bind fun v hv => .metalevel hhead hn ht hT hv

theorem postulate_declares {loc : Location} {head name type : SExpr}
    (hhead : head.symbol? = some FormKind.postulate.word) :
    Yields (env.postulate scope loc name type)
      (env.Declares scope (.list loc [head, name, type])) := by
  rw [postulate_eq]
  refine (yields_self _).bind fun n hn => (yields_self _).bind fun T hT => ?_
  exact ((yields_self _).reportKernel loc).bind fun l hl => .postulate hhead hn hT hl

/-- **A form that does not fail declares something in one of four ways.** -/
theorem elaborateForm_declares (env : Environment) (scope : Scope) (form : SExpr) :
    Yields (env.elaborateForm scope form) (env.Declares scope form) := by
  -- The word that a form of each kind starts with.
  have hword : ∀ {loc : Location} {head : SExpr} {items : List SExpr} {kind : FormKind},
      (SExpr.list loc (head :: items)).headSymbol?.bind FormKind.ofWord? = some kind →
        head.symbol? = some kind.word := by
    intro loc head items kind h
    obtain ⟨word, hsymbol, hkind⟩ := Option.bind_eq_some_iff.1 h
    rw [← FormKind.word_of_ofWord? hkind]
    exact hsymbol
  unfold elaborateForm Elaboration.form
  split
  · split
    · next hkind => exact defineObject_inferred (hword hkind)
    · next hkind => exact defineObject_annotated (hword hkind)
    · trivial
    · next hkind => exact defineMetalevel_declares (hword hkind)
    · trivial
    · next hkind => exact postulate_declares (hword hkind)
    · trivial
    · trivial
  · trivial

/-- What a form declares was not declared before. -/
theorem Declares.free {form : SExpr} {entry : Entry} (h : env.Declares scope form entry) :
    env.signature.contains entry.1 = false := by
  cases h with
  | inferred _ hname | annotated _ hname | metalevel _ hname | postulate _ hname =>
    exact (env.freeName_yields _).of_ok hname

end Environment

end StagedTT
