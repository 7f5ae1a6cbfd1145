import StagedTT.Kernel.Typing
import StagedTT.Surface.Expansion
import StagedTT.Surface.Lowering

/-!
# Top-level forms

A form at the top level declares a name: `defn` an object definition, with or without a type
annotation, `defmeta` a metalevel definition, and `axiom` a constant without a value. What a
definition stores is the normal form of what was checked. Metalevel code is not expanded when
it is defined, only where it is called.

Faults in an expression are reported where they are; what the kernel refuses, and calls that
cannot be expanded, are reported at the form.
-/

namespace StagedTT

/-- The words that a top-level form may start with. -/
inductive FormKind where
  | defn
  | defmeta
  | postulate
  deriving DecidableEq

/-- The kind of form that a word starts. -/
def FormKind.ofWord? : String → Option FormKind
  | "defn" => some .defn
  | "defmeta" => some .defmeta
  | "axiom" => some .postulate
  | _ => none

/-- The term of object code that an expression stands for, all calls in it expanded; `loc` is
where a failing call is reported. -/
def SExpr.elaborate [IndexArithmetic] (env : Environment) (scope : Scope) (loc : Location)
    (e : SExpr) : Except Diagnostic Term := do
  let term ← e.lower scope
  loc.report (env.expand term)

namespace Environment

/-- The name that a form defines, which must be free. -/
def freeName (env : Environment) (name : SExpr) : Except Diagnostic String :=
  match name with
  | .sym loc word =>
    if env.signature.contains word then loc.fail (.redefinition word) else .ok word
  | _ => name.location.fail (.malformedForm name.text "definition names must be symbols")

/-- The type of an object definition: the annotation, if the term is of that type, or the
inferred one. -/
def definitionType [IndexArithmetic] (env : Environment) (scope : Scope) (loc : Location)
    (annotation? : Option SExpr) (term : Term) : Except Diagnostic Term :=
  match annotation? with
  | none => loc.reportKernel (env.infer (.empty .object) term)
  | some annotation => do
    let type ← annotation.elaborate env scope loc
    let _ ← loc.reportKernel (env.inferSort (.empty .object) "definition annotation" type)
    loc.reportKernel (env.check (.empty .object) term type)
    return type

end Environment

/-! ## Elaborations -/

/-- A computation that works on an environment and may fail. What it has done to the environment
is not undone when it fails. -/
abbrev Elaboration (α : Type) : Type := ExceptT Diagnostic (StateM Environment) α

namespace Elaboration

/-- What is found out about the environment, which stays as it is. -/
def ask {α : Type} (question : Environment → Except Diagnostic α) : Elaboration α :=
  fun env => (question env, env)

/-- Makes an entry. That its name is taken is reported at `loc`. -/
def install (loc : Location) (entry : Entry) : Elaboration Entry := fun env =>
  match env.signature.insert? entry.1 entry.2 with
  | some signature => (.ok entry, { env with signature })
  | none => (loc.fail (.redefinition entry.1), env)

/-- Makes an object definition. -/
def defineObject [IndexArithmetic] (scope : Scope) (loc : Location) (name : SExpr)
    (annotation? : Option SExpr) (body : SExpr) : Elaboration Entry := do
  let name ← ask (·.freeName name)
  let term ← ask (body.elaborate · scope loc)
  let type ← ask (·.definitionType scope loc annotation? term)
  let value ← ask fun env => loc.reportKernel (env.normalize term)
  install loc (name, ⟨.object, type, some value⟩)

/-- Makes a metalevel definition. -/
def defineMetalevel [IndexArithmetic] (scope : Scope) (loc : Location) (name body : SExpr) :
    Elaboration Entry := do
  let name ← ask (·.freeName name)
  let term ← ask fun _ => body.lower scope
  let type ← ask fun env => loc.reportKernel (env.infer (.empty .metalevel) term)
  let value ← ask fun env => loc.reportKernel (env.normalize term)
  install loc (name, ⟨.metalevel, type, some value⟩)

/-- Declares a constant without a value. -/
def postulate [IndexArithmetic] (scope : Scope) (loc : Location) (name type : SExpr) :
    Elaboration Entry := do
  let name ← ask (·.freeName name)
  let type ← ask (type.elaborate · scope loc)
  let _ ← ask fun env => loc.reportKernel (env.inferSort (.empty .object) "axiom type" type)
  install loc (name, ⟨.object, type, none⟩)

/-- Refuses a form. -/
def refuse (loc : Location) (form reason : String) : Elaboration Entry :=
  ask fun _ => loc.fail (.malformedForm form reason)

/-- Declares what a top-level form says. -/
def form [IndexArithmetic] (scope : Scope) (form : SExpr) : Elaboration Entry :=
  match form with
  | .list loc items =>
    match form.headSymbol?.bind FormKind.ofWord?, items with
    | some .defn, [_, name, body] => defineObject scope loc name none body
    | some .defn, [_, name, type, body] => defineObject scope loc name (some type) body
    | some .defn, _ => refuse loc "defn" "expected (defn name [type] body)"
    | some .defmeta, [_, name, body] => defineMetalevel scope loc name body
    | some .defmeta, _ => refuse loc "defmeta" "expected (defmeta name body)"
    | some .postulate, [_, name, type] => postulate scope loc name type
    | some .postulate, _ => refuse loc "axiom" "expected (axiom name type)"
    | none, _ => refuse loc form.text "expected defn, defmeta or axiom"
  | _ => refuse form.location form.text "top-level forms must be lists"

/-! ## Queries -/

/-- The term of object code that an expression stands for. -/
def expression [IndexArithmetic] (scope : Scope) (e : SExpr) : Elaboration Term :=
  ask (e.elaborate · scope e.location)

/-- The type of an expression. -/
def typeOf [IndexArithmetic] (scope : Scope) (e : SExpr) : Elaboration Term := do
  let term ← expression scope e
  ask fun env => e.location.reportKernel (env.infer (.empty .object) term)

/-- The normal form of an expression. -/
def normalForm [IndexArithmetic] (scope : Scope) (e : SExpr) : Elaboration Term := do
  let term ← expression scope e
  ask fun env => e.location.reportKernel (env.normalize term)

end Elaboration

end StagedTT
