import StagedTT.Surface.Form
import StagedTT.Surface.Report

/-!
# Sessions

A session takes top-level forms one after another. What a form declares is visible to all later
ones; a form that fails changes nothing. Queries look at an expression and declare nothing.
-/

namespace StagedTT

/-- What to do with the forms after one that fails. -/
inductive Policy where
  /-- Leave them. -/
  | failFast
  /-- Go on, and report all failures together. -/
  | collectAll
  deriving DecidableEq

/-- All that has been declared, and the names that expressions may use. -/
structure Session where
  env : Environment
  scope : Scope
  policy : Policy
  deriving DecidableEq

namespace Session

/-- A session in which only the types of literals are declared. -/
def start (limits : Limits) (policy : Policy) : Session :=
  let signature := Signature.empty.withBaseTypes
  ⟨⟨signature, limits⟩, .ofSignature signature, policy⟩

/-- Works on the environment of a session, and leaves it as it is left by the work. -/
def perform {α : Type} (s : Session) (work : Elaboration α) : Except Diagnostic α × Session :=
  let (result, env) := work s.env
  (result, { s with env })

/-- Declares what one form says. -/
def define [IndexArithmetic] (s : Session) (form : SExpr) : Except Diagnostic Entry × Session :=
  match s.perform (.form s.scope form) with
  | (.ok entry, next) =>
    (.ok entry, { next with scope := next.scope.define entry.1 entry.2.phase })
  | (.error diagnostic, next) => (.error diagnostic, next)

/-- What came of a list of forms. -/
structure Outcome where
  installed : List Entry
  diagnostics : List Diagnostic
  session : Session

/-- Declares what each form says, up to the first failure or past all of them, as the policy
has it. -/
def defineEach [IndexArithmetic] (s : Session) : List SExpr → Outcome
  | [] => ⟨[], [], s⟩
  | form :: forms =>
    match s.define form with
    | (.ok entry, next) =>
      let rest := next.defineEach forms
      { rest with installed := entry :: rest.installed }
    | (.error diagnostic, next) =>
      match next.policy with
      | .failFast => ⟨[], [diagnostic], next⟩
      | .collectAll =>
        let rest := next.defineEach forms
        { rest with diagnostics := diagnostic :: rest.diagnostics }

/-- Declares what a list of forms says, and answers with all that was declared if no form
failed. -/
def load [IndexArithmetic] (s : Session) (forms : List SExpr) :
    Except Report (List Entry) × Session :=
  let outcome := s.defineEach forms
  let result :=
    match outcome.diagnostics, s.policy with
    | [], _ => .ok outcome.installed
    | diagnostic :: _, .failFast => .error (.single diagnostic)
    | diagnostics, .collectAll => .error (.collection (diagnostics.map .single))
  (result, outcome.session)

/-! ## Queries -/

/-- The term of object code that an expression stands for. -/
def elaborate [IndexArithmetic] (s : Session) (e : SExpr) : Except Diagnostic Term :=
  (s.perform (.expression s.scope e)).1

/-- The type of an expression. -/
def infer [IndexArithmetic] (s : Session) (e : SExpr) : Except Diagnostic Term :=
  (s.perform (.typeOf s.scope e)).1

/-- The normal form of an expression. -/
def normalize [IndexArithmetic] (s : Session) (e : SExpr) : Except Diagnostic Term :=
  (s.perform (.normalForm s.scope e)).1

/-- The type of a closed term of object code. -/
def inferTerm [IndexArithmetic] (s : Session) (t : Term) : Except KernelError Term :=
  s.env.infer (.empty .object) t

/-- The normal form of a term. -/
def normalizeTerm [IndexArithmetic] (s : Session) (t : Term) : Except KernelError Term :=
  s.env.normalize t

/-! ## Calls -/

/-- What may be asked of a session. -/
inductive Call where
  | define (form : SExpr)
  | load (forms : List SExpr)
  | elaborate (e : SExpr)
  | infer (e : SExpr)
  | normalize (e : SExpr)

/-- What a session answers. -/
inductive Answer where
  | defined (result : Except Diagnostic Entry)
  | loaded (result : Except Report (List Entry))
  | term (result : Except Diagnostic Term)

/-- The answer to a call, and the session after it. -/
def call [IndexArithmetic] (s : Session) : Call → Answer × Session
  | .define form => (s.define form).map .defined id
  | .load forms => (s.load forms).map .loaded id
  | .elaborate e => (s.perform (.expression s.scope e)).map .term id
  | .infer e => (s.perform (.typeOf s.scope e)).map .term id
  | .normalize e => (s.perform (.normalForm s.scope e)).map .term id

end Session

end StagedTT
