import StagedTT.Surface.Diagnostic
import StagedTT.Surface.Scope
import StagedTT.Term.Spine

/-!
# Lowering

An expression becomes a kernel term: names turn into indices and constants, a dictionary of
binders into nested binders, a form into an application. A form whose head is a metalevel
definition is a call and stays suspended.

Five words are keywords at the head of a form, even where a binder has such a name.
-/

namespace StagedTT

/-! ## Keywords -/

/-- The words that form a binder. -/
inductive Binder where
  | fn
  | pi
  deriving DecidableEq

namespace Binder

/-- The word at the head of the form. -/
def word : Binder → String
  | .fn => "fn"
  | .pi => "pi"

/-- How the form is written. -/
def usage : Binder → String
  | .fn => "expected (fn \x7bx: A, ...\x7d body)"
  | .pi => "expected (pi \x7bx: A, ...\x7d B)"

/-- The binder over a domain and a body. -/
def toTerm : Binder → (domain body : Term) → Term
  | .fn => .lam
  | .pi => .pi

end Binder

/-- The words that cross the staging boundary. -/
inductive Staging where
  | quote
  | splice
  deriving DecidableEq

namespace Staging

/-- The word at the head of the form. -/
def word : Staging → String
  | .quote => "quote"
  | .splice => "splice"

/-- The staging construct around a body. -/
def toTerm : Staging → (body : Term) → Term
  | .quote => .quote
  | .splice => .splice

end Staging

/-- The words that give a form a meaning of its own. -/
inductive Keyword where
  | binder (binder : Binder)
  | staging (staging : Staging)
  | sort
  deriving DecidableEq

/-- The keyword that a word is. -/
def Keyword.ofWord? : String → Option Keyword
  | "fn" => some (.binder .fn)
  | "pi" => some (.binder .pi)
  | "sort" => some .sort
  | "quote" => some (.staging .quote)
  | "splice" => some (.staging .splice)
  | _ => none

namespace SExpr

/-- The keyword that a symbol is. -/
def keyword? (e : SExpr) : Option Keyword := e.symbol?.bind Keyword.ofWord?

/-! ## Names -/

/-- A name without the colons around it. -/
def trimColons (name : String) : String :=
  let rest := name.toList.dropWhile (· = ':')
  String.ofList (rest.reverse.dropWhile (· = ':')).reverse

/-- The name that a key of a binder dictionary gives, which may be written `x`, `:x` or `x:`. -/
def binderName (key : SExpr) : Except Diagnostic String :=
  match key with
  | .sym loc word =>
    let name := trimColons word
    if name = "" then loc.fail (.malformedForm word "empty binder name") else .ok name
  | _ => key.location.fail (.malformedForm key.text "binder names must be symbols")

/-- What a symbol stands for. -/
def lowerSymbol (scope : Scope) (loc : Location) (name : String) : Except Diagnostic Term :=
  match scope.resolve? name with
  | some (.bound index) => .ok (.var index)
  | some (.defined _) => .ok (.const name)
  | none => loc.fail (.unknownIdentifier name)

/-- Whether a form with this head is a call of a metalevel definition. -/
def isMetalevelHead (scope : Scope) (head : SExpr) : Bool :=
  head.symbol?.bind scope.resolve? = some (.defined .metalevel)

/-- The universe whose level a form gives. -/
def lowerSort : SExpr → Except Diagnostic Term
  | .num loc level =>
    if 0 ≤ level then .ok (.sort level.toNatClampNeg)
    else loc.fail (.malformedForm "sort" "the level must be a non-negative number")
  | e => e.location.fail (.malformedForm "sort" "the level must be a non-negative number")

/-! ## Terms -/

mutual

/-- The term that an expression stands for. -/
def lower : Scope → SExpr → Except Diagnostic Term
  | _, .num _ value => .ok (.num value)
  | _, .str _ value => .ok (.str value)
  | scope, .sym loc name => lowerSymbol scope loc name
  | scope, .quote _ body => do
    let body ← lower scope body
    return .quote body
  | scope, .splice _ body => do
    let body ← lower scope body
    return .splice body
  | _, .vector loc items =>
    loc.fail (.malformedForm (vector loc items).text "vectors are not terms")
  | _, .dict loc entries =>
    loc.fail (.malformedForm (dict loc entries).text
      "dictionaries are only allowed as binder lists")
  | _, .list loc [] => loc.fail (.malformedForm "()" "empty application")
  | scope, .list loc (head :: args) =>
    match head.keyword?, args with
    | some (.binder binder), [.dict _ (entry :: entries), body] =>
      lowerTelescope binder (fun inner => lower inner body) scope (entry :: entries)
    | some (.binder _), [params, _] =>
      params.location.fail
        (.malformedForm params.text "expected a non-empty binder dictionary")
    | some (.binder binder), _ => loc.fail (.malformedForm binder.word binder.usage)
    | some .sort, [level] => lowerSort level
    | some .sort, _ => loc.fail (.malformedForm "sort" "expected (sort n)")
    | some (.staging staging), [body] => do
      let body ← lower scope body
      return staging.toTerm body
    | some (.staging staging), _ =>
      loc.fail (.malformedForm staging.word "expected exactly one argument")
    | none, args => do
      let fn ← lower scope head
      let args ← lowerArgs scope args
      return if isMetalevelHead scope head then .call fn args else fn.applyAll args

/-- The terms that arguments stand for. -/
def lowerArgs : Scope → List SExpr → Except Diagnostic (List Term)
  | _, [] => .ok []
  | scope, arg :: args => do
    let arg ← lower scope arg
    let args ← lowerArgs scope args
    return arg :: args

/-- Nested binders, one for each entry of a dictionary, around what `body` is in their scope.
Each name is visible to what follows it. -/
def lowerTelescope (binder : Binder) (body : Scope → Except Diagnostic Term) :
    Scope → List (SExpr × SExpr) → Except Diagnostic Term
  | scope, [] => body scope
  | scope, (key, type) :: entries => do
    let name ← key.binderName
    let domain ← lower scope type
    let body ← lowerTelescope binder body (scope.bind name) entries
    return binder.toTerm domain body

end

end SExpr

end StagedTT
