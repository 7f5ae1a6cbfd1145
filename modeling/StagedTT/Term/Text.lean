import StagedTT.Term.Spine
import StagedTT.Text.Quoted

/-!
# The text of a term

Compound terms are written in parentheses, and a nest of applications as one list of the head
and its arguments. Binders have no name to show and are written as `_`.
-/

namespace StagedTT

namespace Term

mutual

/-- The text of a term, with the parentheses of an application left out if `bare`. -/
def textIn : (bare : Bool) → Term → String
  | _, .sort level => s!"(sort {level})"
  | _, .const name => name
  | _, .num value => toString value
  | _, .str value => Text.quoted value
  | _, .var index => s!"#{index}"
  | _, .pi domain body =>
    "(pi \x7b_: " ++ textIn false domain ++ "\x7d " ++ textIn false body ++ ")"
  | _, .lam domain body =>
    "(fn \x7b_: " ++ textIn false domain ++ "\x7d " ++ textIn false body ++ ")"
  | bare, .app fn arg =>
    let inner := textIn true fn ++ " " ++ textIn false arg
    if bare then inner else "(" ++ inner ++ ")"
  | _, .quote body => "(quote " ++ textIn false body ++ ")"
  | _, .splice body => "(splice " ++ textIn false body ++ ")"
  | _, .call head args => "(expand " ++ textIn false head ++ argsText args ++ ")"

/-- The texts of arguments, each after a blank. -/
def argsText : List Term → String
  | [] => ""
  | arg :: args => " " ++ textIn false arg ++ argsText args

end

/-- The text of a term. -/
def text (t : Term) : String := t.textIn false

end Term

instance : ToString Term := ⟨Term.text⟩

end StagedTT
