import StagedTT.Sharing.NodeTable
import StagedTT.Term.Basic

/-!
# Shared terms

The layers of a term as payloads of a node table. Making a term makes its parts first, so that
the table has one row for each distinct part: the partial applications of a spine, and the
arguments of a suspended call.
-/

namespace StagedTT

/-- One layer of a term, over the nodes of its parts. -/
inductive TermNode where
  | sort (level : Nat)
  | const (name : String)
  | num (value : Int64)
  | str (value : String)
  | var (index : Nat)
  | pi (domain body : Nat)
  | lam (domain body : Nat)
  | app (fn arg : Nat)
  | quote (body : Nat)
  | splice (body : Nat)
  | call (head : Nat) (args : List Nat)
  deriving DecidableEq

namespace TermNode

/-- The nodes of the parts. -/
def children : TermNode → List Nat
  | .sort _ | .const _ | .num _ | .str _ | .var _ => []
  | .pi first second | .lam first second | .app first second => [first, second]
  | .quote body | .splice body => [body]
  | .call head args => head :: args

instance : Payload TermNode := ⟨children⟩

end TermNode

namespace Term

mutual

/-- Makes the node of a term, and answers with a handle on it. -/
def share : Term → NodeTable TermNode → Nat × NodeTable TermNode
  | .sort level, t => t.make (.sort level)
  | .const name, t => t.make (.const name)
  | .num value, t => t.make (.num value)
  | .str value, t => t.make (.str value)
  | .var index, t => t.make (.var index)
  | .pi domain body, t =>
    let (domain, t) := share domain t
    let (body, t) := share body t
    t.make (.pi domain body)
  | .lam domain body, t =>
    let (domain, t) := share domain t
    let (body, t) := share body t
    t.make (.lam domain body)
  | .app fn arg, t =>
    let (fn, t) := share fn t
    let (arg, t) := share arg t
    t.make (.app fn arg)
  | .quote body, t =>
    let (body, t) := share body t
    t.make (.quote body)
  | .splice body, t =>
    let (body, t) := share body t
    t.make (.splice body)
  | .call head args, t =>
    let (head, t) := share head t
    let (args, t) := shareArgs args t
    t.make (.call head args)

/-- Makes the nodes of arguments in order. -/
def shareArgs : List Term → NodeTable TermNode → List Nat × NodeTable TermNode
  | [], t => ([], t)
  | arg :: args, t =>
    let (arg, t) := share arg t
    let (args, t) := shareArgs args t
    (arg :: args, t)

end

end Term

end StagedTT
