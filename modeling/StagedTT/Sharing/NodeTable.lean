/-!
# Node tables

A node table keeps one node for each payload, so that equal payloads share a node as long as it
lives. A node lives while a handle to it is held, or while the payload of some row refers to it.
A row does not keep its own node alive: it stays behind when the node dies, is counted, and is
used again when its payload is made anew, until `purge` takes it out.
-/

namespace StagedTT

/-- Payloads that may refer to nodes. -/
class Payload (α : Type) where
  /-- The nodes that a payload refers to, once for each reference. -/
  children : α → List Nat

/-- The rows of a table and the handles that are held on its nodes. -/
structure NodeTable (α : Type) where
  /-- Each payload with its node, the latest first. -/
  rows : List (α × Nat)
  /-- The node that each held handle refers to. -/
  held : List Nat
  /-- The number of nodes made so far, and so the next new node. -/
  next : Nat

namespace NodeTable

variable {α : Type} [DecidableEq α] [Payload α]

/-- The table without rows. -/
def empty : NodeTable α := ⟨[], [], 0⟩

/-- The number of rows, those of dead nodes included. -/
def size (t : NodeTable α) : Nat := t.rows.length

/-- Whether there is no row. -/
def isEmpty (t : NodeTable α) : Bool := t.rows.isEmpty

/-- Whether a node is still referred to. -/
def isLive (t : NodeTable α) (node : Nat) : Bool :=
  t.held.contains node || t.rows.any fun row => (Payload.children row.1).contains node

/-- The live node of a payload. -/
def find? (t : NodeTable α) (payload : α) : Option Nat :=
  (t.rows.lookup payload).filter t.isLive

/-- The handles that are left when those in a payload are given up. -/
def heldWithout (t : NodeTable α) (payload : α) : List Nat :=
  (Payload.children payload).foldl List.erase t.held

/-- Makes the node of a payload and answers with a handle on it. The payload brings the handles
that it refers to, which are not held by anyone else from then on. -/
def make (t : NodeTable α) (payload : α) : Nat × NodeTable α :=
  match t.find? payload with
  | some node => (node, { t with held := node :: t.heldWithout payload })
  | none =>
    (t.next,
      { rows := (payload, t.next) :: t.rows.filter (·.1 ≠ payload)
        held := t.next :: t.heldWithout payload
        next := t.next + 1 })

/-- Gives up one handle on a node. -/
def drop (t : NodeTable α) (node : Nat) : NodeTable α := { t with held := t.held.erase node }

/-- Takes out the rows whose nodes are dead. -/
def purge (t : NodeTable α) : NodeTable α :=
  { t with rows := t.rows.filter fun row => t.isLive row.2 }

end NodeTable

/-- Texts refer to no node. -/
instance : Payload String := ⟨fun _ => []⟩

end StagedTT
