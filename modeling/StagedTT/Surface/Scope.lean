import StagedTT.Kernel.Signature

/-!
# Scopes

What the names in an expression stand for. The enclosing binders hide definitions, and an inner
binder hides an outer one of its name.
-/

namespace StagedTT

/-- What a name stands for. -/
inductive Resolution where
  /-- A binder, by its index from the innermost one outward. -/
  | bound (index : Nat)
  /-- A definition of a phase. -/
  | defined (phase : Phase)
  deriving DecidableEq

/-- The visible names. -/
structure Scope where
  /-- The names of the enclosing binders, the innermost first. -/
  binders : List String
  /-- The defined names with their phases, the latest first. -/
  definitions : List (String × Phase)
  deriving DecidableEq

namespace Scope

/-- The scope without names. -/
def empty : Scope := ⟨[], []⟩

/-- The scope inside a binder. -/
def bind (scope : Scope) (name : String) : Scope :=
  { scope with binders := name :: scope.binders }

/-- The scope after a definition, which hides an earlier one of its name. -/
def define (scope : Scope) (name : String) (phase : Phase) : Scope :=
  { scope with definitions := (name, phase) :: scope.definitions }

/-- The scope of closed expressions over a signature, whose entries are defined one after another.
-/
def ofSignature (sig : Signature) : Scope :=
  sig.entries.foldl (fun scope (name, decl) => scope.define name decl.phase) empty

/-- The number of binders. -/
def depth (scope : Scope) : Nat := scope.binders.length

/-- The phase of the definition of a name, whether or not a binder hides it. -/
def phase? (scope : Scope) (name : String) : Option Phase := scope.definitions.lookup name

/-- What a name stands for. -/
def resolve? (scope : Scope) (name : String) : Option Resolution :=
  match scope.binders.idxOf? name with
  | some index => some (.bound index)
  | none => (scope.phase? name).map .defined

theorem phase?_define (scope : Scope) (name : String) (phase : Phase) (other : String) :
    (scope.define name phase).phase? other =
      if other = name then some phase else scope.phase? other := by
  by_cases h : other = name
  · simp [phase?, define, h]
  · simp [phase?, define, List.lookup_cons, h, beq_eq_false_iff_ne.2 h]

end Scope

end StagedTT
