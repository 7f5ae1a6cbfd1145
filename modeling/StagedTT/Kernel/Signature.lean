import StagedTT.Term.Basic

/-!
# Signatures

A signature is all that has been declared, in two stores: a table in which a name is looked up,
and the order in which names were declared. It only grows: a name is declared once and its
declaration stays as it is. `insert?` adds a declaration and refuses a name that is taken; the
types of literals are added by a path of their own, which passes a name that is taken over
(`withLiteralType_eq`).

A definition lives on one side of the staging boundary: object code is what remains after
expansion, metalevel code runs during expansion and produces object code.
-/

namespace StagedTT

/-- The side of the staging boundary that a definition lives on. -/
inductive Phase where
  | object
  | metalevel
  deriving DecidableEq, Inhabited

/-- The word that names a phase. -/
def Phase.text : Phase → String
  | .object => "object"
  | .metalevel => "meta"

/-- What a name stands for. Without a value, the name is a constant of which only the type is
known. -/
structure Declaration where
  phase : Phase
  type : Term
  value? : Option Term
  deriving DecidableEq

/-- What a type of literals is declared as. -/
def Declaration.literalType : Declaration := ⟨.object, .sort 0, none⟩

/-- A name and what it is declared as. -/
abbrev Entry : Type := String × Declaration

/-- The declared names. -/
structure Signature where
  /-- What names are declared as. Of two rows for one name, the first one counts. -/
  table : List Entry
  /-- The names in the order in which they were declared. -/
  order : List String
  deriving DecidableEq

namespace Signature

/-- The signature that declares nothing. -/
def empty : Signature := ⟨[], []⟩

/-- What a name is declared as. -/
def find? (sig : Signature) (name : String) : Option Declaration := sig.table.lookup name

/-- Whether a name is declared. -/
def contains (sig : Signature) (name : String) : Bool := (sig.find? name).isSome

/-- The declared type of a name. -/
def type? (sig : Signature) (name : String) : Option Term := (sig.find? name).map (·.type)

/-- The value that a name unfolds to. -/
def value? (sig : Signature) (name : String) : Option Term := (sig.find? name).bind (·.value?)

/-- The phase of a name. -/
def phase? (sig : Signature) (name : String) : Option Phase := (sig.find? name).map (·.phase)

/-- The entries in the order in which they were made. -/
def entries (sig : Signature) : List Entry :=
  sig.order.filterMap fun name => (sig.find? name).map (name, ·)

/-- The declared names in the order in which they were declared. -/
def names (sig : Signature) : List String := sig.entries.map (·.1)

/-- The number of declarations. -/
def size (sig : Signature) : Nat := sig.order.length

/-- Whether nothing is declared. -/
def isEmpty (sig : Signature) : Bool := sig.order.isEmpty

/-- Declares a name, if it is free. -/
def insert? (sig : Signature) (name : String) (decl : Declaration) : Option Signature :=
  if sig.contains name then none else some ⟨(name, decl) :: sig.table, sig.order ++ [name]⟩

/-- What there is to say about a name that is declared twice. -/
def redefinitionMessage (name : String) : String := s!"The name {name} is already defined"

/-- Declares a name as a type of literals, unless it is taken. -/
def withLiteralType (sig : Signature) (name : String) : Signature :=
  if sig.contains name then sig
  else
    { table := (name, .literalType) :: sig.table
      order := sig.order ++ [name] }

/-- Declares the types of number and string literals, each unless its name is taken. -/
def withBaseTypes (sig : Signature) : Signature := ["number", "string"].foldl withLiteralType sig

/-! ## Lookups -/

variable {sig sig' : Signature} {name : String} {decl : Declaration}

theorem insert?_eq_none : sig.insert? name decl = none ↔ sig.contains name = true := by
  unfold insert?
  split <;> simp_all

theorem insert?_eq_some :
    sig.insert? name decl = some sig' ↔
      sig.contains name = false ∧ sig' = ⟨(name, decl) :: sig.table, sig.order ++ [name]⟩ := by
  unfold insert?
  cases sig.contains name <;> simp [eq_comm]

/-- **The two ways to declare a name agree**: a type of literals is declared as any name is, and
where its name is taken nothing is done. -/
theorem withLiteralType_eq (sig : Signature) (name : String) :
    sig.withLiteralType name = (sig.insert? name .literalType).getD sig := by
  unfold withLiteralType insert?
  split <;> rfl

theorem find?_insert? (h : sig.insert? name decl = some sig') (other : String) :
    sig'.find? other = if other = name then some decl else sig.find? other := by
  obtain ⟨-, rfl⟩ := insert?_eq_some.1 h
  by_cases hn : other = name
  · simp [find?, hn]
  · simp [find?, List.lookup_cons, hn, beq_eq_false_iff_ne.2 hn]

theorem mem_of_find? (h : sig.find? name = some decl) : (name, decl) ∈ sig.table := by
  obtain ⟨later, earlier, hsplit, -⟩ := List.lookup_eq_some_iff.1 h
  rw [hsplit]
  exact List.mem_append_right _ List.mem_cons_self

theorem contains_eq_true : sig.contains name = true ↔ ∃ decl, sig.find? name = some decl := by
  rw [contains, Option.isSome_iff_exists]

end Signature

/-- Bounds on the work that a single query may do. -/
structure Limits where
  /-- Reduction steps for one normalization. -/
  fuel : Nat := 100000
  /-- Calls of metalevel definitions that may be expanded in one term. -/
  expansions : Nat := 1000
  deriving DecidableEq

/-- What every judgment of the kernel depends on. -/
structure Environment where
  signature : Signature
  limits : Limits
  deriving DecidableEq

end StagedTT
