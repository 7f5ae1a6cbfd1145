import StagedTT.Text.Quoted

/-!
# Symbolic expressions

The trees that a reader hands over: numbers, strings, symbols, three kinds of brackets, and the
two marks of staging. Every node knows where it starts in the source text. Locations serve
diagnostics alone, but they are part of an expression, and so of its equality.
-/

namespace StagedTT

/-- Where an expression starts in its source text, and how long it is. -/
structure Location where
  line : Nat := 0
  column : Nat := 0
  size : Nat := 0
  deriving DecidableEq, Inhabited

/-- Line and column. -/
def Location.text (loc : Location) : String := s!"{loc.line}:{loc.column}"

/-- A symbolic expression. -/
inductive SExpr where
  | num (loc : Location) (value : Int64)
  | str (loc : Location) (value : String)
  | sym (loc : Location) (name : String)
  /-- A list in parentheses: a form. -/
  | list (loc : Location) (items : List SExpr)
  /-- A list in brackets. -/
  | vector (loc : Location) (items : List SExpr)
  /-- Keys and values in braces, as they were written. -/
  | dict (loc : Location) (entries : List (SExpr × SExpr))
  | quote (loc : Location) (body : SExpr)
  | splice (loc : Location) (body : SExpr)
  deriving Inhabited

namespace SExpr

@[elab_as_elim, induction_eliminator]
theorem induct {motive : SExpr → Prop}
    (num : ∀ loc value, motive (.num loc value))
    (str : ∀ loc value, motive (.str loc value))
    (sym : ∀ loc name, motive (.sym loc name))
    (list : ∀ loc items, (∀ item ∈ items, motive item) → motive (.list loc items))
    (vector : ∀ loc items, (∀ item ∈ items, motive item) → motive (.vector loc items))
    (dict : ∀ loc entries, (∀ entry ∈ entries, motive entry.1 ∧ motive entry.2) →
      motive (.dict loc entries))
    (quote : ∀ loc body, motive body → motive (.quote loc body))
    (splice : ∀ loc body, motive body → motive (.splice loc body))
    (e : SExpr) : motive e :=
  @SExpr.rec motive (fun items => ∀ item ∈ items, motive item)
    (fun entries => ∀ entry ∈ entries, motive entry.1 ∧ motive entry.2)
    (fun entry => motive entry.1 ∧ motive entry.2)
    num str sym list vector dict quote splice
    (fun _ h => nomatch h)
    (fun _ _ first rest => List.forall_mem_cons.2 ⟨first, rest⟩)
    (fun _ h => nomatch h)
    (fun _ _ first rest => List.forall_mem_cons.2 ⟨first, rest⟩)
    (fun _ _ key value => ⟨key, value⟩) e

/-! ## Equality -/

mutual

/-- Structural equality, locations included. -/
def beq : SExpr → SExpr → Bool
  | .num l v, .num k w => l == k && v == w
  | .str l s, .str k r => l == k && s == r
  | .sym l n, .sym k m => l == k && n == m
  | .list l xs, .list k ys => l == k && beqItems xs ys
  | .vector l xs, .vector k ys => l == k && beqItems xs ys
  | .dict l xs, .dict k ys => l == k && beqEntries xs ys
  | .quote l b, .quote k c => l == k && beq b c
  | .splice l b, .splice k c => l == k && beq b c
  | _, _ => false

/-- Structural equality of items. -/
def beqItems : List SExpr → List SExpr → Bool
  | [], [] => true
  | x :: xs, y :: ys => beq x y && beqItems xs ys
  | _, _ => false

/-- Structural equality of dictionary entries. -/
def beqEntries : List (SExpr × SExpr) → List (SExpr × SExpr) → Bool
  | [], [] => true
  | (k, v) :: xs, (l, w) :: ys => beq k l && beq v w && beqEntries xs ys
  | _, _ => false

end

private theorem beqItems_iff {xs : List SExpr} (h : ∀ x ∈ xs, ∀ y, beq x y = true ↔ x = y)
    (ys : List SExpr) : beqItems xs ys = true ↔ xs = ys := by
  induction xs generalizing ys with
  | nil => cases ys <;> simp [beqItems]
  | cons x xs ih =>
    obtain ⟨hx, hxs⟩ := List.forall_mem_cons.1 h
    cases ys with
    | nil => simp [beqItems]
    | cons y ys => simp [beqItems, hx, ih hxs]

private theorem beqEntries_iff {xs : List (SExpr × SExpr)}
    (h : ∀ x ∈ xs, (∀ y, beq x.1 y = true ↔ x.1 = y) ∧ ∀ y, beq x.2 y = true ↔ x.2 = y)
    (ys : List (SExpr × SExpr)) : beqEntries xs ys = true ↔ xs = ys := by
  induction xs generalizing ys with
  | nil => cases ys <;> simp [beqEntries]
  | cons x xs ih =>
    obtain ⟨⟨hk, hv⟩, hxs⟩ := List.forall_mem_cons.1 h
    obtain ⟨k, v⟩ := x
    cases ys with
    | nil => simp [beqEntries]
    | cons y ys => obtain ⟨l, w⟩ := y; simp_all [beqEntries]

theorem beq_iff (e e' : SExpr) : beq e e' = true ↔ e = e' := by
  induction e generalizing e' with
  | num | str | sym => cases e' <;> simp [beq]
  | list loc items ih | vector loc items ih => cases e' <;> simp [beq, beqItems_iff ih]
  | dict loc entries ih => cases e' <;> simp [beq, beqEntries_iff ih]
  | quote loc body ih | splice loc body ih => cases e' <;> simp [beq, ih]

instance : DecidableEq SExpr := fun e e' => decidable_of_iff _ (beq_iff e e')

/-! ## Views -/

/-- Where an expression starts. -/
def location : SExpr → Location
  | .num loc _ | .str loc _ | .sym loc _ | .list loc _ | .vector loc _ | .dict loc _
  | .quote loc _ | .splice loc _ => loc

/-- The name that a symbol spells. -/
def symbol? : SExpr → Option String
  | .sym _ name => some name
  | _ => none

/-- The items of a form. -/
def items? : SExpr → Option (List SExpr)
  | .list _ items => some items
  | _ => none

/-- The symbol that a form starts with. -/
def headSymbol? (e : SExpr) : Option String := do (← (← e.items?).head?).symbol?

/-! ## Text -/

mutual

/-- An expression as it would be written. -/
def text : SExpr → String
  | .num _ value => toString value
  | .str _ value => Text.quoted value
  | .sym _ name => name
  | .list _ items => "(" ++ " ".intercalate (itemTexts items) ++ ")"
  | .vector _ items => "[" ++ " ".intercalate (itemTexts items) ++ "]"
  | .dict _ entries => "\x7b" ++ ", ".intercalate (entryTexts entries) ++ "\x7d"
  | .quote _ body => "\x27" ++ text body
  | .splice _ body => "~" ++ text body

/-- The text of each item. -/
def itemTexts : List SExpr → List String
  | [] => []
  | item :: items => text item :: itemTexts items

/-- The text of each entry: the key, a blank and the value. -/
def entryTexts : List (SExpr × SExpr) → List String
  | [] => []
  | (key, value) :: entries => (text key ++ " " ++ text value) :: entryTexts entries

end

instance : ToString SExpr := ⟨text⟩

end SExpr

end StagedTT
