import StagedTT.Proofs.Surface.LoweredTerms

/-!
# Occurrences of symbols

`e.occurrences binders` lists the symbols in `e` that stand for terms, each with the names of the
binders around it. Keywords, the keys of a dictionary and what is refused for its shape stand for no
term. An occurrence is found in the expression at its location (`SExpr.occurs_inside`).
-/

namespace StagedTT

namespace SExpr

mutual

/-- An expression and all expressions in it. -/
def subexpressions : SExpr → List SExpr
  | .num loc value => [.num loc value]
  | .str loc value => [.str loc value]
  | .sym loc name => [.sym loc name]
  | .list loc items => .list loc items :: itemSubexpressions items
  | .vector loc items => .vector loc items :: itemSubexpressions items
  | .dict loc entries => .dict loc entries :: entrySubexpressions entries
  | .quote loc body => .quote loc body :: subexpressions body
  | .splice loc body => .splice loc body :: subexpressions body

/-- Items and all expressions in them. -/
def itemSubexpressions : List SExpr → List SExpr
  | [] => []
  | item :: items => subexpressions item ++ itemSubexpressions items

/-- Keys and values and all expressions in them. -/
def entrySubexpressions : List (SExpr × SExpr) → List SExpr
  | [] => []
  | (key, value) :: entries =>
    subexpressions key ++ subexpressions value ++ entrySubexpressions entries

end

/-- A symbol in the place of a term. -/
structure Occurrence where
  location : Location
  name : String
  /-- The names of the binders around it, the innermost first. -/
  binders : List String
  deriving DecidableEq

mutual

/-- The symbols in an expression that stand for terms, if binders of these names are around the
expression. -/
def occurrences : (binders : List String) → SExpr → List Occurrence
  | binders, .sym loc name => [⟨loc, name, binders⟩]
  | binders, .quote _ body | binders, .splice _ body => occurrences binders body
  | binders, .list _ (head :: args) =>
    match head.keyword?, args with
    | some (.binder _), [.dict _ entries, body] =>
      telescopeOccurrences (fun inner => occurrences inner body) binders entries
    | some (.staging _), [body] => occurrences binders body
    | some _, _ => []
    | none, args => occurrences binders head ++ argOccurrences binders args
  | _, _ => []

/-- The symbols in arguments that stand for terms. -/
def argOccurrences : (binders : List String) → List SExpr → List Occurrence
  | _, [] => []
  | binders, arg :: args => occurrences binders arg ++ argOccurrences binders args

/-- The symbols in the types of a dictionary of binders, and those that `body` has inside all of
them. Each name is visible to what follows it. -/
def telescopeOccurrences (body : List String → List Occurrence) :
    (binders : List String) → List (SExpr × SExpr) → List Occurrence
  | binders, [] => body binders
  | binders, (key, type) :: entries =>
    occurrences binders type ++
      match key.binderName with
      | .ok name => telescopeOccurrences body (name :: binders) entries
      | .error _ => []

end

/-! ## Occurrences are subexpressions -/

theorem self_mem_subexpressions (e : SExpr) : e ∈ e.subexpressions := by
  cases e <;> simp [subexpressions]

theorem mem_itemSubexpressions {e : SExpr} {items : List SExpr} :
    e ∈ itemSubexpressions items ↔ ∃ item ∈ items, e ∈ item.subexpressions := by
  induction items with
  | nil => simp [itemSubexpressions]
  | cons item items ih => simp [itemSubexpressions, ih]

theorem mem_entrySubexpressions {e : SExpr} {entries : List (SExpr × SExpr)} :
    e ∈ entrySubexpressions entries ↔
      ∃ entry ∈ entries, e ∈ entry.1.subexpressions ∨ e ∈ entry.2.subexpressions := by
  induction entries with
  | nil => simp [entrySubexpressions]
  | cons entry entries ih => simp [entrySubexpressions, ih, or_assoc]

theorem subset_list {loc : Location} {item : SExpr} {items : List SExpr} (h : item ∈ items) :
    item.subexpressions ⊆ (list loc items).subexpressions :=
  fun _ he => List.mem_cons_of_mem _ (mem_itemSubexpressions.2 ⟨item, h, he⟩)

theorem subset_dict {loc : Location} {entry : SExpr × SExpr}
    {entries : List (SExpr × SExpr)} (h : entry ∈ entries) :
    entry.1.subexpressions ⊆ (dict loc entries).subexpressions ∧
      entry.2.subexpressions ⊆ (dict loc entries).subexpressions :=
  ⟨fun _ he => List.mem_cons_of_mem _ (mem_entrySubexpressions.2 ⟨entry, h, .inl he⟩),
    fun _ he => List.mem_cons_of_mem _ (mem_entrySubexpressions.2 ⟨entry, h, .inr he⟩)⟩

/-- An expression in which its occurrences are found. -/
def OccursInside (e : SExpr) : Prop :=
  ∀ binders, ∀ o ∈ e.occurrences binders, .sym o.location o.name ∈ e.subexpressions

theorem argOccurrences_inside {args : List SExpr} (h : ∀ arg ∈ args, arg.OccursInside)
    (binders : List String) :
    ∀ o ∈ argOccurrences binders args, .sym o.location o.name ∈ itemSubexpressions args := by
  induction args with
  | nil => exact List.forall_mem_nil _
  | cons arg args ih =>
    obtain ⟨harg, hargs⟩ := List.forall_mem_cons.1 h
    intro o ho
    rcases List.mem_append.1 ho with ho | ho
    · exact List.mem_append_left _ (harg binders o ho)
    · exact List.mem_append_right _ (ih hargs o ho)

theorem telescopeOccurrences_inside {body : SExpr} (hbody : body.OccursInside)
    {entries : List (SExpr × SExpr)} (h : ∀ entry ∈ entries, entry.2.OccursInside)
    {es : List SExpr} (hin : body.subexpressions ⊆ es)
    (hentries : ∀ entry ∈ entries, entry.2.subexpressions ⊆ es)
    (binders : List String) :
    ∀ o ∈ telescopeOccurrences (fun inner => occurrences inner body) binders entries,
      .sym o.location o.name ∈ es := by
  induction entries generalizing binders with
  | nil => exact fun o ho => hin (hbody binders o ho)
  | cons entry entries ih =>
    obtain ⟨key, type⟩ := entry
    obtain ⟨htype, hrest⟩ := List.forall_mem_cons.1 h
    obtain ⟨htypeInside, hrestInside⟩ := List.forall_mem_cons.1 hentries
    intro o ho
    rw [telescopeOccurrences] at ho
    rcases List.mem_append.1 ho with ho | ho
    · exact htypeInside (htype binders o ho)
    · cases hkey : key.binderName with
      | ok name =>
        rw [hkey] at ho
        exact ih hrest hrestInside (name :: binders) o ho
      | error d =>
        rw [hkey] at ho
        cases ho

/-- Every occurrence is a subexpression. -/
theorem occurs_inside (e : SExpr) : e.OccursInside := by
  induction e using inductLowered with
  | num | str | vector | dict => exact fun _ _ ho => nomatch ho
  | sym loc name =>
    intro binders o ho
    obtain rfl := List.mem_singleton.1 ho
    exact self_mem_subexpressions _
  | quote loc body ih | splice loc body ih =>
    exact fun binders o ho => List.mem_cons_of_mem _ (ih binders o ho)
  | list loc items ih ihdict =>
    intro binders o ho
    cases items with
    | nil => cases ho
    | cons head args =>
      unfold occurrences at ho
      split at ho
      · next dictLoc entries body hkeyword =>
        have hdict : .dict dictLoc entries ∈ [head, .dict dictLoc entries, body] := by simp
        have hbody : body ∈ [head, .dict dictLoc entries, body] := by simp
        have hentries : ∀ entry ∈ entries, entry.2.subexpressions ⊆
            (list loc [head, .dict dictLoc entries, body]).subexpressions := fun entry hentry =>
          List.Subset.trans (subset_dict hentry).2 (subset_list hdict)
        exact telescopeOccurrences_inside (ih body hbody) (ihdict _ _ hdict)
          (subset_list hbody) hentries binders o ho
      · next body hkeyword => exact subset_list (by simp) (ih body (by simp) binders o ho)
      · cases ho
      · exact List.mem_cons_of_mem _ (argOccurrences_inside ih binders o ho)

end SExpr

end StagedTT
