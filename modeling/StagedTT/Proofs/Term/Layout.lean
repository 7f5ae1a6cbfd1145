import StagedTT.Proofs.Text.Layout
import StagedTT.Term.Text

/-!
# Layouts of terms

The text of a term is the text of a layout (`Term.toList_text`). A term of several parts is laid out
as a list in parentheses that starts with a word, but an application as the list of a head and its
arguments, which starts with the layout of the head. So the layout is put together from items, the
head and the arguments, and only where the term is not applied itself.
-/

namespace StagedTT

open Text (Layout IsWord)

namespace Text.Layout

/-- A list in parentheses that starts with a word. -/
def form (word : String) (rest : List Layout) : Layout := .group .round (.word word.toList) rest

/-- The parameter of a binder that has no name to show. -/
def parameter (type : Layout) : Layout := .group .curly (.word "_:".toList) [type]

/-- A head and its arguments, in parentheses if there are arguments. -/
def spine : Layout × List Layout → Layout
  | (head, []) => head
  | (head, arg :: args) => .group .round head (arg :: args)

theorem chars_form (word : String) (rest : List Layout) :
    (form word rest).chars = '(' :: (word.toList ++ charsAll rest ++ [')']) := rfl

theorem chars_parameter (type : Layout) :
    (parameter type).chars = '\x7b' :: '_' :: ':' :: ' ' :: (type.chars ++ ['\x7d']) := by
  simp [parameter, chars, charsAll, Bracket.opening, Bracket.closing]

theorem spine_concat (head : Layout) (args : List Layout) (arg : Layout) :
    spine (head, args ++ [arg]) = .group .round head (args ++ [arg]) := by
  cases args <;> rfl

end Text.Layout

namespace Term

mutual

/-- The layouts of the head of a term and of the arguments that it is applied to. -/
def items : Term → Layout × List Layout
  | .sort level => (.form "sort" [.word level.repr.toList], [])
  | .const name => (.word name.toList, [])
  | .num value => (.word (toString value).toList, [])
  | .str value => (.quoted value, [])
  | .var index => (.word ('#' :: index.repr.toList), [])
  | .pi domain body => (.form "pi" [.parameter (.spine (items domain)), .spine (items body)], [])
  | .lam domain body => (.form "fn" [.parameter (.spine (items domain)), .spine (items body)], [])
  | .app fn arg => ((items fn).1, (items fn).2 ++ [.spine (items arg)])
  | .quote body => (.form "quote" [.spine (items body)], [])
  | .splice body => (.form "splice" [.spine (items body)], [])
  | .call head args => (.form "expand" (.spine (items head) :: layouts args), [])

/-- The layouts of terms. -/
def layouts : List Term → List Layout
  | [] => []
  | t :: ts => .spine (items t) :: layouts ts

end

/-- The layout of a term. -/
def layout (t : Term) : Layout := .spine t.items

theorem layouts_eq_map (ts : List Term) : layouts ts = ts.map layout := by
  induction ts with
  | nil => rfl
  | cons t ts ih => exact congrArg (layout t :: ·) ih

@[simp] theorem items_sort (l : Nat) :
    (sort l).items = (.form "sort" [.word l.repr.toList], []) := rfl

@[simp] theorem items_const (n : String) : (const n).items = (.word n.toList, []) := rfl

@[simp] theorem items_num (v : Int64) : (num v).items = (.word (toString v).toList, []) := rfl

@[simp] theorem items_str (s : String) : (str s).items = (.quoted s, []) := rfl

@[simp] theorem items_var (i : Nat) : (var i).items = (.word ('#' :: i.repr.toList), []) := rfl

@[simp] theorem items_pi (A B : Term) :
    (pi A B).items = (.form "pi" [.parameter A.layout, B.layout], []) := rfl

@[simp] theorem items_lam (A b : Term) :
    (lam A b).items = (.form "fn" [.parameter A.layout, b.layout], []) := rfl

@[simp] theorem items_app (f a : Term) :
    (app f a).items = (f.items.1, f.items.2 ++ [a.layout]) := rfl

@[simp] theorem items_quote (b : Term) : (quote b).items = (.form "quote" [b.layout], []) := rfl

@[simp] theorem items_splice (b : Term) : (splice b).items = (.form "splice" [b.layout], []) := rfl

@[simp] theorem items_call (h : Term) (as : List Term) :
    (call h as).items = (.form "expand" (h.layout :: as.map layout), []) := by
  rw [← layouts_eq_map]
  rfl

/-! ## The text of a term is the text of its layout -/

theorem toList_argsText {ts : List Term}
    (h : ∀ t ∈ ts, (t.textIn false).toList = t.layout.chars) :
    (argsText ts).toList = Layout.charsAll (ts.map layout) := by
  induction ts with
  | nil => rfl
  | cons t ts ih =>
    obtain ⟨ht, hts⟩ := List.forall_mem_cons.1 h
    simp [argsText, Layout.charsAll, ht, ih hts]

/-- The text of a term is that of its layout, and without the parentheses of an application it is
that of its items. -/
theorem toList_textIn (t : Term) :
    (t.textIn false).toList = t.layout.chars ∧
      (t.textIn true).toList = t.items.1.chars ++ Layout.charsAll t.items.2 := by
  have hbare : ∀ {t : Term} {x : Layout}, t.items = (x, []) →
      (∀ bare, (t.textIn bare).toList = x.chars) →
        (t.textIn false).toList = t.layout.chars ∧
          (t.textIn true).toList = t.items.1.chars ++ Layout.charsAll t.items.2 := by
    intro t x hitems htext
    rw [layout, hitems, htext, htext]
    exact ⟨rfl, (List.append_nil _).symm⟩
  induction t with
  | sort l =>
    refine hbare (items_sort l) fun bare => ?_
    have htext : (sort l).textIn bare = "(sort " ++ l.repr ++ ")" := rfl
    simp [htext, Layout.chars_form, Layout.chars, Layout.charsAll]
  | const n => exact hbare (items_const n) fun bare => by rw [textIn, Layout.chars]
  | num v => exact hbare (items_num v) fun bare => by rw [textIn, Layout.chars]
  | str s => exact hbare (items_str s) fun bare => by rw [textIn, Layout.chars]
  | var i =>
    refine hbare (items_var i) fun bare => ?_
    have htext : (var i).textIn bare = "#" ++ i.repr := rfl
    simp [htext, Layout.chars]
  | pi A B ihA ihB =>
    refine hbare (items_pi A B) fun bare => ?_
    simp [textIn, Layout.chars_form, Layout.chars_parameter, Layout.charsAll, ihA.1, ihB.1]
  | lam A b ihA ihb =>
    refine hbare (items_lam A b) fun bare => ?_
    simp [textIn, Layout.chars_form, Layout.chars_parameter, Layout.charsAll, ihA.1, ihb.1]
  | app f a ihf iha =>
    have hinner : (f.textIn true ++ " " ++ a.textIn false).toList =
        f.items.1.chars ++ Layout.charsAll (f.items.2 ++ [a.layout]) := by
      simp [ihf.2, iha.1, Layout.charsAll_append, Layout.charsAll]
    constructor
    · rw [layout, items_app, Layout.spine_concat]
      simp only [textIn, Bool.false_eq_true, if_false, String.toList_append, hinner]
      simp [Layout.chars, Text.Bracket.opening, Text.Bracket.closing]
    · rw [items_app]
      simp only [textIn, if_true, hinner]
  | quote b ih =>
    refine hbare (items_quote b) fun bare => ?_
    simp [textIn, Layout.chars_form, Layout.charsAll, ih.1]
  | splice b ih =>
    refine hbare (items_splice b) fun bare => ?_
    simp [textIn, Layout.chars_form, Layout.charsAll, ih.1]
  | call h as ihh ihas =>
    refine hbare (items_call h as) fun bare => ?_
    have hargs := toList_argsText fun arg harg => (ihas arg harg).1
    simp [textIn, Layout.chars_form, Layout.charsAll, ihh.1, hargs]

theorem toList_text (t : Term) : t.text.toList = t.layout.chars := (toList_textIn t).1

end Term

end StagedTT
