import Mathlib
import StagedTT.Proofs.Term.Layout
import StagedTT.Proofs.Term.Subterms

/-!
# Reading terms

A term is readable if the names in it are written as names are: as words that are no integers, have
no mark of a variable, and start no list. The layout of a readable term shows which term it is
(`Term.Readable.layout_inj`): an application has the items of the term that it applies and one more,
and all other terms in parentheses start with a word of their own. As layouts can be read off their
texts, readable terms with the same text are the same (`Term.Readable.text_inj`).
-/

namespace StagedTT

open Text (Layout IsWord IsDelimiter)

/-! ## Names -/

namespace Text

/-- Digits, at least one. -/
def isNumeral (cs : List Char) : Bool := !cs.isEmpty && cs.all Char.isDigit

/-- A numeral, or a sign and a numeral. -/
def isInteger (cs : List Char) : Bool :=
  isNumeral cs || (cs.head? = some '+' || cs.head? = some '-') && isNumeral cs.tail

/-- The words that a list in the text of a term may start with. -/
def formWords : List String := ["sort", "fn", "pi", "quote", "splice", "expand"]

/-- A word that is read as a name: without the mark of a variable, no integer, and none of the words
that lists start with. No more is asked for than is needed to read a text: other blanks than those
that separate items and other brackets than those around them may be in a name. -/
structure IsName (name : String) : Prop where
  word : IsWord name.toList
  unmarked : '#' ∉ name.toList
  noInteger : isInteger name.toList = false
  noForm : name ∉ formWords

instance : DecidablePred IsName := fun name =>
  decidable_of_iff (IsWord name.toList ∧ '#' ∉ name.toList ∧ isInteger name.toList = false ∧
      name ∉ formWords)
    ⟨fun h => ⟨h.1, h.2.1, h.2.2.1, h.2.2.2⟩, fun h => ⟨h.word, h.unmarked, h.noInteger, h.noForm⟩⟩

theorem isNumeral_repr (n : Nat) : isNumeral n.repr.toList = true := by
  rw [Nat.repr_eq_ofList_toDigits, String.toList_ofList, isNumeral]
  simp only [Bool.and_eq_true, List.all_eq_true, Bool.not_eq_true', List.isEmpty_eq_false_iff]
  exact ⟨Nat.toDigits_ne_nil, fun c hc => Nat.isDigit_of_mem_toDigits (by decide) (by decide) hc⟩

theorem toList_repr_negSucc (n : Nat) :
    (Int.negSucc n).repr.toList = '-' :: n.succ.repr.toList := by
  show ("-" ++ n.succ.repr).toList = _
  rw [String.toList_append]
  rfl

theorem isInteger_toString (v : Int64) : isInteger (toString v).toList = true := by
  show isInteger v.toInt.repr.toList = true
  cases v.toInt with
  | ofNat n =>
    have hdigits : isNumeral (Int.ofNat n).repr.toList = true := isNumeral_repr n
    rw [isInteger, hdigits, Bool.true_or]
  | negSucc n =>
    have hdigits := isNumeral_repr n.succ
    rw [isInteger, toList_repr_negSucc, List.head?_cons, List.tail_cons, hdigits]
    exact Bool.or_true _

theorem repr_inj {m n : Nat} (h : m.repr.toList = n.repr.toList) : m = n :=
  Nat.repr_inj.1 (String.toList_inj.1 h)

theorem toString_inj {v w : Int64} (h : (toString v).toList = (toString w).toList) : v = w :=
  Int64.toInt_inj.1 (Int.repr_inj.1 (String.toList_inj.1 h))

theorem not_isDelimiter_of_isDigit {c : Char} (h : c.isDigit = true) : ¬ IsDelimiter c := by
  intro hc
  simp only [IsDelimiter, List.mem_cons, List.not_mem_nil, or_false] at hc
  rcases hc with rfl | rfl | rfl | rfl | rfl | rfl <;> cases h

theorem isWord_of_isNumeral {cs : List Char} (h : isNumeral cs = true) : IsWord cs := by
  simp only [isNumeral, Bool.and_eq_true, List.all_eq_true, Bool.not_eq_true',
    List.isEmpty_eq_false_iff] at h
  exact ⟨h.1, fun c hc => not_isDelimiter_of_isDigit (h.2 c hc)⟩

theorem IsWord.cons {c : Char} {cs : List Char} (hc : ¬ IsDelimiter c) (h : IsWord cs) :
    IsWord (c :: cs) := ⟨List.cons_ne_nil _ _, List.forall_mem_cons.2 ⟨hc, h.plain⟩⟩

theorem isWord_of_isInteger {cs : List Char} (h : isInteger cs = true) : IsWord cs := by
  simp only [isInteger, Bool.or_eq_true, Bool.and_eq_true, decide_eq_true_eq] at h
  rcases h with h | ⟨hsign, h⟩
  · exact isWord_of_isNumeral h
  · obtain ⟨c, cs, rfl⟩ : ∃ c rest, cs = c :: rest := by
      cases cs with
      | nil => simp at hsign
      | cons c cs => exact ⟨c, cs, rfl⟩
    refine .cons ?_ (isWord_of_isNumeral h)
    rcases hsign with hsign | hsign
    · obtain rfl : c = '+' := by simpa using hsign
      decide
    · obtain rfl : c = '-' := by simpa using hsign
      decide

theorem ne_toString {cs : List Char} (h : isInteger cs = false) (v : Int64) :
    cs ≠ (toString v).toList := by
  intro heq
  rw [heq, isInteger_toString] at h
  cases h

theorem toString_ne_hash (v : Int64) (cs : List Char) : (toString v).toList ≠ '#' :: cs := by
  have hinteger : isInteger ('#' :: cs) = false := by simp [isInteger, isNumeral]
  exact (ne_toString hinteger v).symm

namespace IsName

variable {n : String} (h : IsName n)

include h

theorem ne_hash (cs : List Char) : n.toList ≠ '#' :: cs := by
  intro heq
  have hmark := h.unmarked
  rw [heq] at hmark
  exact hmark List.mem_cons_self

theorem ne_formWord {w : String} (hw : w ∈ formWords) : n.toList ≠ w.toList := by
  intro heq
  rw [String.toList_inj.1 heq] at h
  exact h.noForm hw

end IsName

theorem formWord_isWord {w : String} (hw : w ∈ formWords) : IsWord w.toList := by
  have hwords : ∀ w ∈ formWords, IsWord w.toList := by decide +kernel
  exact hwords w hw

theorem formWord_ne_hash {w : String} (hw : w ∈ formWords) (cs : List Char) :
    w.toList ≠ '#' :: cs := by
  have hwords : ∀ w ∈ formWords, w.toList.head? ≠ some '#' := by decide +kernel
  intro h
  exact hwords w hw (congrArg List.head? h)

theorem formWord_ne_toString {w : String} (hw : w ∈ formWords) (v : Int64) :
    w.toList ≠ (toString v).toList := by
  have hwords : ∀ w ∈ formWords, isInteger w.toList = false := by decide +kernel
  exact ne_toString (hwords w hw) v

end Text

namespace Term

open Text (IsName formWords)

/-! ## Layouts of readable terms -/

/-- All names in a term are written as names are. -/
def Readable (t : Term) : Prop := ∀ n, const n ∈ t.subterms → IsName n

variable {t u : Term}

theorem Readable.part (h : t.Readable) {part : Term} (hpart : part ∈ t.parts) : part.Readable :=
  fun n hn => h n (mem_subterms.2 (.inr (mem_subtermsAll.2 ⟨part, hpart, hn⟩)))

theorem Readable.isName {n : String} (h : (const n).Readable) : IsName n :=
  h n (mem_subterms_self _)

theorem plain_form {w : String} (hw : w ∈ formWords) {rest : List Layout}
    (hrest : ∀ item ∈ rest, item.Plain) : (Layout.form w rest).Plain :=
  .group _ (.word (Text.formWord_isWord hw)) hrest

theorem plain_parameter {type : Layout} (h : type.Plain) : (Layout.parameter type).Plain :=
  .group _ (.word (by decide +kernel)) (List.forall_mem_singleton.2 h)

theorem plain_spine {items : Layout × List Layout} (hhead : items.1.Plain)
    (hargs : ∀ arg ∈ items.2, arg.Plain) : (Layout.spine items).Plain := by
  obtain ⟨head, _ | ⟨arg, args⟩⟩ := items
  · exact hhead
  · exact .group _ hhead hargs

/-- The items of a readable term are made of words. -/
theorem Readable.plain_items (h : t.Readable) :
    t.items.1.Plain ∧ ∀ arg ∈ t.items.2, arg.Plain := by
  have hbare : ∀ {t : Term} {x : Layout}, t.items = (x, []) → x.Plain →
      t.items.1.Plain ∧ ∀ arg ∈ t.items.2, arg.Plain := by
    intro t x hitems hx
    rw [hitems]
    exact ⟨hx, List.forall_mem_nil _⟩
  induction t using inductParts with
  | h t ih =>
    have hpart : ∀ item ∈ t.parts.map layout, item.Plain := by
      refine List.forall_mem_map.2 fun part hmem => ?_
      obtain ⟨hhead, hargs⟩ := ih part hmem (h.part hmem)
      exact plain_spine hhead hargs
    cases t with
    | sort l =>
      refine hbare (items_sort l) (plain_form (by decide) (List.forall_mem_singleton.2 ?_))
      exact .word (Text.isWord_of_isNumeral (Text.isNumeral_repr l))
    | const n => exact hbare (items_const n) (.word h.isName.word)
    | num v =>
      have hinteger := Text.isInteger_toString v
      exact hbare (items_num v) (.word (Text.isWord_of_isInteger hinteger))
    | str s => exact hbare (items_str s) (.quoted s)
    | var i =>
      have hdigits := Text.isWord_of_isNumeral (Text.isNumeral_repr i)
      exact hbare (items_var i) (.word (hdigits.cons (by decide)))
    | pi A B =>
      obtain ⟨hA, hB⟩ := List.forall_mem_cons.1 hpart
      exact hbare (items_pi A B)
        (plain_form (by decide) (List.forall_mem_cons.2 ⟨plain_parameter hA, hB⟩))
    | lam A b =>
      obtain ⟨hA, hb⟩ := List.forall_mem_cons.1 hpart
      exact hbare (items_lam A b)
        (plain_form (by decide) (List.forall_mem_cons.2 ⟨plain_parameter hA, hb⟩))
    | app f a =>
      obtain ⟨-, ha⟩ := List.forall_mem_cons.1 hpart
      have hf := ih f List.mem_cons_self (h.part List.mem_cons_self)
      exact ⟨hf.1, List.forall_mem_append.2 ⟨hf.2, ha⟩⟩
    | quote b => exact hbare (items_quote b) (plain_form (by decide) hpart)
    | splice b => exact hbare (items_splice b) (plain_form (by decide) hpart)
    | call head args =>
      exact hbare (items_call head args) (plain_form (by decide) hpart)

theorem Readable.plain_layout (h : t.Readable) : t.layout.Plain :=
  plain_spine h.plain_items.1 h.plain_items.2

/-! ## Which term a layout shows -/

/-- Brackets at the head of a term are those of a list that starts with a word of its own, and not
those of an application. -/
theorem head_eq_group {b : Text.Bracket} {first : Layout} {rest : List Layout}
    (h : t.items.1 = .group b first rest) : ∃ w ∈ formWords, first = .word w.toList := by
  induction t with
  | sort | pi | lam | quote | splice | call =>
    simp only [items_sort, items_pi, items_lam, items_quote, items_splice, items_call,
      Layout.form, Layout.group.injEq] at h
    exact ⟨_, by decide, h.2.1.symm⟩
  | const | num | str | var => cases h
  | app f a ihf _ => exact ihf h

/-- The head of a readable term is none of the words that lists start with. -/
theorem Readable.head_ne_formWord (h : t.Readable) {w : String} (hw : w ∈ formWords) :
    t.items.1 ≠ .word w.toList := by
  intro heq
  induction t with
  | sort | pi | lam | quote | splice | call =>
    simp [Layout.form] at heq
  | str s => cases heq
  | const n => exact h.isName.ne_formWord hw (Layout.word.inj heq)
  | num v => exact Text.formWord_ne_toString hw v (Layout.word.inj heq).symm
  | var i => exact Text.formWord_ne_hash hw _ (Layout.word.inj heq).symm
  | app f a ihf _ => exact ihf (h.part List.mem_cons_self) heq

/-- A bare head is the layout of a readable term only if that term is a bare head. -/
theorem Readable.items_snd_eq_nil (hu : u.Readable) (h : t.items.1 = u.layout) :
    u.items.2 = [] := by
  rcases hitems : u.items with ⟨head, _ | ⟨arg, args⟩⟩
  · rfl
  · rw [layout, hitems] at h
    obtain ⟨w, hw, hhead⟩ := head_eq_group h
    have hne := hu.head_ne_formWord hw
    rw [hitems] at hne
    exact absurd hhead hne

/-- Readable terms of the same layout have the same items. -/
theorem Readable.items_eq (ht : t.Readable) (hu : u.Readable) (h : t.layout = u.layout) :
    t.items = u.items := by
  have hbare : ∀ t : Term, t.items.2 = [] → t.layout = t.items.1 := by
    intro t hnil
    rcases hitems : t.items with ⟨head, args⟩
    rw [hitems] at hnil
    obtain rfl : args = [] := hnil
    rw [layout, hitems, Layout.spine]
  rcases hti : t.items with ⟨head, _ | ⟨arg, args⟩⟩
  · have htlayout : t.layout = t.items.1 := hbare t (by rw [hti])
    have hunil := hu.items_snd_eq_nil (htlayout.symm.trans h)
    rw [htlayout, hbare u hunil, hti] at h
    exact Prod.ext h hunil.symm
  · rcases hui : u.items with ⟨head', _ | ⟨arg', args'⟩⟩
    · have hulayout : u.layout = u.items.1 := hbare u (by rw [hui])
      have htnil := ht.items_snd_eq_nil (hulayout.symm.trans h.symm)
      rw [hti] at htnil
      cases htnil
    · rw [layout, layout, hti, hui] at h
      obtain ⟨-, rfl, hargs⟩ := Layout.group.inj h
      rw [hargs]

theorem word_inj {cs ds : List Char}
    (h : ((Layout.word cs, []) : Layout × List Layout) = (.word ds, [])) : cs = ds :=
  Layout.word.inj (Prod.mk.inj h).1

/-- **The layout of a readable term shows which term it is.** -/
theorem Readable.layout_inj (ht : t.Readable) (hu : u.Readable) (h : t.layout = u.layout) :
    t = u := by
  induction t using inductParts generalizing u with
  | h t ih =>
    -- Not the layouts but the items are compared: those of a term that is applied are among them.
    have hitems := ht.items_eq hu h
    have hpart : ∀ a ∈ t.parts, ∀ b ∈ u.parts, a.layout = b.layout → a = b :=
      fun a ha b hb => ih a ha (ht.part ha) (hu.part hb)
    cases t with
    | sort l =>
      cases u with
      | sort k =>
        have hlevel : l.repr.toList = k.repr.toList := by simpa [Layout.form] using hitems
        rw [Text.repr_inj hlevel]
      | _ => simp [Layout.form] at hitems
    -- The atoms are told apart by the characters that they are written with.
    | const n =>
      cases u with
      | const m => rw [String.toList_inj.1 (word_inj hitems)]
      | num w => exact absurd (word_inj hitems) (Text.ne_toString ht.isName.noInteger w)
      | var j => exact absurd (word_inj hitems) (ht.isName.ne_hash _)
      | _ => simp [Layout.form] at hitems
    | num v =>
      cases u with
      | const m => exact absurd (word_inj hitems).symm (Text.ne_toString hu.isName.noInteger v)
      | num w => rw [Text.toString_inj (word_inj hitems)]
      | var j => exact absurd (word_inj hitems) (Text.toString_ne_hash v _)
      | _ => simp [Layout.form] at hitems
    | str s =>
      cases u with
      | str r => rw [Layout.quoted.inj (Prod.mk.inj hitems).1]
      | _ => simp [Layout.form] at hitems
    | var i =>
      cases u with
      | const m => exact absurd (word_inj hitems).symm (hu.isName.ne_hash _)
      | num w => exact absurd (word_inj hitems).symm (Text.toString_ne_hash w _)
      | var j => rw [Text.repr_inj (List.cons.inj (word_inj hitems)).2]
      | _ => simp [Layout.form] at hitems
    | pi A B =>
      cases u with
      | pi A' B' =>
        have hparts : [A, B].map layout = [A', B'].map layout := by
          simpa [Layout.form, Layout.parameter] using hitems
        cases eq_of_map_eq hpart hparts
        rfl
      | _ => simp [Layout.form] at hitems
    | lam A b =>
      cases u with
      | lam A' b' =>
        have hparts : [A, b].map layout = [A', b'].map layout := by
          simpa [Layout.form, Layout.parameter] using hitems
        cases eq_of_map_eq hpart hparts
        rfl
      | _ => simp [Layout.form] at hitems
    | app f a =>
      cases u with
      | app f' a' =>
        obtain ⟨hhead, hargs, ha⟩ : f.items.1 = f'.items.1 ∧ f.items.2 = f'.items.2 ∧
            a.layout = a'.layout := by
          simpa using hitems
        have hf : f.layout = f'.layout := by rw [layout, Prod.ext hhead hargs, layout]
        have hparts : [f, a].map layout = [f', a'].map layout := by simp [hf, ha]
        cases eq_of_map_eq hpart hparts
        rfl
      | _ => simp [Layout.form] at hitems
    | quote b =>
      cases u with
      | quote b' =>
        have hparts : [b].map layout = [b'].map layout := by simpa [Layout.form] using hitems
        cases eq_of_map_eq hpart hparts
        rfl
      | _ => simp [Layout.form] at hitems
    | splice b =>
      cases u with
      | splice b' =>
        have hparts : [b].map layout = [b'].map layout := by simpa [Layout.form] using hitems
        cases eq_of_map_eq hpart hparts
        rfl
      | _ => simp [Layout.form] at hitems
    | call head args =>
      cases u with
      | call head' args' =>
        have hparts : (head :: args).map layout = (head' :: args').map layout := by
          simpa [Layout.form] using hitems
        cases eq_of_map_eq hpart hparts
        rfl
      | _ => simp [Layout.form] at hitems

/-- **Readable terms with the same text are the same.** -/
theorem Readable.text_inj (ht : t.Readable) (hu : u.Readable) (h : t.text = u.text) : t = u := by
  have hchars : t.layout.chars = u.layout.chars := by
    rw [← toList_text, h, toList_text]
  exact ht.layout_inj hu (ht.plain_layout.chars_inj hu.plain_layout hchars)

end Term

end StagedTT
