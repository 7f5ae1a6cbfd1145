import StagedTT.Proofs.Text.Quoted

/-!
# Layouts

A layout is made of words, of quoted texts and of brackets around items with blanks between them. If
its words are free of blanks, quotes and brackets, then the text of a layout shows which layout it
is and where it ends, whatever comes next, as long as a word is not continued
(`Layout.Plain.chars_append_inj`): the first character tells how the layout begins, and the items in
brackets are read one after another.
-/

namespace StagedTT.Text

/-- Two kinds of brackets. -/
inductive Bracket where
  | round
  | curly
  deriving DecidableEq

namespace Bracket

/-- The opening bracket. -/
def opening : Bracket → Char
  | .round => '('
  | .curly => '\x7b'

/-- The closing bracket. -/
def closing : Bracket → Char
  | .round => ')'
  | .curly => '\x7d'

theorem opening_inj {b b' : Bracket} : b.opening = b'.opening ↔ b = b' := by
  cases b <;> cases b' <;> decide

end Bracket

/-- A character that no word goes on across: a blank, a quote or a bracket. -/
def IsDelimiter (c : Char) : Prop := c ∈ [' ', '\x22', '(', ')', '\x7b', '\x7d']

instance : DecidablePred IsDelimiter := fun _ => inferInstanceAs (Decidable (_ ∈ _))

theorem isDelimiter_opening (b : Bracket) : IsDelimiter b.opening := by cases b <;> decide

theorem isDelimiter_closing (b : Bracket) : IsDelimiter b.closing := by cases b <;> decide

/-- Characters that make up a word. -/
structure IsWord (cs : List Char) : Prop where
  ne_nil : cs ≠ []
  plain : ∀ c ∈ cs, ¬ IsDelimiter c

theorem isWord_iff {cs : List Char} :
    IsWord cs ↔ cs ≠ [] ∧ (cs.all fun c => !decide (IsDelimiter c)) = true := by
  rw [List.all_eq_true]
  constructor
  · intro h
    exact ⟨h.ne_nil, fun c hc => by simp [h.plain c hc]⟩
  · intro h
    exact ⟨h.1, fun c hc => by simpa using h.2 c hc⟩

/-- Words are told by going through the characters that are given, and not through all of them. -/
instance : DecidablePred IsWord := fun _ => decidable_of_iff' _ isWord_iff

theorem IsWord.exists_cons {cs : List Char} (h : IsWord cs) :
    ∃ c rest, cs = c :: rest ∧ ¬ IsDelimiter c := by
  obtain ⟨c, rest, rfl⟩ := List.exists_cons_of_ne_nil h.ne_nil
  exact ⟨c, rest, rfl, h.plain c List.mem_cons_self⟩

/-- Words, quoted texts, and items in brackets. -/
inductive Layout where
  | word (chars : List Char)
  | quoted (text : String)
  /-- Brackets around a first item and others. -/
  | group (bracket : Bracket) (first : Layout) (rest : List Layout)

namespace Layout

mutual

/-- The text of a layout. -/
def chars : Layout → List Char
  | .word cs => cs
  | .quoted text => (Text.quoted text).toList
  | .group bracket first rest =>
    bracket.opening :: (chars first ++ charsAll rest ++ [bracket.closing])

/-- The texts of items, each after a blank. -/
def charsAll : List Layout → List Char
  | [] => []
  | item :: items => ' ' :: (chars item ++ charsAll items)

end

theorem charsAll_append (items more : List Layout) :
    charsAll (items ++ more) = charsAll items ++ charsAll more := by
  induction items with
  | nil => rfl
  | cons item items ih => simp [charsAll, ih]

/-- The words of a layout are words. -/
inductive Plain : Layout → Prop
  | word {cs : List Char} : IsWord cs → Plain (.word cs)
  | quoted (text : String) : Plain (.quoted text)
  | group (bracket : Bracket) {first : Layout} {rest : List Layout} : Plain first →
      (∀ item ∈ rest, Plain item) → Plain (.group bracket first rest)

/-- It is known which layout is written first, and what comes after it. -/
def Reads (x : Layout) : Prop :=
  ∀ {y : Layout} {r s : List Char}, y.Plain → StartsWith IsDelimiter r → StartsWith IsDelimiter s →
    x.chars ++ r = y.chars ++ s → x = y ∧ r = s

/-- What comes after an item in brackets is a blank or the closing bracket. -/
theorem startsWith_charsAll (items : List Layout) (b : Bracket) (r : List Char) :
    StartsWith IsDelimiter (charsAll items ++ b.closing :: r) := by
  cases items with
  | nil => exact startsWith_cons.2 (isDelimiter_closing b)
  | cons item items => exact startsWith_cons.2 (by decide)

theorem charsAll_append_inj {b : Bracket} {items others : List Layout} {r s : List Char}
    (h : ∀ item ∈ items, item.Reads) (hplain : ∀ item ∈ others, item.Plain)
    (heq : charsAll items ++ b.closing :: r = charsAll others ++ b.closing :: s) :
    items = others ∧ r = s := by
  have hblank : b.closing ≠ ' ' := by cases b <;> decide
  induction items generalizing others with
  | nil =>
    cases others with
    | nil => exact ⟨rfl, (List.cons.inj heq).2⟩
    | cons other others => exact absurd (List.cons.inj heq).1 hblank
  | cons item items ih =>
    cases others with
    | nil => exact absurd (List.cons.inj heq).1.symm hblank
    | cons other others =>
      obtain ⟨hitem, hitems⟩ := List.forall_mem_cons.1 h
      obtain ⟨hother, hothers⟩ := List.forall_mem_cons.1 hplain
      simp only [charsAll, List.cons_append, List.append_assoc] at heq
      obtain ⟨rfl, hrest⟩ := hitem hother (startsWith_charsAll _ b r) (startsWith_charsAll _ b s)
        (List.cons.inj heq).2
      obtain ⟨rfl, hrs⟩ := ih hitems hothers hrest
      exact ⟨rfl, hrs⟩

/-- **The text of a layout shows which layout it is, and where it ends.** -/
theorem Plain.reads {x : Layout} (hx : x.Plain) : x.Reads := by
  induction hx with
  | @word cs hcs =>
    intro y r s hy hr hs heq
    obtain ⟨c, cs', rfl, hc⟩ := hcs.exists_cons
    cases hy with
    | word hds =>
      obtain ⟨rfl, hrs⟩ := append_inj_of_startsWith hcs.plain hds.plain hr hs heq
      exact ⟨rfl, hrs⟩
    | quoted text =>
      simp only [chars, toList_quoted] at heq
      obtain rfl : c = '\x22' := (List.cons.inj heq).1
      exact absurd (by decide) hc
    | group b _ _ =>
      obtain rfl : c = b.opening := (List.cons.inj heq).1
      exact absurd (isDelimiter_opening b) hc
  | quoted text =>
    intro y r s hy hr hs heq
    cases hy with
    | word hds =>
      obtain ⟨d, ds, rfl, hd⟩ := hds.exists_cons
      simp only [chars, toList_quoted] at heq
      obtain rfl : '\x22' = d := (List.cons.inj heq).1
      exact absurd (by decide) hd
    | quoted text' =>
      obtain ⟨rfl, hrs⟩ := quoted_append_inj heq
      exact ⟨rfl, hrs⟩
    | group b _ _ =>
      simp only [chars, toList_quoted] at heq
      have hquote : '\x22' = b.opening := (List.cons.inj heq).1
      cases b <;> exact absurd hquote (by decide)
  | group b _ _ ihFirst ihRest =>
    intro y r s hy hr hs heq
    cases hy with
    | word hds =>
      obtain ⟨d, ds, rfl, hd⟩ := hds.exists_cons
      obtain rfl : b.opening = d := (List.cons.inj heq).1
      exact absurd (isDelimiter_opening b) hd
    | quoted text =>
      simp only [chars, toList_quoted] at heq
      have hquote : b.opening = '\x22' := (List.cons.inj heq).1
      cases b <;> exact absurd hquote (by decide)
    | group b' hfirst hrest =>
      simp only [chars, List.cons_append, List.append_assoc, List.nil_append] at heq
      obtain ⟨hopening, heq⟩ := List.cons.inj heq
      obtain rfl := Bracket.opening_inj.1 hopening
      obtain ⟨rfl, hitems⟩ := ihFirst hfirst (startsWith_charsAll _ b r)
        (startsWith_charsAll _ b s) heq
      obtain ⟨rfl, hrs⟩ := charsAll_append_inj ihRest hrest hitems
      exact ⟨rfl, hrs⟩

/-- Layouts with the same text are the same. -/
theorem Plain.chars_inj {x y : Layout} (hx : x.Plain) (hy : y.Plain) (h : x.chars = y.chars) :
    x = y :=
  (hx.reads hy startsWith_nil startsWith_nil (congrArg (· ++ []) h)).1

end Layout

end StagedTT.Text
