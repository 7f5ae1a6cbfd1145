import Mathlib.Data.Nat.Digits.Defs
import StagedTT.Text.Quoted

/-!
# Reading quoted text

Nothing is lost in escaping a character, and how far it reaches can be told from what is written
(`escapeChar_append_inj`). An escaped character never starts with a quote. So in a text that starts
with a quoted one, it is known where that ends and what was quoted (`quoted_append_inj`).
-/

namespace StagedTT.Text

/-! ## Where a run of characters ends -/

/-- A text that starts with a character of a class, unless it is empty. -/
def StartsWith (p : Char → Prop) (cs : List Char) : Prop := ∀ c ∈ cs.head?, p c

section StartsWith

variable {p : Char → Prop}

theorem startsWith_nil : StartsWith p [] := fun _ h => by cases h

theorem startsWith_cons {c : Char} {cs : List Char} : StartsWith p (c :: cs) ↔ p c := by
  simp [StartsWith]

/-- What goes on up to a character of a class is known. -/
theorem append_inj_of_startsWith {as bs r s : List Char} (ha : ∀ c ∈ as, ¬ p c)
    (hb : ∀ c ∈ bs, ¬ p c) (hr : StartsWith p r) (hs : StartsWith p s)
    (h : as ++ r = bs ++ s) : as = bs ∧ r = s := by
  induction as generalizing bs with
  | nil =>
    cases bs with
    | nil => exact ⟨rfl, h⟩
    | cons b bs =>
      rw [List.nil_append] at h
      rw [h, List.cons_append, startsWith_cons] at hr
      exact absurd hr (hb b List.mem_cons_self)
  | cons a as ih =>
    cases bs with
    | nil =>
      rw [List.nil_append] at h
      rw [← h, List.cons_append, startsWith_cons] at hs
      exact absurd hs (ha a List.mem_cons_self)
    | cons b bs =>
      obtain ⟨rfl, htail⟩ := List.cons.inj h
      obtain ⟨has, hrest⟩ := ih (fun c hc => ha c (List.mem_cons_of_mem _ hc))
        (fun c hc => hb c (List.mem_cons_of_mem _ hc)) htail
      exact ⟨congrArg (a :: ·) has, hrest⟩

end StartsWith

/-! ## Numerals -/

theorem digitChar_inj {m n : Nat} (hm : m < 16) (hn : n < 16)
    (h : m.digitChar = n.digitChar) : m = n := by
  have hall : ∀ m : Fin 16, ∀ n : Fin 16, m.val.digitChar = n.val.digitChar → m = n := by decide
  exact congrArg Fin.val (hall ⟨m, hm⟩ ⟨n, hn⟩ h)

/-- In a base that has a character for each digit, different numbers have different digits. -/
theorem toDigits_inj {base : Nat} (hbase : 1 < base) (hdigits : base ≤ 16) {m n : Nat}
    (h : Nat.toDigits base m = Nat.toDigits base n) : m = n := by
  induction m using Nat.strongRecOn generalizing n with
  | ind m ih =>
    rw [Nat.toDigits_eq_if hbase, Nat.toDigits_eq_if (n := n) hbase] at h
    split at h <;> split at h
    · next hm hn => exact digitChar_inj (by omega) (by omega) (List.singleton_inj.1 h)
    · have hlength := congrArg List.length h
      simp [Nat.toDigits_ne_nil] at hlength
    · have hlength := congrArg List.length h
      simp [Nat.toDigits_ne_nil] at hlength
    · next hm hn =>
      obtain ⟨hinit, hlast⟩ := List.append_inj' h rfl
      have hdiv := ih (m / base) (Nat.div_lt_self (by omega) hbase) hinit
      have hrange : ∀ k, k % base < 16 := fun k =>
        Nat.lt_of_lt_of_le (Nat.mod_lt k (by omega)) hdigits
      have hmod := digitChar_inj (hrange m) (hrange n) (List.singleton_inj.1 hlast)
      rw [← Nat.div_add_mod m base, ← Nat.div_add_mod n base, hdiv, hmod]

theorem brace_not_mem_hexDigits (n : Nat) : ∀ c ∈ Nat.toDigits 16 n, c ≠ '\x7d' := by
  have hdigit : ∀ m : Fin 16, m.val.digitChar ≠ '\x7d' := by decide
  induction n using Nat.strongRecOn with
  | ind n ih =>
    rw [Nat.toDigits_eq_if (by decide)]
    split
    · next hn =>
      intro c hc
      rw [List.mem_singleton.1 hc]
      exact hdigit ⟨n, hn⟩
    · intro c hc
      rcases List.mem_append.1 hc with hc | hc
      · exact ih (n / 16) (by omega) c hc
      · rw [List.mem_singleton.1 hc]
        exact hdigit ⟨n % 16, Nat.mod_lt n (by decide)⟩

theorem codePointEscape_append_inj {c d : Char} {r s : List Char}
    (h : codePointEscape c ++ r = codePointEscape d ++ s) : c = d ∧ r = s := by
  have hdigits : Nat.toDigits 16 c.toNat ++ '\x7d' :: r =
      Nat.toDigits 16 d.toNat ++ '\x7d' :: s := by
    simpa [codePointEscape] using h
  obtain ⟨hcode, hrest⟩ := append_inj_of_startsWith (p := (· = '\x7d'))
    (brace_not_mem_hexDigits _) (brace_not_mem_hexDigits _) (startsWith_cons.2 rfl)
    (startsWith_cons.2 rfl) hdigits
  exact ⟨Char.toNat_inj.1 (toDigits_inj (by decide) (by decide) hcode), (List.cons.inj hrest).2⟩

/-! ## Escaped characters -/

/-- The character that a letter after the backslash stands for. -/
def ofEscapeLetter : Char → Char
  | '0' => '\x00'
  | 't' => '\x09'
  | 'n' => '\x0a'
  | 'r' => '\x0d'
  | c => c

theorem ofEscapeLetter_of_escapeLetter? {c letter : Char} (h : escapeLetter? c = some letter) :
    ofEscapeLetter letter = c ∧ letter ≠ 'u' := by
  unfold escapeLetter? at h
  split at h <;> cases h <;> decide

/-- The three ways to write a character. -/
theorem escapeChar_cases (first : Bool) (c : Char) :
    (∃ letter, escapeLetter? c = some letter ∧ escapeChar first c = ['\x5c', letter]) ∨
      escapeChar first c = codePointEscape c ∨
      c ≠ '\x5c' ∧ c ≠ '\x22' ∧ escapeChar first c = [c] := by
  unfold escapeChar
  cases hletter : escapeLetter? c with
  | some letter => exact .inl ⟨letter, rfl, rfl⟩
  | none =>
    right
    simp only
    split
    · exact .inl rfl
    · refine .inr ⟨?_, ?_, rfl⟩
      · rintro rfl
        cases hletter
      · rintro rfl
        cases hletter

/-- **It is known which character is written first**, and what comes after it. -/
theorem escapeChar_append_inj {first first' : Bool} {c d : Char} {r s : List Char}
    (h : escapeChar first c ++ r = escapeChar first' d ++ s) : c = d ∧ r = s := by
  rcases escapeChar_cases first c with ⟨l, hl, hc⟩ | hc | ⟨hslash, -, hc⟩ <;>
    rcases escapeChar_cases first' d with ⟨k, hk, hd⟩ | hd | ⟨hslash', -, hd⟩ <;>
    rw [hc, hd] at h
  · obtain ⟨rfl, rfl⟩ : l = k ∧ r = s := by simpa using h
    exact ⟨(ofEscapeLetter_of_escapeLetter? hl).1.symm.trans
      (ofEscapeLetter_of_escapeLetter? hk).1, rfl⟩
  · have hu : l = 'u' := (List.cons.inj (List.cons.inj h).2).1
    exact absurd hu (ofEscapeLetter_of_escapeLetter? hl).2
  · exact absurd (List.cons.inj h).1.symm hslash'
  · have hu : 'u' = k := (List.cons.inj (List.cons.inj h).2).1
    exact absurd hu.symm (ofEscapeLetter_of_escapeLetter? hk).2
  · exact codePointEscape_append_inj h
  · exact absurd (List.cons.inj h).1.symm hslash'
  · exact absurd (List.cons.inj h).1 hslash
  · exact absurd (List.cons.inj h).1 hslash
  · exact List.cons.inj h

theorem escapeChar_append_ne_quote (first : Bool) (c : Char) (r s : List Char) :
    escapeChar first c ++ r ≠ '\x22' :: s := by
  intro h
  rcases escapeChar_cases first c with ⟨l, -, hc⟩ | hc | ⟨-, hquote, hc⟩ <;> rw [hc] at h
  · cases h
  · cases h
  · exact hquote (List.cons.inj h).1

/-! ## Quoted text -/

theorem flatMap_escapeChar_inj {cs ds r s : List Char}
    (h : cs.flatMap (escapeChar false) ++ '\x22' :: r =
      ds.flatMap (escapeChar false) ++ '\x22' :: s) : cs = ds ∧ r = s := by
  induction cs generalizing ds with
  | nil =>
    cases ds with
    | nil => exact ⟨rfl, (List.cons.inj h).2⟩
    | cons d ds =>
      rw [List.flatMap_cons, List.append_assoc] at h
      exact absurd h.symm (escapeChar_append_ne_quote false d _ _)
  | cons c cs ih =>
    rw [List.flatMap_cons, List.append_assoc] at h
    cases ds with
    | nil => exact absurd h (escapeChar_append_ne_quote false c _ _)
    | cons d ds =>
      rw [List.flatMap_cons, List.append_assoc] at h
      obtain ⟨rfl, hrest⟩ := escapeChar_append_inj h
      obtain ⟨rfl, hrs⟩ := ih hrest
      exact ⟨rfl, hrs⟩

theorem escape_append_inj {cs ds r s : List Char}
    (h : escape cs ++ '\x22' :: r = escape ds ++ '\x22' :: s) : cs = ds ∧ r = s := by
  cases cs with
  | nil =>
    cases ds with
    | nil => exact ⟨rfl, (List.cons.inj h).2⟩
    | cons d ds =>
      rw [escape, escape, List.append_assoc] at h
      exact absurd h.symm (escapeChar_append_ne_quote true d _ _)
  | cons c cs =>
    rw [escape, List.append_assoc] at h
    cases ds with
    | nil => exact absurd h (escapeChar_append_ne_quote true c _ _)
    | cons d ds =>
      rw [escape, List.append_assoc] at h
      obtain ⟨rfl, hrest⟩ := escapeChar_append_inj h
      obtain ⟨rfl, hrs⟩ := flatMap_escapeChar_inj hrest
      exact ⟨rfl, hrs⟩

theorem toList_quoted (t : String) :
    (quoted t).toList = '\x22' :: (escape t.toList ++ ['\x22']) := by
  rw [quoted, String.toList_ofList, List.cons_append]

/-- **It is known what is quoted**, and what comes after it. -/
theorem quoted_append_inj {t u : String} {r s : List Char}
    (h : (quoted t).toList ++ r = (quoted u).toList ++ s) : t = u ∧ r = s := by
  simp only [toList_quoted, List.cons_append, List.append_assoc, List.nil_append] at h
  obtain ⟨htext, hrest⟩ := escape_append_inj (List.cons.inj h).2
  exact ⟨String.toList_inj.1 htext, hrest⟩

end StagedTT.Text
