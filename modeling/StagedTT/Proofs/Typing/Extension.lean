import StagedTT.Proofs.Surface.Stores
import StagedTT.Proofs.Typing.Preservation

/-!
# Growing signatures

A signature that declares more reduces and types all that it did before (`HasType.extend`).
Normal forms stay normal, as a new value can belong to a new name only (`Term.Normal.extend`). So a
sound signature stays sound when a sound declaration is added (`Signature.Sound.insert?`), and the
one that sessions start from is sound (`Signature.sound_withBaseTypes`). In a signature that is
built that way, every declaration is sound over the ones before it (`Signature.SoundInOrder`).
-/

namespace StagedTT

open Term

/-- All that one signature declares, the other one declares too. -/
def Signature.Extends (sig' sig : Signature) : Prop :=
  ∀ n decl, sig.find? n = some decl → sig'.find? n = some decl

theorem Signature.free_of_insert? {sig sig' : Signature} {name : String} {decl : Declaration}
    (h : sig.insert? name decl = some sig') : sig.contains name = false := by
  by_contra htaken
  rw [Bool.not_eq_false] at htaken
  rw [insert?_eq_none.2 htaken] at h
  cases h

theorem Signature.extends_insert? {sig sig' : Signature} {name : String} {decl : Declaration}
    (h : sig.insert? name decl = some sig') : sig'.Extends sig := by
  intro n d hfind
  have hfree := free_of_insert? h
  have hne : n ≠ name := by
    rintro rfl
    rw [contains, hfind] at hfree
    cases hfree
  rw [find?_insert? h, if_neg hne]
  exact hfind

section Extends

variable {sig sig' : Signature} {p : Phase} {F : Fragment} {t u : Term} (hext : sig'.Extends sig)

include hext

theorem Signature.Extends.value? {n : String} {v : Term} (hv : sig.value? n = some v) :
    sig'.value? n = some v := by
  obtain ⟨decl, hfind, hvalue⟩ := Option.bind_eq_some_iff.1 hv
  exact Option.bind_eq_some_iff.2 ⟨decl, hext n decl hfind, hvalue⟩

theorem Term.EqualIn.extend (h : EqualIn sig F t u) : EqualIn sig' F t u := by
  refine Relation.EqvGen.mono (fun t u ⟨ht, hu, hstep⟩ => ⟨ht, hu, ?_⟩) _ _ h
  exact hstep.transfer (fun n v _ hv => hext.value? hv) ht

theorem Term.Normal.extend (h : Normal sig t) (ht : t.Within (.code sig p)) : Normal sig' t := by
  intro u hstep
  refine h u (hstep.transfer (fun n v hn hv => ?_) ht)
  -- The name was declared before, so its value is not a new one.
  obtain ⟨decl, hfind, -⟩ := hn
  rw [Signature.value?, hext n decl hfind] at hv
  exact Option.bind_eq_some_iff.2 ⟨decl, hfind, hv⟩

theorem HasType.extend {Γ : List Term} {T : Term} (h : HasType sig p Γ t T) :
    HasType sig' p Γ t T := by
  induction h with
  | sort l => exact .sort l
  | num v => exact .num v
  | str s => exact .str s
  | const hfind hvis => exact .const (hext _ _ hfind) hvis
  | var hget => exact .var hget
  | pi _ _ ihA ihB => exact .pi ihA ihB
  | lam _ _ ihpi ihb => exact .lam ihpi ihb
  | app _ _ ihf iha => exact .app ihf iha
  | quote hp _ ih => exact .quote hp ih
  | splice hp _ ih => exact .splice hp ih
  | call hp _ ih => exact .call hp ih
  | conv _ heq _ ih ihT => exact .conv ih (heq.extend hext) ihT

theorem Declaration.Sound.extend {decl : Declaration} (h : decl.Sound sig) : decl.Sound sig' where
  sorted := by
    obtain ⟨s, hs⟩ := h.sorted
    exact ⟨s, hs.extend hext⟩
  typed v hv := (h.typed v hv).extend hext
  normal v hv := (h.normal v hv).extend hext (h.typed v hv).within
  belowLast := h.belowLast

end Extends

theorem Declaration.sound_literalType (sig : Signature) : literalType.Sound sig where
  sorted := ⟨1, .sort 0⟩
  typed _ hv := by cases hv
  normal _ hv := by cases hv
  belowLast _ hv := by cases hv

namespace Signature

/-- A sound signature stays sound when a sound declaration is added. -/
theorem Sound.insert? {sig sig' : Signature} (hsig : sig.Sound) {name : String}
    {decl : Declaration} (h : sig.insert? name decl = some sig') (hdecl : decl.Sound sig) :
    sig'.Sound where
  number := extends_insert? h _ _ hsig.number
  string := extends_insert? h _ _ hsig.string
  decl n d hfind := by
    have hext := extends_insert? h
    rw [find?_insert? h] at hfind
    split at hfind
    · obtain rfl := Option.some.inj hfind
      exact hdecl.extend hext
    · exact (hsig.decl n d hfind).extend hext

theorem find?_withBaseTypes (n : String) :
    empty.withBaseTypes.find? n =
      if n = "string" ∨ n = "number" then some .literalType else none := by
  change ([("string", Declaration.literalType), ("number", .literalType)].lookup n) = _
  simp only [List.lookup_cons, List.lookup_nil]
  by_cases hstring : n = "string"
  · simp [hstring]
  · by_cases hnumber : n = "number"
    · simp [hnumber]
    · simp [hstring, hnumber, beq_eq_false_iff_ne.2 hstring, beq_eq_false_iff_ne.2 hnumber]

/-- Every declaration is sound over a signature that declares none but the names before it. -/
def SoundInOrder (sig : Signature) : Prop :=
  ∀ before n after, sig.order = before ++ n :: after → ∀ decl, sig.find? n = some decl →
    ∃ earlier : Signature, (∀ m, earlier.contains m = true → m ∈ before) ∧ decl.Sound earlier

theorem SoundInOrder.insert? {sig sig' : Signature} (hsig : sig.SoundInOrder)
    (hcoherent : sig.Coherent) {name : String} {decl : Declaration}
    (h : sig.insert? name decl = some sig') (hdecl : decl.Sound sig) : sig'.SoundInOrder := by
  intro before n after hsplit d hd
  have horder : sig'.order = sig.order ++ [name] := by rw [(insert?_eq_some.1 h).2]
  rw [horder] at hsplit
  rw [find?_insert? h] at hd
  rcases List.eq_nil_or_concat after with rfl | ⟨after, last, rfl⟩
  · -- The name is the new one, and all that was declared comes before it.
    obtain ⟨rfl, hname⟩ := List.append_inj' hsplit rfl
    obtain rfl := List.singleton_inj.1 hname
    rw [if_pos rfl] at hd
    obtain rfl := Option.some.inj hd
    exact ⟨sig, fun m hm => (hcoherent.mem_order m).2 hm, hdecl⟩
  · rw [List.concat_eq_append, ← List.cons_append, ← List.append_assoc] at hsplit
    have hold := (List.append_inj' hsplit rfl).1
    have hmem : n ∈ sig.order := by simp [hold]
    have hne : n ≠ name := by
      rintro rfl
      have hfree := free_of_insert? h
      rw [(hcoherent.mem_order n).1 hmem] at hfree
      cases hfree
    rw [if_neg hne] at hd
    exact hsig before n after hold d hd

theorem soundInOrder_withBaseTypes : empty.withBaseTypes.SoundInOrder := by
  intro before n after _ decl hfind
  rw [find?_withBaseTypes] at hfind
  split at hfind
  · obtain rfl := Option.some.inj hfind
    exact ⟨empty, (by rintro m ⟨⟩), Declaration.sound_literalType _⟩
  · cases hfind

theorem sound_withBaseTypes : empty.withBaseTypes.Sound where
  number := by simp [find?_withBaseTypes]
  string := by simp [find?_withBaseTypes]
  decl n decl hfind := by
    rw [find?_withBaseTypes] at hfind
    split at hfind
    · obtain rfl := Option.some.inj hfind
      exact Declaration.sound_literalType _
    · cases hfind

end Signature

end StagedTT
