import Mathlib.Data.List.Basic
import StagedTT.Surface.Scope

/-!
# Stores

A name that is declared stands in three stores: in the table of the signature, in its order, and in
the scope of expressions. No type keeps them in step, as each is written on its own.

The two stores of a signature are in step in every signature that is built up from the empty one
(`Signature.Coherent`). Then the entries are what the table has, each name once, and an entry that
is made comes last. A scope that is read off the entries has the phases that the table has
(`Scope.phase?_ofSignature`).
-/

namespace StagedTT

namespace Signature

/-- The two stores are in step: the names in the order are those in the table, each of them once. -/
structure Coherent (sig : Signature) : Prop where
  nodup : sig.order.Nodup
  mem_order : ∀ n, n ∈ sig.order ↔ sig.contains n = true

variable {sig sig' : Signature} {name : String} {decl : Declaration}

theorem coherent_empty : empty.Coherent where
  nodup := List.nodup_nil
  mem_order n := by simp [empty, contains, find?]

namespace Coherent

theorem insert? (hsig : sig.Coherent) (h : sig.insert? name decl = some sig') :
    sig'.Coherent := by
  have hfind := find?_insert? h
  obtain ⟨hfree, rfl⟩ := insert?_eq_some.1 h
  have hnew : name ∉ sig.order := fun hmem => by
    rw [(hsig.mem_order name).1 hmem] at hfree
    cases hfree
  constructor
  · refine List.nodup_append.2 ⟨hsig.nodup, List.pairwise_singleton _ _, ?_⟩
    rintro n hold _ hn rfl
    obtain rfl := List.mem_singleton.1 hn
    exact hnew hold
  · intro n
    rw [contains, hfind, List.mem_append, List.mem_singleton, hsig.mem_order]
    by_cases hn : n = name
    · simp [hn]
    · simp [hn, contains]

theorem withLiteralType (hsig : sig.Coherent) (name : String) :
    (sig.withLiteralType name).Coherent := by
  rw [withLiteralType_eq]
  cases h : sig.insert? name .literalType with
  | none => exact hsig
  | some sig' => exact hsig.insert? h

theorem withBaseTypes (hsig : sig.Coherent) : sig.withBaseTypes.Coherent :=
  (hsig.withLiteralType "number").withLiteralType "string"

/-! ## Entries -/

theorem exists_find? (hsig : sig.Coherent) {n : String} (h : n ∈ sig.order) :
    ∃ decl, sig.find? n = some decl :=
  contains_eq_true.1 ((hsig.mem_order n).1 h)

theorem mem_entries (hsig : sig.Coherent) {n : String} :
    (n, decl) ∈ sig.entries ↔ sig.find? n = some decl := by
  simp only [entries, List.mem_filterMap, Option.map_eq_some_iff, Prod.mk.injEq]
  constructor
  · rintro ⟨_, -, _, hfind, rfl, rfl⟩
    exact hfind
  · exact fun hfind =>
      ⟨n, (hsig.mem_order n).2 (contains_eq_true.2 ⟨decl, hfind⟩), decl, hfind, rfl, rfl⟩

/-- There is an entry for every name in the order. -/
theorem names_eq (hsig : sig.Coherent) : sig.names = sig.order := by
  have hentry : ∀ n ∈ sig.order,
      (((sig.find? n).map (n, ·)).map Prod.fst : Option String) = some n := fun n hn => by
    obtain ⟨decl, hfind⟩ := hsig.exists_find? hn
    rw [hfind]
    rfl
  rw [names, entries, List.map_filterMap, List.filterMap_congr hentry, List.filterMap_some]

/-- The entry that is made comes last, and the others stay as they are. -/
theorem entries_insert? (hsig : sig.Coherent) (h : sig.insert? name decl = some sig') :
    sig'.entries = sig.entries ++ [(name, decl)] := by
  have hfind := find?_insert? h
  obtain ⟨hfree, rfl⟩ := insert?_eq_some.1 h
  have hold : ∀ n ∈ sig.order,
      (find? ⟨(name, decl) :: sig.table, sig.order ++ [name]⟩ n).map (n, ·) =
        (sig.find? n).map (n, ·) := fun n hn => by
    have hne : n ≠ name := by
      rintro rfl
      rw [(hsig.mem_order n).1 hn] at hfree
      cases hfree
    rw [hfind, if_neg hne]
  rw [entries, entries, List.filterMap_append, List.filterMap_congr hold, List.filterMap_cons,
    hfind, if_pos rfl]
  rfl

end Coherent

end Signature

/-! ## Scopes -/

namespace Scope

/-- After some entries are defined, a name that one of them has is defined by it. -/
theorem phase?_foldl_define {entries : List Entry} {phase? : String → Option Phase}
    (h : ∀ entry ∈ entries, phase? entry.1 = some entry.2.phase) (scope : Scope) (n : String) :
    (entries.foldl (fun scope (name, decl) => scope.define name decl.phase) scope).phase? n =
      if n ∈ entries.map Prod.fst then phase? n else scope.phase? n := by
  induction entries generalizing scope with
  | nil => simp
  | cons entry entries ih =>
    obtain ⟨hentry, hrest⟩ := List.forall_mem_cons.1 h
    rw [List.foldl_cons, ih hrest, phase?_define, List.map_cons]
    by_cases hn : n = entry.1
    · simp [hn, hentry]
    · simp only [List.mem_cons, hn, false_or, if_false]

/-- **A scope that is read off the entries has the phases that the table has.** -/
theorem phase?_ofSignature {sig : Signature} (hsig : sig.Coherent) (n : String) :
    (ofSignature sig).phase? n = sig.phase? n := by
  have hentries : ∀ entry ∈ sig.entries, sig.phase? entry.1 = some entry.2.phase :=
    fun entry hentry => by rw [Signature.phase?, hsig.mem_entries.1 hentry, Option.map_some]
  rw [ofSignature, phase?_foldl_define hentries]
  change (if n ∈ sig.names then _ else _) = _
  rw [hsig.names_eq]
  split
  · rfl
  · next hn =>
    rw [hsig.mem_order, Signature.contains, Bool.not_eq_true, Option.isSome_eq_false_iff,
      Option.isNone_iff_eq_none] at hn
    rw [Signature.phase?, hn]
    rfl

end Scope

end StagedTT
