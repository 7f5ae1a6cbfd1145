import StagedTT.Proofs.Session.Inference
import StagedTT.Proofs.Session.Stored
import StagedTT.Proofs.Surface.Agreement

/-!
# Stability under other definitions

What a session has declared leads to nothing that is declared later, so to an expression that does
not have the new names among its symbols a session gives the same answers before and after it grows
(`Session.Reachable.stable`).
-/

namespace StagedTT

open Term

/-- All terms in which names are declared and calls are calls of names. -/
def Fragment.declared (sig : Signature) : Fragment :=
  ⟨fun _ => True, fun n => sig.contains n = true, True⟩

namespace Signature

variable {sig : Signature}

theorem contains_of_find? {n : String} {decl : Declaration} (h : sig.find? n = some decl) :
    sig.contains n = true := by
  rw [contains, h]
  rfl

theorem code_le_declared (p : Phase) : Fragment.code sig p ≤ .declared sig :=
  ⟨fun _ _ => trivial, fun _ ⟨_, hfind, _⟩ => contains_of_find? hfind, fun _ => trivial⟩

/-- Declared names lead to declared names. -/
theorem Sound.hasTypes (hsig : sig.Sound) :
    (Fragment.declared sig).HasTypesOf (.declared sig) sig where
  terms := ⟨fun _ h => h, fun _ h => h, id⟩
  level _ _ := trivial
  number := contains_of_find? hsig.number
  string := contains_of_find? hsig.string
  declared n decl _ hfind := by
    obtain ⟨s, hs⟩ := (hsig.decl n decl hfind).sorted
    exact hs.within.mono (code_le_declared _)
  keeps n v _ hv := by
    obtain ⟨decl, -, hvalue, hdecl⟩ := hsig.of_value hv
    exact (hdecl.typed v hvalue).within.mono (code_le_declared _)

end Signature

namespace Session

/-! ## Growth by names -/

/-- A session reached from another one by definitions of names, the latest first. -/
inductive GrowsBy (s : Session) : List String → Session → Prop
  | refl : GrowsBy s [] s
  | define {names : List String} {s' s'' : Session} {form : SExpr} {entry : Entry} :
      GrowsBy s names s' → s'.define form = (.ok entry, s'') → GrowsBy s (entry.1 :: names) s''

/-- Two sessions with the same options that declare the same but for names that one of them does not
declare. -/
structure SameBut (names : List String) (s' s : Session) : Prop where
  limits : s'.env.limits = s.env.limits
  find? : ∀ n, n ∉ names → s'.env.signature.find? n = s.env.signature.find? n
  scope : s'.scope.AgreesOn s.scope (· ∉ names)
  fresh : ∀ n ∈ names, s.env.signature.contains n = false

variable {s s' : Session} {names : List String}

theorem GrowsBy.sameBut (h : s.GrowsBy names s') : SameBut names s' s := by
  induction h with
  | refl => exact ⟨rfl, fun _ _ => rfl, ⟨rfl, fun _ _ => rfl⟩, List.forall_mem_nil _⟩
  | @define names s' s'' form entry _ hok ih =>
    obtain ⟨signature, hdeclares, hinsert, rfl⟩ := define_eq_ok hok
    refine ⟨ih.limits, fun n hn => ?_, ⟨ih.scope.binders, fun n hn => ?_⟩, ?_⟩
    · obtain ⟨hne, hn⟩ := List.ne_and_not_mem_of_not_mem_cons hn
      rw [Signature.find?_insert? hinsert, if_neg hne]
      exact ih.find? n hn
    · obtain ⟨hne, hn⟩ := List.ne_and_not_mem_of_not_mem_cons hn
      rw [Scope.phase?_define, if_neg hne]
      exact ih.scope.phase? n hn
    · refine List.forall_mem_cons.2 ⟨?_, ih.fresh⟩
      by_cases hmem : entry.1 ∈ names
      · exact ih.fresh _ hmem
      · have hfree := hdeclares.free
        rw [Signature.contains, ih.find? _ hmem] at hfree
        exact hfree

/-- A session and one that it grows to agree on what is declared in the first one. -/
theorem Reachable.agreesIn {allowed : SExpr → Prop} (hs : Reachable allowed s)
    (h : s.GrowsBy names s') : s'.env.AgreesIn s.env s'.scope s.scope
      (.declared s.env.signature) (· ∉ names) := by
  have hsame := h.sameBut
  refine ⟨⟨hsame.limits, fun n hn => ?_, hs.sound.hasTypes⟩, hsame.scope, ⟨?_, ?_, trivial⟩, ?_⟩
  · refine hsame.find? n fun hmem => ?_
    have hfree := hsame.fresh n hmem
    rw [show s.env.signature.contains n = true from hn] at hfree
    cases hfree
  · exact fun _ _ => trivial
  · intro n p hp
    rw [hs.mirrors.phase? n] at hp
    obtain ⟨decl, hfind, -⟩ := Option.map_eq_some_iff.1 hp
    exact Signature.contains_of_find? hfind
  · intro n hn
    rw [Signature.contains, hsame.find? n hn, Signature.contains]

section Agreement

variable {allowed : SExpr → Prop} (hs : Reachable allowed s) (h : s.GrowsBy names s') {e : SExpr}
  (he : e.Names (· ∉ names))

include hs h he

theorem Reachable.define_stable : (s'.define e).1 = (s.define e).1 := by
  rw [define_fst, (hs.agreesIn h).elaborateForm he, define_fst]

theorem Reachable.elaborate_stable : s'.elaborate e = s.elaborate e :=
  (hs.agreesIn h).elaborate he e.location

theorem Reachable.infer_stable : s'.infer e = s.infer e := by
  have hagree := hs.agreesIn h
  have hwithin := e.elaborate_within hagree.types.keeps hagree.covers e.location
  rw [infer_eq, infer_eq]
  refine hwithin.bind_congr (hs.elaborate_stable h he) fun t ht => ?_
  exact congrArg e.location.reportKernel (hagree.infer (List.forall_mem_nil _) ht)

theorem Reachable.normalize_stable : s'.normalize e = s.normalize e := by
  have hagree := hs.agreesIn h
  have hwithin := e.elaborate_within hagree.types.keeps hagree.covers e.location
  rw [normalize_eq, normalize_eq]
  refine hwithin.bind_congr (hs.elaborate_stable h he) fun t ht => ?_
  exact congrArg e.location.reportKernel (hagree.normalize ht)

end Agreement

/-! ## Order of definitions -/

/-- Forms that do not have each other's names declare the same in either order. -/
theorem Reachable.define_comm {allowed : SExpr → Prop} (hs : Reachable allowed s) {f g : SExpr}
    {ef eg : Entry} {sf sfg : Session} (hf : s.define f = (.ok ef, sf))
    (hg : sf.define g = (.ok eg, sfg)) (hgf : ef.1 ∉ g.symbols) (hfg : eg.1 ∉ f.symbols) :
    ∃ sg sgf, s.define g = (.ok eg, sg) ∧ sg.define f = (.ok ef, sgf) := by
  have hother : ∀ {entry : Entry} {e : SExpr}, entry.1 ∉ e.symbols → e.Names (· ∉ [entry.1]) := by
    intro entry e hentry n hn hmem
    obtain rfl := List.mem_singleton.1 hmem
    exact hentry hn
  have hgrowf : s.GrowsBy [ef.1] sf := .define .refl hf
  have hgstable : (s.define g).1 = .ok eg := by
    rw [← hs.define_stable hgrowf (hother hgf), hg]
  have hsg := define_of_ok hgstable
  have hgrowg : s.GrowsBy [eg.1] (s.enter eg) := .define .refl hsg
  have hfstable : ((s.enter eg).define f).1 = .ok ef := by
    rw [hs.define_stable hgrowg (hother hfg), hf]
  exact ⟨_, _, hsg, define_of_ok hfstable⟩

/-- **Answers are stable under unrelated definitions.** After definitions of names that are not
among its symbols, a form declares what it would have declared before, and a query is answered as
before; what is refused is refused for the same reason at the same place. So two forms that do not
have each other's names may be defined in either order. -/
theorem Reachable.stable {allowed : SExpr → Prop} (hs : Reachable allowed s) :
    (∀ names s' e, s.GrowsBy names s' → e.Names (· ∉ names) →
      (s'.define e).1 = (s.define e).1 ∧ s'.elaborate e = s.elaborate e ∧
        s'.infer e = s.infer e ∧ s'.normalize e = s.normalize e) ∧
      ∀ f g ef eg sf sfg, s.define f = (.ok ef, sf) → sf.define g = (.ok eg, sfg) →
        ef.1 ∉ g.symbols → eg.1 ∉ f.symbols →
        ∃ sg sgf, s.define g = (.ok eg, sg) ∧ sg.define f = (.ok ef, sgf) := by
  refine ⟨fun names s' e h he => ?_, fun f g ef eg sf sfg hf hg hgf hfg => ?_⟩
  · exact ⟨hs.define_stable h he, hs.elaborate_stable h he, hs.infer_stable h he,
      hs.normalize_stable h he⟩
  · exact hs.define_comm hf hg hgf hfg

/-- `seven` and `id` may be defined in either order. -/
theorem stable_withSeven :
    let s := Session.start ⟨100, 100⟩ .failFast
    let s' := (s.load [sevenForm]).2
    let seven : Entry := ("seven", ⟨.metalevel, .const "number", some (.quote (.num 7))⟩)
    let id : Entry := ("id", ⟨.object, .pi (.sort 0) (.pi (.var 0) (.var 1)),
      some (.lam (.sort 0) (.lam (.var 0) (.var 0)))⟩)
    s.GrowsBy ["seven"] s' ∧ s'.infer (.sym {} "number") = s.infer (.sym {} "number") ∧
      ∃ s₁ s₂, s.define identityForm = (.ok id, s₁) ∧ s₁.define sevenForm = (.ok seven, s₂) := by
  intro s s' seven id
  have hs : Reachable (fun _ => True) s := .start _ _
  obtain ⟨hstable, horder⟩ := hs.stable
  have hseven : s.define sevenForm = (.ok seven, s') := by decide +kernel
  have hid : s'.define identityForm = (.ok id, (s'.load [identityForm]).2) := by decide +kernel
  have hgrow : s.GrowsBy ["seven"] s' := .define .refl hseven
  have hnames : SExpr.Names (· ∉ ["seven"]) (.sym {} "number") := by
    intro n hn
    obtain rfl := List.mem_singleton.1 hn
    decide
  refine ⟨hgrow, (hstable _ _ _ hgrow hnames).2.2.1, ?_⟩
  exact horder _ _ _ _ _ _ hseven hid (by decide) (by decide)

end Session

end StagedTT
