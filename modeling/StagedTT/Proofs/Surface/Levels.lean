import StagedTT.Proofs.Expansion.Relation
import StagedTT.Proofs.Surface.FormSound
import StagedTT.Proofs.Typing.InferredTypes

/-!
# Levels of declarations

The value of a declaration mentions universes that expressions can name, and its type those and the
next one: lowering starts there, and what expands, infers and normalizes does not lead further
(`Environment.Declares.leveled`). So no declaration comes near the last universe
(`Declaration.Leveled.belowLast`).
-/

namespace StagedTT

/-- All terms in which calls are calls of names and levels are below a bound. -/
def Fragment.levelsBelow (bound : Nat) : Fragment := ⟨(· < bound), fun _ => True, True⟩

theorem Fragment.levelsBelow_mono {m n : Nat} (h : m ≤ n) : levelsBelow m ≤ levelsBelow n :=
  ⟨fun _ hl => Nat.lt_of_lt_of_le hl h, fun _ _ => trivial, id⟩

/-- What expressions mention is below the bound on literals. -/
theorem Fragment.levelsBelow_covers (scope : Scope) : (levelsBelow literalBound).Covers scope where
  level _ hl := hl
  name _ _ _ := trivial
  staged := trivial

/-- The value of a declaration mentions universes that expressions can name, and its type those and
the next one. -/
structure Declaration.Leveled (decl : Declaration) : Prop where
  type : decl.type.Within (.levelsBelow (literalBound + 1))
  value : ∀ v, decl.value? = some v → v.Within (.levelsBelow literalBound)

theorem Declaration.Leveled.belowLast {decl : Declaration} (h : decl.Leveled) :
    decl.type.Within .belowLast :=
  h.type.mono (Fragment.levelsBelow_mono (by decide))

/-- All declarations are within the levels of expressions. -/
def Signature.Leveled (sig : Signature) : Prop := ∀ n decl, sig.find? n = some decl → decl.Leveled

namespace Signature

variable {sig : Signature}

theorem Leveled.keeps (hsig : sig.Leveled) {bound : Nat} (h : literalBound ≤ bound) :
    sig.Keeps (.levelsBelow bound) := by
  intro n v _ hv
  obtain ⟨decl, hfind, hvalue⟩ := Option.bind_eq_some_iff.1 hv
  exact ((hsig n decl hfind).value v hvalue).mono (Fragment.levelsBelow_mono h)

theorem Leveled.hasTypes (hsig : sig.Leveled) :
    (Fragment.levelsBelow (literalBound + 1)).HasTypesOf (.levelsBelow literalBound) sig where
  terms := Fragment.levelsBelow_mono (Nat.le_succ _)
  level _ hl := Nat.succ_lt_succ hl
  number := trivial
  string := trivial
  declared n decl _ hfind := (hsig n decl hfind).type
  keeps := hsig.keeps (Nat.le_succ _)

theorem Leveled.insert? {sig' : Signature} {name : String} {decl : Declaration}
    (hsig : sig.Leveled) (h : sig.insert? name decl = some sig') (hdecl : decl.Leveled) :
    sig'.Leveled := by
  intro n d hfind
  rw [find?_insert? h] at hfind
  split at hfind
  · obtain rfl := Option.some.inj hfind
    exact hdecl
  · exact hsig n d hfind

theorem leveled_withBaseTypes : empty.withBaseTypes.Leveled := by
  intro n decl hfind
  rw [find?_withBaseTypes] at hfind
  split at hfind
  · obtain rfl := Option.some.inj hfind
    exact ⟨.sort (Nat.succ_pos _), fun v hv => by cases hv⟩
  · cases hfind

end Signature

/-- Object code belongs to every fragment that covers the scope and that reduction stays in. -/
theorem SExpr.elaborate_within {env : Environment} {scope : Scope} {F : Fragment}
    (hkeeps : env.signature.Keeps F) (hF : F.Covers scope) (loc : Location) (e : SExpr) :
    Yields (e.elaborate env scope loc) fun t => t.Within F := by
  refine (elaborate_yields env scope loc e).mono fun t ⟨raw, hraw, ht⟩ => ?_
  have hlowered := (e.lower_yields F scope hF).of_ok hraw
  exact (Environment.expand_within hkeeps hlowered).of_ok ht

namespace Environment

variable {env : Environment} (hsig : env.signature.Leveled)

include hsig

theorem elaborate_leveled (scope : Scope) (loc : Location) (e : SExpr) :
    Yields (e.elaborate env scope loc) fun t => t.Within (.levelsBelow literalBound) :=
  e.elaborate_within (hsig.keeps (Nat.le_refl _)) (Fragment.levelsBelow_covers scope) loc

/-- What is stored for a term that mentions universes that expressions can name. -/
theorem leveled_of_infer {p : Phase} {t T v : Term} (ht : t.Within (.levelsBelow literalBound))
    (hT : env.infer (.empty p) t = .ok T) (hv : env.normalize t = .ok v) :
    Declaration.Leveled ⟨p, T, some v⟩ where
  type := (infer_within hsig.hasTypes (List.forall_mem_nil _) ht).of_ok hT
  value := by
    rintro _ ⟨⟩
    exact (normalize_within (hsig.keeps (Nat.le_refl _)) ht).of_ok hv

/-- **What a form declares is within the levels of expressions.** -/
theorem Declares.leveled {scope : Scope} {form : SExpr} {entry : Entry}
    (h : env.Declares scope form entry) : entry.2.Leveled := by
  have helaborate := elaborate_leveled hsig scope
  have hnext : Fragment.levelsBelow literalBound ≤ .levelsBelow (literalBound + 1) :=
    Fragment.levelsBelow_mono (Nat.le_succ _)
  cases h with
  | inferred _ _ ht hT hv => exact leveled_of_infer hsig ((helaborate _ _).of_ok ht) hT hv
  | annotated _ _ ht hT _ _ hv =>
    refine ⟨((helaborate _ _).of_ok hT).mono hnext, ?_⟩
    rintro _ ⟨⟩
    have hkeeps := hsig.keeps (Nat.le_refl literalBound)
    exact (normalize_within hkeeps ((helaborate _ _).of_ok ht)).of_ok hv
  | metalevel _ _ hlower hT hv =>
    have hcovers := Fragment.levelsBelow_covers scope
    exact leveled_of_infer hsig ((SExpr.lower_yields _ _ scope hcovers).of_ok hlower) hT hv
  | postulate _ _ hT _ =>
    refine ⟨((helaborate _ _).of_ok hT).mono hnext, ?_⟩
    rintro _ ⟨⟩

end Environment

end StagedTT
