import StagedTT.Proofs.Surface.Declares
import StagedTT.Proofs.Surface.LoweredTerms
import StagedTT.Proofs.Typing.Extension
import StagedTT.Proofs.Typing.Inference

/-!
# What forms declare

Over a sound signature, what a form declares is sound (`Environment.Declares.sound`): what is
stored is the normal form of a checked term, and reduction keeps types. Only axioms declare a name
without a value (`Environment.Declares.value_isSome`).
-/

namespace StagedTT

open Term

namespace Environment

variable {env : Environment}

section Sound

variable (hsig : env.signature.Sound)

include hsig

/-- The normal form of a term may be stored with the type of the term. -/
theorem normalize_yields {p : Phase} {t T : Term} (h : Infers env.signature p [] t T) :
    Yields (env.normalize t) fun v => Declaration.Sound env.signature ⟨p, T, some v⟩ := by
  refine (env.normalize_settles t).yields.mono fun n hn => ?_
  have htyped : HasType env.signature p [] n T := h.typed.steps hsig .nil hn.steps
  have hbelow : n.Within .belowLast := Steps.within hsig.keeps_belowLast hn.steps h.belowLast
  constructor
  · exact htyped.sorted hsig .nil
  · rintro _ ⟨⟩
    exact htyped
  · rintro _ ⟨⟩
    exact hn.normal
  · rintro _ ⟨⟩
    exact hbelow

theorem objectType_yields (position : String) (T : Term) :
    Yields (env.inferSort (.empty .object) position T)
      fun l => Infers env.signature .object [] T (.sort l) :=
  inferSort_yields hsig .nil position (by rintro ⟨⟩)

/-- **What a form declares is sound.** -/
theorem Declares.sound {scope : Scope} {form : SExpr} {entry : Entry}
    (h : env.Declares scope form entry) : entry.2.Sound env.signature := by
  have hobject : ∀ t : Term, Phase.object = .metalevel → t.Within .namedCalls := by rintro _ ⟨⟩
  cases h with
  | inferred _ _ _ hT hv =>
    have ht := (infer_yields hsig .nil (hobject _)).of_ok hT
    exact (normalize_yields hsig ht).of_ok hv
  | annotated _ _ _ _ hl hcheck hv =>
    have hT := (objectType_yields hsig _ _).of_ok hl
    have ht := (check_yields hsig .nil (hobject _) hT.typed).of_ok hcheck
    exact (normalize_yields hsig ht).of_ok hv
  | @metalevel _ _ _ body _ _ _ _ _ _ hlower hT hv =>
    have hnamed := (body.lower_yields .namedCalls scope (Fragment.namedCalls_covers scope)).of_ok
      hlower
    have ht := (infer_yields hsig .nil fun _ => hnamed).of_ok hT
    exact (normalize_yields hsig ht).of_ok hv
  | postulate _ _ _ hl =>
    have hT := (objectType_yields hsig _ _).of_ok hl
    constructor
    · exact ⟨_, hT.typed⟩
    all_goals
      rintro _ ⟨⟩

end Sound

/-- Every form but an axiom declares a value. -/
theorem Declares.value_isSome {scope : Scope} {form : SExpr} {entry : Entry}
    (h : env.Declares scope form entry) (hform : form.headSymbol? ≠ some "axiom") :
    entry.2.value?.isSome := by
  cases h with
  | inferred | annotated | metalevel => rfl
  | postulate hhead => exact absurd hhead hform

end Environment

end StagedTT
