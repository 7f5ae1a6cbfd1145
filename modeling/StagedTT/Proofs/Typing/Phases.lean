import StagedTT.Kernel.Typing
import StagedTT.Proofs.Settles
import StagedTT.Proofs.Term.Fragment

/-!
# Inference in the two phases

Object code is code without quotations, splices, suspended calls and names of metalevel
definitions. Inference looks at every part of a term before it answers, also at those that a
reduction throws away later, so what it accepts as object code is object code throughout
(`Environment.infer_object_within`). And on object code it does not depend on the phase: it answers
the same as for metalevel code, errors included (`Environment.infer_phase`).
-/

namespace StagedTT

open Term

/-- Code without metalevel constructs and names of metalevel definitions. -/
def Fragment.objectCode (sig : Signature) : Fragment :=
  ⟨fun _ => True, fun n => sig.phase? n ≠ some .metalevel, False⟩

theorem Fragment.objectCode_le (sig : Signature) : objectCode sig ≤ stageFree :=
  ⟨fun _ _ => trivial, fun _ _ => trivial, id⟩

theorem Signature.phase?_of_find? {sig : Signature} {n : String} {decl : Declaration}
    (h : sig.find? n = some decl) : sig.phase? n = some decl.phase :=
  congrArg (Option.map Declaration.phase) h

namespace Environment

theorem constantType_object_within (env : Environment) (Γ : List Term) (n : String) :
    Yields (env.constantType ⟨.object, Γ⟩ n)
      fun _ => (Term.const n).Within (.objectCode env.signature) := by
  unfold constantType
  cases hfind : env.signature.find? n with
  | none => trivial
  | some decl =>
    cases hphase : decl.phase with
    | object =>
      simp only [hphase]
      refine Within.const (show env.signature.phase? n ≠ some .metalevel from ?_)
      rw [Signature.phase?_of_find? hfind, hphase]
      decide
    | metalevel =>
      simp only [hphase]
      trivial

/-- **Nothing slips through.** What inference accepts as object code is object code in all its
parts. -/
theorem infer_object_within (env : Environment) (Γ : List Term) (t : Term) :
    Yields (env.infer ⟨.object, Γ⟩ t) fun _ => t.Within (.objectCode env.signature) := by
  induction t generalizing Γ with
  | sort l => exact yields_of_ok fun _ _ => .sort trivial
  | num v => exact .num v
  | str s => exact .str s
  | const n =>
    unfold infer
    exact constantType_object_within env Γ n
  | var i => exact yields_of_ok fun _ _ => .var i
  | pi A B ihA ihB =>
    unfold infer
    refine (ihA Γ).bind fun _ hA => (yields_any _).bind fun _ _ => ?_
    exact (ihB (A :: Γ)).bind fun _ hB => (yields_any _).bind fun _ _ => .pi hA hB
  | lam A b ihA ihb =>
    unfold infer
    refine (ihA Γ).bind fun _ hA => (yields_any _).bind fun _ _ => ?_
    exact (ihb (A :: Γ)).bind fun _ hb => .lam hA hb
  | app f a ihf iha =>
    unfold infer
    refine (ihf Γ).bind fun _ hf => (yields_any _).bind fun _ _ => ?_
    exact (iha Γ).bind fun _ ha => (yields_any _).mono fun _ _ => .app hf ha
  | quote | splice | call => trivial

theorem constantType_phase (env : Environment) (Γ : List Term) {n : String}
    (h : env.signature.phase? n ≠ some .metalevel) :
    env.constantType ⟨.object, Γ⟩ n = env.constantType ⟨.metalevel, Γ⟩ n := by
  unfold constantType
  cases hfind : env.signature.find? n with
  | none => rfl
  | some decl =>
    rw [Signature.phase?_of_find? hfind] at h
    cases hphase : decl.phase with
    | object => simp only [hphase]
    | metalevel => exact absurd (congrArg some hphase) h

/-- **On object code, inference does not depend on the phase.** -/
theorem infer_phase (env : Environment) (Γ : List Term) {t : Term}
    (ht : t.Within (.objectCode env.signature)) :
    env.infer ⟨.object, Γ⟩ t = env.infer ⟨.metalevel, Γ⟩ t := by
  induction ht generalizing Γ with
  | sort | num | str | var => rfl
  | const hn =>
    rw [infer, infer]
    exact constantType_phase env Γ hn
  | @pi A B _ _ ihA ihB =>
    rw [infer, infer, ihA Γ]
    simp only [Context.bind, ihB]
  | @lam A b _ _ ihA ihb =>
    rw [infer, infer, ihA Γ]
    simp only [Context.bind, ihb]
  | app _ _ ihf iha => rw [infer, infer, ihf Γ, iha Γ]
  | quote hstaged | splice hstaged | call hstaged => exact hstaged.elim

/-- **Inference for object code is inference for metalevel code, on object code.** With any types
for the binders, a term has a type as object code exactly if it has that type as metalevel code, and
there is no quotation, splice, suspended call or name of a metalevel definition in it. -/
theorem infer_object_iff (env : Environment) (Γ : List Term) (t T : Term) :
    env.infer ⟨.object, Γ⟩ t = .ok T ↔
      env.infer ⟨.metalevel, Γ⟩ t = .ok T ∧ t.Within (.objectCode env.signature) := by
  constructor
  · intro h
    have ht := (infer_object_within env Γ t).of_ok h
    exact ⟨(infer_phase env Γ ht).symm.trans h, ht⟩
  · rintro ⟨h, ht⟩
    exact (infer_phase env Γ ht).trans h

end Environment

end StagedTT
