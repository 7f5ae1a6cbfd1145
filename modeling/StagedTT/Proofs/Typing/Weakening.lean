import StagedTT.Proofs.Reduction.Shifting
import StagedTT.Proofs.Typing.MachineWords
import StagedTT.Proofs.Typing.Substitution

/-!
# Weakening of inference

One more binder anywhere in the context changes nothing that inference does. The types of the
binders inside it are moved to make room for it (`shiftTypes`), and so are the term and the type
that comes out. A term without a type has none under the new binder either, for the same reason
(`Environment.infer_corresponds`). To make room adds to indices, and so do both inferences. In every
arithmetic of indices this is so as long as no sum is too large (`Environment.infer_weaken`).

Each judgment is followed on its own. What a judgment normalizes is normalized alike
(`Environment.normalize_shift`), terms are the same exactly if they are when moved (`shift_inj`),
and a variable finds the type it found before, moved (`lookup_weaken`).
-/

namespace StagedTT

open Term

/-- The types of inner binders, innermost first, once a binder is put in outside them. Each type
is moved from the place of the new binder on, which has the binders before its own in between. -/
def shiftTypes : List Term → List Term
  | [] => []
  | B :: Δ => B.shift 1 Δ.length :: shiftTypes Δ

/-- The types of inner binders, once a binder is put in outside them, if no sum stops the run. -/
def shiftTypes? [IndexArithmetic] : List Term → Option (List Term)
  | [] => some []
  | B :: Δ => do
    let B ← B.shift? 1 Δ.length
    let Δ ← shiftTypes? Δ
    return B :: Δ

theorem shiftTypes?_eq (Δ : List Term) : shiftTypes? Δ = some (shiftTypes Δ) := by
  induction Δ with
  | nil => rfl
  | cons B Δ ih =>
    rw [shiftTypes?, shift?_eq_shift, ih]
    rfl

theorem refines_shiftTypes? [IndexArithmetic] (Δ : List Term) :
    Refines (shiftTypes? Δ) (@shiftTypes? .checked Δ) := by
  induction Δ with
  | nil => exact .refl _
  | cons B Δ ih =>
    unfold shiftTypes?
    exact (B.refines_shift? 1 Δ.length).bind fun _ => ih.bind fun _ => .refl _

@[simp] theorem length_shiftTypes (Δ : List Term) : (shiftTypes Δ).length = Δ.length := by
  induction Δ with
  | nil => rfl
  | cons B Δ ih => rw [shiftTypes, List.length_cons, ih, List.length_cons]

theorem getElem?_shiftTypes (Δ : List Term) (i : Nat) :
    (shiftTypes Δ)[i]? = Δ[i]?.map (·.shift 1 (Δ.length - (i + 1))) := by
  induction Δ generalizing i with
  | nil => rfl
  | cons B Δ ih =>
    cases i with
    | zero => simp [shiftTypes]
    | succ i => simp [shiftTypes, ih]

theorem Term.level?_shift (t : Term) (d c : Nat) : (t.shift d c).level? = t.level? := by
  cases t <;> simp [level?]

/-! ## The context -/

section Context

variable {p : Phase} {Γ Γ' : List Term}

theorem Context.requireMetalevel_corresponds (t t' : Term) :
    Corresponds IsSame KernelError.SameKind (Context.requireMetalevel ⟨p, Γ⟩ t)
      (Context.requireMetalevel ⟨p, Γ'⟩ t') := by
  cases p with
  | metalevel => exact .ok rfl
  | object => exact .error rfl

/-- A variable has the type that it had, moved like the variable itself. -/
theorem Context.lookup_weaken (Δ : List Term) (A : Term) (i : Nat) :
    Corresponds (IsShift 1 Δ.length) KernelError.SameKind (Context.lookup ⟨p, Δ ++ Γ⟩ i)
      (Context.lookup ⟨p, shiftTypes Δ ++ A :: Γ⟩ (if i < Δ.length then i else i + 1)) := by
  rw [Context.lookup_eq, Context.lookup_eq]
  by_cases hi : i < Δ.length
  · rw [if_pos hi, List.getElem?_append_left hi, List.getElem?_append_left (by simpa using hi),
      getElem?_shiftTypes, List.getElem?_eq_getElem hi]
    refine .ok ?_
    show (Δ[i].shift 1 (Δ.length - (i + 1))).shift (i + 1) 0 = (Δ[i].shift (i + 1) 0).shift 1 _
    rw [shift_shift_of_le (Nat.zero_le _), Nat.sub_add_cancel hi]
  · have hle : Δ.length ≤ i := Nat.le_of_not_lt hi
    rw [if_neg hi, List.getElem?_append_right hle, List.getElem?_append_right (by simp; omega),
      length_shiftTypes, Nat.sub_add_comm hle, List.getElem?_cons_succ]
    cases Γ[i - Δ.length]? with
    | none => exact .error rfl
    | some B => exact .ok (shift_shift (Nat.zero_le _) (by omega) B).symm

end Context

/-! ## The judgments -/

namespace Environment

variable {env : Environment} (hsig : env.signature.Closed)

include hsig

theorem normalize_weaken (t : Term) (n : Nat) :
    Corresponds (IsShift 1 n) KernelError.SameKind (env.normalize t)
      (env.normalize (t.shift 1 n)) := by
  refine (normalize_shift hsig.values t 1 n).mono (fun _ _ h => h) fun e e' h => ?_
  rw [h, KernelError.SameKind]

theorem convertible_weaken (left right : Term) (n : Nat) :
    Corresponds IsSame KernelError.SameKind (env.convertible left right)
      (env.convertible (left.shift 1 n) (right.shift 1 n)) := by
  unfold convertible
  simp only [shift_inj]
  by_cases h : left = right
  · rw [if_pos h, if_pos h]
    exact .ok rfl
  · rw [if_neg h, if_neg h]
    refine (normalize_weaken hsig left n).bind_image fun l => ?_
    refine (normalize_weaken hsig right n).bind_image fun r => .ok ?_
    simp only [shift_inj]

theorem expectSort_weaken (position : String) (term term' type : Term) (n : Nat) :
    Corresponds IsSame KernelError.SameKind (env.expectSort position term type)
      (env.expectSort position term' (type.shift 1 n)) := by
  refine (normalize_weaken hsig type n).bind_image fun T => ?_
  rw [level?_shift]
  cases T.level? with
  | none => exact .error rfl
  | some level => exact .ok rfl

theorem expectPi_weaken (fn fn' type : Term) (n : Nat) :
    Corresponds (IsImage fun P => (P.1.shift 1 n, P.2.shift 1 (n + 1))) KernelError.SameKind
      (env.expectPi fn type) (env.expectPi fn' (type.shift 1 n)) := by
  refine (normalize_weaken hsig type n).bind_image fun T => ?_
  cases T with
  | pi A B =>
    rw [shift_pi]
    exact .ok rfl
  | _ =>
    simp only [shift_sort, shift_const, shift_num, shift_str, shift_var, shift_lam, shift_app,
      shift_quote, shift_splice, shift_call]
    exact .error rfl

theorem applicationType_weaken (domain body arg argType : Term) (n : Nat) :
    Corresponds (IsShift 1 n) KernelError.SameKind (env.applicationType domain body arg argType)
      (env.applicationType (domain.shift 1 n) (body.shift 1 (n + 1)) (arg.shift 1 n)
        (argType.shift 1 n)) := by
  rw [applicationType_eq, applicationType_eq]
  refine (convertible_weaken hsig argType domain n).bind_image fun fits => ?_
  cases fits with
  | true =>
    have h := normalize_weaken hsig (body.instantiate arg) n
    rwa [instantiate, shift_subst_of_ge (Nat.zero_le n)] at h
  | false => exact (normalize_weaken hsig argType n).bind_image fun _ => .error rfl

theorem constantType_weaken {p : Phase} {Γ Γ' : List Term} (name : String) (n : Nat) :
    Corresponds (IsShift 1 n) KernelError.SameKind (env.constantType ⟨p, Γ⟩ name)
      (env.constantType ⟨p, Γ'⟩ name) := by
  unfold constantType
  cases hfind : env.signature.find? name with
  | none => exact .error rfl
  | some decl =>
    have htype : IsShift 1 n decl.type decl.type := ((hsig.types _ _ hfind).shift_eq 1 n).symm
    cases hphase : decl.phase with
    | object =>
      simp only [hphase]
      exact .ok htype
    | metalevel =>
      simp only [hphase]
      exact (Context.requireMetalevel_corresponds _ _).bind_image fun _ => .ok htype

section Infer

variable {p : Phase} {Γ : List Term} {A : Term}

theorem inferArgs_weaken {Δ args : List Term} (hargs : ∀ arg ∈ args,
      Corresponds (IsShift 1 Δ.length) KernelError.SameKind (env.infer ⟨p, Δ ++ Γ⟩ arg)
        (env.infer ⟨p, shiftTypes Δ ++ A :: Γ⟩ (arg.shift 1 Δ.length)))
    (fn fn' fnType : Term) :
    Corresponds (IsShift 1 Δ.length) KernelError.SameKind
      (env.inferArgs ⟨p, Δ ++ Γ⟩ fn fnType args)
      (env.inferArgs ⟨p, shiftTypes Δ ++ A :: Γ⟩ fn' (fnType.shift 1 Δ.length)
        (args.map (·.shift 1 Δ.length))) := by
  induction args generalizing fn fn' fnType with
  | nil => exact .ok rfl
  | cons arg args ih =>
    obtain ⟨hfirst, hrest⟩ := List.forall_mem_cons.1 hargs
    rw [List.map_cons, inferArgs, inferArgs]
    refine (expectPi_weaken hsig fn fn' fnType _).bind_image fun P => ?_
    refine hfirst.bind_image fun argType => ?_
    refine (applicationType_weaken hsig P.1 P.2 arg argType _).bind_image fun T => ?_
    exact ih hrest _ _ T

/-- Inference corresponds, under as many inner binders as there may be. -/
theorem infer_corresponds (t : Term) (Δ : List Term) :
    Corresponds (IsShift 1 Δ.length) KernelError.SameKind (env.infer ⟨p, Δ ++ Γ⟩ t)
      (env.infer ⟨p, shiftTypes Δ ++ A :: Γ⟩ (t.shift 1 Δ.length)) := by
  induction t generalizing Δ with
  | sort l =>
    rw [shift_sort, infer, infer]
    by_cases hl : l < lastLevel
    · simp only [if_pos hl]
      exact .ok (shift_sort 1 Δ.length (l + 1)).symm
    · simp only [if_neg hl]
      exact .error rfl
  | const n =>
    rw [shift_const, infer, infer]
    exact constantType_weaken hsig n _
  | num v =>
    rw [shift_num, infer, infer]
    exact .ok (shift_const 1 Δ.length _).symm
  | str s =>
    rw [shift_str, infer, infer]
    exact .ok (shift_const 1 Δ.length _).symm
  | var i =>
    rw [shift_var, infer, infer]
    exact Context.lookup_weaken Δ A i
  | pi B C ihB ihC =>
    rw [shift_pi, infer, infer]
    refine (ihB Δ).bind_image fun BT => ?_
    refine (expectSort_weaken hsig _ B _ BT _).bind_image fun m => ?_
    refine (ihC (B :: Δ)).bind_image fun CT => ?_
    refine (expectSort_weaken hsig _ C _ CT _).bind_image fun n => ?_
    exact .ok (shift_sort 1 Δ.length _).symm
  | lam B b ihB ihb =>
    rw [shift_lam, infer, infer]
    refine (ihB Δ).bind_image fun BT => ?_
    refine (expectSort_weaken hsig _ B _ BT _).bind_image fun m => ?_
    refine (ihb (B :: Δ)).bind_image fun bT => ?_
    exact .ok (shift_pi 1 Δ.length B bT).symm
  | app f a ihf iha =>
    rw [shift_app, infer, infer]
    refine (ihf Δ).bind_image fun fT => ?_
    refine (expectPi_weaken hsig f _ fT _).bind_image fun P => ?_
    refine (iha Δ).bind_image fun aT => ?_
    exact applicationType_weaken hsig P.1 P.2 a aT _
  | quote b ih =>
    rw [shift_quote, infer, infer]
    exact (Context.requireMetalevel_corresponds _ _).bind_image fun _ => ih Δ
  | splice b ih =>
    rw [shift_splice, infer, infer]
    exact (Context.requireMetalevel_corresponds _ _).bind_image fun _ => ih Δ
  | call k as ihk ihas =>
    rw [shift_call, infer, infer]
    refine (Context.requireMetalevel_corresponds _ _).bind_image fun _ => ?_
    refine (ihk Δ).bind_image fun kT => ?_
    exact inferArgs_weaken hsig (fun a ha => ihas a ha Δ) _ _ _

/-- Puts a binder of type `A` in behind the inner binders `Δ`, and infers the type of the term
there, moved to make room for it. -/
def inferWeakened [IndexArithmetic] (env : Environment) (p : Phase) (Γ Δ : List Term)
    (A t : Term) : Except KernelError Term := do
  let inner ← KernelError.inRange (shiftTypes? Δ)
  let moved ← KernelError.inRange (t.shift? 1 Δ.length)
  env.infer ⟨p, inner ++ A :: Γ⟩ moved

omit hsig in
theorem inferWeakened_eq (p : Phase) (Γ Δ : List Term) (A t : Term) :
    env.inferWeakened p Γ Δ A t =
      env.infer ⟨p, shiftTypes Δ ++ A :: Γ⟩ (t.shift 1 Δ.length) := by
  rw [inferWeakened, shiftTypes?_eq, shift?_eq_shift]
  rfl

omit hsig in
theorem sameUnless_inferWeakened [IndexArithmetic] (p : Phase) (Γ Δ : List Term) (A t : Term) :
    SameUnless IsOverflow (env.inferWeakened p Γ Δ A t)
      (@inferWeakened .checked env p Γ Δ A t) := by
  refine (refines_shiftTypes? Δ).inRange.bind fun inner => ?_
  refine (t.refines_shift? 1 Δ.length).inRange.bind fun moved => ?_
  exact env.imitates_checked.infer ⟨p, inner ++ A :: Γ⟩ moved

end Infer

omit hsig

theorem closed_withIdentity : withIdentity.signature.Closed where
  values := orderly_withIdentity.closed
  types n decl h := by
    obtain ⟨rfl, rfl⟩ : n = "id" ∧ decl = _ := by
      simpa [withIdentity] using Signature.mem_of_find? h
    intro i hi
    cases hi with
    | piDomain h => cases h
    | piBody h => cases h

end Environment

end StagedTT
