import StagedTT.Proofs.Typing.InferredTypes

/-!
# Agreement of environments

Two environments agree on a fragment if they declare the same for all its names, and its terms lead
to no other names. On the terms of such a fragment the kernel answers the same in both, errors
included, and takes as many steps: it normalizes (`Environment.AgreesOn.normalize`) and infers
(`Environment.AgreesOn.infer`) without a look at what only one of them declares.
-/

namespace StagedTT

open Term
open Metered (fix_congr_on)

/-- Two environments with the same budgets that declare the same for the names of a fragment, which
has all that its terms reduce to and all their types. -/
structure Environment.AgreesOn (env' env : Environment) (F : Fragment) : Prop where
  limits : env'.limits = env.limits
  find? : ∀ n, F.name n → env'.signature.find? n = env.signature.find? n
  types : F.HasTypesOf F env.signature

variable {env env' : Environment} {F : Fragment} (h : env'.AgreesOn env F)

include h

namespace Environment.AgreesOn

theorem value? {n : String} (hn : F.name n) :
    env'.signature.value? n = env.signature.value? n := by
  rw [Signature.value?, h.find? n hn, Signature.value?]

/-! ## Reduction -/

theorem step? {s : Spine} (hs : s.toTerm.Within F) :
    s.step? env'.signature = s.step? env.signature := by
  obtain ⟨head, args⟩ := s
  have hhead : head.Within F := (Within.applyAll.1 hs).1
  cases hhead with
  | const hn => rw [Spine.step?, h.value? hn, Spine.step?]
  | lam => cases args <;> rfl
  | _ => rfl

theorem reduce {s : Spine} (hs : s.toTerm.Within F) :
    s.reduce env'.signature = s.reduce env.signature := by
  funext ⟨used, left⟩
  induction left generalizing used s with
  | zero =>
    rw [Spine.reduce_eq, h.step? hs, Spine.reduce_eq]
    cases s.step? env.signature <;> rfl
  | succ left ih =>
    rw [Spine.reduce_eq, h.step? hs, Spine.reduce_eq, Spine.pay_eq_burn]
    cases hnext : s.step? env.signature with
    | none => rfl
    | some next => exact ih ((Spine.step_of_step? hnext).within h.types.keeps hs) (used + 1)

section NormalizeBody

variable {again again' : Term → Metered KernelError Term}

omit h in
theorem normalizeArgs {args : List Term} (hargs : ∀ a ∈ args,
      normalizeBody env'.signature again' a = normalizeBody env.signature again a) :
    Term.normalizeArgs env'.signature again' args =
      Term.normalizeArgs env.signature again args := by
  induction args with
  | nil => rfl
  | cons a as ih =>
    obtain ⟨ha, has⟩ := List.forall_mem_cons.1 hargs
    rw [Term.normalizeArgs, Term.normalizeArgs, ha, ih has]

theorem normalizeBody (hagain : ∀ t, t.Within F → again' t = again t) {t : Term}
    (ht : t.Within F) :
    Term.normalizeBody env'.signature again' t = Term.normalizeBody env.signature again t := by
  have hhead : ∀ {t : Term} {next : Spine}, t.Within F → t.spine.step? env.signature = some next →
      (do t.spine.pay; let reduced ← next.reduce env'.signature; again' reduced.toTerm) =
        (do t.spine.pay; let reduced ← next.reduce env.signature; again reduced.toTerm) := by
    intro t next ht hnext
    have hstep := Spine.step_of_step? hnext
    rw [toTerm_spine] at hstep
    have hnext : next.toTerm.Within F := hstep.within h.types.keeps ht
    refine bind_congr fun _ => ?_
    refine (Spine.reduce_settles env.signature next).bind_congr (h.reduce hnext) fun r hr => ?_
    exact hagain _ (Steps.within h.types.keeps hr hnext)
  induction t with
  | sort | num | str | var => rfl
  | const name =>
    have hspine : (const name).spine.toTerm.Within F := by rwa [toTerm_spine]
    rw [Term.normalizeBody, Term.normalizeBody, h.step? hspine]
    cases hnext : (const name).spine.step? env.signature with
    | none => rfl
    | some next => exact hhead ht hnext
  | app fn arg ihf iha =>
    have hspine : (app fn arg).spine.toTerm.Within F := by rwa [toTerm_spine]
    obtain ⟨hfn, harg⟩ := ht.of_app
    rw [Term.normalizeBody, Term.normalizeBody, h.step? hspine, ihf hfn, iha harg]
    cases hnext : (app fn arg).spine.step? env.signature with
    | none => rfl
    | some next => exact hhead ht hnext
  | pi A B ihA ihB =>
    obtain ⟨hA, hB⟩ := ht.of_pi
    rw [Term.normalizeBody, Term.normalizeBody, ihA hA, ihB hB]
  | lam A b ihA ihb =>
    obtain ⟨hA, hb⟩ := ht.of_lam
    rw [Term.normalizeBody, Term.normalizeBody, ihA hA, ihb hb]
  | quote b ih => rw [Term.normalizeBody, Term.normalizeBody, ih ht.of_quote]
  | splice b ih => rw [Term.normalizeBody, Term.normalizeBody, ih ht.of_splice]
  | call head args _ ih =>
    obtain ⟨n, -, -, -, hargs⟩ := ht.of_call
    rw [Term.normalizeBody, Term.normalizeBody, normalizeArgs fun a ha => ih a ha (hargs a ha)]

end NormalizeBody

/-- **Normalization is the same**, and takes as many steps. -/
theorem normalizeMetered {t : Term} (ht : t.Within F) :
    t.normalizeMetered env'.signature = t.normalizeMetered env.signature := by
  refine fix_congr_on (I := Within F) (fun again again' hagain u hu => ?_) ht
  exact h.normalizeBody hagain hu

theorem normalize {t : Term} (ht : t.Within F) : env'.normalize t = env.normalize t := by
  rw [Environment.normalize, h.limits, h.normalizeMetered ht, Environment.normalize]

/-! ## Typing -/

theorem convertible {left right : Term} (hleft : left.Within F) (hright : right.Within F) :
    env'.convertible left right = env.convertible left right := by
  rw [Environment.convertible, h.normalize hleft, h.normalize hright, Environment.convertible]

theorem expectSort (position : String) (term : Term) {type : Term} (htype : type.Within F) :
    env'.expectSort position term type = env.expectSort position term type := by
  rw [Environment.expectSort, h.normalize htype, Environment.expectSort]

theorem expectPi (fn : Term) {type : Term} (htype : type.Within F) :
    env'.expectPi fn type = env.expectPi fn type := by
  rw [Environment.expectPi, h.normalize htype, Environment.expectPi]

theorem applicationType {domain body arg argType : Term} (hdomain : domain.Within F)
    (hbody : body.Within F) (harg : arg.Within F) (hargType : argType.Within F) :
    env'.applicationType domain body arg argType = env.applicationType domain body arg argType := by
  rw [applicationType_eq, applicationType_eq, h.convertible hargType hdomain,
    h.normalize (hbody.instantiate harg), h.normalize hargType]

theorem constantType (ctx : Context) {n : String} (hn : F.name n) :
    env'.constantType ctx n = env.constantType ctx n := by
  rw [Environment.constantType, h.find? n hn, Environment.constantType]

variable {p : Phase} {Γ : List Term}

theorem inferArgs {args : List Term} (hargs : ∀ arg ∈ args, arg.Within F)
    (hΓ : ∀ A ∈ Γ, A.Within F)
    (hinfer : ∀ arg ∈ args, env'.infer ⟨p, Γ⟩ arg = env.infer ⟨p, Γ⟩ arg) (fn : Term)
    {fnType : Term} (hfnType : fnType.Within F) :
    env'.inferArgs ⟨p, Γ⟩ fn fnType args = env.inferArgs ⟨p, Γ⟩ fn fnType args := by
  induction args generalizing fn fnType with
  | nil => rfl
  | cons arg args ih =>
    obtain ⟨harg, hargs⟩ := List.forall_mem_cons.1 hargs
    obtain ⟨hinferArg, hinfer⟩ := List.forall_mem_cons.1 hinfer
    rw [Environment.inferArgs, Environment.inferArgs]
    have hpi := expectPi_within h.types.keeps fn hfnType
    refine hpi.bind_congr (h.expectPi fn hfnType) fun parts hparts => ?_
    obtain ⟨A, B⟩ := parts
    obtain ⟨hA, hB⟩ := hparts
    refine (infer_within h.types hΓ harg).bind_congr hinferArg fun argType hargType => ?_
    have hresult := applicationType_within h.types.keeps A argType hB harg
    exact hresult.bind_congr (h.applicationType hA hB harg hargType) fun T hT =>
      ih hargs hinfer _ hT

/-- **Inference is the same.** -/
theorem infer (hΓ : ∀ A ∈ Γ, A.Within F) {t : Term} (ht : t.Within F) :
    env'.infer ⟨p, Γ⟩ t = env.infer ⟨p, Γ⟩ t := by
  induction t generalizing Γ with
  | sort | num | str | var => rfl
  | const n =>
    cases ht with
    | const hn => exact h.constantType _ hn
  | pi A B ihA ihB =>
    obtain ⟨hA, hB⟩ := ht.of_pi
    have hΓA : ∀ C ∈ A :: Γ, C.Within F := List.forall_mem_cons.2 ⟨hA, hΓ⟩
    rw [Environment.infer, Environment.infer]
    refine (infer_within h.types hΓ hA).bind_congr (ihA hΓ hA) fun S hS => ?_
    refine (yields_any _).bind_congr (h.expectSort _ A hS) fun m _ => ?_
    refine (infer_within h.types hΓA hB).bind_congr (ihB hΓA hB) fun T hT => ?_
    exact (yields_any _).bind_congr (h.expectSort _ B hT) fun n _ => rfl
  | lam A b ihA ihb =>
    obtain ⟨hA, hb⟩ := ht.of_lam
    have hΓA : ∀ C ∈ A :: Γ, C.Within F := List.forall_mem_cons.2 ⟨hA, hΓ⟩
    rw [Environment.infer, Environment.infer]
    refine (infer_within h.types hΓ hA).bind_congr (ihA hΓ hA) fun S hS => ?_
    refine (yields_any _).bind_congr (h.expectSort _ A hS) fun m _ => ?_
    exact (yields_any _).bind_congr (ihb hΓA hb) fun B _ => rfl
  | app f a ihf iha =>
    obtain ⟨hf, ha⟩ := ht.of_app
    rw [Environment.infer, Environment.infer]
    refine (infer_within h.types hΓ hf).bind_congr (ihf hΓ hf) fun fnType hfnType => ?_
    have hpi := expectPi_within h.types.keeps f hfnType
    refine hpi.bind_congr (h.expectPi f hfnType) fun parts hparts => ?_
    obtain ⟨A, B⟩ := parts
    obtain ⟨hA, hB⟩ := hparts
    refine (infer_within h.types hΓ ha).bind_congr (iha hΓ ha) fun argType hargType => ?_
    exact h.applicationType hA hB ha hargType
  | quote b ih => rw [Environment.infer, Environment.infer, ih hΓ ht.of_quote]
  | splice b ih => rw [Environment.infer, Environment.infer, ih hΓ ht.of_splice]
  | call head args ih ihargs =>
    obtain ⟨n, rfl, hn, -, hargs⟩ := ht.of_call
    have hhead : (const n).Within F := .const hn
    rw [Environment.infer, Environment.infer]
    refine (yields_any _).bind_congr rfl fun _ _ => ?_
    refine (infer_within h.types hΓ hhead).bind_congr (ih hΓ hhead) fun T hT => ?_
    exact h.inferArgs hargs hΓ (fun arg harg => ihargs arg harg hΓ (hargs arg harg)) _ hT

theorem inferSort (position : String) {t : Term} (ht : t.Within F) :
    env'.inferSort (.empty p) position t = env.inferSort (.empty p) position t := by
  have hnil : ∀ A ∈ ([] : List Term), A.Within F := List.forall_mem_nil _
  refine (infer_within h.types hnil ht).bind_congr (h.infer hnil ht) fun T hT => ?_
  exact h.expectSort position t hT

theorem check {t T : Term} (ht : t.Within F) (hT : T.Within F) :
    env'.check (.empty p) t T = env.check (.empty p) t T := by
  have hnil : ∀ A ∈ ([] : List Term), A.Within F := List.forall_mem_nil _
  refine (infer_within h.types hnil ht).bind_congr (h.infer hnil ht) fun S hS => ?_
  rw [h.convertible hS hT, h.normalize hT, h.normalize hS]

end Environment.AgreesOn

end StagedTT
