import StagedTT.Proofs.Expansion.FormedTerms
import StagedTT.Proofs.Surface.Declares
import StagedTT.Kernel.Typing

/-!
# Faults of expressions

Some faults are no fault of an expression: a name that is not declared, a variable that is not
bound, the last universe, and a call that cannot be run would be signs of a term that no expression
stands for. A result is ordinary if it is no such fault.

Inference of a formed term in a context of its depth is ordinary, whatever the types in the context
are (`Environment.infer_ordinary`): it looks up what the term mentions, and what it computes on the
way is normalized, but never looked up in. As what forms elaborate to is formed, all that is
reported at a form is ordinary (`Environment.elaborateForm_ordinary`), and what a form declares is
formed again (`Environment.Declares.formed`).
-/

namespace StagedTT

open Term

/-- An error about a term that no expression stands for. -/
def KernelError.IsInternal : KernelError → Prop
  | .unknownConstant _ | .unboundIndex _ _ | .universeOverflow _ => True
  | _ => False

/-- A fault about a term that no expression stands for. -/
def Fault.IsInternal : Fault → Prop
  | .notExpandable _ => True
  | .kernel error => error.IsInternal
  | _ => False

/-- A computation of the kernel that does not end in an internal error. -/
abbrev KernelOrdinary {α : Type} (r : Except KernelError α) : Prop :=
  Settles r (fun _ => True) fun e => ¬ e.IsInternal

theorem KernelError.not_isInternal {e : KernelError} (h : IsOutOfFuel e) : ¬ e.IsInternal := by
  obtain ⟨steps, rfl⟩ := h
  exact id

theorem Fault.not_isInternal {f : Fault} (h : IsOutOfFuel f) : ¬ f.IsInternal := by
  obtain ⟨steps, rfl⟩ := h
  exact id

theorem Diagnostic.InWriting.not_isInternal {d : Diagnostic} (h : d.InWriting) :
    ¬ d.fault.IsInternal := by
  obtain ⟨fault, loc⟩ := d
  cases fault with
  | notExpandable | kernel => exact h.elim
  | unknownIdentifier | malformedForm | redefinition => exact id

namespace Environment

variable {env : Environment}

/-! ## Inference -/

theorem normalize_ordinary (env : Environment) (t : Term) : KernelOrdinary (env.normalize t) :=
  ((env.normalize_settles t).mono fun _ _ => trivial).mono_error fun _ => KernelError.not_isInternal

theorem expectSort_ordinary (env : Environment) (position : String) (term type : Term) :
    KernelOrdinary (env.expectSort position term type) := by
  refine (env.normalize_ordinary type).bind fun n _ => ?_
  cases n.level? with
  | some level => trivial
  | none => exact id

theorem expectPi_ordinary (env : Environment) (fn type : Term) :
    KernelOrdinary (env.expectPi fn type) := by
  refine (env.normalize_ordinary type).bind fun n _ => ?_
  cases n with
  | pi domain body => trivial
  | _ => exact id

theorem convertible_ordinary (env : Environment) (left right : Term) :
    KernelOrdinary (env.convertible left right) := by
  unfold convertible
  by_cases heq : left = right
  · rw [if_pos heq]
    trivial
  · rw [if_neg heq]
    refine (env.normalize_ordinary left).bind fun _ _ => ?_
    exact (env.normalize_ordinary right).bind fun _ _ => trivial

theorem applicationType_ordinary (env : Environment) (domain body arg argType : Term) :
    KernelOrdinary (env.applicationType domain body arg argType) := by
  rw [applicationType_eq]
  refine (env.convertible_ordinary argType domain).bind fun answer _ => ?_
  cases answer with
  | true => exact env.normalize_ordinary _
  | false => exact (env.normalize_ordinary argType).bind fun _ _ => id

theorem requireMetalevel_ordinary (ctx : Context) (term : Term) :
    KernelOrdinary (ctx.requireMetalevel term) := by
  unfold Context.requireMetalevel
  split
  · trivial
  · exact id

theorem constantType_ordinary (ctx : Context) {n : String} {p : Phase}
    (hn : env.signature.phase? n = some p) : KernelOrdinary (env.constantType ctx n) := by
  obtain ⟨decl, hfind, -⟩ := Option.map_eq_some_iff.1 hn
  unfold constantType
  rw [hfind]
  cases hphase : decl.phase with
  | object =>
    simp only [hphase]
    trivial
  | metalevel =>
    simp only [hphase]
    exact (requireMetalevel_ordinary ctx _).bind fun _ _ => trivial

theorem inferArgs_ordinary {ctx : Context} {args : List Term}
    (h : ∀ arg ∈ args, KernelOrdinary (env.infer ctx arg)) (fn fnType : Term) :
    KernelOrdinary (env.inferArgs ctx fn fnType args) := by
  induction args generalizing fn fnType with
  | nil => trivial
  | cons arg args ih =>
    obtain ⟨harg, hargs⟩ := List.forall_mem_cons.1 h
    rw [inferArgs]
    refine (env.expectPi_ordinary fn fnType).bind fun parts _ => ?_
    obtain ⟨domain, body⟩ := parts
    refine harg.bind fun argType _ => ?_
    exact (env.applicationType_ordinary domain body arg argType).bind fun _ _ => ih hargs _ _

/-- **Inference of a formed term is ordinary** in every context that has its variables. -/
theorem infer_ordinary {t : Term} {d : Nat} (ht : t.Formed env.signature.phase? d) {ctx : Context}
    (hctx : ctx.size = d) : KernelOrdinary (env.infer ctx t) := by
  induction ht generalizing ctx with
  | @sort _ l hl =>
    have hlast : l < lastLevel := Nat.lt_trans hl (by decide)
    rw [infer, if_pos hlast]
    trivial
  | const hn =>
    rw [infer]
    exact constantType_ordinary ctx hn
  | num v => trivial
  | str s => trivial
  | @var d i hi =>
    have hlt : i < ctx.types.length := Nat.lt_of_lt_of_eq hi hctx.symm
    rw [infer, Context.lookup_eq, List.getElem?_eq_getElem hlt]
    trivial
  | pi _ _ ihA ihB =>
    rw [infer]
    refine (ihA hctx).bind fun S _ => (env.expectSort_ordinary _ _ S).bind fun _ _ => ?_
    refine (ihB (by rw [← hctx]; rfl)).bind fun T _ => ?_
    exact (env.expectSort_ordinary _ _ T).bind fun _ _ => trivial
  | lam _ _ ihA ihb =>
    rw [infer]
    refine (ihA hctx).bind fun S _ => (env.expectSort_ordinary _ _ S).bind fun _ _ => ?_
    exact (ihb (by rw [← hctx]; rfl)).bind fun _ _ => trivial
  | app _ _ ihf iha =>
    rw [infer]
    refine (ihf hctx).bind fun fnType _ => ?_
    refine (env.expectPi_ordinary _ fnType).bind fun parts _ => ?_
    obtain ⟨domain, body⟩ := parts
    exact (iha hctx).bind fun argType _ => env.applicationType_ordinary domain body _ argType
  | quote _ ih | splice _ ih =>
    rw [infer]
    exact (requireMetalevel_ordinary ctx _).bind fun _ _ => ih hctx
  | call hn _ ih =>
    rw [infer]
    refine (requireMetalevel_ordinary ctx _).bind fun _ _ => ?_
    rw [infer]
    refine (constantType_ordinary ctx hn).bind fun headType _ => ?_
    exact inferArgs_ordinary (fun arg harg => ih arg harg hctx) _ headType

theorem inferSort_ordinary {t : Term} {d : Nat} (ht : t.Formed env.signature.phase? d)
    {ctx : Context} (hctx : ctx.size = d) (position : String) :
    KernelOrdinary (env.inferSort ctx position t) :=
  (infer_ordinary ht hctx).bind fun type _ => env.expectSort_ordinary position t type

theorem check_ordinary {t : Term} {d : Nat} (ht : t.Formed env.signature.phase? d)
    {ctx : Context} (hctx : ctx.size = d) (expected : Term) :
    KernelOrdinary (env.check ctx t expected) := by
  refine (infer_ordinary ht hctx).bind fun type _ => ?_
  refine (env.convertible_ordinary type expected).bind fun answer _ => ?_
  cases answer with
  | true => trivial
  | false =>
    refine (env.normalize_ordinary expected).bind fun _ _ => ?_
    exact (env.normalize_ordinary type).bind fun _ _ => id

end Environment

/-! ## Forms -/

/-- A result that is reported without an internal fault. -/
abbrev Ordinary {α : Type} (r : Except Diagnostic α) : Prop :=
  Settles r (fun _ => True) fun d => ¬ d.fault.IsInternal

theorem KernelOrdinary.reportKernel {α : Type} {r : Except KernelError α} (h : KernelOrdinary r)
    (loc : Location) : Ordinary (loc.reportKernel r) :=
  Settles.reportKernel (E := fun f => ¬ f.IsInternal) h loc

section Forms

variable {env : Environment} {scope : Scope} (hsig : env.signature.Formed)
  (hscope : scope.Mirrors env.signature)

include hscope

/-- In the scope of a signature, expressions are lowered to closed terms over the signature. -/
theorem SExpr.lower_closed (e : SExpr) :
    Settles (e.lower scope) (fun t => t.Formed env.signature.phase? 0)
      fun d => ¬ d.fault.IsInternal := by
  refine ((lower_formed e scope).mono_error fun d hd => hd.not_isInternal).mono fun t ht => ?_
  refine ht.mono (fun n p hn => ?_) (Nat.le_of_eq hscope.depth)
  rw [← hscope.phase? n]
  exact hn

include hsig

/-- In the scope of a signature, expressions elaborate to closed terms over the signature. -/
theorem SExpr.elaborate_closed (loc : Location) (e : SExpr) :
    Settles (e.elaborate env scope loc) (fun t => t.Formed env.signature.phase? 0)
      fun d => ¬ d.fault.IsInternal := by
  refine (e.lower_closed hscope).bind fun t ht => ?_
  have hexpand := (Environment.expand_formed hsig ht).mono_error fun _ => Fault.not_isInternal
  exact hexpand.report loc

namespace Environment

omit hsig hscope in
theorem freeName_ordinary (env : Environment) (name : SExpr) : Ordinary (env.freeName name) := by
  unfold freeName
  split
  · split
    · exact id
    · trivial
  · exact id

theorem definitionType_ordinary (loc : Location) (annotation? : Option SExpr) {t : Term}
    (ht : t.Formed env.signature.phase? 0) :
    Ordinary (env.definitionType scope loc annotation? t) := by
  cases annotation? with
  | none => exact (infer_ordinary ht rfl).reportKernel loc
  | some annotation =>
    refine (SExpr.elaborate_closed hsig hscope loc annotation).bind fun T hT => ?_
    refine ((inferSort_ordinary hT rfl _).reportKernel loc).bind fun _ _ => ?_
    exact ((check_ordinary ht rfl T).reportKernel loc).bind fun _ _ => trivial

theorem defineObject_ordinary (loc : Location) (name : SExpr) (annotation? : Option SExpr)
    (body : SExpr) : Ordinary (env.defineObject scope loc name annotation? body) := by
  rw [defineObject_eq]
  refine (env.freeName_ordinary name).bind fun _ _ => ?_
  refine (body.elaborate_closed hsig hscope loc).bind fun t ht => ?_
  refine (definitionType_ordinary hsig hscope loc annotation? ht).bind fun _ _ => ?_
  exact ((env.normalize_ordinary t).reportKernel loc).bind fun _ _ => trivial

omit hsig in
theorem defineMetalevel_ordinary (loc : Location) (name body : SExpr) :
    Ordinary (env.defineMetalevel scope loc name body) := by
  rw [defineMetalevel_eq]
  refine (env.freeName_ordinary name).bind fun _ _ => ?_
  refine (body.lower_closed hscope).bind fun t ht => ?_
  refine ((infer_ordinary ht rfl).reportKernel loc).bind fun _ _ => ?_
  exact ((env.normalize_ordinary t).reportKernel loc).bind fun _ _ => trivial

theorem postulate_ordinary (loc : Location) (name type : SExpr) :
    Ordinary (env.postulate scope loc name type) := by
  rw [postulate_eq]
  refine (env.freeName_ordinary name).bind fun _ _ => ?_
  refine (type.elaborate_closed hsig hscope loc).bind fun T hT => ?_
  exact ((inferSort_ordinary hT rfl _).reportKernel loc).bind fun _ _ => trivial

/-- **What is reported at a form is ordinary.** -/
theorem elaborateForm_ordinary (form : SExpr) : Ordinary (env.elaborateForm scope form) := by
  unfold elaborateForm Elaboration.form
  split
  · split
    · exact defineObject_ordinary hsig hscope _ _ none _
    · exact defineObject_ordinary hsig hscope _ _ (some _) _
    · exact id
    · exact defineMetalevel_ordinary hscope _ _ _
    · exact id
    · exact postulate_ordinary hsig hscope _ _ _
    · exact id
    · exact id
  · exact id

/-! ## Declarations -/

omit hscope in
/-- The normal form of a closed formed term is one. -/
theorem formed_of_normalize {t v : Term} (ht : t.Formed env.signature.phase? 0)
    (hv : env.normalize t = .ok v) : v.Formed env.signature.phase? 0 :=
  Steps.formed hsig ((env.normalize_settles t).of_ok hv).steps ht

/-- **What a form declares is formed**, and a metalevel definition has a value. -/
theorem Declares.formed {form : SExpr} {entry : Entry} (h : env.Declares scope form entry) :
    (∀ v, entry.2.value? = some v → v.Formed env.signature.phase? 0) ∧
      (entry.2.phase = .metalevel → ∃ v, entry.2.value? = some v) := by
  have helaborate := fun loc (e : SExpr) => e.elaborate_closed hsig hscope loc
  cases h with
  | inferred _ _ ht _ hv =>
    refine ⟨?_, fun hphase => by cases hphase⟩
    rintro _ ⟨⟩
    exact formed_of_normalize hsig ((helaborate _ _).of_ok ht) hv
  | annotated _ _ ht _ _ _ hv =>
    refine ⟨?_, fun hphase => by cases hphase⟩
    rintro _ ⟨⟩
    exact formed_of_normalize hsig ((helaborate _ _).of_ok ht) hv
  | metalevel _ _ hlower _ hv =>
    refine ⟨?_, fun _ => ⟨_, rfl⟩⟩
    rintro _ ⟨⟩
    exact formed_of_normalize hsig ((SExpr.lower_closed hscope _).of_ok hlower) hv
  | postulate =>
    refine ⟨?_, fun hphase => by cases hphase⟩
    rintro _ ⟨⟩

end Environment

end Forms

end StagedTT
