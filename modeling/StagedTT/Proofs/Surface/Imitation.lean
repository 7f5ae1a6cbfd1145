import StagedTT.Proofs.Surface.Elaborations
import StagedTT.Proofs.Typing.Imitation

/-!
# Imitation of forms

Who imitates the kernel of an environment, and its expansion, imitates all that is elaborated in it
(`Environment.ImitatesForms`): expressions stand for the same, and forms declare the same, unless
the imitated one fails as the kernel may fail there (`Environment.ImitatesForms.elaborate`,
`elaborateForm`).
-/

namespace StagedTT

variable {E : KernelError → Prop}

/-- A fault that the kernel reports, as `E` has it. -/
def Fault.IsKernel (E : KernelError → Prop) (fault : Fault) : Prop := ∃ e, fault = .kernel e ∧ E e

/-- A diagnostic of a fault that the kernel reports, as `E` has it. -/
def Diagnostic.IsKernel (E : KernelError → Prop) (d : Diagnostic) : Prop := d.fault.IsKernel E

theorem SameUnless.report {α : Type} {r r' : Except Fault α}
    (h : SameUnless (Fault.IsKernel E) r' r) (loc : Location) :
    SameUnless (Diagnostic.IsKernel E) (loc.report r') (loc.report r) :=
  h.mapError fun _ he => he

theorem SameUnless.reportKernel {α : Type} {r r' : Except KernelError α} (h : SameUnless E r' r)
    (loc : Location) :
    SameUnless (Diagnostic.IsKernel E) (loc.reportKernel r') (loc.reportKernel r) :=
  SameUnless.report (h.mapError fun e he => ⟨e, rfl, he⟩) loc

namespace Environment

variable {A' A : IndexArithmetic} {env' env : Environment}

theorem Imitates.runCall (h : Imitates E A' env' A env) (value : Term) (args : List Term) :
    SameUnless (Fault.IsKernel E) (@Environment.runCall A' env' value args)
      (@Environment.runCall A env value args) := by
  unfold Environment.runCall
  rcases h.normalize (value.applyAll args) with heq | ⟨e, herror, he⟩
  · rw [heq]
    exact .refl _
  · rw [herror]
    exact Or.inr ⟨_, rfl, e, rfl, he⟩

/-- The first environment does what the second one does, in the kernel and in expansion, unless the
second one fails as `E` has it. -/
structure ImitatesForms (E : KernelError → Prop) (A' : IndexArithmetic) (env' : Environment)
    (A : IndexArithmetic) (env : Environment) : Prop extends Imitates E A' env' A env where
  expand : ∀ t, SameUnless (Fault.IsKernel E) (@Environment.expand A' env' t)
    (@Environment.expand A env t)

namespace ImitatesForms

variable (h : ImitatesForms E A' env' A env) (scope : Scope) (loc : Location)

include h

theorem elaborate (e : SExpr) :
    SameUnless (Diagnostic.IsKernel E) (@e.elaborate A' env' scope loc)
      (@e.elaborate A env scope loc) :=
  (SameUnless.refl (e.lower scope)).bind fun t => (h.expand t).report loc

theorem freeName (name : SExpr) : env'.freeName name = env.freeName name := by
  unfold Environment.freeName
  rw [h.signature]

theorem definitionType (annotation? : Option SExpr) (t : Term) :
    SameUnless (Diagnostic.IsKernel E) (@env'.definitionType A' scope loc annotation? t)
      (@env.definitionType A scope loc annotation? t) := by
  cases annotation? with
  | none => exact (h.infer _ t).reportKernel loc
  | some annotation =>
    refine (h.elaborate scope loc annotation).bind fun T => ?_
    refine ((h.inferSort _ _ T).reportKernel loc).bind fun _ => ?_
    exact ((h.check _ t T).reportKernel loc).bind fun _ => .refl _

theorem defineObject (name : SExpr) (annotation? : Option SExpr) (body : SExpr) :
    SameUnless (Diagnostic.IsKernel E) (@env'.defineObject scope loc A' name annotation? body)
      (@env.defineObject scope loc A name annotation? body) := by
  rw [@defineObject_eq env' scope loc A', @defineObject_eq env scope loc A, h.freeName]
  refine (SameUnless.refl _).bind fun n => (h.elaborate scope loc body).bind fun t => ?_
  refine (h.definitionType scope loc annotation? t).bind fun T => ?_
  exact ((h.normalize t).reportKernel loc).bind fun _ => .refl _

theorem defineMetalevel (name body : SExpr) :
    SameUnless (Diagnostic.IsKernel E) (@env'.defineMetalevel scope loc A' name body)
      (@env.defineMetalevel scope loc A name body) := by
  rw [@defineMetalevel_eq env' scope loc A', @defineMetalevel_eq env scope loc A, h.freeName]
  refine (SameUnless.refl _).bind fun n => (SameUnless.refl _).bind fun t => ?_
  refine ((h.infer _ t).reportKernel loc).bind fun T => ?_
  exact ((h.normalize t).reportKernel loc).bind fun _ => .refl _

theorem postulate (name type : SExpr) :
    SameUnless (Diagnostic.IsKernel E) (@env'.postulate scope loc A' name type)
      (@env.postulate scope loc A name type) := by
  rw [@postulate_eq env' scope loc A', @postulate_eq env scope loc A, h.freeName]
  refine (SameUnless.refl _).bind fun n => (h.elaborate scope loc type).bind fun T => ?_
  exact ((h.inferSort _ _ T).reportKernel loc).bind fun _ => .refl _

/-- **A form declares the same**, or is refused for the same reason. -/
theorem elaborateForm (form : SExpr) :
    SameUnless (Diagnostic.IsKernel E) (@env'.elaborateForm scope A' form)
      (@env.elaborateForm scope A form) := by
  unfold Environment.elaborateForm Elaboration.form
  split
  · next loc items =>
    split
    · exact h.defineObject scope loc _ _ _
    · exact h.defineObject scope loc _ _ _
    · exact .refl _
    · exact h.defineMetalevel scope loc _ _
    · exact .refl _
    · exact h.postulate scope loc _ _
    · exact .refl _
    · exact .refl _
  · exact .refl _

end ImitatesForms

end Environment

end StagedTT
