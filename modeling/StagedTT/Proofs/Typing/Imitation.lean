import StagedTT.Kernel.Typing
import StagedTT.Proofs.Budgets

/-!
# Imitation

`Imitates E A' env' A env` says that an environment with one arithmetic of indices does what another
one does with another, unless that one fails as `E` has it. It is asked for normalization, for
lookups and for contraction, and all judgments are put together from these: the two convert, infer
and check alike, errors and the texts in them included, unless the imitated one fails so
(`Environment.Imitates.convertible`, `infer`, `check`).
-/

namespace StagedTT

namespace Environment

/-- The first environment does what the second one does, unless the second one fails as `E`
has it. -/
structure Imitates (E : KernelError → Prop) (A' : IndexArithmetic) (env' : Environment)
    (A : IndexArithmetic) (env : Environment) : Prop where
  signature : env'.signature = env.signature
  normalize : ∀ t, SameUnless E (@Environment.normalize A' env' t) (@Environment.normalize A env t)
  lookup : ∀ (ctx : Context) i, SameUnless E (@ctx.lookup A' i) (@ctx.lookup A i)
  instantiate : ∀ body arg : Term, SameUnless E (KernelError.inRange (@body.instantiate? A' arg))
    (KernelError.inRange (@body.instantiate? A arg))

namespace Imitates

variable {E : KernelError → Prop} {A' A : IndexArithmetic} {env' env : Environment}
  (h : Imitates E A' env' A env)

include h

theorem convertible (left right : Term) :
    SameUnless E (@Environment.convertible A' env' left right)
      (@Environment.convertible A env left right) := by
  unfold Environment.convertible
  by_cases heq : left = right
  · rw [if_pos heq, if_pos heq]
    exact .refl _
  · rw [if_neg heq, if_neg heq]
    exact (h.normalize left).bind fun _ => (h.normalize right).bind fun _ => .refl _

theorem expectSort (position : String) (term type : Term) :
    SameUnless E (@Environment.expectSort A' env' position term type)
      (@Environment.expectSort A env position term type) :=
  (h.normalize type).bind fun _ => .refl _

theorem expectPi (fn type : Term) :
    SameUnless E (@Environment.expectPi A' env' fn type) (@Environment.expectPi A env fn type) :=
  (h.normalize type).bind fun _ => .refl _

theorem applicationType (domain body arg argType : Term) :
    SameUnless E (@Environment.applicationType A' env' domain body arg argType)
      (@Environment.applicationType A env domain body arg argType) := by
  refine (h.convertible argType domain).bind fun same => ?_
  cases same with
  | true => exact (h.instantiate body arg).bind fun type => h.normalize type
  | false => exact (h.normalize argType).bind fun _ => .refl _

theorem constantType (ctx : Context) (name : String) :
    env'.constantType ctx name = env.constantType ctx name := by
  unfold Environment.constantType
  rw [h.signature]

theorem inferArgs {ctx : Context} {args : List Term}
    (hinfer : ∀ arg ∈ args, SameUnless E (@Environment.infer A' env' ctx arg)
      (@Environment.infer A env ctx arg))
    (fn fnType : Term) :
    SameUnless E (@Environment.inferArgs A' env' ctx fn fnType args)
      (@Environment.inferArgs A env ctx fn fnType args) := by
  induction args generalizing fn fnType with
  | nil => exact .refl _
  | cons arg args ih =>
    obtain ⟨harg, hargs⟩ := List.forall_mem_cons.1 hinfer
    unfold Environment.inferArgs
    refine (h.expectPi fn fnType).bind fun parts => ?_
    refine harg.bind fun argType => ?_
    exact (h.applicationType parts.1 parts.2 arg argType).bind fun T => ih hargs _ T

/-- **Who imitates normalization imitates inference.** -/
theorem infer (ctx : Context) (t : Term) :
    SameUnless E (@Environment.infer A' env' ctx t) (@Environment.infer A env ctx t) := by
  induction t generalizing ctx with
  | sort | num | str => exact .refl _
  | var i => exact h.lookup ctx i
  | const n =>
    left
    exact h.constantType ctx n
  | pi A B ihA ihB =>
    refine (ihA ctx).bind fun S => (h.expectSort _ A S).bind fun _ => ?_
    exact (ihB (ctx.bind A)).bind fun T => (h.expectSort _ B T).bind fun _ => .refl _
  | lam A b ihA ihb =>
    refine (ihA ctx).bind fun S => (h.expectSort _ A S).bind fun _ => ?_
    exact (ihb (ctx.bind A)).bind fun _ => .refl _
  | app f a ihf iha =>
    refine (ihf ctx).bind fun fnType => (h.expectPi f fnType).bind fun parts => ?_
    exact (iha ctx).bind fun argType => h.applicationType parts.1 parts.2 a argType
  | quote b ih | splice b ih =>
    unfold Environment.infer
    exact (SameUnless.refl _).bind fun _ => ih ctx
  | call head args ih ihargs =>
    unfold Environment.infer
    refine (SameUnless.refl _).bind fun _ => (ih ctx).bind fun headType => ?_
    exact h.inferArgs (fun arg harg => ihargs arg harg ctx) head headType

theorem inferSort (ctx : Context) (position : String) (t : Term) :
    SameUnless E (@Environment.inferSort A' env' ctx position t)
      (@Environment.inferSort A env ctx position t) :=
  (h.infer ctx t).bind fun S => h.expectSort position t S

theorem check (ctx : Context) (t T : Term) :
    SameUnless E (@Environment.check A' env' ctx t T) (@Environment.check A env ctx t T) := by
  refine (h.infer ctx t).bind fun S => (h.convertible S T).bind fun same => ?_
  cases same with
  | true => exact .refl _
  | false => exact (h.normalize T).bind fun _ => (h.normalize S).bind fun _ => .refl _

end Imitates

end Environment

end StagedTT
