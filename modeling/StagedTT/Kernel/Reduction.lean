import StagedTT.Kernel.Error
import StagedTT.Kernel.Signature
import StagedTT.Term.Spine

/-!
# Reduction

A spine is reduced at its head: a function that has an argument is contracted, a constant that
has a value is unfolded. Nothing else of the term is touched, so an argument that is thrown away
is never reduced. Each step costs one unit of fuel.

Normalization first reduces at the head; once that is stuck, it goes on inside the function and
the argument, under binders, and inside quotations. Only the head of a suspended call stays as
it is, because expansion needs to know what is called.

`Spine.reduce_eq` and `Term.normalizeMetered_eq` are the recursion equations of the two. A step may
have to add indices that are too large, and then the run may stop at it. If indices have no bound,
all that a step does besides is to cost its unit (`Spine.pay_eq_burn`).
-/

namespace StagedTT

section Arithmetic

variable [IndexArithmetic]

/-! ## Weak head normal form -/

namespace Spine

/-- One step at the head, if there is one. -/
def step? (sig : Signature) : Spine → Option Spine
  | ⟨.lam _ body, arg :: args⟩ => some ((body.instantiate arg).unwind args)
  | ⟨.const name, args⟩ => (sig.value? name).map (·.unwind args)
  | _ => none

/-- Whether the run stops at the step at the head. -/
def overflows : Spine → Bool
  | ⟨.lam _ body, arg :: _⟩ => (body.instantiate? arg).isNone
  | _ => false

/-- Pays for the step at the head, and makes it as far as the run goes. -/
def pay (s : Spine) : Metered KernelError Unit := do
  Metered.burn
  if s.overflows then
    Metered.fail .indexOverflow

/-- Steps at the head until there is none, of which `left` more may be made after the `used`
ones. -/
def reduceWithin (sig : Signature) : (left used : Nat) → Spine → Except KernelError Spine × Fuel
  | left, used, s =>
    match s.step? sig with
    | none => (.ok s, ⟨used, left⟩)
    | some next =>
      match left with
      | 0 => (.error (.nonTermination used), ⟨used, 0⟩)
      | left + 1 =>
        if s.overflows then (.error .indexOverflow, ⟨used + 1, left⟩)
        else reduceWithin sig left (used + 1) next

/-- Steps at the head until there is none, as long as the fuel lasts. -/
def reduce (sig : Signature) (s : Spine) : Metered KernelError Spine :=
  fun fuel => s.reduceWithin sig fuel.left fuel.used

theorem reduce_eq (sig : Signature) (s : Spine) :
    s.reduce sig =
      (match s.step? sig with
      | none => pure s
      | some next => do
        s.pay
        next.reduce sig) := by
  funext ⟨used, left⟩
  change s.reduceWithin sig left used = _
  rw [reduceWithin]
  cases s.step? sig with
  | none => rfl
  | some next =>
    unfold pay
    cases left with
    | zero => rfl
    | succ left => cases s.overflows <;> rfl

theorem pay_of_not_overflows {s : Spine} (h : s.overflows = false) : s.pay = Metered.burn := by
  rw [pay, h]
  exact bind_pure Metered.burn

theorem pay_bind_zero {α : Type} (s : Spine) (k : Unit → Metered KernelError α) (used : Nat) :
    (s.pay >>= k) ⟨used, 0⟩ = (.error (.nonTermination used), ⟨used, 0⟩) := rfl

theorem pay_bind_succ {α : Type} (s : Spine) (k : Unit → Metered KernelError α) (used left : Nat) :
    (s.pay >>= k) ⟨used, left + 1⟩ =
      if s.overflows then (.error .indexOverflow, ⟨used + 1, left⟩)
      else k () ⟨used + 1, left⟩ := by
  unfold pay
  cases s.overflows <;> rfl

theorem spends_pay (s : Spine) : Metered.Spends s.pay := by
  refine .bind .burn fun _ => ?_
  split
  · exact .fail _
  · exact .pure ()

theorem pay_bind_agree {α : Type} (s : Spine) {m m' : Metered KernelError α} {n : Nat}
    (h : Metered.AgreeBelow n m m') :
    Metered.AgreeUpTo n (s.pay >>= fun _ => m) (s.pay >>= fun _ => m') := by
  rintro ⟨used, left⟩ hn
  cases left with
  | zero => rfl
  | succ left =>
    rw [pay_bind_succ, pay_bind_succ, h ⟨used + 1, left⟩ hn]

theorem spends_reduce (sig : Signature) (s : Spine) : Metered.Spends (s.reduce sig) := by
  intro ⟨used, left⟩
  induction left generalizing used s with
  | zero =>
    rw [reduce_eq]
    cases s.step? sig <;> exact ⟨Nat.le_refl _, rfl⟩
  | succ left ih =>
    rw [reduce_eq]
    cases s.step? sig with
    | none => exact ⟨Nat.le_refl _, rfl⟩
    | some next =>
      obtain ⟨hle, hb⟩ := ih next (used + 1)
      simp only [pay_bind_succ]
      split
      · exact ⟨Nat.le_succ _, by simp only [Fuel.budget]; omega⟩
      · exact ⟨Nat.le_succ_of_le hle, hb.trans (by simp only [Fuel.budget]; omega)⟩

end Spine

namespace Term

/-- Reduces a term to weak head normal form. -/
def whnf (sig : Signature) (t : Term) : Metered KernelError Term := do
  let reduced ← t.spine.reduce sig
  return reduced.toTerm

/-! ## Normal form -/

mutual

/-- What normalization does with a term, where `again` is what it does with the reduct of one
that had a step at its head. -/
def normalizeBody (sig : Signature) (again : Term → Metered KernelError Term) :
    Term → Metered KernelError Term
  | .app fn arg =>
    match (app fn arg).spine.step? sig with
    | some next => do
      (app fn arg).spine.pay
      let reduced ← next.reduce sig
      again reduced.toTerm
    | none => do
      let fn ← normalizeBody sig again fn
      let arg ← normalizeBody sig again arg
      return .app fn arg
  | .const name =>
    match (const name).spine.step? sig with
    | some next => do
      (const name).spine.pay
      let reduced ← next.reduce sig
      again reduced.toTerm
    | none => pure (.const name)
  | .pi domain body => do
    let domain ← normalizeBody sig again domain
    let body ← normalizeBody sig again body
    return .pi domain body
  | .lam domain body => do
    let domain ← normalizeBody sig again domain
    let body ← normalizeBody sig again body
    return .lam domain body
  | .quote body => do
    let body ← normalizeBody sig again body
    return .quote body
  | .splice body => do
    let body ← normalizeBody sig again body
    return .splice body
  | .call head args => do
    let args ← normalizeArgs sig again args
    return .call head args
  | .sort level => pure (.sort level)
  | .num value => pure (.num value)
  | .str value => pure (.str value)
  | .var index => pure (.var index)

/-- Normalizes the arguments of a suspended call in order. -/
def normalizeArgs (sig : Signature) (again : Term → Metered KernelError Term) :
    List Term → Metered KernelError (List Term)
  | [] => pure []
  | arg :: args => do
    let arg ← normalizeBody sig again arg
    let args ← normalizeArgs sig again args
    return arg :: args

end

/-- Reduces a term to normal form. -/
def normalizeMetered (sig : Signature) : Term → Metered KernelError Term :=
  Metered.fix (normalizeBody sig)

section Guarded

open Metered

variable {sig : Signature}

private theorem spends_normalizeArgs {f : Term → Metered KernelError Term} {args : List Term}
    (h : ∀ arg ∈ args, Spends (normalizeBody sig f arg)) : Spends (normalizeArgs sig f args) := by
  induction args with
  | nil => exact .pure []
  | cons arg args ih =>
    obtain ⟨first, rest⟩ := List.forall_mem_cons.1 h
    exact .bind first fun _ => .bind (ih rest) fun _ => .pure _

private theorem spends_normalizeBody {f : Term → Metered KernelError Term}
    (hf : ∀ t, Spends (f t)) (t : Term) : Spends (normalizeBody sig f t) := by
  induction t with
  | sort | num | str | var => exact .pure _
  | const name =>
    unfold normalizeBody
    split
    · exact .bind (Spine.spends_pay _) fun _ => .bind (Spine.spends_reduce sig _) fun _ => hf _
    · exact .pure _
  | app fn arg ihf iha =>
    unfold normalizeBody
    split
    · exact .bind (Spine.spends_pay _) fun _ => .bind (Spine.spends_reduce sig _) fun _ => hf _
    · exact .bind ihf fun _ => .bind iha fun _ => .pure _
  | pi domain body ihd ihb | lam domain body ihd ihb =>
    exact .bind ihd fun _ => .bind ihb fun _ => .pure _
  | quote body ih | splice body ih => exact .bind ih fun _ => .pure _
  | call head args _ ih => exact .bind (spends_normalizeArgs ih) fun _ => .pure _

private theorem agree_normalizeArgs {f g : Term → Metered KernelError Term} {n : Nat}
    (hf : ∀ t, Spends (f t)) {args : List Term}
    (h : ∀ arg ∈ args, AgreeUpTo n (normalizeBody sig f arg) (normalizeBody sig g arg)) :
    AgreeUpTo n (normalizeArgs sig f args) (normalizeArgs sig g args) := by
  induction args with
  | nil => exact .refl n _
  | cons arg args ih =>
    obtain ⟨first, rest⟩ := List.forall_mem_cons.1 h
    exact .bind (spends_normalizeBody hf arg) first fun _ =>
      .bind (spends_normalizeArgs fun a _ => spends_normalizeBody hf a) (ih rest) fun _ =>
        .refl n _

private theorem agree_normalizeBody {f g : Term → Metered KernelError Term} {n : Nat}
    (hf : ∀ t, Spends (f t)) (h : ∀ t, AgreeBelow n (f t) (g t)) (t : Term) :
    AgreeUpTo n (normalizeBody sig f t) (normalizeBody sig g t) := by
  have hs : ∀ t, Spends (normalizeBody sig f t) := spends_normalizeBody hf
  have head : ∀ s next : Spine, AgreeUpTo n
      (do s.pay; let reduced ← next.reduce sig; f reduced.toTerm)
      (do s.pay; let reduced ← next.reduce sig; g reduced.toTerm) := fun s next =>
    s.pay_bind_agree (.bind (Spine.spends_reduce sig next) (fun _ _ => rfl) fun _ => h _)
  induction t with
  | sort | num | str | var => exact .refl n _
  | const name =>
    unfold normalizeBody
    split
    · exact head _ _
    · exact .refl n _
  | app fn arg ihf iha =>
    unfold normalizeBody
    split
    · exact head _ _
    · exact .bind (hs fn) ihf fun _ => .bind (hs arg) iha fun _ => .refl n _
  | pi domain body ihd ihb | lam domain body ihd ihb =>
    exact .bind (hs domain) ihd fun _ => .bind (hs body) ihb fun _ => .refl n _
  | quote body ih | splice body ih => exact .bind (hs body) ih fun _ => .refl n _
  | call head args _ ih =>
    exact .bind (spends_normalizeArgs fun a _ => hs a) (agree_normalizeArgs hf ih) fun _ =>
      .refl n _

theorem guarded_normalizeBody (sig : Signature) : Guarded (normalizeBody sig) where
  spends _ hf t := spends_normalizeBody hf t
  congr _ _ hf _ _ h t := agree_normalizeBody hf h t

end Guarded

theorem normalizeMetered_eq (sig : Signature) (t : Term) :
    t.normalizeMetered sig = normalizeBody sig (normalizeMetered sig) t :=
  Metered.fix_eq (guarded_normalizeBody sig) t

theorem spends_normalizeMetered (sig : Signature) (t : Term) :
    Metered.Spends (t.normalizeMetered sig) :=
  Metered.spends_fix (guarded_normalizeBody sig) t

end Term

namespace Environment

/-- The weak head normal form of a term, on a fresh budget. -/
def whnf (env : Environment) (t : Term) : Except KernelError Term :=
  (t.whnf env.signature).runFresh env.limits.fuel

/-- The normal form of a term, on a fresh budget. -/
def normalize (env : Environment) (t : Term) : Except KernelError Term :=
  (t.normalizeMetered env.signature).runFresh env.limits.fuel

end Environment

end Arithmetic

/-! ## Unbounded indices -/

namespace Spine

theorem overflows_eq_false (s : Spine) : s.overflows = false := by
  unfold overflows
  split
  · rw [Term.instantiate?_eq_instantiate]
    rfl
  · rfl

/-- If indices have no bound, no step stops the run. -/
theorem pay_eq_burn (s : Spine) : s.pay = Metered.burn :=
  pay_of_not_overflows s.overflows_eq_false

end Spine

end StagedTT
