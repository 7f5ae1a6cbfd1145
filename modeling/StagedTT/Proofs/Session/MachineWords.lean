import StagedTT.Proofs.Session.Imitation
import StagedTT.Proofs.Session.Policies
import StagedTT.Proofs.Typing.MachineWords

/-!
# Sessions of machine words

A session does in every arithmetic of indices what it does where sums are checked, as long as no
call reports an overflow there. So what is shown of sessions with unbounded indices holds, up to the
first overflow, of sessions that hold them in machine words (`Session.run_eq_exact`).

Expansion imitates its checked run as reduction does, and with it all forms
(`Environment.imitatesForms_checked`).
-/

namespace StagedTT

namespace Environment

variable [A : IndexArithmetic]

theorem sameUnless_expandBody {env : Environment} {again checkedAgain : Term → Metered Fault Term}
    (hagain : ∀ t, Metered.SameUnless (Fault.IsKernel IsOverflow) (again t) (checkedAgain t))
    (t : Term) :
    Metered.SameUnless (Fault.IsKernel IsOverflow) (env.expandBody again t)
      (@expandBody .checked env checkedAgain t) := by
  induction t with
  | sort | const | num | str | var | quote => exact .refl _
  | pi A B ihA ihB => exact ihA.bind fun _ => ihB.bind fun _ => .refl _
  | lam A b ihA ihb => exact ihA.bind fun _ => ihb.bind fun _ => .refl _
  | app f a ihf iha => exact ihf.bind fun _ => iha.bind fun _ => .refl _
  | splice b ih => exact ih.bind fun _ => .refl _
  | call head args =>
    unfold expandBody
    cases env.signature.callable? head with
    | none => exact .refl _
    | some value =>
      refine (Metered.SameUnless.refl _).bind fun _ => Metered.SameUnless.bind ?_ hagain
      exact Metered.sameUnless_ofExcept (env.imitates_checked.runCall value args)

/-- **Forms declare the same in every arithmetic**, unless they overflow. -/
theorem imitatesForms_checked (env : Environment) :
    ImitatesForms IsOverflow A env .checked env where
  toImitates := env.imitates_checked
  expand t :=
    (Metered.sameUnless_fix (fun _ _ h => sameUnless_expandBody h) t).result _

end Environment

namespace Session

/-! ## Calls -/

/-- The call meets no overflow: where sums are checked, none is reported. -/
def NoOverflowIn (s : Session) : Call → Prop
  | .define form => Avoids (Diagnostic.IsKernel IsOverflow) (@define .checked s form).1
  | .load forms =>
    ∀ d ∈ (@defineEach .checked s forms).diagnostics, ¬ d.IsKernel IsOverflow
  | .elaborate e => Avoids (Diagnostic.IsKernel IsOverflow) (@elaborate .checked s e)
  | .infer e => Avoids (Diagnostic.IsKernel IsOverflow) (@infer .checked s e)
  | .normalize e => Avoids (Diagnostic.IsKernel IsOverflow) (@normalize .checked s e)

section Arithmetic

variable [A : IndexArithmetic] {s : Session}

theorem imitates_checked (s : Session) : Imitates IsOverflow A s .checked s where
  env := s.env.imitatesForms_checked
  scope := rfl

theorem define_eq_checked {form : SExpr} (h : s.NoOverflowIn (.define form)) :
    s.define form = @define .checked s form := by
  have hanswer := (s.imitates_checked.define form).eq_of_avoids h
  cases hchecked : (@define .checked s form).1 with
  | ok entry =>
    rw [@define_of_ok _ _ _ .checked hchecked, define_of_ok (hanswer.trans hchecked)]
  | error d =>
    rw [@define_of_error _ _ _ .checked hchecked, define_of_error (hanswer.trans hchecked)]

theorem defineEach_eq_checked {forms : List SExpr}
    (h : ∀ d ∈ (@defineEach .checked s forms).diagnostics, ¬ d.IsKernel IsOverflow) :
    s.defineEach forms = @defineEach .checked s forms := by
  induction forms generalizing s with
  | nil => rfl
  | cons form forms ih =>
    have hhead : s.NoOverflowIn (.define form) := by
      intro d herror
      rw [@defineEach_of_error .checked _ _ _ herror] at h
      refine h d ?_
      cases s.policy with
      | failFast => exact List.mem_cons_self
      | collectAll => exact List.mem_cons_self
    have hsame := define_eq_checked hhead
    cases hchecked : (@define .checked s form).1 with
    | ok entry =>
      have hok := @define_of_ok _ _ _ .checked hchecked
      rw [@defineEach_of_ok .checked _ _ _ _ hok] at h ⊢
      rw [defineEach_of_ok (hsame.trans hok), ih h]
    | error d =>
      rw [@defineEach_of_error .checked _ _ _ hchecked] at h ⊢
      rw [defineEach_of_error ((congrArg Prod.fst hsame).trans hchecked)]
      cases hpolicy : s.policy with
      | failFast => rfl
      | collectAll =>
        rw [hpolicy] at h
        rw [ih fun e he => h e (List.mem_cons_of_mem d he)]

/-- **A call that meets no overflow does the same in every arithmetic.** -/
theorem call_eq_checked {c : Call} (h : s.NoOverflowIn c) : s.call c = @call .checked s c := by
  cases c with
  | define form => exact congrArg (Prod.map Answer.defined id) (define_eq_checked h)
  | load forms =>
    have hload : s.load forms = @load .checked s forms := by
      simp only [load, defineEach_eq_checked h]
    exact congrArg (Prod.map Answer.loaded id) hload
  | elaborate e =>
    refine Prod.ext (congrArg Answer.term ((s.imitates_checked.elaborate e).eq_of_avoids h)) ?_
    rw [call_elaborate, @call_elaborate .checked]
  | infer e =>
    refine Prod.ext (congrArg Answer.term ((s.imitates_checked.infer e).eq_of_avoids h)) ?_
    rw [call_infer, @call_infer .checked]
  | normalize e =>
    refine Prod.ext (congrArg Answer.term ((s.imitates_checked.normalize e).eq_of_avoids h)) ?_
    rw [call_normalize, @call_normalize .checked]

/-! ## Runs -/

/-- No call on the way meets an overflow. -/
def NoOverflowAlong (s : Session) : List Call → Prop
  | [] => True
  | c :: calls => s.NoOverflowIn c ∧ NoOverflowAlong (@call .checked s c).2 calls

theorem run_eq_checked {calls : List Call} (h : s.NoOverflowAlong calls) :
    s.run calls = @run .checked s calls := by
  induction calls generalizing s with
  | nil => rw [run_nil, @run_nil .checked]
  | cons c calls ih =>
    obtain ⟨hcall, hcalls⟩ := h
    rw [run_cons, @run_cons .checked, call_eq_checked hcall, ih hcalls]

/-- **Up to the first overflow a session does what it would do if indices had no bound.** After
calls that meet none it is the session that unbounded indices lead to, and it answers the next call
alike if that one meets none. -/
theorem run_eq_exact {calls : List Call} (h : s.NoOverflowAlong calls) :
    s.run calls = @run .exact s calls ∧
      ∀ c, (s.run calls).NoOverflowIn c →
        (s.run calls).call c = @call .exact (@run .exact s calls) c := by
  have hrun : s.run calls = @run .exact s calls :=
    (run_eq_checked h).trans (@run_eq_checked .exact s calls h).symm
  refine ⟨hrun, fun c hc => ?_⟩
  rw [← hrun]
  exact (call_eq_checked hc).trans (@call_eq_checked .exact _ c hc).symm

end Arithmetic

/-- A definition and a query that calls it meet none. -/
example :
    (start ⟨100, 100⟩ .failFast).NoOverflowAlong
      [.define sevenForm, .infer (.list {} [.sym {} "seven"])] := by
  have hdefine : (@define .checked (start ⟨100, 100⟩ .failFast) sevenForm).1.isOk = true := by
    decide +kernel
  have hinfer : (@infer .checked (@define .checked (start ⟨100, 100⟩ .failFast) sevenForm).2
      (.list {} [.sym {} "seven"])).isOk = true := by
    decide +kernel
  refine ⟨fun d herror => ?_, fun d herror => ?_, trivial⟩
  · exact Bool.noConfusion (hdefine.symm.trans (congrArg Except.isOk herror))
  · exact Bool.noConfusion (hinfer.symm.trans (congrArg Except.isOk herror))

end Session

end StagedTT
