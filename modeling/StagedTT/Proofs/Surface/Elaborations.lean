import StagedTT.Proofs.Settles
import StagedTT.Surface.Session

/-!
# Elaborations

An elaboration leaves an environment behind, also when it fails. All that a form does before the end
only looks at the environment (`Elaboration.Reads`), and at the end it makes an entry or fails
(`Elaboration.Installs`). So a form that fails leaves the environment as it is, wherever it fails,
and one that succeeds has made the one entry that it is answered with (`Elaboration.installs_form`).

The name of the entry was found to be free, so that to make the entry cannot fail. What a form
declares is therefore found out by looking at the environment alone
(`Environment.defineObject_eq`, `defineMetalevel_eq`, `postulate_eq`).
-/

namespace StagedTT

namespace Elaboration

variable {α β : Type}

theorem ask_bind_apply (question : Environment → Except Diagnostic α) (k : α → Elaboration β)
    (env : Environment) :
    (ask question >>= k : Elaboration β) env =
      match question env with
      | .ok a => k a env
      | .error d => (.error d, env) := by
  change ExceptT.bindCont k (question env) env = _
  cases question env <;> rfl

/-! ## What is left behind -/

/-- Whatever comes of it, the environment is left as it is. -/
def Reads (m : Elaboration α) : Prop := ∀ env, (m env).2 = env

theorem reads_ask (question : Environment → Except Diagnostic α) : (ask question).Reads :=
  fun _ => rfl

theorem reads_ask_bind (question : Environment → Except Diagnostic α) {k : α → Elaboration β}
    (hk : ∀ a, (k a).Reads) : Reads (ask question >>= k) := by
  intro env
  rw [ask_bind_apply]
  cases question env with
  | ok a => exact hk a env
  | error d => rfl

/-- One entry is made, that of the answer, and nothing is done where there is none. -/
def Installs (m : Elaboration Entry) : Prop :=
  ∀ env, match m env with
    | (.ok entry, env') => ∃ signature, env.signature.insert? entry.1 entry.2 = some signature ∧
        env' = { env with signature }
    | (.error _, env') => env' = env

theorem installs_install (loc : Location) (entry : Entry) : (install loc entry).Installs := by
  intro env
  unfold install
  cases h : env.signature.insert? entry.1 entry.2 with
  | none => rfl
  | some signature => exact ⟨signature, h, rfl⟩

theorem installs_refuse (loc : Location) (form reason : String) :
    (refuse loc form reason).Installs := fun _ => rfl

theorem installs_ask_bind (question : Environment → Except Diagnostic α)
    {k : α → Elaboration Entry} (hk : ∀ a, (k a).Installs) : Installs (ask question >>= k) := by
  intro env
  rw [ask_bind_apply]
  cases question env with
  | ok a => exact hk a env
  | error d => rfl

section Forms

variable [IndexArithmetic]

theorem installs_defineObject (scope : Scope) (loc : Location) (name : SExpr)
    (annotation? : Option SExpr) (body : SExpr) :
    (defineObject scope loc name annotation? body).Installs :=
  installs_ask_bind _ fun _ => installs_ask_bind _ fun _ => installs_ask_bind _ fun _ =>
    installs_ask_bind _ fun _ => installs_install loc _

theorem installs_defineMetalevel (scope : Scope) (loc : Location) (name body : SExpr) :
    (defineMetalevel scope loc name body).Installs :=
  installs_ask_bind _ fun _ => installs_ask_bind _ fun _ => installs_ask_bind _ fun _ =>
    installs_ask_bind _ fun _ => installs_install loc _

theorem installs_postulate (scope : Scope) (loc : Location) (name type : SExpr) :
    (postulate scope loc name type).Installs :=
  installs_ask_bind _ fun _ => installs_ask_bind _ fun _ => installs_ask_bind _ fun _ =>
    installs_install loc _

/-- **A form makes the entry that it is answered with, or leaves the environment as it is**,
whatever it fails for and however far it has come. -/
theorem installs_form (scope : Scope) (e : SExpr) : (form scope e).Installs := by
  unfold form
  split
  · split
    · exact installs_defineObject scope _ _ _ _
    · exact installs_defineObject scope _ _ _ _
    · exact installs_refuse _ _ _
    · exact installs_defineMetalevel scope _ _ _
    · exact installs_refuse _ _ _
    · exact installs_postulate scope _ _ _
    · exact installs_refuse _ _ _
    · exact installs_refuse _ _ _
  · exact installs_refuse _ _ _

/-- **Queries leave the environment as it is.** -/
theorem reads_expression (scope : Scope) (e : SExpr) : (expression scope e).Reads := reads_ask _

theorem reads_typeOf (scope : Scope) (e : SExpr) : (typeOf scope e).Reads :=
  reads_ask_bind _ fun _ => reads_ask _

theorem reads_normalForm (scope : Scope) (e : SExpr) : (normalForm scope e).Reads :=
  reads_ask_bind _ fun _ => reads_ask _

end Forms

/-! ## What is answered -/

/-- What an elaboration answers. -/
def answer (m : Elaboration α) (env : Environment) : Except Diagnostic α := (m env).1

theorem answer_ask_bind (question : Environment → Except Diagnostic α) (k : α → Elaboration β)
    (env : Environment) :
    answer (ask question >>= k) env = question env >>= fun a => (k a).answer env := by
  rw [answer, ask_bind_apply]
  cases question env <;> rfl

theorem answer_install (loc : Location) {n : String} (decl : Declaration) {env : Environment}
    (hfree : env.signature.contains n = false) :
    (install loc (n, decl)).answer env = .ok (n, decl) := by
  have hinsert : env.signature.insert? n decl = some _ :=
    Signature.insert?_eq_some.2 ⟨hfree, rfl⟩
  rw [answer, install, hinsert]

end Elaboration

namespace Environment

open Elaboration

variable (env : Environment) (scope : Scope) (loc : Location)

theorem freeName_yields (name : SExpr) :
    Yields (env.freeName name) fun n => env.signature.contains n = false := by
  unfold freeName
  split
  · split
    · trivial
    · next hfree => exact Bool.eq_false_iff.2 hfree
  · trivial

variable [IndexArithmetic]

/-- What an object definition declares. -/
def defineObject (name : SExpr) (annotation? : Option SExpr) (body : SExpr) :
    Except Diagnostic Entry :=
  (Elaboration.defineObject scope loc name annotation? body).answer env

/-- What a metalevel definition declares. -/
def defineMetalevel (name body : SExpr) : Except Diagnostic Entry :=
  (Elaboration.defineMetalevel scope loc name body).answer env

/-- What a constant without a value declares. -/
def postulate (name type : SExpr) : Except Diagnostic Entry :=
  (Elaboration.postulate scope loc name type).answer env

/-- What a top-level form declares. -/
def elaborateForm (form : SExpr) : Except Diagnostic Entry :=
  (Elaboration.form scope form).answer env

theorem defineObject_eq (name : SExpr) (annotation? : Option SExpr) (body : SExpr) :
    env.defineObject scope loc name annotation? body = (do
      let name ← env.freeName name
      let term ← body.elaborate env scope loc
      let type ← env.definitionType scope loc annotation? term
      let value ← loc.reportKernel (env.normalize term)
      return (name, ⟨.object, type, some value⟩)) := by
  rw [defineObject, Elaboration.defineObject, answer_ask_bind]
  refine (env.freeName_yields name).bind_congr rfl fun n hfree => ?_
  simp only [answer_ask_bind, answer_install loc _ hfree]
  rfl

theorem defineMetalevel_eq (name body : SExpr) :
    env.defineMetalevel scope loc name body = (do
      let name ← env.freeName name
      let term ← body.lower scope
      let type ← loc.reportKernel (env.infer (.empty .metalevel) term)
      let value ← loc.reportKernel (env.normalize term)
      return (name, ⟨.metalevel, type, some value⟩)) := by
  rw [defineMetalevel, Elaboration.defineMetalevel, answer_ask_bind]
  refine (env.freeName_yields name).bind_congr rfl fun n hfree => ?_
  simp only [answer_ask_bind, answer_install loc _ hfree]
  rfl

theorem postulate_eq (name type : SExpr) :
    env.postulate scope loc name type = (do
      let name ← env.freeName name
      let type ← type.elaborate env scope loc
      let _ ← loc.reportKernel (env.inferSort (.empty .object) "axiom type" type)
      return (name, ⟨.object, type, none⟩)) := by
  rw [postulate, Elaboration.postulate, answer_ask_bind]
  refine (env.freeName_yields name).bind_congr rfl fun n hfree => ?_
  simp only [answer_ask_bind, answer_install loc _ hfree]
  rfl

end Environment

end StagedTT
