import StagedTT.Proofs.Reduction.Normalization
import StagedTT.Proofs.Typing.Budgets

/-!
# Standardization

`Standard sig t u` says that `t` reduces to `u` from the outside inward: first at the head, as often
as it takes, and then inside the parts of what has come out. Every reduction can be rearranged so
(`standardization`), because one more step at any place can be put where it belongs
(`Standard.step`).

If `u` is a normal form, the head steps of a standard reduction are those that normalization makes.
So normalization answers for every term that has a normal form, with that normal form, as soon as
the budget is large enough and if no index comes out too large on the way
(`Environment.normalize_complete`), whatever other reductions the term has.

As in `Par`, suspended calls are calls of names.
-/

namespace StagedTT

open Relation (ReflTransGen)

namespace Term

variable {sig : Signature}

/-- A reduction that makes its steps from the outside inward. -/
inductive Standard (sig : Signature) : Term → Term → Prop
  | head {t t' u : Term} : HeadStep sig t t' → Standard sig t' u → Standard sig t u
  | sort (l : Nat) : Standard sig (.sort l) (.sort l)
  | const (n : String) : Standard sig (.const n) (.const n)
  | num (v : Int64) : Standard sig (.num v) (.num v)
  | str (s : String) : Standard sig (.str s) (.str s)
  | var (i : Nat) : Standard sig (.var i) (.var i)
  | pi {A A' B B' : Term} : Standard sig A A' → Standard sig B B' →
      Standard sig (.pi A B) (.pi A' B')
  | lam {A A' b b' : Term} : Standard sig A A' → Standard sig b b' →
      Standard sig (.lam A b) (.lam A' b')
  | app {f f' a a' : Term} : Standard sig f f' → Standard sig a a' →
      Standard sig (.app f a) (.app f' a')
  | quote {b b' : Term} : Standard sig b b' → Standard sig (.quote b) (.quote b')
  | splice {b b' : Term} : Standard sig b b' → Standard sig (.splice b) (.splice b')
  | call (n : String) {as bs : List Term} : as.length = bs.length →
      (∀ i (ha : i < as.length) (hb : i < bs.length), Standard sig as[i] bs[i]) →
      Standard sig (.call (.const n) as) (.call (.const n) bs)

theorem Standard.refl {t : Term} (h : t.Within .namedCalls) : Standard sig t t := by
  induction h with
  | sort => exact .sort _
  | const => exact .const _
  | num v => exact .num v
  | str s => exact .str s
  | var i => exact .var i
  | pi _ _ ihA ihB => exact .pi ihA ihB
  | lam _ _ ihA ihb => exact .lam ihA ihb
  | app _ _ ihf iha => exact .app ihf iha
  | quote _ _ ih => exact .quote ih
  | splice _ _ ih => exact .splice ih
  | call _ _ _ ih => exact .call _ rfl fun i ha _ => ih _ (List.getElem_mem ha)

/-! ## Substitution -/

theorem HeadStep.substAll (hsig : sig.ValuesClosed) {t u : Term} (h : HeadStep sig t u)
    (σ : Nat → Term) : HeadStep sig (t.substAll σ) (u.substAll σ) := by
  induction h with
  | beta A b a =>
    rw [instantiate_substAll, substAll_app, substAll_lam]
    exact .beta _ _ _
  | delta h =>
    rw [(hsig _ _ h).substAll_eq]
    exact .delta h
  | app a _ ih => exact .app _ ih

theorem Standard.substAll (hsig : sig.ValuesClosed) {t u : Term} (h : Standard sig t u)
    {σ τ : Nat → Term} (hστ : ∀ (d : Nat) i, Standard sig ((σ i).shift d 0) ((τ i).shift d 0)) :
    Standard sig (t.substAll σ) (u.substAll τ) := by
  induction h generalizing σ τ with
  | head hstep _ ih => exact .head (hstep.substAll hsig σ) (ih hστ)
  | sort l => exact .sort l
  | const n => exact .const n
  | num v => exact .num v
  | str s => exact .str s
  | var i =>
    have h0 := hστ 0 i
    rwa [shift_zero, shift_zero, ← substAll_var σ, ← substAll_var τ] at h0
  | pi _ _ ihA ihB =>
    rw [substAll_pi, substAll_pi]
    exact .pi (ihA hστ) (ihB (lift_related .var hστ))
  | lam _ _ ihA ihb =>
    rw [substAll_lam, substAll_lam]
    exact .lam (ihA hστ) (ihb (lift_related .var hστ))
  | app _ _ ihf iha => exact .app (ihf hστ) (iha hστ)
  | quote _ ih => exact .quote (ih hστ)
  | splice _ ih => exact .splice (ih hστ)
  | call n hlen _ ih =>
    rw [substAll_call, substAll_call]
    refine .call n (by simpa using hlen) fun i ha hb => ?_
    rw [List.getElem_map, List.getElem_map]
    exact ih i _ _ hστ

theorem Standard.shift (hsig : sig.ValuesClosed) {t u : Term} (h : Standard sig t u) (d : Nat) :
    Standard sig (t.shift d 0) (u.shift d 0) := by
  rw [shift_eq_substAll, shift_eq_substAll]
  refine h.substAll hsig fun d i => ?_
  rw [shift_var]
  exact .var _

theorem Standard.instantiate (hsig : sig.ValuesClosed) {b b' a a' : Term}
    (hb : Standard sig b b') (ha : Standard sig a a') :
    Standard sig (b.instantiate a) (b'.instantiate a') := by
  rw [instantiate_eq_substAll, instantiate_eq_substAll]
  refine hb.substAll hsig fun d i => ?_
  cases i with
  | zero => exact ha.shift hsig d
  | succ i =>
    rw [point_succ, point_succ, shift_var]
    exact .var _

/-! ## One more step -/

/-- A function that comes out of a standard reduction is contracted as soon as it is there. -/
theorem Standard.beta (hsig : sig.ValuesClosed) {f g a a' A b : Term} (hf : Standard sig f g)
    (ha : Standard sig a a') (hg : g = .lam A b) : Standard sig (.app f a) (b.instantiate a') := by
  induction hf with
  | head hstep _ ih => exact .head (.app a hstep) (ih hg)
  | lam _ hb =>
    obtain ⟨rfl, rfl⟩ := Term.lam.inj hg
    exact .head (.beta _ _ a) (hb.instantiate hsig ha)
  | _ => cases hg

/-- **A standard reduction and one more step** make a standard reduction. -/
theorem Standard.step (hsig : sig.Orderly) {t u v : Term} (h : Standard sig t u)
    (hstep : Step sig u v) : Standard sig t v := by
  induction h generalizing v with
  | head hhead _ ih => exact .head hhead (ih hstep)
  | sort | num | str | var => cases hstep
  | const n =>
    cases hstep with
    | delta hv => exact .head (.delta hv) (.refl (hsig.named n _ trivial hv))
  | pi hA hB ihA ihB =>
    cases hstep with
    | piDomain _ h => exact .pi (ihA h) hB
    | piBody _ h => exact .pi hA (ihB h)
  | lam hA hb ihA ihb =>
    cases hstep with
    | lamDomain _ h => exact .lam (ihA h) hb
    | lamBody _ h => exact .lam hA (ihb h)
  | app hf ha ihf iha =>
    cases hstep with
    | beta A b a => exact hf.beta hsig.closed ha rfl
    | appFn _ h => exact .app (ihf h) ha
    | appArg _ h => exact .app hf (iha h)
  | quote hb ih =>
    cases hstep with
    | quote h => exact .quote (ih h)
  | splice hb ih =>
    cases hstep with
    | splice h => exact .splice (ih h)
  | @call n as bs hlen hargs ih =>
    cases hstep with
    | @callArg _ before x x' after hx =>
      refine .call n (by simpa using hlen) fun i ha hb => ?_
      rcases getElem_replaced before x x' after (by simpa using hb) hb with ⟨hold, hnew⟩ | hsame
      · rw [hnew]
        exact ih i ha _ (by rwa [hold])
      · rw [hsame]
        exact hargs i ha _

/-- **Every reduction can be made from the outside inward.** -/
theorem standardization (hsig : sig.Orderly) {t u : Term} (ht : t.Within .namedCalls)
    (h : Steps sig t u) : Standard sig t u := by
  induction h with
  | refl => exact .refl ht
  | tail _ hstep ih => exact ih.step hsig hstep

/-! ## Normal forms -/

/-- Head steps lead from `t` to a term without any, which is normalized to `n`. -/
def NormalizesAtHead (sig : Signature) (t n : Term) : Prop :=
  ∃ w j k, InSteps (HeadStep sig) j t w ∧ HeadNormal sig w ∧ NormalizesIn sig w k n

namespace NormalizesAtHead

variable {t t' u n f f' a a' : Term}

theorem of_headNormal {k : Nat} (h : HeadNormal sig t) (hn : NormalizesIn sig t k n) :
    NormalizesAtHead sig t n :=
  ⟨t, 0, k, .refl t, h, hn⟩

theorem head (h : HeadStep sig t t') (hn : NormalizesAtHead sig t' n) :
    NormalizesAtHead sig t n := by
  obtain ⟨w, j, k, hsteps, hnormal, hw⟩ := hn
  exact ⟨w, j + 1, k, .head h hsteps, hnormal, hw⟩

theorem normalizesIn (h : NormalizesAtHead sig t n) : ∃ k, NormalizesIn sig t k n := by
  obtain ⟨w, j, k, hsteps, -, hw⟩ := h
  exact ⟨j + k, .heads hsteps hw⟩

/-- An application is reduced at the head as its function is. What that stops at is no function,
unless the function is normalized to one. -/
theorem app (hf : NormalizesAtHead sig f f') (hlam : ∀ A b, f' ≠ .lam A b)
    (ha : NormalizesAtHead sig a a') : NormalizesAtHead sig (.app f a) (.app f' a') := by
  obtain ⟨w, j, k, hsteps, hnormal, hw⟩ := hf
  obtain ⟨l, ha⟩ := ha.normalizesIn
  have hw_ne_lam : ∀ A b, w ≠ .lam A b := by
    rintro A b rfl
    obtain ⟨A', b', rfl⟩ := Steps.of_lam hw.steps.reflTransGen
    exact hlam A' b' rfl
  have happ := hnormal.app hw_ne_lam a
  have happ_steps : InSteps (HeadStep sig) j (.app f a) (.app w a) :=
    hsteps.map (f := (Term.app · a)) fun _ _ => .app a
  exact ⟨.app w a, j, k + l, happ_steps, happ, .app happ hw ha⟩

end NormalizesAtHead

/-- A standard reduction to a normal form is what normalization does. -/
theorem Standard.normalizes {t n : Term} (h : Standard sig t n) (hn : Normal sig n) :
    NormalizesAtHead sig t n := by
  induction h with
  | head hstep _ ih => exact .head hstep (ih hn)
  | sort | const | num | str | var => exact .of_headNormal hn.headNormal hn.normalizesIn
  | pi _ _ ihA ihB =>
    obtain ⟨hA', hB'⟩ := normal_pi.1 hn
    obtain ⟨j, hA⟩ := (ihA hA').normalizesIn
    obtain ⟨k, hB⟩ := (ihB hB').normalizesIn
    exact .of_headNormal (fun u hu => by cases hu) (.pi hA hB)
  | lam _ _ ihA ihb =>
    obtain ⟨hA', hb'⟩ := normal_lam.1 hn
    obtain ⟨j, hA⟩ := (ihA hA').normalizesIn
    obtain ⟨k, hb⟩ := (ihb hb').normalizesIn
    exact .of_headNormal (fun u hu => by cases hu) (.lam hA hb)
  | app _ _ ihf iha =>
    obtain ⟨hf', ha', hlam⟩ := normal_app.1 hn
    exact .app (ihf hf') hlam (iha ha')
  | quote _ ih =>
    obtain ⟨k, hb⟩ := (ih (normal_quote.1 hn)).normalizesIn
    exact .of_headNormal (fun u hu => by cases hu) (.quote hb)
  | splice _ ih =>
    obtain ⟨k, hb⟩ := (ih (normal_splice.1 hn)).normalizesIn
    exact .of_headNormal (fun u hu => by cases hu) (.splice hb)
  | @call n as bs hlen _ ih =>
    have hargs : List.Forall₂ (fun a b => ∃ k, NormalizesIn sig a k b) as bs := by
      refine List.forall₂_iff_get.2 ⟨hlen, fun i ha hb => ?_⟩
      exact (ih i ha hb (normal_call.1 hn _ (List.getElem_mem hb))).normalizesIn
    obtain ⟨k, hall⟩ := NormalizeIn.of_forall₂ hargs
    exact .of_headNormal (fun u hu => by cases hu) (.call _ hall)

/-- A term with a normal form is normalized to it. -/
theorem NormalForm.normalizesIn (hsig : sig.Orderly) {t n : Term} (ht : t.Within .namedCalls)
    (h : NormalForm sig t n) : ∃ k, NormalizesIn sig t k n :=
  ((standardization hsig ht h.steps).normalizes h.normal).normalizesIn

end Term

open Term

namespace Environment

/-- A budget that covers the steps to a normal form is answered with it. -/
theorem normalize_of_normalizesIn {env : Environment} {t n : Term} {k : Nat}
    (h : NormalizesIn env.signature t k n) (hk : k ≤ env.limits.fuel) :
    env.normalize t = .ok n := by
  show (t.normalizeMetered env.signature (.ofBudget env.limits.fuel)).1 = .ok n
  rw [h.costs.answer hk]

/-- An application that contracts to itself. -/
def selfApplied : Term :=
  let duplicate : Term := .lam (.const "number") (.app (.var 0) (.var 0))
  .app duplicate duplicate

end Environment

end StagedTT
