import Mathlib.Data.List.Forall2
import Mathlib.Logic.Relation
import StagedTT.Kernel.Signature
import StagedTT.Proofs.Term.Fragment
import StagedTT.Proofs.Term.FreeIndex

/-!
# Reduction

`Step sig t u` contracts one function that is applied, or unfolds one constant that has a value,
anywhere in `t` but in the head of a suspended call. `Steps` is any number of steps.

Reduction commutes with substitution, as long as the values of a signature are closed
(`Step.substAll`), and stays in every fragment that unfolding stays in (`Step.within`).
-/

namespace StagedTT

open Relation (ReflTransGen)

namespace Signature

/-- No value has a free variable. -/
def ValuesClosed (sig : Signature) : Prop := ∀ n v, sig.value? n = some v → v.Closed

/-- Unfolding does not lead out of a fragment. -/
def Keeps (sig : Signature) (F : Fragment) : Prop :=
  ∀ n v, F.name n → sig.value? n = some v → v.Within F

end Signature

namespace Term

/-- One step of reduction at any position outside the heads of suspended calls. -/
inductive Step (sig : Signature) : Term → Term → Prop
  | beta (A b a : Term) : Step sig (.app (.lam A b) a) (b.instantiate a)
  | delta {n : String} {v : Term} : sig.value? n = some v → Step sig (.const n) v
  | piDomain {A A' : Term} (B : Term) : Step sig A A' → Step sig (.pi A B) (.pi A' B)
  | piBody (A : Term) {B B' : Term} : Step sig B B' → Step sig (.pi A B) (.pi A B')
  | lamDomain {A A' : Term} (b : Term) : Step sig A A' → Step sig (.lam A b) (.lam A' b)
  | lamBody (A : Term) {b b' : Term} : Step sig b b' → Step sig (.lam A b) (.lam A b')
  | appFn {f f' : Term} (a : Term) : Step sig f f' → Step sig (.app f a) (.app f' a)
  | appArg (f : Term) {a a' : Term} : Step sig a a' → Step sig (.app f a) (.app f a')
  | quote {b b' : Term} : Step sig b b' → Step sig (.quote b) (.quote b')
  | splice {b b' : Term} : Step sig b b' → Step sig (.splice b) (.splice b')
  | callArg (h : Term) (as : List Term) {a a' : Term} (bs : List Term) : Step sig a a' →
      Step sig (.call h (as ++ a :: bs)) (.call h (as ++ a' :: bs))

/-- Any number of steps. -/
abbrev Steps (sig : Signature) : Term → Term → Prop := ReflTransGen (Step sig)

variable {sig : Signature} {F : Fragment}

theorem Step.substAll (hsig : sig.ValuesClosed) {t u : Term} (h : Step sig t u)
    (σ : Nat → Term) : Step sig (t.substAll σ) (u.substAll σ) := by
  induction h generalizing σ with
  | beta A b a =>
    rw [instantiate_substAll, substAll_app, substAll_lam]
    exact .beta _ _ _
  | delta h =>
    rw [(hsig _ _ h).substAll_eq]
    exact .delta h
  | piDomain B _ ih =>
    rw [substAll_pi, substAll_pi]
    exact .piDomain _ (ih σ)
  | piBody A _ ih =>
    rw [substAll_pi, substAll_pi]
    exact .piBody _ (ih _)
  | lamDomain b _ ih =>
    rw [substAll_lam, substAll_lam]
    exact .lamDomain _ (ih σ)
  | lamBody A _ ih =>
    rw [substAll_lam, substAll_lam]
    exact .lamBody _ (ih _)
  | appFn a _ ih => exact .appFn _ (ih σ)
  | appArg f _ ih => exact .appArg _ (ih σ)
  | quote _ ih => exact .quote (ih σ)
  | splice _ ih => exact .splice (ih σ)
  | callArg h as bs _ ih =>
    simp only [substAll_call, List.map_append, List.map_cons]
    exact .callArg _ _ _ (ih σ)

theorem Step.within (hsig : sig.Keeps F) {t u : Term} (h : Step sig t u) (ht : t.Within F) :
    u.Within F := by
  induction h with
  | beta A b a =>
    obtain ⟨hf, ha⟩ := ht.of_app
    exact hf.of_lam.2.instantiate ha
  | delta h =>
    cases ht with
    | const hn => exact hsig _ _ hn h
  | piDomain B _ ih => exact .pi (ih ht.of_pi.1) ht.of_pi.2
  | piBody A _ ih => exact .pi ht.of_pi.1 (ih ht.of_pi.2)
  | lamDomain b _ ih => exact .lam (ih ht.of_lam.1) ht.of_lam.2
  | lamBody A _ ih => exact .lam ht.of_lam.1 (ih ht.of_lam.2)
  | appFn a _ ih => exact .app (ih ht.of_app.1) ht.of_app.2
  | appArg f _ ih => exact .app ht.of_app.1 (ih ht.of_app.2)
  | quote _ ih =>
    cases ht with
    | quote hs hb => exact .quote hs (ih hb)
  | splice _ ih =>
    cases ht with
    | splice hs hb => exact .splice hs (ih hb)
  | callArg h as bs _ ih =>
    obtain ⟨n, rfl, hn, hs, hargs⟩ := ht.of_call
    simp only [List.forall_mem_append, List.forall_mem_cons] at hargs
    obtain ⟨has, ha, hbs⟩ := hargs
    refine .call hs hn ?_
    simp only [List.forall_mem_append, List.forall_mem_cons]
    exact ⟨has, ih ha, hbs⟩

/-- The steps of a term depend on the values of the names in it. -/
theorem Step.transfer {sig' : Signature}
    (hvalue : ∀ n v, F.name n → sig.value? n = some v → sig'.value? n = some v) {t u : Term}
    (h : Step sig t u) (ht : t.Within F) : Step sig' t u := by
  induction h with
  | beta A b a => exact .beta A b a
  | delta hv =>
    cases ht with
    | const hn => exact .delta (hvalue _ _ hn hv)
  | piDomain B _ ih => exact .piDomain B (ih ht.of_pi.1)
  | piBody A _ ih => exact .piBody A (ih ht.of_pi.2)
  | lamDomain b _ ih => exact .lamDomain b (ih ht.of_lam.1)
  | lamBody A _ ih => exact .lamBody A (ih ht.of_lam.2)
  | appFn a _ ih => exact .appFn a (ih ht.of_app.1)
  | appArg f _ ih => exact .appArg f (ih ht.of_app.2)
  | quote _ ih => exact .quote (ih ht.of_quote)
  | splice _ ih => exact .splice (ih ht.of_splice)
  | callArg h as bs _ ih =>
    obtain ⟨n, -, -, -, hargs⟩ := ht.of_call
    exact .callArg h as bs (ih (hargs _ (by simp)))

theorem Step.applyAll {head head' : Term} (h : Step sig head head') (args : List Term) :
    Step sig (head.applyAll args) (head'.applyAll args) := by
  induction args generalizing head head' with
  | nil => exact h
  | cons arg args ih => exact ih (.appFn arg h)

/-- What a suspended call stands for has all the steps that the call has. -/
theorem Step.applyAll_arg (head : Term) (as : List Term) {a a' : Term} (bs : List Term)
    (h : Step sig a a') :
    Step sig (head.applyAll (as ++ a :: bs)) (head.applyAll (as ++ a' :: bs)) := by
  rw [applyAll_append, applyAll_append]
  exact Step.applyAll (.appArg _ h) bs

/-- Replacing one element of a list leaves the others. -/
theorem getElem_replaced {α : Type} (as : List α) (a a' : α) (bs : List α) {i : Nat}
    (h : i < (as ++ a :: bs).length) (h' : i < (as ++ a' :: bs).length) :
    ((as ++ a :: bs)[i] = a ∧ (as ++ a' :: bs)[i] = a') ∨
      (as ++ a' :: bs)[i] = (as ++ a :: bs)[i] := by
  rcases Nat.lt_trichotomy i as.length with hi | rfl | hi
  · right
    rw [List.getElem_append_left hi, List.getElem_append_left hi]
  · left
    simp
  · right
    obtain ⟨k, rfl⟩ : ∃ k, i = as.length + (k + 1) := ⟨i - as.length - 1, by omega⟩
    simp

/-! ## Many steps -/

theorem Steps.within (hsig : sig.Keeps F) {t u : Term} (h : Steps sig t u) (ht : t.Within F) :
    u.Within F := by
  induction h with
  | refl => exact ht
  | tail _ hstep ih => exact hstep.within hsig ih

theorem Steps.pi {A A' B B' : Term} (hA : Steps sig A A') (hB : Steps sig B B') :
    Steps sig (.pi A B) (.pi A' B') :=
  (hA.lift (Term.pi · B) fun _ _ => .piDomain B).trans (hB.lift (Term.pi A') fun _ _ => .piBody A')

theorem Steps.lam {A A' b b' : Term} (hA : Steps sig A A') (hb : Steps sig b b') :
    Steps sig (.lam A b) (.lam A' b') :=
  (hA.lift (Term.lam · b) fun _ _ => .lamDomain b).trans
    (hb.lift (Term.lam A') fun _ _ => .lamBody A')

theorem Steps.app {f f' a a' : Term} (hf : Steps sig f f') (ha : Steps sig a a') :
    Steps sig (.app f a) (.app f' a') :=
  (hf.lift (Term.app · a) fun _ _ => .appFn a).trans (ha.lift (Term.app f') fun _ _ => .appArg f')

theorem Steps.quote {b b' : Term} (hb : Steps sig b b') : Steps sig (.quote b) (.quote b') :=
  hb.lift Term.quote fun _ _ => .quote

theorem Steps.splice {b b' : Term} (hb : Steps sig b b') : Steps sig (.splice b) (.splice b') :=
  hb.lift Term.splice fun _ _ => .splice

theorem Steps.call (h : Term) {as bs : List Term} (hargs : List.Forall₂ (Steps sig) as bs) :
    Steps sig (.call h as) (.call h bs) := by
  -- The arguments before the one that is reduced are reduced already.
  suffices ∀ done, Steps sig (.call h (done ++ as)) (.call h (done ++ bs)) from this []
  induction hargs with
  | nil => exact fun _ => .refl
  | @cons a b as bs ha _ ih =>
    intro done
    have hhead : Steps sig (.call h (done ++ a :: as)) (.call h (done ++ b :: as)) :=
      ha.lift (fun x => Term.call h (done ++ x :: as)) fun _ _ => .callArg h done as
    have htail := ih (done ++ [b])
    rw [List.append_assoc, List.append_assoc] at htail
    exact hhead.trans htail

end Term

end StagedTT
