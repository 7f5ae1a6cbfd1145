import StagedTT.Proofs.Reduction.NormalRuns

/-!
# Normal order

`NormalizesIn sig t k n` says that normalization answers `t` with `n` for `k` units of fuel, and
that `n` is a normal form, `k` steps from `t`. Normalization answers so or fails for want of fuel
(`normalizeMetered_settles`).

There is one lemma for each way to form a term. A head step comes first (`NormalizesIn.head`); an
application without one is put together from its function and its argument, which are normalized
on their own (`NormalizesIn.app`).
-/

namespace StagedTT

open Metered (settles_pure settles_burn settles_fix costs_pure costs_burn burn)

namespace Term

variable {sig : Signature}

/-! ## Recursion equations -/

theorem normalizeMetered_pi (sig : Signature) (A B : Term) :
    (pi A B).normalizeMetered sig = (do
      let A ← A.normalizeMetered sig
      let B ← B.normalizeMetered sig
      return .pi A B) := by
  rw [normalizeMetered_eq sig (.pi A B), normalizeBody, ← normalizeMetered_eq,
    ← normalizeMetered_eq]

theorem normalizeMetered_lam (sig : Signature) (A b : Term) :
    (lam A b).normalizeMetered sig = (do
      let A ← A.normalizeMetered sig
      let b ← b.normalizeMetered sig
      return .lam A b) := by
  rw [normalizeMetered_eq sig (.lam A b), normalizeBody, ← normalizeMetered_eq,
    ← normalizeMetered_eq]

theorem normalizeMetered_app {f a : Term} (h : HeadNormal sig (app f a)) :
    (app f a).normalizeMetered sig = (do
      let f ← f.normalizeMetered sig
      let a ← a.normalizeMetered sig
      return .app f a) := by
  rw [normalizeMetered_eq sig (.app f a), normalizeBody]
  simp only [step?_spine_eq_none_iff.2 h, ← normalizeMetered_eq]

theorem normalizeMetered_quote (sig : Signature) (b : Term) :
    (quote b).normalizeMetered sig = (do
      let b ← b.normalizeMetered sig
      return .quote b) := by
  rw [normalizeMetered_eq sig (.quote b), normalizeBody, ← normalizeMetered_eq]

theorem normalizeMetered_splice (sig : Signature) (b : Term) :
    (splice b).normalizeMetered sig = (do
      let b ← b.normalizeMetered sig
      return .splice b) := by
  rw [normalizeMetered_eq sig (.splice b), normalizeBody, ← normalizeMetered_eq]

/-- What normalization does with the arguments of a suspended call. -/
def normalizeAll (sig : Signature) (args : List Term) : Metered KernelError (List Term) :=
  normalizeArgs sig (normalizeMetered sig) args

theorem normalizeAll_cons (sig : Signature) (arg : Term) (args : List Term) :
    normalizeAll sig (arg :: args) = (do
      let arg ← arg.normalizeMetered sig
      let args ← normalizeAll sig args
      return arg :: args) := by
  rw [normalizeAll, normalizeArgs, ← normalizeMetered_eq]
  rfl

theorem normalizeMetered_call (sig : Signature) (head : Term) (args : List Term) :
    (call head args).normalizeMetered sig = (do
      let args ← normalizeAll sig args
      return .call head args) := by
  rw [normalizeMetered_eq sig (.call head args), normalizeBody]
  rfl

/-! ## Counted runs -/

/-- Normalization answers `t` with the normal form `n`, for one unit of fuel on each of `k`
steps. -/
structure NormalizesIn (sig : Signature) (t : Term) (k : Nat) (n : Term) : Prop where
  costs : (t.normalizeMetered sig).Costs k n
  steps : InSteps (Step sig) k t n
  normal : Normal sig n

/-- Normalization answers arguments with the normal forms `bs`, for one unit of fuel on each of `k`
steps. -/
structure NormalizeIn (sig : Signature) (as : List Term) (k : Nat) (bs : List Term) : Prop where
  costs : (normalizeAll sig as).Costs k bs
  steps : ∀ head done, InSteps (Step sig) k (.call head (done ++ as)) (.call head (done ++ bs))
  normal : ∀ b ∈ bs, Normal sig b

theorem Normal.normalizesIn {t : Term} (h : Normal sig t) : NormalizesIn sig t 0 t where
  costs := by
    rw [h.normalizeMetered_eq]
    exact costs_pure t
  steps := .refl t
  normal := h

namespace NormalizesIn

variable {t u n A A' B B' f f' a a' : Term} {j k : Nat}

theorem head (h : HeadStep sig t u) (hu : NormalizesIn sig u k n) :
    NormalizesIn sig t (k + 1) n where
  costs := by
    rw [h.normalizeMetered_eq, Nat.add_comm k 1]
    exact costs_burn.bind hu.costs
  steps := .head h.step hu.steps
  normal := hu.normal

theorem heads (h : InSteps (HeadStep sig) j t u) (hu : NormalizesIn sig u k n) :
    NormalizesIn sig t (j + k) n := by
  induction h with
  | refl => rwa [Nat.zero_add]
  | head hstep _ ih =>
    rw [Nat.add_right_comm]
    exact .head hstep (ih hu)

theorem pi (hA : NormalizesIn sig A j A') (hB : NormalizesIn sig B k B') :
    NormalizesIn sig (.pi A B) (j + k) (.pi A' B') where
  costs := by
    rw [normalizeMetered_pi]
    exact hA.costs.bind (hB.costs.bind_pure _)
  steps := (hA.steps.map (f := (Term.pi · B)) fun _ _ => .piDomain B).trans
    (hB.steps.map fun _ _ => .piBody A')
  normal := normal_pi.2 ⟨hA.normal, hB.normal⟩

theorem lam (hA : NormalizesIn sig A j A') (hB : NormalizesIn sig B k B') :
    NormalizesIn sig (.lam A B) (j + k) (.lam A' B') where
  costs := by
    rw [normalizeMetered_lam]
    exact hA.costs.bind (hB.costs.bind_pure _)
  steps := (hA.steps.map (f := (Term.lam · B)) fun _ _ => .lamDomain B).trans
    (hB.steps.map fun _ _ => .lamBody A')
  normal := normal_lam.2 ⟨hA.normal, hB.normal⟩

/-- A stuck application is put together from its parts. -/
theorem app (h : HeadNormal sig (.app f a)) (hf : NormalizesIn sig f j f')
    (ha : NormalizesIn sig a k a') : NormalizesIn sig (.app f a) (j + k) (.app f' a') where
  costs := by
    rw [normalizeMetered_app h]
    exact hf.costs.bind (ha.costs.bind_pure _)
  steps := (hf.steps.map (f := (Term.app · a)) fun _ _ => .appFn a).trans
    (ha.steps.map fun _ _ => .appArg f')
  normal := normal_app.2 ⟨hf.normal, ha.normal, (h.stuck.steps hf.steps.reflTransGen).ne_lam⟩

theorem quote (hB : NormalizesIn sig B k B') : NormalizesIn sig (.quote B) k (.quote B') where
  costs := by
    rw [normalizeMetered_quote]
    exact hB.costs.bind_pure _
  steps := hB.steps.map fun _ _ => .quote
  normal := normal_quote.2 hB.normal

theorem splice (hB : NormalizesIn sig B k B') : NormalizesIn sig (.splice B) k (.splice B') where
  costs := by
    rw [normalizeMetered_splice]
    exact hB.costs.bind_pure _
  steps := hB.steps.map fun _ _ => .splice
  normal := normal_splice.2 hB.normal

theorem call (head : Term) {as bs : List Term} (h : NormalizeIn sig as k bs) :
    NormalizesIn sig (.call head as) k (.call head bs) where
  costs := by
    rw [normalizeMetered_call]
    exact h.costs.bind_pure _
  steps := h.steps head []
  normal := normal_call.2 h.normal

end NormalizesIn

namespace NormalizeIn

variable {a b : Term} {as bs : List Term} {j k : Nat}

theorem nil (sig : Signature) : NormalizeIn sig [] 0 [] where
  costs := costs_pure []
  steps _ _ := .refl _
  normal := List.forall_mem_nil _

theorem cons (ha : NormalizesIn sig a j b) (has : NormalizeIn sig as k bs) :
    NormalizeIn sig (a :: as) (j + k) (b :: bs) where
  costs := by
    rw [normalizeAll_cons]
    exact ha.costs.bind (has.costs.bind_pure _)
  steps head done := by
    have hfirst : InSteps (Step sig) j (.call head (done ++ a :: as))
        (.call head (done ++ b :: as)) :=
      ha.steps.map (f := fun x => Term.call head (done ++ x :: as)) fun _ _ => .callArg head done as
    have hrest := has.steps head (done ++ [b])
    rw [List.append_assoc, List.append_assoc] at hrest
    exact hfirst.trans hrest
  normal := List.forall_mem_cons.2 ⟨ha.normal, has.normal⟩

theorem of_forall₂ (h : List.Forall₂ (fun a b => ∃ k, NormalizesIn sig a k b) as bs) :
    ∃ k, NormalizeIn sig as k bs := by
  induction h with
  | nil => exact ⟨0, nil sig⟩
  | cons ha _ ih =>
    obtain ⟨j, ha⟩ := ha
    obtain ⟨k, has⟩ := ih
    exact ⟨j + k, cons ha has⟩

end NormalizeIn

/-! ## What the answers are -/

theorem normalizeArgs_settles {again : Term → Metered KernelError Term}
    {args : List Term}
    (h : ∀ a ∈ args, Metered.Settles (normalizeBody sig again a)
      (fun n => ∃ k, NormalizesIn sig a k n) IsOutOfFuel) :
    Metered.Settles (normalizeArgs sig again args) (fun ns => ∃ k, NormalizeIn sig args k ns)
      IsOutOfFuel := by
  induction args with
  | nil => exact settles_pure ⟨0, .nil sig⟩
  | cons a as ih =>
    obtain ⟨ha, has⟩ := List.forall_mem_cons.1 h
    refine ha.bind fun n ⟨j, hn⟩ => (ih has).bind fun ns ⟨k, hns⟩ => ?_
    exact settles_pure ⟨j + k, .cons hn hns⟩

theorem normalizeBody_settles {again : Term → Metered KernelError Term}
    (hagain : ∀ t, Metered.Settles (again t) (fun n => ∃ k, NormalizesIn sig t k n) IsOutOfFuel)
    (t : Term) :
    Metered.Settles (normalizeBody sig again t) (fun n => ∃ k, NormalizesIn sig t k n)
      IsOutOfFuel := by
  -- What is done with a term that has a step at its head.
  have hhead : ∀ {t u : Term}, HeadStep sig t u →
      Metered.Settles (normalizeBody sig again t) (fun n => ∃ k, NormalizesIn sig t k n)
        IsOutOfFuel := by
    intro t u hu
    rw [hu.normalizeBody_eq]
    refine (settles_burn fun steps => ⟨steps, rfl⟩).bind fun _ _ =>
      (whnf_settles sig u).bind fun w ⟨j, hw⟩ fuel => ?_
    exact (hagain w fuel).mono fun n ⟨k, hn⟩ => ⟨j + k + 1, .head hu (.heads hw.steps hn)⟩
  induction t with
  | sort l => exact settles_pure ⟨0, Normal.normalizesIn fun _ h => by cases h⟩
  | num v => exact settles_pure ⟨0, Normal.normalizesIn fun _ h => by cases h⟩
  | str s => exact settles_pure ⟨0, Normal.normalizesIn fun _ h => by cases h⟩
  | var i => exact settles_pure ⟨0, Normal.normalizesIn fun _ h => by cases h⟩
  | const name =>
    rcases headNormal_or_exists sig (.const name) with h | ⟨u, hu⟩
    · rw [normalizeBody_of_normal again h.normal_const]
      exact settles_pure ⟨0, h.normal_const.normalizesIn⟩
    · exact hhead hu
  | app f a ihf iha =>
    rcases headNormal_or_exists sig (.app f a) with h | ⟨u, hu⟩
    · rw [normalizeBody, step?_spine_eq_none_iff.2 h]
      exact ihf.bind fun f' ⟨j, hf⟩ => iha.bind fun a' ⟨k, ha⟩ =>
        settles_pure ⟨j + k, .app h hf ha⟩
    · exact hhead hu
  | pi A B ihA ihB =>
    exact ihA.bind fun A' ⟨j, hA⟩ => ihB.bind fun B' ⟨k, hB⟩ => settles_pure ⟨j + k, .pi hA hB⟩
  | lam A b ihA ihb =>
    exact ihA.bind fun A' ⟨j, hA⟩ => ihb.bind fun b' ⟨k, hb⟩ => settles_pure ⟨j + k, .lam hA hb⟩
  | quote b ih => exact ih.bind fun b' ⟨k, hb⟩ => settles_pure ⟨k, .quote hb⟩
  | splice b ih => exact ih.bind fun b' ⟨k, hb⟩ => settles_pure ⟨k, .splice hb⟩
  | call head args _ ih =>
    refine (normalizeArgs_settles ih).bind fun bs hall => ?_
    obtain ⟨k, hbs⟩ := hall
    exact settles_pure ⟨k, .call head hbs⟩

/-- **Normalization** answers with a normal form, for one unit of fuel on each step, and fails for
want of fuel only. -/
theorem normalizeMetered_settles (sig : Signature) (t : Term) :
    Metered.Settles (t.normalizeMetered sig) (fun n => ∃ k, NormalizesIn sig t k n) IsOutOfFuel :=
  settles_fix (fun steps => ⟨steps, rfl⟩) (fun _ h => normalizeBody_settles h) t

/-! ## Constants -/

variable {c : String} {v : Term}

/-- **A constant is unfolded once**, if its value is a normal form. -/
theorem costs_whnf_const (hvalue : sig.value? c = some v) (h : Normal sig v) :
    ((const c).whnf sig).Costs 1 v :=
  (h.headNormal.reducesIn.head (.delta hvalue)).costs

theorem costs_normalizeMetered_const (hvalue : sig.value? c = some v) (h : Normal sig v) :
    ((const c).normalizeMetered sig).Costs 1 v :=
  (h.normalizesIn.head (.delta hvalue)).costs

end Term

end StagedTT
