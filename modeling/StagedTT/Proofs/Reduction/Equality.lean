import StagedTT.Proofs.Reduction.Confluence

/-!
# Equality of terms

`EqualIn sig F t u` says that `t` and `u` are linked by steps of reduction, forward and backward,
all of whose terms belong to the fragment `F`. By confluence equal terms have a common reduct
(`EqualIn.join`), and terms of a fragment that reduction stays in are equal in it if they have one
(`equalIn_of_join`).

What a term without a step at its head is formed by is an invariant of equality
(`EqualIn.former_eq`): the level of a universe, being a function type, being a certain variable.
Equal function types have equal domains and equal bodies (`EqualIn.pi_inj`).
-/

namespace StagedTT

open Relation (ReflTransGen EqvGen Join)

namespace Term

/-- Equality by reduction inside a fragment. -/
def EqualIn (sig : Signature) (F : Fragment) : Term → Term → Prop :=
  EqvGen fun t u => t.Within F ∧ u.Within F ∧ Step sig t u

variable {sig : Signature} {F G : Fragment}

theorem EqualIn.refl (t : Term) : EqualIn sig F t t := EqvGen.refl t

theorem EqualIn.symm {t u : Term} (h : EqualIn sig F t u) : EqualIn sig F u t := EqvGen.symm _ _ h

theorem EqualIn.trans {t u v : Term} (h : EqualIn sig F t u) (h' : EqualIn sig F u v) :
    EqualIn sig F t v := EqvGen.trans _ _ _ h h'

theorem EqualIn.mono {t u : Term} (h : EqualIn sig F t u) (hFG : F ≤ G) : EqualIn sig G t u :=
  EqvGen.mono (fun _ _ ⟨ht, hu, hstep⟩ => ⟨ht.mono hFG, hu.mono hFG, hstep⟩) _ _ h

theorem EqualIn.of_step (hsig : sig.Keeps F) {t u : Term} (ht : t.Within F)
    (h : Step sig t u) : EqualIn sig F t u := EqvGen.rel _ _ ⟨ht, h.within hsig ht, h⟩

theorem EqualIn.of_steps (hsig : sig.Keeps F) {t u : Term} (ht : t.Within F)
    (h : Steps sig t u) : EqualIn sig F t u := by
  induction h with
  | refl => exact .refl t
  | tail hsteps hstep ih => exact ih.trans (.of_step hsig (Steps.within hsig hsteps ht) hstep)

/-- Terms of a fragment that reduction stays in are equal there if they have a common reduct. -/
theorem equalIn_of_join (hsig : sig.Keeps F) {t u : Term} (ht : t.Within F) (hu : u.Within F)
    (h : Join (Steps sig) t u) : EqualIn sig F t u := by
  obtain ⟨w, htw, huw⟩ := h
  exact (EqualIn.of_steps hsig ht htw).trans (EqualIn.of_steps hsig hu huw).symm

/-- A function on terms that keeps a fragment and its steps keeps equality in it. -/
theorem EqualIn.map {f : Term → Term} (hF : ∀ t, t.Within F → (f t).Within F)
    (hstep : ∀ t u, Step sig t u → Step sig (f t) (f u)) {t u : Term} (h : EqualIn sig F t u) :
    EqualIn sig F (f t) (f u) := by
  induction h with
  | rel t u h => exact EqvGen.rel _ _ ⟨hF t h.1, hF u h.2.1, hstep t u h.2.2⟩
  | refl t => exact .refl _
  | symm t u _ ih => exact ih.symm
  | trans t u v _ _ ih ih' => exact ih.trans ih'

theorem EqualIn.substAll (hsig : sig.ValuesClosed) {t u : Term} (h : EqualIn sig F t u)
    {σ : Nat → Term} (hσ : ∀ i, (σ i).Within F) :
    EqualIn sig F (t.substAll σ) (u.substAll σ) :=
  h.map (f := (·.substAll σ)) (fun _ ht => ht.substAll hσ) fun _ _ hstep => hstep.substAll hsig σ

theorem EqualIn.shift (hsig : sig.ValuesClosed) {t u : Term} (h : EqualIn sig F t u)
    (d c : Nat) : EqualIn sig F (t.shift d c) (u.shift d c) := by
  rw [shift_eq_substAll, shift_eq_substAll]
  exact h.substAll hsig fun _ => .var _

theorem EqualIn.instantiate (hsig : sig.ValuesClosed) {b b' a : Term}
    (h : EqualIn sig F b b') (ha : a.Within F) :
    EqualIn sig F (b.instantiate a) (b'.instantiate a) := by
  rw [instantiate_eq_substAll, instantiate_eq_substAll]
  exact h.substAll hsig ha.point

theorem EqualIn.piBody {A B B' : Term} (hA : A.Within F) (h : EqualIn sig F B B') :
    EqualIn sig F (.pi A B) (.pi A B') :=
  h.map (f := Term.pi A) (fun _ hB => .pi hA hB) fun _ _ => .piBody A

/-! ## Common reducts -/

theorem EqualIn.named_iff {t u : Term} (h : EqualIn sig F t u) :
    t.Within .namedCalls ↔ u.Within .namedCalls := by
  induction h with
  | rel t u h => exact ⟨fun _ => h.2.1.named, fun _ => h.1.named⟩
  | refl t => exact Iff.rfl
  | symm t u _ ih => exact ih.symm
  | trans t u v _ _ ih ih' => exact ih.trans ih'

/-- Equal terms have a common reduct. -/
theorem EqualIn.join (hsig : sig.Orderly) {t u : Term} (h : EqualIn sig F t u)
    (ht : t.Within .namedCalls) : Join (Steps sig) t u := by
  induction h with
  | rel t u h => exact ⟨u, .single h.2.2, .refl⟩
  | refl t => exact ⟨t, .refl, .refl⟩
  | symm t u h ih =>
    obtain ⟨w, htw, huw⟩ := ih (EqualIn.named_iff h |>.2 ht)
    exact ⟨w, huw, htw⟩
  | trans t u v h h' ih ih' =>
    have hu : u.Within .namedCalls := EqualIn.named_iff h |>.1 ht
    obtain ⟨w, htw, huw⟩ := ih ht
    obtain ⟨x, hux, hvx⟩ := ih' hu
    obtain ⟨y, hwy, hxy⟩ := church_rosser hsig hu huw hux
    exact ⟨y, htw.trans hwy, hvx.trans hxy⟩

/-! ## Normal forms -/

/-- A term that has no step. -/
def Normal (sig : Signature) (t : Term) : Prop := ∀ u, ¬ Step sig t u

theorem Normal.eq_of_steps {t u : Term} (ht : Normal sig t) (h : Steps sig t u) : u = t := by
  rcases h.cases_head with rfl | ⟨v, hstep, _⟩
  · rfl
  · exact absurd hstep (ht v)

/-- A term reduces to every normal form that it is equal to. -/
theorem EqualIn.steps_normal (hsig : sig.Orderly) {t n : Term} (h : EqualIn sig F t n)
    (ht : t.Within .namedCalls) (hn : Normal sig n) : Steps sig t n := by
  obtain ⟨w, htw, hnw⟩ := h.join hsig ht
  rwa [hn.eq_of_steps hnw] at htw

theorem EqualIn.normal_eq (hsig : sig.Orderly) {m n : Term} (h : EqualIn sig F m n)
    (hnamed : m.Within .namedCalls) (hm : Normal sig m) (hn : Normal sig n) : m = n :=
  (hm.eq_of_steps (h.steps_normal hsig hnamed hn)).symm

/-! ## What a term is formed by -/

/-- The ways to form a term that no reduction changes. -/
inductive Former where
  | sort (level : Nat)
  | const (name : String)
  | var (index : Nat)
  | pi
  deriving DecidableEq

/-- What a term is formed by, if no reduction changes it. -/
def former? (sig : Signature) : Term → Option Former
  | .sort l => some (.sort l)
  | .const n => if sig.value? n = none then some (.const n) else none
  | .var i => some (.var i)
  | .pi _ _ => some .pi
  | _ => none

theorem Step.former? {t u : Term} (h : Step sig t u) {k : Former} (ht : t.former? sig = some k) :
    u.former? sig = some k := by
  cases h with
  | delta hv => simp [Term.former?, hv] at ht
  | piDomain | piBody => exact ht
  | _ => cases ht

theorem Steps.former? {t u : Term} (h : Steps sig t u) {k : Former}
    (ht : t.former? sig = some k) : u.former? sig = some k := by
  induction h with
  | refl => exact ht
  | tail _ hstep ih => exact hstep.former? ih

/-- Equal terms are formed alike. -/
theorem EqualIn.former_eq (hsig : sig.Orderly) {t u : Term} (h : EqualIn sig F t u)
    (hnamed : t.Within .namedCalls) {j k : Former} (ht : t.former? sig = some j)
    (hu : u.former? sig = some k) : j = k := by
  obtain ⟨w, htw, huw⟩ := h.join hsig hnamed
  exact Option.some.inj ((htw.former? ht).symm.trans (huw.former? hu))

theorem EqualIn.sort_inj (hsig : sig.Orderly) {l k : Nat}
    (h : EqualIn sig F (.sort l) (.sort k)) : l = k := by
  have := h.former_eq hsig (.sort trivial) rfl rfl
  simpa using this

theorem Steps.of_sort {l : Nat} {u : Term} (h : Steps sig (.sort l) u) : u = .sort l := by
  refine Normal.eq_of_steps (fun v hv => ?_) h
  cases hv

theorem Steps.of_pi {A B u : Term} (h : Steps sig (.pi A B) u) :
    ∃ A' B', u = .pi A' B' ∧ Steps sig A A' ∧ Steps sig B B' := by
  induction h with
  | refl => exact ⟨A, B, rfl, .refl, .refl⟩
  | tail _ hstep ih =>
    obtain ⟨A', B', rfl, hA, hB⟩ := ih
    cases hstep with
    | piDomain _ h => exact ⟨_, _, rfl, hA.tail h, hB⟩
    | piBody _ h => exact ⟨_, _, rfl, hA, hB.tail h⟩

theorem Steps.of_lam {A b u : Term} (h : Steps sig (.lam A b) u) : ∃ A' b', u = .lam A' b' := by
  induction h with
  | refl => exact ⟨A, b, rfl⟩
  | tail _ hstep ih =>
    obtain ⟨A', b', rfl⟩ := ih
    cases hstep with
    | lamDomain _ h => exact ⟨_, _, rfl⟩
    | lamBody _ h => exact ⟨_, _, rfl⟩

/-- **Equal function types have equal parts.** -/
theorem EqualIn.pi_inj (hsig : sig.Orderly) (hF : sig.Keeps F) (hFG : F ≤ G) {A B A' B' : Term}
    (hAB : (pi A B).Within F) (hAB' : (pi A' B').Within F)
    (h : EqualIn sig G (.pi A B) (.pi A' B')) : EqualIn sig G A A' ∧ EqualIn sig G B B' := by
  obtain ⟨hA, hB⟩ := hAB.of_pi
  obtain ⟨hA', hB'⟩ := hAB'.of_pi
  obtain ⟨w, hw, hw'⟩ := h.join hsig hAB.named
  obtain ⟨A₁, B₁, rfl, hA₁, hB₁⟩ := hw.of_pi
  obtain ⟨A₂, B₂, heq, hA₂, hB₂⟩ := hw'.of_pi
  obtain ⟨rfl, rfl⟩ := Term.pi.inj heq
  exact ⟨(equalIn_of_join hF hA hA' ⟨_, hA₁, hA₂⟩).mono hFG,
    (equalIn_of_join hF hB hB' ⟨_, hB₁, hB₂⟩).mono hFG⟩

end Term

end StagedTT
