import StagedTT.Proofs.Reduction.Step

/-!
# Confluence

`Par` contracts any set of the redexes of a term at once, `develop` all of them. Every parallel
reduct develops further into the full development (`Par.develop`), so parallel reduction has the
diamond property, and reduction is confluent (`church_rosser`).

A head of a suspended call is never reduced, but a substitution may change it. Confluence therefore
needs that suspended calls are calls of names, and `Par` relates such terms only.
-/

namespace StagedTT

open Relation (ReflTransGen Join)

namespace Signature

/-- Values are closed, and what they call are names. -/
structure Orderly (sig : Signature) : Prop where
  closed : sig.ValuesClosed
  named : sig.Keeps .namedCalls

theorem orderly_empty : Signature.empty.Orderly where
  closed _ _ hv := by cases hv
  named _ _ _ hv := by cases hv

theorem value?_insert? {sig sig' : Signature} {name : String} {decl : Declaration}
    (h : sig.insert? name decl = some sig') {n : String} {v : Term} (hv : sig'.value? n = some v) :
    decl.value? = some v ∨ sig.value? n = some v := by
  unfold value? at hv
  rw [find?_insert? h] at hv
  split at hv
  · exact .inl hv
  · exact .inr hv

theorem Orderly.insert? {sig sig' : Signature} (hsig : sig.Orderly) {name : String}
    {decl : Declaration} (h : sig.insert? name decl = some sig')
    (hdecl : ∀ v, decl.value? = some v → v.Closed ∧ v.Within .namedCalls) : sig'.Orderly where
  closed n v hv := (value?_insert? h hv).elim (fun hv => (hdecl v hv).1) (hsig.closed n v)
  named n v hn hv := (value?_insert? h hv).elim (fun hv => (hdecl v hv).2) (hsig.named n v hn)

end Signature

namespace Term

/-- Parallel reduction. -/
inductive Par (sig : Signature) : Term → Term → Prop
  | sort (l : Nat) : Par sig (.sort l) (.sort l)
  | const (n : String) : Par sig (.const n) (.const n)
  | delta {n : String} {v : Term} : sig.value? n = some v → Par sig (.const n) v
  | num (v : Int64) : Par sig (.num v) (.num v)
  | str (s : String) : Par sig (.str s) (.str s)
  | var (i : Nat) : Par sig (.var i) (.var i)
  | pi {A A' B B' : Term} : Par sig A A' → Par sig B B' → Par sig (.pi A B) (.pi A' B')
  | lam {A A' b b' : Term} : Par sig A A' → Par sig b b' → Par sig (.lam A b) (.lam A' b')
  | app {f f' a a' : Term} : Par sig f f' → Par sig a a' → Par sig (.app f a) (.app f' a')
  | beta (A : Term) {b b' a a' : Term} : Par sig b b' → Par sig a a' →
      Par sig (.app (.lam A b) a) (b'.instantiate a')
  | quote {b b' : Term} : Par sig b b' → Par sig (.quote b) (.quote b')
  | splice {b b' : Term} : Par sig b b' → Par sig (.splice b) (.splice b')
  | call (n : String) {as bs : List Term} : as.length = bs.length →
      (∀ i (ha : i < as.length) (hb : i < bs.length), Par sig as[i] bs[i]) →
      Par sig (.call (.const n) as) (.call (.const n) bs)

variable {sig : Signature}

theorem Par.refl {t : Term} (h : t.Within .namedCalls) : Par sig t t := by
  induction h with
  | sort => exact .sort _
  | const => exact .const _
  | num v => exact .num v
  | str s => exact .str s
  | var i => exact .var i
  | pi _ _ ihA ihB => exact .pi ihA ihB
  | lam _ _ ihA ihb => exact .lam ihA ihb
  | app _ _ ihf iha => exact .app ihf iha
  | quote _ _ ih => exact .quote ih
  | splice _ _ ih => exact .splice ih
  | call _ _ _ ih => exact .call _ rfl fun i ha _ => ih _ (List.getElem_mem ha)

theorem Step.par {t u : Term} (h : Step sig t u) (ht : t.Within .namedCalls) : Par sig t u := by
  induction h with
  | beta A b a =>
    obtain ⟨hf, ha⟩ := ht.of_app
    exact .beta A (.refl hf.of_lam.2) (.refl ha)
  | delta h => exact .delta h
  | piDomain B _ ih => exact .pi (ih ht.of_pi.1) (.refl ht.of_pi.2)
  | piBody A _ ih => exact .pi (.refl ht.of_pi.1) (ih ht.of_pi.2)
  | lamDomain b _ ih => exact .lam (ih ht.of_lam.1) (.refl ht.of_lam.2)
  | lamBody A _ ih => exact .lam (.refl ht.of_lam.1) (ih ht.of_lam.2)
  | appFn a _ ih => exact .app (ih ht.of_app.1) (.refl ht.of_app.2)
  | appArg f _ ih => exact .app (.refl ht.of_app.1) (ih ht.of_app.2)
  | quote _ ih => exact .quote (ih ht.of_quote)
  | splice _ ih => exact .splice (ih ht.of_splice)
  | @callArg h as a a' bs _ ih =>
    obtain ⟨n, rfl, -, -, hargs⟩ := ht.of_call
    refine .call n (by simp) fun i ha hb => ?_
    rcases getElem_replaced as a a' bs ha hb with ⟨hold, hnew⟩ | hsame
    · rw [hold, hnew]
      exact ih (hargs a (by simp))
    · rw [hsame]
      exact .refl (hargs _ (List.getElem_mem ha))

theorem Par.steps {t u : Term} (h : Par sig t u) : Steps sig t u := by
  induction h with
  | sort | const | num | str | var => exact .refl
  | delta h => exact .single (.delta h)
  | pi _ _ ihA ihB => exact ihA.pi ihB
  | lam _ _ ihA ihb => exact ihA.lam ihb
  | app _ _ ihf iha => exact Steps.app ihf iha
  | beta A _ _ ihb iha => exact ((Steps.lam .refl ihb).app iha).tail (.beta A _ _)
  | quote _ ih => exact ih.quote
  | splice _ ih => exact ih.splice
  | call n hlen _ ih => exact Steps.call _ (List.forall₂_iff_get.2 ⟨hlen, ih⟩)

/-! ## Substitution -/

theorem Par.substAll (hsig : sig.ValuesClosed) {t u : Term} (h : Par sig t u)
    {σ τ : Nat → Term} (hστ : ∀ (d : Nat) i, Par sig ((σ i).shift d 0) ((τ i).shift d 0)) :
    Par sig (t.substAll σ) (u.substAll τ) := by
  induction h generalizing σ τ with
  | sort l => exact .sort l
  | const n => exact .const n
  | delta h =>
    rw [(hsig _ _ h).substAll_eq]
    exact .delta h
  | num v => exact .num v
  | str s => exact .str s
  | var i =>
    have h0 := hστ 0 i
    rwa [shift_zero, shift_zero, ← substAll_var σ, ← substAll_var τ] at h0
  | pi _ _ ihA ihB =>
    rw [substAll_pi, substAll_pi]
    exact .pi (ihA hστ) (ihB (lift_related .var hστ))
  | lam _ _ ihA ihb =>
    rw [substAll_lam, substAll_lam]
    exact .lam (ihA hστ) (ihb (lift_related .var hστ))
  | app _ _ ihf iha => exact .app (ihf hστ) (iha hστ)
  | beta A _ _ ihb iha =>
    rw [instantiate_substAll, substAll_app, substAll_lam]
    exact .beta _ (ihb (lift_related .var hστ)) (iha hστ)
  | quote _ ih => exact .quote (ih hστ)
  | splice _ ih => exact .splice (ih hστ)
  | call n hlen _ ih =>
    rw [substAll_call, substAll_call]
    refine .call n (by simpa using hlen) fun i ha hb => ?_
    rw [List.getElem_map, List.getElem_map]
    exact ih i _ _ hστ

theorem Par.shift (hsig : sig.ValuesClosed) {t u : Term} (h : Par sig t u) (d : Nat) :
    Par sig (t.shift d 0) (u.shift d 0) := by
  rw [shift_eq_substAll, shift_eq_substAll]
  refine h.substAll hsig fun d i => ?_
  rw [shift_var]
  exact .var _

theorem Par.instantiate (hsig : sig.ValuesClosed) {b b' a a' : Term} (hb : Par sig b b')
    (ha : Par sig a a') : Par sig (b.instantiate a) (b'.instantiate a') := by
  rw [instantiate_eq_substAll, instantiate_eq_substAll]
  refine hb.substAll hsig fun d i => ?_
  cases i with
  | zero => exact ha.shift hsig d
  | succ i =>
    rw [point_succ, point_succ, shift_var]
    exact .var _

/-! ## Full developments -/

mutual

/-- Contracts all redexes of a term at once. -/
def develop (sig : Signature) : Term → Term
  | .sort l => .sort l
  | .const n => (sig.value? n).getD (.const n)
  | .num v => .num v
  | .str s => .str s
  | .var i => .var i
  | .pi A B => .pi (develop sig A) (develop sig B)
  | .lam A b => .lam (develop sig A) (develop sig b)
  | .app (.lam _ b) a => (develop sig b).instantiate (develop sig a)
  | .app f a => .app (develop sig f) (develop sig a)
  | .quote b => .quote (develop sig b)
  | .splice b => .splice (develop sig b)
  | .call h as => .call h (developArgs sig as)

/-- Contracts all redexes of arguments at once. -/
def developArgs (sig : Signature) : List Term → List Term
  | [] => []
  | a :: as => develop sig a :: developArgs sig as

end

theorem developArgs_eq_map (as : List Term) : developArgs sig as = as.map (develop sig) := by
  induction as with
  | nil => rfl
  | cons a as ih => exact congrArg (develop sig a :: ·) ih

/-- A parallel reduct of a term develops into the full development of the term. -/
theorem Par.develop (hsig : sig.Orderly) {t u : Term} (h : Par sig t u) :
    Par sig u (t.develop sig) := by
  induction h with
  | sort l => exact .sort l
  | const n =>
    change Par sig _ ((sig.value? n).getD (.const n))
    cases hv : sig.value? n with
    | none => exact .const n
    | some v => exact .delta hv
  | @delta n v h =>
    change Par sig _ ((sig.value? n).getD (.const n))
    rw [h]
    exact .refl (hsig.named n v trivial h)
  | num v => exact .num v
  | str s => exact .str s
  | var i => exact .var i
  | pi _ _ ihA ihB => exact .pi ihA ihB
  | lam _ _ ihA ihb => exact .lam ihA ihb
  | @app f f' a a' hf _ ihf iha =>
    cases f with
    | lam A b =>
      cases hf with
      | lam hA hb =>
        cases ihf with
        | lam _ ihb => exact .beta _ ihb iha
    | _ => exact .app ihf iha
  | beta A _ _ ihb iha => exact ihb.instantiate hsig.closed iha
  | quote _ ih => exact .quote ih
  | splice _ ih => exact .splice ih
  | call n hlen _ ih =>
    change Par sig _ (.call (.const n) (developArgs sig _))
    rw [developArgs_eq_map]
    refine .call n (by simpa using hlen.symm) fun i hb ha => ?_
    rw [List.getElem_map]
    exact ih i _ hb

theorem Par.diamond (hsig : sig.Orderly) {t u v : Term} (hu : Par sig t u) (hv : Par sig t v) :
    Join (Par sig) u v :=
  ⟨t.develop sig, hu.develop hsig, hv.develop hsig⟩

/-! ## Reduction -/

theorem Steps.pars (hsig : sig.Keeps .namedCalls) {t u : Term} (h : Steps sig t u)
    (ht : t.Within .namedCalls) : ReflTransGen (Par sig) t u := by
  induction h with
  | refl => exact .refl
  | tail hsteps hstep ih => exact ih.tail (hstep.par (Steps.within hsig hsteps ht))

theorem steps_of_pars {t u : Term} (h : ReflTransGen (Par sig) t u) : Steps sig t u := by
  induction h with
  | refl => exact .refl
  | tail _ hpar ih => exact ih.trans hpar.steps

/-- **Reduction is confluent** on the terms in which suspended calls are calls of names. -/
theorem church_rosser (hsig : sig.Orderly) {t u v : Term} (ht : t.Within .namedCalls)
    (hu : Steps sig t u) (hv : Steps sig t v) : Join (Steps sig) u v := by
  have hdiamond : ∀ a b c, Par sig a b → Par sig a c →
      ∃ d, Relation.ReflGen (Par sig) b d ∧ ReflTransGen (Par sig) c d := fun _ _ _ hb hc =>
    let ⟨d, hbd, hcd⟩ := hb.diamond hsig hc
    ⟨d, .single hbd, .single hcd⟩
  obtain ⟨w, huw, hvw⟩ :=
    Relation.church_rosser hdiamond (hu.pars hsig.named ht) (hv.pars hsig.named ht)
  exact ⟨w, steps_of_pars huw, steps_of_pars hvw⟩

/-- Reducing an argument reduces the contracted function. -/
theorem Step.instantiate_arg (hsig : sig.ValuesClosed) {b a a' : Term}
    (hb : b.Within .namedCalls) (ha : a.Within .namedCalls) (h : Step sig a a') :
    Steps sig (b.instantiate a) (b.instantiate a') :=
  ((Par.refl hb).instantiate hsig (h.par ha)).steps

end Term

end StagedTT
