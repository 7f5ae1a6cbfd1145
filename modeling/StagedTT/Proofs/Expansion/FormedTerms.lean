import StagedTT.Proofs.Expansion.Relation
import StagedTT.Proofs.Surface.LoweredTerms

/-!
# Expanding formed terms

Formed terms stay formed under substitution (`Term.Formed.instantiate`), reduction
(`Term.Steps.formed`) and expansion (`Environment.Expands.formed`), also below binders: what is put
into a scope brings no variable that the scope does not bind, and a call stays a call of the name it
was written with. If every metalevel name has a value, then all calls in a formed term can be run,
and its expansion fails for want of fuel only (`Environment.expand_formed`).
-/

namespace StagedTT

open Term
open Metered (settles_pure settles_burn settles_fix_on)

namespace Term

variable {names : String → Option Phase} {d : Nat} {t : Term}

/-- A formed term is formed over more names and under more binders. -/
theorem Formed.mono (h : t.Formed names d) {names' : String → Option Phase}
    (hnames : ∀ n p, names n = some p → names' n = some p) {e : Nat} (hd : d ≤ e) :
    t.Formed names' e := by
  induction h generalizing e with
  | sort hl => exact .sort hl
  | const hn => exact .const (hnames _ _ hn)
  | num v => exact .num v
  | str s => exact .str s
  | var hi => exact .var (by omega)
  | pi _ _ ihA ihB => exact .pi (ihA hd) (ihB (by omega))
  | lam _ _ ihA ihb => exact .lam (ihA hd) (ihb (by omega))
  | app _ _ ihf iha => exact .app (ihf hd) (iha hd)
  | quote _ ih => exact .quote (ih hd)
  | splice _ ih => exact .splice (ih hd)
  | call hn _ ih => exact .call (hnames _ _ hn) fun a ha => ih a ha hd

/-! ## Substitution -/

/-- A traversal forms terms if what it puts for each bound variable is formed where it is put. -/
theorem Formed.mapVars (h : t.Formed names d) {f : Nat → Nat → Term} {c e : Nat}
    (hf : ∀ k i, i < d + k → (f (c + k) i).Formed names (e + k)) :
    (t.mapVars f c).Formed names e := by
  induction h generalizing c e with
  | sort hl => exact .sort hl
  | const hn => exact .const hn
  | num v => exact .num v
  | str s => exact .str s
  | @var d i hi => exact hf 0 i hi
  | @pi d A B _ _ ihA ihB =>
    refine .pi (ihA hf) (ihB fun k i hi => ?_)
    have h := hf (k + 1) i (by omega)
    rwa [← Nat.add_assoc, ← Nat.add_assoc, Nat.add_right_comm c, Nat.add_right_comm e] at h
  | @lam d A b _ _ ihA ihb =>
    refine .lam (ihA hf) (ihb fun k i hi => ?_)
    have h := hf (k + 1) i (by omega)
    rwa [← Nat.add_assoc, ← Nat.add_assoc, Nat.add_right_comm c, Nat.add_right_comm e] at h
  | app _ _ ihf iha => exact .app (ihf hf) (iha hf)
  | quote _ ih => exact .quote (ih hf)
  | splice _ ih => exact .splice (ih hf)
  | call hn _ ih =>
    rw [mapVars_call]
    refine .call hn fun a ha => ?_
    obtain ⟨b, hb, rfl⟩ := List.mem_map.1 ha
    exact ih b hb hf

theorem Formed.shift (h : t.Formed names d) (a c : Nat) : (t.shift a c).Formed names (d + a) := by
  rw [shift_eq_mapVars]
  refine h.mapVars fun k i hi => .var ?_
  split <;> omega

theorem Formed.substAll (h : t.Formed names d) {σ : Nat → Term} {e : Nat}
    (hσ : ∀ i < d, (σ i).Formed names e) : (t.substAll σ).Formed names e := by
  refine h.mapVars fun k i hi => ?_
  rw [Nat.zero_add]
  by_cases hlt : i < k
  · rw [if_pos hlt]
    exact .var (by omega)
  · rw [if_neg hlt]
    exact (hσ (i - k) (by omega)).shift k 0

theorem Formed.instantiate {b a : Term} (hb : b.Formed names (d + 1)) (ha : a.Formed names d) :
    (b.instantiate a).Formed names d := by
  rw [instantiate_eq_substAll]
  refine hb.substAll fun i hi => ?_
  cases i with
  | zero => exact ha
  | succ i => exact .var (by omega)

theorem Formed.unquote (h : t.Formed names d) : t.unquote.Formed names d := by
  cases h with
  | quote hb => exact hb
  | sort | const | num | str | var | pi | lam | app | splice | call => constructor <;> assumption

end Term

/-! ## Reduction -/

/-- Values are closed formed terms, and every metalevel name has one. -/
structure Signature.Formed (sig : Signature) : Prop where
  value : ∀ n v, sig.value? n = some v → v.Formed sig.phase? 0
  metalevel : ∀ n, sig.phase? n = some .metalevel → ∃ v, sig.value? n = some v

namespace Signature.Formed

variable {sig : Signature} (hsig : sig.Formed)

include hsig

theorem value_under {n : String} {v : Term} (hv : sig.value? n = some v) (d : Nat) :
    v.Formed sig.phase? d :=
  (hsig.value n v hv).mono (fun _ _ h => h) (Nat.zero_le d)

/-- Every metalevel name can be called. -/
theorem callable? {n : String} (hn : sig.phase? n = some .metalevel) :
    ∃ v, sig.callable? (.const n) = some v := by
  obtain ⟨v, hv⟩ := hsig.metalevel n hn
  obtain ⟨decl, hfind, hphase⟩ := Option.map_eq_some_iff.1 hn
  obtain ⟨decl', hfind', hvalue⟩ := Option.bind_eq_some_iff.1 hv
  obtain rfl : decl = decl' := Option.some.inj (hfind.symm.trans hfind')
  refine ⟨v, Signature.callable?_eq_some.2 ⟨n, decl.type, rfl, ?_⟩⟩
  rw [hfind, ← hphase, ← hvalue]

end Signature.Formed

namespace Term

variable {sig : Signature} (hsig : sig.Formed) {d : Nat} {t u : Term}

include hsig

theorem Step.formed (h : Step sig t u) (ht : t.Formed sig.phase? d) : u.Formed sig.phase? d := by
  induction h generalizing d with
  | beta A b a =>
    obtain ⟨hf, ha⟩ := ht.of_app
    cases hf with
    | lam _ hb => exact hb.instantiate ha
  | delta hv => exact hsig.value_under hv d
  | piDomain B _ ih =>
    cases ht with
    | pi hA hB => exact .pi (ih hA) hB
  | piBody A _ ih =>
    cases ht with
    | pi hA hB => exact .pi hA (ih hB)
  | lamDomain b _ ih =>
    cases ht with
    | lam hA hb => exact .lam (ih hA) hb
  | lamBody A _ ih =>
    cases ht with
    | lam hA hb => exact .lam hA (ih hb)
  | appFn a _ ih => exact .app (ih ht.of_app.1) ht.of_app.2
  | appArg f _ ih => exact .app ht.of_app.1 (ih ht.of_app.2)
  | quote _ ih =>
    cases ht with
    | quote hb => exact .quote (ih hb)
  | splice _ ih =>
    cases ht with
    | splice hb => exact .splice (ih hb)
  | callArg h as bs _ ih =>
    cases ht with
    | call hn hargs =>
      simp only [List.forall_mem_append, List.forall_mem_cons] at hargs
      obtain ⟨has, ha, hbs⟩ := hargs
      refine .call hn ?_
      simp only [List.forall_mem_append, List.forall_mem_cons]
      exact ⟨has, ih ha, hbs⟩

/-- **Reduction keeps terms formed.** -/
theorem Steps.formed (h : Steps sig t u) (ht : t.Formed sig.phase? d) : u.Formed sig.phase? d := by
  induction h with
  | refl => exact ht
  | tail _ hstep ih => exact hstep.formed hsig ih

end Term

/-! ## Expansion -/

namespace Environment

variable {env : Environment} (hsig : env.signature.Formed)

include hsig

/-- What is left of a normal form of a formed term, less one quotation, is formed. -/
theorem runCall_formed {d : Nat} {value : Term} {args : List Term}
    (hvalue : value.Formed env.signature.phase? d)
    (hargs : ∀ arg ∈ args, arg.Formed env.signature.phase? d) :
    Settles (env.runCall value args) (fun result => result.Formed env.signature.phase? d)
      IsOutOfFuel := by
  have hcall : (value.applyAll args).Formed env.signature.phase? d :=
    Formed.applyAll.2 ⟨hvalue, hargs⟩
  unfold runCall
  rcases (env.normalize_settles (value.applyAll args)).exists_ok_or_error with
    ⟨n, hok, hn⟩ | ⟨_, herror, steps, rfl⟩
  · rw [hok]
    exact (Steps.formed hsig hn.steps hcall).unquote
  · rw [herror]
    exact ⟨steps, rfl⟩

/-- **Expansion keeps terms formed.** -/
theorem Expands.formed {t t' : Term} {k d : Nat} (h : env.Expands t k t')
    (ht : t.Formed env.signature.phase? d) : t'.Formed env.signature.phase? d := by
  induction h generalizing d with
  | sort | const | num | str | var | quote => exact ht
  | pi _ _ ihA ihB =>
    cases ht with
    | pi hA hB => exact .pi (ihA hA) (ihB hB)
  | lam _ _ ihA ihb =>
    cases ht with
    | lam hA hb => exact .lam (ihA hA) (ihb hb)
  | app _ _ ihf iha => exact .app (ihf ht.of_app.1) (iha ht.of_app.2)
  | splice _ ih =>
    cases ht with
    | splice hb => exact (ih hb).unquote
  | call hvalue hrun _ ih =>
    cases ht with
    | call hn hargs =>
      have hv := hsig.value_under (Signature.value?_of_callable? hvalue) d
      exact ih ((runCall_formed hsig hv hargs).of_ok hrun)

/-- A formed term has no call that cannot be run. -/
theorem expandBody_fails {again : Term → Metered Fault Term}
    (hagain : ∀ t, (∃ d, t.Formed env.signature.phase? d) →
      Metered.Settles (again t) (fun _ => True) IsOutOfFuel)
    {t : Term} {d : Nat} (ht : t.Formed env.signature.phase? d) :
    Metered.Settles (env.expandBody again t) (fun _ => True) IsOutOfFuel := by
  induction ht with
  | sort | const | num | str | var | quote => exact settles_pure trivial
  | pi _ _ ihA ihB | lam _ _ ihA ihB =>
    exact ihA.bind fun _ _ => ihB.bind fun _ _ => settles_pure trivial
  | app _ _ ihf iha => exact ihf.bind fun _ _ => iha.bind fun _ _ => settles_pure trivial
  | splice _ ih => exact ih.bind fun _ _ => settles_pure trivial
  | @call d n args hn hargs _ =>
    obtain ⟨value, hvalue⟩ := hsig.callable? hn
    have hv := hsig.value_under (Signature.value?_of_callable? hvalue) d
    unfold expandBody
    rw [hvalue]
    refine (settles_burn fun steps => ⟨steps, rfl⟩).bind fun _ _ => ?_
    refine (Metered.settles_ofExcept (runCall_formed hsig hv hargs)).bind fun result hresult => ?_
    exact hagain result ⟨d, hresult⟩

/-- **The expansion of a formed term is formed, and fails for want of fuel only.** -/
theorem expand_formed {t : Term} {d : Nat} (ht : t.Formed env.signature.phase? d) :
    Settles (env.expand t) (fun t' => t'.Formed env.signature.phase? d) IsOutOfFuel := by
  have hfails : Metered.Settles (env.expandMetered t) (fun _ => True) IsOutOfFuel :=
    settles_fix_on (I := fun t => ∃ d, t.Formed env.signature.phase? d) (R := fun _ _ => True)
      (fun steps => ⟨steps, rfl⟩) (fun _ hagain _ ⟨_, ht⟩ => expandBody_fails hsig hagain ht)
      ⟨d, ht⟩
  have hexpands := env.expandMetered_settles t (.ofBudget env.limits.expansions)
  rcases (hfails (.ofBudget env.limits.expansions)).exists_ok_or_error with
    ⟨t', hok, -⟩ | ⟨e, herror, he⟩
  · obtain ⟨k, hk⟩ := hexpands.of_ok hok
    rw [expand, Metered.runFresh, hok]
    exact hk.formed hsig ht
  · rw [expand, Metered.runFresh, herror]
    exact he

end Environment

end StagedTT
