import StagedTT.Proofs.Reduction.Equality

/-!
# Equality through arbitrary terms

Two terms are linked if steps of reduction lead from one to the other, forward and backward, through
any terms at all. Confluence fails there: substitution may change what is called, while reduction
does not. Forgetting what is called leads from linked terms to equal ones (`Linked.forgetHeads`), so
terms in which nothing is called are linked only if they are equal without such a detour
(`linked_iff_equalIn`), and linked terms are formed alike (`Linked.former_eq`).
-/

namespace StagedTT

open Relation (EqvGen)

namespace Term

/-- Equality by reduction through any terms. -/
def Linked (sig : Signature) : Term → Term → Prop := EqvGen (Step sig)

/-! ## Forgetting what is called -/

mutual

/-- Makes one name of all that is called. -/
def forgetHeads : Term → Term
  | .sort l => .sort l
  | .const n => .const n
  | .num v => .num v
  | .str s => .str s
  | .var i => .var i
  | .pi A B => .pi (forgetHeads A) (forgetHeads B)
  | .lam A b => .lam (forgetHeads A) (forgetHeads b)
  | .app f a => .app (forgetHeads f) (forgetHeads a)
  | .quote b => .quote (forgetHeads b)
  | .splice b => .splice (forgetHeads b)
  | .call _ as => .call (.const "") (forgetHeadsArgs as)

/-- Makes one name of all that is called in arguments. -/
def forgetHeadsArgs : List Term → List Term
  | [] => []
  | a :: as => forgetHeads a :: forgetHeadsArgs as

end

theorem forgetHeadsArgs_eq_map (as : List Term) : forgetHeadsArgs as = as.map forgetHeads := by
  induction as with
  | nil => rfl
  | cons a as ih => exact congrArg (forgetHeads a :: ·) ih

theorem forgetHeads_call (h : Term) (as : List Term) :
    (call h as).forgetHeads = call (.const "") (as.map forgetHeads) := by
  rw [forgetHeads, forgetHeadsArgs_eq_map]

theorem forgetHeads_mapVars (f : Nat → Nat → Term) (c : Nat) (t : Term) :
    (t.mapVars f c).forgetHeads =
      t.forgetHeads.mapVars (fun depth i => (f depth i).forgetHeads) c := by
  induction t generalizing c with
  | sort | const | num | str | var => rfl
  | pi A B ihA ihB | lam A B ihA ihB =>
    simp only [mapVars_pi, mapVars_lam, forgetHeads, ihA, ihB]
  | app g a ihg iha => simp only [mapVars_app, forgetHeads, ihg, iha]
  | quote b ih | splice b ih => simp only [mapVars_quote, mapVars_splice, forgetHeads, ih]
  | call h as _ ihas =>
    rw [mapVars_call, forgetHeads_call, forgetHeads_call, mapVars_call, List.map_map, List.map_map]
    exact congrArg (call (.const "")) (List.map_congr_left fun a ha => ihas a ha c)

theorem forgetHeads_shift (t : Term) (d c : Nat) :
    (t.shift d c).forgetHeads = t.forgetHeads.shift d c := by
  rw [shift_eq_mapVars, shift_eq_mapVars, forgetHeads_mapVars]
  rfl

theorem forgetHeads_substAll (t : Term) (σ : Nat → Term) :
    (t.substAll σ).forgetHeads = t.forgetHeads.substAll fun i => (σ i).forgetHeads := by
  rw [substAll, substAll, forgetHeads_mapVars]
  refine mapVars_congr fun depth _ i => ?_
  split
  · rfl
  · exact forgetHeads_shift _ _ _

theorem forgetHeads_instantiate (b a : Term) :
    (b.instantiate a).forgetHeads = b.forgetHeads.instantiate a.forgetHeads := by
  rw [instantiate_eq_substAll, instantiate_eq_substAll, forgetHeads_substAll]
  congr 1
  funext i
  cases i <;> rfl

theorem forgetHeads_within (t : Term) : t.forgetHeads.Within .namedCalls := by
  induction t with
  | sort l => exact .sort trivial
  | const n => exact .const trivial
  | num v => exact .num v
  | str s => exact .str s
  | var i => exact .var i
  | pi A B ihA ihB => exact .pi ihA ihB
  | lam A b ihA ihb => exact .lam ihA ihb
  | app f a ihf iha => exact .app ihf iha
  | quote b ih => exact .quote trivial ih
  | splice b ih => exact .splice trivial ih
  | call h as _ ihas =>
    rw [forgetHeads_call]
    refine .call trivial trivial fun a ha => ?_
    obtain ⟨b, hb, rfl⟩ := List.mem_map.1 ha
    exact ihas b hb

/-- There is nothing to forget in a term without calls. -/
theorem forgetHeads_eq_self {F : Fragment} (hF : ¬ F.staged) {t : Term} (ht : t.Within F) :
    t.forgetHeads = t := by
  induction ht with
  | sort | const | num | str | var => rfl
  | pi _ _ ihA ihB | lam _ _ ihA ihB => rw [forgetHeads, ihA, ihB]
  | app _ _ ihf iha => rw [forgetHeads, ihf, iha]
  | quote hs | splice hs | call hs => exact absurd hs hF

theorem Free.of_forgetHeads {t : Term} {i : Nat} (h : t.forgetHeads.Free i) : t.Free i := by
  induction t generalizing i with
  | sort | const | num | str | var => exact h
  | pi A B ihA ihB =>
    cases h with
    | piDomain h => exact .piDomain (ihA h)
    | piBody h => exact .piBody (ihB h)
  | lam A b ihA ihb =>
    cases h with
    | lamDomain h => exact .lamDomain (ihA h)
    | lamBody h => exact .lamBody (ihb h)
  | app f a ihf iha =>
    cases h with
    | appFn h => exact .appFn (ihf h)
    | appArg h => exact .appArg (iha h)
  | quote b ih =>
    cases h with
    | quote h => exact .quote (ih h)
  | splice b ih =>
    cases h with
    | splice h => exact .splice (ih h)
  | call k as _ ihas =>
    rw [forgetHeads_call] at h
    cases h with
    | callHead h => cases h
    | callArg hmem h =>
      obtain ⟨b, hb, rfl⟩ := List.mem_map.1 hmem
      exact .callArg hb (ihas b hb h)

end Term

/-! ## Forgetting what values call -/

/-- The signature whose values are without what they call. -/
def Signature.forgetHeads (sig : Signature) : Signature :=
  { sig with
    table := sig.table.map fun (n, decl) =>
      (n, { decl with value? := decl.value?.map Term.forgetHeads }) }

theorem Signature.value?_forgetHeads (sig : Signature) (n : String) :
    sig.forgetHeads.value? n = (sig.value? n).map Term.forgetHeads := by
  unfold value? find? forgetHeads
  induction sig.table with
  | nil => rfl
  | cons entry entries ih =>
    obtain ⟨declared, decl⟩ := entry
    by_cases h : n = declared
    · simp [h]
    · simp only [List.map_cons, List.lookup_cons, beq_eq_false_iff_ne.2 h]
      exact ih

theorem Signature.ValuesClosed.forgetHeads {sig : Signature} (hsig : sig.ValuesClosed) :
    sig.forgetHeads.Orderly where
  closed n v hv i hi := by
    rw [Signature.value?_forgetHeads] at hv
    obtain ⟨w, hw, rfl⟩ := Option.map_eq_some_iff.1 hv
    exact hsig n w hw i hi.of_forgetHeads
  named n v _ hv := by
    rw [Signature.value?_forgetHeads] at hv
    obtain ⟨w, -, rfl⟩ := Option.map_eq_some_iff.1 hv
    exact w.forgetHeads_within

namespace Term

variable {sig : Signature} {F : Fragment} {t u : Term}

theorem Step.forgetHeads (h : Step sig t u) :
    Step sig.forgetHeads t.forgetHeads u.forgetHeads := by
  induction h with
  | beta A b a =>
    rw [forgetHeads_instantiate]
    exact .beta _ _ _
  | delta hv => exact .delta (by rw [Signature.value?_forgetHeads, hv]; rfl)
  | piDomain B _ ih => exact .piDomain _ ih
  | piBody A _ ih => exact .piBody _ ih
  | lamDomain b _ ih => exact .lamDomain _ ih
  | lamBody A _ ih => exact .lamBody _ ih
  | appFn a _ ih => exact .appFn _ ih
  | appArg f _ ih => exact .appArg _ ih
  | quote _ ih => exact .quote ih
  | splice _ ih => exact .splice ih
  | callArg h as bs _ ih =>
    simp only [forgetHeads_call, List.map_append, List.map_cons]
    exact .callArg _ _ _ ih

theorem EqualIn.linked (h : EqualIn sig F t u) : Linked sig t u :=
  EqvGen.mono (fun _ _ ⟨_, _, hstep⟩ => hstep) _ _ h

/-- Without what they call, linked terms are equal. -/
theorem Linked.forgetHeads (h : Linked sig t u) :
    EqualIn sig.forgetHeads .namedCalls t.forgetHeads u.forgetHeads := by
  induction h with
  | rel t u h => exact EqvGen.rel _ _ ⟨t.forgetHeads_within, u.forgetHeads_within, h.forgetHeads⟩
  | refl t => exact .refl _
  | symm t u _ ih => exact ih.symm
  | trans t u v _ _ ih ih' => exact ih.trans ih'

/-- Where nothing is called, the values that reduction unfolds are those of the signature. -/
theorem Steps.of_forgetHeads (hF : ¬ F.staged) (hkeeps : sig.Keeps F) (ht : t.Within F)
    (h : Steps sig.forgetHeads t u) : Steps sig t u := by
  induction h with
  | refl => exact .refl
  | tail _ hstep ih =>
    refine ih.tail (hstep.transfer (fun n v hn hv => ?_) (Steps.within hkeeps ih ht))
    rw [Signature.value?_forgetHeads] at hv
    obtain ⟨w, hw, rfl⟩ := Option.map_eq_some_iff.1 hv
    rwa [forgetHeads_eq_self hF (hkeeps n w hn hw)]

/-- **Terms without calls are equal exactly if they are linked.** -/
theorem linked_iff_equalIn (hsig : sig.ValuesClosed) (hF : ¬ F.staged) (hkeeps : sig.Keeps F)
    (ht : t.Within F) (hu : u.Within F) : Linked sig t u ↔ EqualIn sig F t u := by
  constructor
  · intro h
    have heq := h.forgetHeads
    rw [forgetHeads_eq_self hF ht, forgetHeads_eq_self hF hu] at heq
    obtain ⟨w, htw, huw⟩ := heq.join hsig.forgetHeads ht.named
    have htw' : Steps sig t w := Steps.of_forgetHeads hF hkeeps ht htw
    have huw' : Steps sig u w := Steps.of_forgetHeads hF hkeeps hu huw
    exact equalIn_of_join hkeeps ht hu ⟨w, htw', huw'⟩
  · exact EqualIn.linked

/-- Forgetting what is called leaves what a term is formed by. -/
theorem former?_forgetHeads (t : Term) : t.forgetHeads.former? sig.forgetHeads = t.former? sig := by
  cases t with
  | const n => simp only [Term.forgetHeads, former?, Signature.value?_forgetHeads,
      Option.map_eq_none_iff]
  | _ => rfl

/-- Linked terms are formed alike. -/
theorem Linked.former_eq (hsig : sig.ValuesClosed) (h : Linked sig t u) {j k : Former}
    (ht : t.former? sig = some j) (hu : u.former? sig = some k) : j = k := by
  rw [← former?_forgetHeads] at ht hu
  exact h.forgetHeads.former_eq hsig.forgetHeads t.forgetHeads_within ht hu

end Term

end StagedTT
