import StagedTT.Proofs.Costs
import StagedTT.Proofs.Reduction.Normalization
import StagedTT.Surface.Expansion

/-!
# Expansion as a relation

`env.Expands t k t'` says that `t` expands to `t'` and that this takes `k` calls, whatever the
supply of fuel is. A term has at most one expansion (`Environment.Expands.unique`). A supply that
lasts answers with it (`Environment.Expands.costs`), and no supply answers with anything else
(`Environment.expandMetered_settles`).

Expansion unfolds values and contracts functions, so it stays in every fragment that reduction stays
in (`Environment.Expands.within`).
-/

namespace StagedTT

open Term
open Metered (settles_pure settles_burn settles_fix costs_pure costs_burn)

/-- What expansion may fail for: a refusal of the kernel, or a call that cannot be run. -/
def Fault.IsOfExpansion : Fault → Prop
  | .kernel _ | .notExpandable _ => True
  | _ => False

/-- Only names of metalevel definitions are callable. -/
theorem Signature.callable?_eq_some {sig : Signature} {head value : Term} :
    sig.callable? head = some value ↔
      ∃ n type, head = .const n ∧ sig.find? n = some ⟨.metalevel, type, some value⟩ := by
  constructor
  · intro h
    unfold callable? at h
    split at h
    · next n =>
      split at h
      · next type value? hfind =>
        subst h
        exact ⟨n, type, rfl, hfind⟩
      · cases h
    · cases h
  · rintro ⟨n, type, rfl, hfind⟩
    simp only [callable?, hfind]

theorem Signature.value?_of_callable? {sig : Signature} {n : String} {value : Term}
    (h : sig.callable? (.const n) = some value) : sig.value? n = some value := by
  obtain ⟨m, type, hm, hfind⟩ := callable?_eq_some.1 h
  obtain rfl := Term.const.inj hm
  rw [value?, hfind]
  rfl

theorem Metered.settles_ofExcept {ε α : Type} {r : Except ε α} {P : α → Prop} {E : ε → Prop}
    (h : StagedTT.Settles r P E) : Metered.Settles (ofExcept r) P E := fun _ => h

theorem Term.Within.unquote {F : Fragment} {t : Term} (h : t.Within F) : t.unquote.Within F := by
  cases h with
  | quote _ hb => exact hb
  | call hs hn has => exact .call hs hn has
  | _ => constructor <;> assumption

namespace Environment

/-- What a call computes is a normal form, less one quotation. -/
theorem runCall_eq_ok {env : Environment} {value result : Term} {args : List Term}
    (h : env.runCall value args = .ok result) :
    ∃ n, NormalForm env.signature (value.applyAll args) n ∧ result = n.unquote := by
  unfold runCall at h
  split at h
  · next n hn =>
    obtain rfl := Except.ok.inj h
    exact ⟨n, (env.normalize_settles _).of_ok hn, rfl⟩
  · cases h

/-- The expansion of a term, and the number of calls that it takes. -/
inductive Expands (env : Environment) : Term → Nat → Term → Prop
  | sort (l : Nat) : Expands env (.sort l) 0 (.sort l)
  | const (n : String) : Expands env (.const n) 0 (.const n)
  | num (v : Int64) : Expands env (.num v) 0 (.num v)
  | str (s : String) : Expands env (.str s) 0 (.str s)
  | var (i : Nat) : Expands env (.var i) 0 (.var i)
  | pi {A A' B B' : Term} {j k : Nat} : Expands env A j A' → Expands env B k B' →
      Expands env (.pi A B) (j + k) (.pi A' B')
  | lam {A A' b b' : Term} {j k : Nat} : Expands env A j A' → Expands env b k b' →
      Expands env (.lam A b) (j + k) (.lam A' b')
  | app {f f' a a' : Term} {j k : Nat} : Expands env f j f' → Expands env a k a' →
      Expands env (.app f a) (j + k) (.app f' a')
  /-- Quoted code waits. -/
  | quote (b : Term) : Expands env (.quote b) 0 (.quote b)
  /-- A splice drops a quotation and does not look at what was quoted. -/
  | splice {b b' : Term} {k : Nat} : Expands env b k b' → Expands env (.splice b) k b'.unquote
  /-- What a call computes is expanded again. -/
  | call {head value result t : Term} {args : List Term} {k : Nat} :
      env.signature.callable? head = some value → env.runCall value args = .ok result →
      Expands env result k t → Expands env (.call head args) (k + 1) t

variable {env : Environment}

/-- A term has one expansion. -/
theorem Expands.unique {t u v : Term} {j k : Nat} (h : env.Expands t j u)
    (h' : env.Expands t k v) : j = k ∧ u = v := by
  induction h generalizing k v with
  | sort | const | num | str | var | quote =>
    cases h'
    exact ⟨rfl, rfl⟩
  | pi _ _ ihA ihB =>
    cases h' with
    | pi hA hB =>
      obtain ⟨rfl, rfl⟩ := ihA hA
      obtain ⟨rfl, rfl⟩ := ihB hB
      exact ⟨rfl, rfl⟩
  | lam _ _ ihA ihb =>
    cases h' with
    | lam hA hb =>
      obtain ⟨rfl, rfl⟩ := ihA hA
      obtain ⟨rfl, rfl⟩ := ihb hb
      exact ⟨rfl, rfl⟩
  | app _ _ ihf iha =>
    cases h' with
    | app hf ha =>
      obtain ⟨rfl, rfl⟩ := ihf hf
      obtain ⟨rfl, rfl⟩ := iha ha
      exact ⟨rfl, rfl⟩
  | splice _ ih =>
    cases h' with
    | splice hb =>
      obtain ⟨rfl, rfl⟩ := ih hb
      exact ⟨rfl, rfl⟩
  | call hvalue hrun _ ih =>
    cases h' with
    | call hvalue' hrun' ht =>
      obtain rfl := Option.some.inj (hvalue.symm.trans hvalue')
      obtain rfl := Except.ok.inj (hrun.symm.trans hrun')
      obtain ⟨rfl, rfl⟩ := ih ht
      exact ⟨rfl, rfl⟩

/-! ## What the answers are -/

theorem runCall_settles (env : Environment) (value : Term) (args : List Term) :
    Settles (env.runCall value args) (fun result => env.runCall value args = .ok result)
      Fault.IsOfExpansion := by
  cases hrun : env.runCall value args with
  | ok result => rfl
  | error fault =>
    unfold runCall at hrun
    split at hrun
    · cases hrun
    · obtain rfl := Except.error.inj hrun
      trivial

theorem expandBody_settles {again : Term → Metered Fault Term}
    (hagain : ∀ t, Metered.Settles (again t) (fun t' => ∃ k, env.Expands t k t')
      Fault.IsOfExpansion)
    (t : Term) :
    Metered.Settles (env.expandBody again t) (fun t' => ∃ k, env.Expands t k t')
      Fault.IsOfExpansion := by
  induction t with
  | sort l => exact settles_pure ⟨0, .sort l⟩
  | const n => exact settles_pure ⟨0, .const n⟩
  | num v => exact settles_pure ⟨0, .num v⟩
  | str s => exact settles_pure ⟨0, .str s⟩
  | var i => exact settles_pure ⟨0, .var i⟩
  | quote b => exact settles_pure ⟨0, .quote b⟩
  | pi A B ihA ihB =>
    exact ihA.bind fun A' ⟨_, hA⟩ => ihB.bind fun B' ⟨_, hB⟩ => settles_pure ⟨_, .pi hA hB⟩
  | lam A b ihA ihb =>
    exact ihA.bind fun A' ⟨_, hA⟩ => ihb.bind fun b' ⟨_, hb⟩ => settles_pure ⟨_, .lam hA hb⟩
  | app f a ihf iha =>
    exact ihf.bind fun f' ⟨_, hf⟩ => iha.bind fun a' ⟨_, ha⟩ => settles_pure ⟨_, .app hf ha⟩
  | splice b ih => exact ih.bind fun b' ⟨_, hb⟩ => settles_pure ⟨_, .splice hb⟩
  | call head args =>
    unfold expandBody
    split
    · exact fun _ => trivial
    · next value hvalue =>
      have hrun := Metered.settles_ofExcept (env.runCall_settles value args)
      refine (settles_burn fun _ => trivial).bind fun _ _ => hrun.bind fun result hresult fuel => ?_
      exact (hagain result fuel).mono fun t' ⟨k, ht⟩ => ⟨k + 1, .call hvalue hresult ht⟩

/-- **Whatever expansion answers with is the expansion of the term**, and it fails for a call
alone. -/
theorem expandMetered_settles (env : Environment) (t : Term) :
    Metered.Settles (env.expandMetered t) (fun t' => ∃ k, env.Expands t k t')
      Fault.IsOfExpansion :=
  settles_fix (fun _ => trivial) (fun _ h => expandBody_settles h) t

/-! ## What is answered -/

theorem expandMetered_pi (env : Environment) (A B : Term) :
    env.expandMetered (.pi A B) = (do
      let A ← env.expandMetered A
      let B ← env.expandMetered B
      return .pi A B) := by
  rw [expandMetered_eq env (.pi A B), expandBody, ← expandMetered_eq, ← expandMetered_eq]

theorem expandMetered_lam (env : Environment) (A b : Term) :
    env.expandMetered (.lam A b) = (do
      let A ← env.expandMetered A
      let b ← env.expandMetered b
      return .lam A b) := by
  rw [expandMetered_eq env (.lam A b), expandBody, ← expandMetered_eq, ← expandMetered_eq]

theorem expandMetered_app (env : Environment) (f a : Term) :
    env.expandMetered (.app f a) = (do
      let f ← env.expandMetered f
      let a ← env.expandMetered a
      return .app f a) := by
  rw [expandMetered_eq env (.app f a), expandBody, ← expandMetered_eq, ← expandMetered_eq]

theorem expandMetered_splice (env : Environment) (b : Term) :
    env.expandMetered (.splice b) = (do
      let b ← env.expandMetered b
      return b.unquote) := by
  rw [expandMetered_eq env (.splice b), expandBody, ← expandMetered_eq]

theorem expandMetered_call {head value result : Term} {args : List Term}
    (hvalue : env.signature.callable? head = some value)
    (hrun : env.runCall value args = .ok result) :
    env.expandMetered (.call head args) = (do
      Metered.burn
      env.expandMetered result) := by
  rw [expandMetered_eq, expandBody]
  simp only [hvalue, hrun]
  rfl

/-- **A supply of fuel that lasts answers with the expansion**, and each call costs a unit. -/
theorem Expands.costs {t t' : Term} {k : Nat} (h : env.Expands t k t') :
    (env.expandMetered t).Costs k t' := by
  induction h with
  | sort | const | num | str | var | quote =>
    rw [expandMetered_eq]
    exact costs_pure _
  | pi _ _ ihA ihB =>
    rw [expandMetered_pi]
    exact ihA.bind (ihB.bind_pure _)
  | lam _ _ ihA ihb =>
    rw [expandMetered_lam]
    exact ihA.bind (ihb.bind_pure _)
  | app _ _ ihf iha =>
    rw [expandMetered_app]
    exact ihf.bind (iha.bind_pure _)
  | splice _ ih =>
    rw [expandMetered_splice]
    exact ih.bind_pure _
  | @call _ _ _ _ _ k hvalue hrun _ ih =>
    rw [expandMetered_call hvalue hrun, Nat.add_comm k 1]
    exact costs_burn.bind ih

/-- A term expands to what some supply of fuel answers with. -/
theorem exists_expands_iff {t t' : Term} :
    (∃ k, env.Expands t k t') ↔ ∃ fuel, (env.expandMetered t fuel).1 = .ok t' := by
  constructor
  · rintro ⟨k, h⟩
    exact ⟨⟨0, 0 + k⟩, by rw [h.costs.paid]⟩
  · rintro ⟨fuel, h⟩
    exact (env.expandMetered_settles t fuel).of_ok h

/-! ## What expansions mention -/

/-- **Expansion stays in every fragment that reduction stays in.** -/
theorem Expands.within {F : Fragment} (hkeeps : env.signature.Keeps F) {t t' : Term} {k : Nat}
    (h : env.Expands t k t') (ht : t.Within F) : t'.Within F := by
  induction h with
  | sort | const | num | str | var | quote => exact ht
  | pi _ _ ihA ihB => exact .pi (ihA ht.of_pi.1) (ihB ht.of_pi.2)
  | lam _ _ ihA ihb => exact .lam (ihA ht.of_lam.1) (ihb ht.of_lam.2)
  | app _ _ ihf iha => exact .app (ihf ht.of_app.1) (iha ht.of_app.2)
  | splice _ ih => exact (ih ht.of_splice).unquote
  | call hvalue hrun _ ih =>
    obtain ⟨n, rfl, hn, -, hargs⟩ := ht.of_call
    have hv := hkeeps n _ hn (Signature.value?_of_callable? hvalue)
    obtain ⟨m, hm, rfl⟩ := runCall_eq_ok hrun
    exact ih (Steps.within hkeeps hm.steps (Within.applyAll.2 ⟨hv, hargs⟩)).unquote

/-- What `expand` answers with belongs to the fragments of the term that reduction stays in. -/
theorem expand_within {F : Fragment} (hkeeps : env.signature.Keeps F) {t : Term}
    (ht : t.Within F) : Yields (env.expand t) fun t' => t'.Within F :=
  (env.expandMetered_settles t _).yields.mono fun _ ⟨_, h⟩ => h.within hkeeps ht

end Environment

end StagedTT
