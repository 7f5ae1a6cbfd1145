import Mathlib.Data.Finset.Card
import StagedTT.Term.Basic

/-!
# Parts of terms

The parts of a term are the terms that it is made of. Its subterms are the term itself, its parts,
theirs, and so on (`Term.mem_subterms`).
-/

namespace StagedTT

/-- Lists are the same if they are mapped to the same list by what tells their entries apart. -/
theorem eq_of_map_eq {α β : Type} {f : α → β} {as bs : List α}
    (h : ∀ a ∈ as, ∀ b ∈ bs, f a = f b → a = b) (hmap : as.map f = bs.map f) : as = bs := by
  induction as generalizing bs with
  | nil => exact (List.map_eq_nil_iff.1 hmap.symm).symm
  | cons a as ih =>
    cases bs with
    | nil => cases hmap
    | cons b bs =>
      obtain ⟨hfirst, hrest⟩ := List.cons.inj hmap
      obtain rfl := h a List.mem_cons_self b List.mem_cons_self hfirst
      rw [ih (fun c hc d hd => h c (List.mem_cons_of_mem _ hc) d (List.mem_cons_of_mem _ hd)) hrest]

namespace Term

/-- The terms that a term is made of. -/
def parts : Term → List Term
  | .sort _ | .const _ | .num _ | .str _ | .var _ => []
  | .pi first second | .lam first second | .app first second => [first, second]
  | .quote body | .splice body => [body]
  | .call head args => head :: args

/-- Induction with a hypothesis for each part. -/
theorem inductParts {motive : Term → Prop}
    (h : ∀ t : Term, (∀ part ∈ t.parts, motive part) → motive t) (t : Term) : motive t := by
  induction t with
  | sort | const | num | str | var => exact h _ (List.forall_mem_nil _)
  | pi _ _ ihFirst ihSecond | lam _ _ ihFirst ihSecond | app _ _ ihFirst ihSecond =>
    exact h _ (List.forall_mem_cons.2 ⟨ihFirst, List.forall_mem_singleton.2 ihSecond⟩)
  | quote _ ih | splice _ ih => exact h _ (List.forall_mem_singleton.2 ih)
  | call _ _ ihHead ihArgs => exact h _ (List.forall_mem_cons.2 ⟨ihHead, ihArgs⟩)

mutual

/-- A term, its parts, and theirs. Among the parts of a spine are its partial applications. -/
def subterms : Term → Finset Term
  | .sort level => {.sort level}
  | .const name => {.const name}
  | .num value => {.num value}
  | .str value => {.str value}
  | .var index => {.var index}
  | .pi domain body => insert (.pi domain body) (subterms domain ∪ subterms body)
  | .lam domain body => insert (.lam domain body) (subterms domain ∪ subterms body)
  | .app fn arg => insert (.app fn arg) (subterms fn ∪ subterms arg)
  | .quote body => insert (.quote body) (subterms body)
  | .splice body => insert (.splice body) (subterms body)
  | .call head args => insert (.call head args) (subterms head ∪ subtermsAll args)

/-- The subterms of some of the terms. -/
def subtermsAll : List Term → Finset Term
  | [] => ∅
  | t :: ts => subterms t ∪ subtermsAll ts

end

theorem mem_subtermsAll {u : Term} {ts : List Term} :
    u ∈ subtermsAll ts ↔ ∃ t ∈ ts, u ∈ t.subterms := by
  induction ts with
  | nil => simp [subtermsAll]
  | cons t ts ih => simp [subtermsAll, ih]

theorem subtermsAll_append (ts us : List Term) :
    subtermsAll (ts ++ us) = subtermsAll ts ∪ subtermsAll us := by
  ext u
  simp only [Finset.mem_union, mem_subtermsAll, List.mem_append, or_and_right, exists_or]

theorem subtermsAll_singleton (t : Term) : subtermsAll [t] = t.subterms := by
  rw [subtermsAll, subtermsAll, Finset.union_empty]

/-- A subterm is the term itself, or a subterm of a part. -/
theorem mem_subterms {u t : Term} : u ∈ t.subterms ↔ u = t ∨ u ∈ subtermsAll t.parts := by
  cases t <;> simp [subterms, parts, mem_subtermsAll]

theorem mem_subterms_self (t : Term) : t ∈ t.subterms := mem_subterms.2 (.inl rfl)

end Term

end StagedTT
