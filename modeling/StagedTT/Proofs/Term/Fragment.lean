import StagedTT.Proofs.Term.Simultaneous

/-!
# Fragments of the language

A fragment says which universes and names a term may mention, and whether it may contain
quotations, splices and suspended calls. In every fragment a suspended call names what it calls.

`Within F t` says that `t` belongs to the fragment `F`. Fragments are closed under substitution
(`Within.substAll`), and a larger fragment has more terms (`Within.mono`).
-/

namespace StagedTT

/-- What the terms of a part of the language may mention. -/
structure Fragment where
  level : Nat → Prop
  name : String → Prop
  /-- Whether metalevel constructs are admitted. -/
  staged : Prop

namespace Fragment

/-- All terms in which suspended calls are calls of names. -/
def namedCalls : Fragment := ⟨fun _ => True, fun _ => True, True⟩

/-- All terms without metalevel constructs. -/
def stageFree : Fragment := ⟨fun _ => True, fun _ => True, False⟩

/-- One fragment admits all that another one does. -/
instance : LE Fragment where
  le F G := (∀ l, F.level l → G.level l) ∧ (∀ n, F.name n → G.name n) ∧ (F.staged → G.staged)

theorem le_namedCalls (F : Fragment) : F ≤ namedCalls :=
  ⟨fun _ _ => trivial, fun _ _ => trivial, fun _ => trivial⟩

end Fragment

namespace Term

variable {F G : Fragment}

/-- A term belongs to a fragment. -/
inductive Within (F : Fragment) : Term → Prop
  | sort {l : Nat} : F.level l → Within F (.sort l)
  | const {n : String} : F.name n → Within F (.const n)
  | num (v : Int64) : Within F (.num v)
  | str (s : String) : Within F (.str s)
  | var (i : Nat) : Within F (.var i)
  | pi {A B : Term} : Within F A → Within F B → Within F (.pi A B)
  | lam {A b : Term} : Within F A → Within F b → Within F (.lam A b)
  | app {f a : Term} : Within F f → Within F a → Within F (.app f a)
  | quote {b : Term} : F.staged → Within F b → Within F (.quote b)
  | splice {b : Term} : F.staged → Within F b → Within F (.splice b)
  | call {n : String} {as : List Term} : F.staged → F.name n → (∀ a ∈ as, Within F a) →
      Within F (.call (.const n) as)

theorem Within.mono {t : Term} (h : t.Within F) (hFG : F ≤ G) : t.Within G := by
  obtain ⟨hl, hn, hs⟩ := hFG
  induction h with
  | sort h => exact .sort (hl _ h)
  | const h => exact .const (hn _ h)
  | num v => exact .num v
  | str s => exact .str s
  | var i => exact .var i
  | pi _ _ ihA ihB => exact .pi ihA ihB
  | lam _ _ ihA ihb => exact .lam ihA ihb
  | app _ _ ihf iha => exact .app ihf iha
  | quote h _ ih => exact .quote (hs h) ih
  | splice h _ ih => exact .splice (hs h) ih
  | call h hname _ ih => exact .call (hs h) (hn _ hname) ih

theorem Within.named {t : Term} (h : t.Within F) : t.Within .namedCalls := h.mono F.le_namedCalls

theorem Within.of_pi {A B : Term} (h : (Term.pi A B).Within F) : A.Within F ∧ B.Within F := by
  cases h with
  | pi hA hB => exact ⟨hA, hB⟩

theorem Within.of_lam {A b : Term} (h : (Term.lam A b).Within F) : A.Within F ∧ b.Within F := by
  cases h with
  | lam hA hb => exact ⟨hA, hb⟩

theorem Within.of_app {f a : Term} (h : (Term.app f a).Within F) : f.Within F ∧ a.Within F := by
  cases h with
  | app hf ha => exact ⟨hf, ha⟩

theorem Within.of_quote {b : Term} (h : (Term.quote b).Within F) : b.Within F := by
  cases h with
  | quote _ hb => exact hb

theorem Within.of_splice {b : Term} (h : (Term.splice b).Within F) : b.Within F := by
  cases h with
  | splice _ hb => exact hb

theorem Within.of_call {h : Term} {as : List Term} (hc : (Term.call h as).Within F) :
    ∃ n, h = .const n ∧ F.name n ∧ F.staged ∧ ∀ a ∈ as, a.Within F := by
  cases hc with
  | call hs hn has => exact ⟨_, rfl, hn, hs, has⟩

theorem Within.applyAll {head : Term} {args : List Term} :
    (head.applyAll args).Within F ↔ head.Within F ∧ ∀ arg ∈ args, arg.Within F := by
  induction args generalizing head with
  | nil => simp
  | cons arg args ih =>
    have happ : (Term.app head arg).Within F ↔ head.Within F ∧ arg.Within F :=
      ⟨of_app, fun h => .app h.1 h.2⟩
    rw [applyAll_cons, ih, happ, and_assoc, List.forall_mem_cons]

/-! ## Substitution -/

theorem Within.mapVars {t : Term} (h : t.Within F) {f : Nat → Nat → Term}
    (hf : ∀ depth i, (f depth i).Within F) (c : Nat) : (t.mapVars f c).Within F := by
  induction h generalizing c with
  | sort h => exact .sort h
  | const h => exact .const h
  | num v => exact .num v
  | str s => exact .str s
  | var i => exact hf c i
  | pi _ _ ihA ihB => exact .pi (ihA c) (ihB (c + 1))
  | lam _ _ ihA ihb => exact .lam (ihA c) (ihb (c + 1))
  | app _ _ ihf iha => exact .app (ihf c) (iha c)
  | quote h _ ih => exact .quote h (ih c)
  | splice h _ ih => exact .splice h (ih c)
  | call h hn _ ih =>
    rw [mapVars_call]
    refine .call h hn fun a ha => ?_
    obtain ⟨b, hb, rfl⟩ := List.mem_map.1 ha
    exact ih b hb c

theorem Within.shift {t : Term} (h : t.Within F) (d c : Nat) : (t.shift d c).Within F := by
  rw [shift_eq_mapVars]
  exact h.mapVars (fun _ _ => .var _) c

theorem Within.substAll {t : Term} (h : t.Within F) {σ : Nat → Term} (hσ : ∀ i, (σ i).Within F) :
    (t.substAll σ).Within F := by
  refine h.mapVars (fun depth i => ?_) 0
  split
  · exact .var i
  · exact (hσ _).shift _ _

theorem Within.point {a : Term} (h : a.Within F) (i : Nat) : (point a i).Within F := by
  cases i with
  | zero => exact h
  | succ i => exact .var i

theorem Within.lift {σ : Nat → Term} (h : ∀ i, (σ i).Within F) (i : Nat) : (lift σ i).Within F := by
  cases i with
  | zero => exact .var 0
  | succ i => exact (h i).shift 1 0

theorem Within.instantiate {b a : Term} (hb : b.Within F) (ha : a.Within F) :
    (b.instantiate a).Within F := by
  rw [instantiate_eq_substAll]
  exact hb.substAll ha.point

end Term

end StagedTT
