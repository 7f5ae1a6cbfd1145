import StagedTT.Kernel.Typing
import StagedTT.Proofs.Typing.Substitution

/-!
# Preservation of types

A signature is sound if every declared type lives in a universe and every value is of its
declared type, is a normal form, and stays below the last universe. Over a sound signature the
type of a term lives in a universe (`HasType.sorted`), reduction keeps types
(`HasType.preservation`), and a term has one type up to equality (`HasType.unique`).
-/

namespace StagedTT

open Term

/-- All terms in which calls are calls of names and no universe is the last one. -/
def Fragment.belowLast : Fragment := ⟨(· < lastLevel), fun _ => True, True⟩

/-- What a declaration says is true, and its value is a normal form. -/
structure Declaration.Sound (sig : Signature) (decl : Declaration) : Prop where
  sorted : ∃ s, HasType sig decl.phase [] decl.type (.sort s)
  typed : ∀ v, decl.value? = some v → HasType sig decl.phase [] v decl.type
  normal : ∀ v, decl.value? = some v → Normal sig v
  belowLast : ∀ v, decl.value? = some v → v.Within .belowLast

namespace Signature

/-- The types of literals are declared, and all declarations are sound. -/
structure Sound (sig : Signature) : Prop where
  number : sig.find? "number" = some .literalType
  string : sig.find? "string" = some .literalType
  decl : ∀ n decl, sig.find? n = some decl → decl.Sound sig

variable {sig : Signature} (hsig : sig.Sound)

include hsig

theorem Sound.of_value {n : String} {v : Term} (hv : sig.value? n = some v) :
    ∃ decl, sig.find? n = some decl ∧ decl.value? = some v ∧ decl.Sound sig := by
  obtain ⟨decl, hfind, hvalue⟩ := Option.bind_eq_some_iff.1 hv
  exact ⟨decl, hfind, hvalue, hsig.decl n decl hfind⟩

theorem Sound.closed : sig.Closed where
  values n v hv := by
    obtain ⟨decl, -, hvalue, hdecl⟩ := hsig.of_value hv
    exact (hdecl.typed v hvalue).closed
  types n decl hfind := by
    obtain ⟨s, hs⟩ := (hsig.decl n decl hfind).sorted
    exact hs.closed

theorem Sound.keeps_code (p : Phase) : sig.Keeps (.code sig p) := by
  intro n v ⟨decl, hfind, hvis⟩ hv
  obtain ⟨decl', hfind', hvalue, hdecl⟩ := hsig.of_value hv
  obtain rfl : decl = decl' := Option.some.inj (hfind.symm.trans hfind')
  have hwithin := (hdecl.typed v hvalue).within
  -- Object values are object code, and metalevel values are known to metalevel code only.
  refine hwithin.mono ⟨fun _ _ => trivial, fun m ⟨d, hd, hdvis⟩ => ⟨d, hd, ?_⟩, fun hp => ?_⟩
  · rcases hvis with hobject | hmeta
    · exact .inl (hdvis.resolve_right (by rw [hobject]; decide))
    · exact .inr hmeta
  · exact hvis.resolve_left (by rw [show decl.phase = .metalevel from hp]; decide)

theorem Sound.orderly : sig.Orderly where
  closed := hsig.closed.values
  named n v _ hv := by
    obtain ⟨decl, -, hvalue, hdecl⟩ := hsig.of_value hv
    exact (hdecl.typed v hvalue).named

theorem Sound.keeps_belowLast : sig.Keeps .belowLast := by
  intro n v _ hv
  obtain ⟨decl, -, hvalue, hdecl⟩ := hsig.of_value hv
  exact hdecl.belowLast v hvalue

end Signature

variable {sig : Signature} {p : Phase} {Γ : List Term} {t u T T' : Term}

/-! ## Types of types -/

theorem HasType.pi_parts {A B : Term} (h : HasType sig p Γ (.pi A B) T) :
    ∃ m n, HasType sig p Γ A (.sort m) ∧ HasType sig p (A :: Γ) B (.sort n) := by
  obtain ⟨_, ⟨m, n, hA, hB, _⟩, _⟩ := h.generation
  exact ⟨m, n, hA, hB⟩

section Sound

variable (hsig : sig.Sound)

include hsig

/-- **The type of a term lives in a universe.** -/
theorem HasType.sorted (h : HasType sig p Γ t T) (hΓ : WellFormed sig p Γ) :
    ∃ s, HasType sig p Γ T (.sort s) := by
  induction h with
  | sort l => exact ⟨l + 2, .sort (l + 1)⟩
  | num v => exact ⟨0, .const hsig.number (.inl rfl)⟩
  | str s => exact ⟨0, .const hsig.string (.inl rfl)⟩
  | @const Γ n decl hfind hvis =>
    obtain ⟨s, hs⟩ := (hsig.decl n decl hfind).sorted
    exact ⟨s, (hs.of_visible hvis).of_nil hsig.closed Γ⟩
  | var hget => exact hΓ.sorted hsig.closed hget
  | pi _ _ _ _ => exact ⟨_, .sort _⟩
  | lam hpi _ _ _ => exact ⟨_, hpi⟩
  | app _ ha ihf _ =>
    obtain ⟨s, hpi⟩ := ihf hΓ
    obtain ⟨_, n, _, hB⟩ := hpi.pi_parts
    exact ⟨n, hB.instantiate hsig.closed ha⟩
  | quote _ _ ih | splice _ _ ih | call _ _ ih => exact ih hΓ
  | conv _ _ hT' _ _ => exact ⟨_, hT'⟩

/-! ## Reduction -/

/-- Terms with types that are equal anywhere are equal as code of their phase. -/
theorem HasType.equalIn {F : Fragment} {S S' : Term} (hT : HasType sig p Γ T S)
    (hT' : HasType sig p Γ T' S') (heq : EqualIn sig F T T') : EqualIn sig p.fragment T T' := by
  have hjoin := heq.join hsig.orderly hT.named
  exact (equalIn_of_join (hsig.keeps_code p) hT.within hT'.within hjoin).mono
    (Fragment.code_le sig p)

theorem HasType.equalIn_of_steps {S : Term} (hT : HasType sig p Γ T S) (h : Steps sig T T') :
    EqualIn sig p.fragment T T' :=
  (EqualIn.of_steps (hsig.keeps_code p) hT.within h).mono (Fragment.code_le sig p)

/-- Equal function types have equal domains and equal codomains. -/
theorem HasType.pi_inj {A B A' B' S S' : Term} (h : HasType sig p Γ (.pi A B) S)
    (h' : HasType sig p Γ (.pi A' B') S')
    (heq : EqualIn sig p.fragment (.pi A B) (.pi A' B')) :
    EqualIn sig p.fragment A A' ∧ EqualIn sig p.fragment B B' :=
  heq.pi_inj hsig.orderly (hsig.keeps_code p) (Fragment.code_le sig p) h.within h'.within

/-- Contracting a function that is applied keeps its type. -/
theorem HasType.beta {A b a C D : Term} (hΓ : WellFormed sig p Γ)
    (hf : HasType sig p Γ (.lam A b) (.pi C D)) (ha : HasType sig p Γ a C) :
    HasType sig p Γ (b.instantiate a) (D.instantiate a) := by
  obtain ⟨_, ⟨B, s, hpi, hb, rfl⟩, heq⟩ := hf.generation
  obtain ⟨k, hpi'⟩ := hf.sorted hsig hΓ
  obtain ⟨hAC, hBD⟩ := hpi.pi_inj hsig hpi' heq
  obtain ⟨m, _, hA, _⟩ := hpi.pi_parts
  obtain ⟨_, n, _, hD⟩ := hpi'.pi_parts
  have ha' : HasType sig p Γ a A := ha.conv hAC.symm hA
  have hresult := hb.instantiate hsig.closed ha'
  exact hresult.conv (hBD.instantiate hsig.closed.values ha.within_fragment)
    (hD.instantiate hsig.closed ha)

/-- **Reduction keeps types.** -/
theorem HasType.preservation (h : HasType sig p Γ t T) (hΓ : WellFormed sig p Γ)
    (hstep : Step sig t u) : HasType sig p Γ u T := by
  induction h generalizing u with
  | sort | num | str | var => cases hstep
  | @const Γ n decl hfind hvis =>
    cases hstep with
    | delta hv =>
      obtain ⟨decl', hfind', hvalue, hdecl⟩ := hsig.of_value hv
      obtain rfl : decl = decl' := Option.some.inj (hfind.symm.trans hfind')
      exact ((hdecl.typed u hvalue).of_visible hvis).of_nil hsig.closed Γ
  | pi hA hB ihA ihB =>
    cases hstep with
    | piDomain _ hstep =>
      have hA' := ihA hΓ hstep
      have heq := hA.equalIn_of_steps hsig (.single hstep)
      exact .pi hA' (hB.convert_binder hsig.closed hA heq.symm)
    | piBody _ hstep => exact .pi hA (ihB (hΓ.cons hA) hstep)
  | lam hpi hb ihpi ihb =>
    obtain ⟨m, n, hA, hB⟩ := hpi.pi_parts
    cases hstep with
    | lamDomain _ hstep =>
      have hpi' := ihpi hΓ (.piDomain _ hstep)
      have heq := hA.equalIn_of_steps hsig (.single hstep)
      have hlam := HasType.lam hpi' (hb.convert_binder hsig.closed hA heq.symm)
      exact hlam.conv (hpi.equalIn_of_steps hsig (.single (.piDomain _ hstep))).symm hpi
    | lamBody _ hstep => exact .lam hpi (ihb (hΓ.cons hA) hstep)
  | @app Γ f a A B hf ha ihf iha =>
    cases hstep with
    | beta _ _ _ => exact hf.beta hsig hΓ ha
    | appFn _ hstep => exact .app (ihf hΓ hstep) ha
    | appArg _ hstep =>
      obtain ⟨s, hpi⟩ := hf.sorted hsig hΓ
      obtain ⟨_, n, _, hB⟩ := hpi.pi_parts
      have ha' := iha hΓ hstep
      have hBa := hB.instantiate hsig.closed ha
      -- The type of the application mentions the argument, and changes with it.
      have hsteps := hstep.instantiate_arg hsig.closed.values hB.named ha.named
      exact (HasType.app hf ha').conv (hBa.equalIn_of_steps hsig hsteps).symm hBa
  | quote hp _ ih =>
    cases hstep with
    | quote hstep => exact .quote hp (ih hΓ hstep)
  | splice hp _ ih =>
    cases hstep with
    | splice hstep => exact .splice hp (ih hΓ hstep)
  | call hp _ ih =>
    cases hstep with
    | callArg _ as bs hstep => exact .call hp (ih hΓ (.applyAll_arg _ as bs hstep))
  | conv _ heq hT' ih _ => exact (ih hΓ hstep).conv heq hT'

theorem HasType.steps (h : HasType sig p Γ t T) (hΓ : WellFormed sig p Γ)
    (hsteps : Steps sig t u) : HasType sig p Γ u T := by
  induction hsteps with
  | refl => exact h
  | tail _ hstep ih => exact ih.preservation hsig hΓ hstep

/-- The type of a term may be reduced. -/
theorem HasType.reduce_type (h : HasType sig p Γ t T) (hΓ : WellFormed sig p Γ)
    (hsteps : Steps sig T T') : HasType sig p Γ t T' := by
  obtain ⟨s, hT⟩ := h.sorted hsig hΓ
  exact h.conv (hT.equalIn_of_steps hsig hsteps) (hT.steps hsig hΓ hsteps)

/-! ## Uniqueness -/

/-- **A term has one type**, up to equality. -/
theorem HasType.unique (h : HasType sig p Γ t T) (hΓ : WellFormed sig p Γ)
    (h' : HasType sig p Γ t T') : EqualIn sig p.fragment T T' := by
  induction h generalizing T' with
  | sort | num | str =>
    obtain ⟨_, rfl, heq⟩ := h'.generation
    exact heq
  | const hfind _ =>
    obtain ⟨_, ⟨decl', hfind', _, rfl⟩, heq⟩ := h'.generation
    obtain rfl := Option.some.inj (hfind.symm.trans hfind')
    exact heq
  | var hget =>
    obtain ⟨_, ⟨A', hget', rfl⟩, heq⟩ := h'.generation
    obtain rfl := Option.some.inj (hget.symm.trans hget')
    exact heq
  | pi hA hB ihA ihB =>
    obtain ⟨_, ⟨m', n', hA', hB', rfl⟩, heq⟩ := h'.generation
    obtain rfl := (ihA hΓ hA').sort_inj hsig.orderly
    obtain rfl := (ihB (hΓ.cons hA) hB').sort_inj hsig.orderly
    exact heq
  | lam hpi hb _ ihb =>
    obtain ⟨_, ⟨B', s', _, hb', rfl⟩, heq⟩ := h'.generation
    obtain ⟨m, _, hA, _⟩ := hpi.pi_parts
    exact (EqualIn.piBody hA.within_fragment (ihb (hΓ.cons hA) hb')).trans heq
  | app hf ha ihf _ =>
    obtain ⟨_, ⟨A', B', hf', _, rfl⟩, heq⟩ := h'.generation
    obtain ⟨s, hpi⟩ := hf.sorted hsig hΓ
    obtain ⟨s', hpi'⟩ := hf'.sorted hsig hΓ
    obtain ⟨_, hB⟩ := hpi.pi_inj hsig hpi' (ihf hΓ hf')
    exact (hB.instantiate hsig.closed.values ha.within_fragment).trans heq
  | quote _ _ ih | splice _ _ ih =>
    obtain ⟨_, ⟨_, hb'⟩, heq⟩ := h'.generation
    exact (ih hΓ hb').trans heq
  | call _ _ ih =>
    obtain ⟨_, ⟨_, _, hfn'⟩, heq⟩ := h'.generation
    exact (ih hΓ hfn').trans heq
  | conv _ heq _ ih _ => exact heq.symm.trans (ih hΓ h')

end Sound

end StagedTT
