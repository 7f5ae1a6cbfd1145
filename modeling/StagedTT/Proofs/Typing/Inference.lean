import StagedTT.Proofs.Reduction.Normalization
import StagedTT.Proofs.Typing.Phases
import StagedTT.Proofs.Typing.Preservation

/-!
# Inference

Over a sound signature, `infer` answers with a type of the term, and refuses a term only if it has
no type, mentions the last universe, or the fuel runs out (`Environment.infer_settles`).

The parts of inference that normalize are described first, each by one lemma: what the answer
reduces to or is equal to, and what a refusal rules out.
-/

namespace StagedTT

open Term

namespace Environment

variable {env : Environment}

section Conversion

variable (hsig : env.signature.Orderly)

include hsig

/-- A term that is equal to a normalized one reduces to its normal form. -/
theorem steps_of_equalIn {t u n : Term} (ht : t.Within .namedCalls)
    (hn : NormalForm env.signature t n) (h : EqualIn env.signature .namedCalls t u) :
    Steps env.signature u n := by
  have hu : u.Within .namedCalls := h.named_iff.1 ht
  have htn : EqualIn env.signature .namedCalls t n := .of_steps hsig.named ht hn.steps
  exact (h.symm.trans htn).steps_normal hsig hu hn.normal

theorem expectSort_settles (position : String) (term : Term) {type : Term}
    (htype : type.Within .namedCalls) :
    Settles (env.expectSort position term type) (fun l => Steps env.signature type (.sort l))
      fun e => IsOutOfFuel e ∨ ∀ l, ¬ EqualIn env.signature .namedCalls type (.sort l) := by
  refine ((env.normalize_settles type).mono_error fun e he => .inl he).bind fun n hn => ?_
  cases hlevel : n.level? with
  | some l =>
    have hsort : n = .sort l := by
      cases n with
      | sort k => exact congrArg Term.sort (Option.some.inj hlevel)
      | _ => cases hlevel
    rw [hsort] at hn
    exact hn.steps
  | none =>
    refine .inr fun l heq => ?_
    obtain rfl := (steps_of_equalIn hsig htype hn heq).of_sort
    cases hlevel

theorem expectPi_settles (fn : Term) {type : Term} (htype : type.Within .namedCalls) :
    Settles (env.expectPi fn type) (fun parts => Steps env.signature type (.pi parts.1 parts.2))
      fun e => IsOutOfFuel e ∨ ∀ A B, ¬ EqualIn env.signature .namedCalls type (.pi A B) := by
  refine ((env.normalize_settles type).mono_error fun e he => .inl he).bind fun n hn => ?_
  split
  · exact hn.steps
  · next hpi =>
    refine .inr fun A B heq => ?_
    obtain ⟨A', B', rfl, -, -⟩ := (steps_of_equalIn hsig htype hn heq).of_pi
    exact hpi A' B' rfl

theorem applicationType_settles (body arg : Term) {domain argType : Term}
    (hdomain : domain.Within .namedCalls) (hargType : argType.Within .namedCalls) :
    Settles (env.applicationType domain body arg argType)
      (fun T => EqualIn env.signature .namedCalls argType domain ∧
        Steps env.signature (body.instantiate arg) T)
      fun e => IsOutOfFuel e ∨ ¬ EqualIn env.signature .namedCalls argType domain := by
  rw [applicationType_eq]
  refine ((convertible_settles hsig hargType hdomain).mono_error fun e he => .inl he).bind
    fun answer hanswer => ?_
  cases answer with
  | true =>
    have hequal := hanswer.1 rfl
    refine ((env.normalize_settles _).mono_error fun e he => .inl he).mono fun T hT => ?_
    exact ⟨hequal, hT.steps⟩
  | false =>
    have hunequal : ¬ EqualIn env.signature .namedCalls argType domain := by
      intro heq
      cases hanswer.2 heq
    refine ((env.normalize_settles argType).mono_error fun e he => .inl he).bind fun _ _ => ?_
    exact .inr hunequal

end Conversion

end Environment

/-! ## What inference answers -/

/-- A type of a term that does not mention the last universe. -/
structure Infers (sig : Signature) (p : Phase) (Γ : List Term) (t T : Term) : Prop where
  typed : HasType sig p Γ t T
  belowLast : t.Within .belowLast

/-- A reason not to give a type of a term. -/
def Refuses (sig : Signature) (p : Phase) (Γ : List Term) (t : Term) (e : KernelError) : Prop :=
  IsOutOfFuel e ∨ ∀ T, ¬ Infers sig p Γ t T

variable {sig : Signature} {p : Phase} {Γ Δ : List Term}

/-- If a term has no type, nor has one that it is a part of. -/
theorem Refuses.of_part {t u : Term} (h : ∀ T, Infers sig p Γ t T → ∃ S, Infers sig p Δ u S)
    {e : KernelError} (he : Refuses sig p Δ u e) : Refuses sig p Γ t e := by
  refine he.imp_right fun hu T hT => ?_
  obtain ⟨S, hS⟩ := h T hT
  exact hu S hS

theorem Infers.of_pi {A B T : Term} (h : Infers sig p Γ (.pi A B) T) :
    ∃ m n, Infers sig p Γ A (.sort m) ∧ Infers sig p (A :: Γ) B (.sort n) := by
  obtain ⟨m, n, hA, hB⟩ := h.typed.pi_parts
  exact ⟨m, n, ⟨hA, h.belowLast.of_pi.1⟩, ⟨hB, h.belowLast.of_pi.2⟩⟩

theorem Infers.of_lam {A b T : Term} (h : Infers sig p Γ (.lam A b) T) :
    ∃ m B, Infers sig p Γ A (.sort m) ∧ Infers sig p (A :: Γ) b B := by
  obtain ⟨_, ⟨B, s, hpi, hb, _⟩, _⟩ := h.typed.generation
  obtain ⟨m, _, hA, _⟩ := hpi.pi_parts
  exact ⟨m, B, ⟨hA, h.belowLast.of_lam.1⟩, ⟨hb, h.belowLast.of_lam.2⟩⟩

theorem Infers.of_app {f a T : Term} (h : Infers sig p Γ (.app f a) T) :
    ∃ A B, Infers sig p Γ f (.pi A B) ∧ Infers sig p Γ a A := by
  obtain ⟨_, ⟨A, B, hf, ha, _⟩, _⟩ := h.typed.generation
  exact ⟨A, B, ⟨hf, h.belowLast.of_app.1⟩, ⟨ha, h.belowLast.of_app.2⟩⟩

theorem Infers.of_quote {b T : Term} (h : Infers sig p Γ (.quote b) T) :
    p = .metalevel ∧ ∃ S, Infers sig p Γ b S := by
  obtain ⟨S, ⟨hp, hb⟩, _⟩ := h.typed.generation
  exact ⟨hp, S, hb, h.belowLast.of_quote⟩

theorem Infers.of_splice {b T : Term} (h : Infers sig p Γ (.splice b) T) :
    p = .metalevel ∧ ∃ S, Infers sig p Γ b S := by
  obtain ⟨S, ⟨hp, hb⟩, _⟩ := h.typed.generation
  exact ⟨hp, S, hb, h.belowLast.of_splice⟩

theorem Infers.of_call {head T : Term} {args : List Term}
    (h : Infers sig p Γ (.call head args) T) :
    p = .metalevel ∧ ∃ S, Infers sig p Γ (head.applyAll args) S := by
  obtain ⟨S, ⟨hp, -, hfn⟩, _⟩ := h.typed.generation
  obtain ⟨n, rfl, -, -, hargs⟩ := h.belowLast.of_call
  exact ⟨hp, S, hfn, Within.applyAll.2 ⟨.const trivial, hargs⟩⟩

/-- A part of an application is a part of every longer one. -/
theorem Infers.of_applyAll {fn T : Term} {args : List Term}
    (h : Infers sig p Γ (fn.applyAll args) T) : ∃ S, Infers sig p Γ fn S := by
  induction args generalizing fn with
  | nil => exact ⟨T, h⟩
  | cons arg args ih =>
    obtain ⟨S, hS⟩ := ih h
    obtain ⟨A, B, hfn, -⟩ := hS.of_app
    exact ⟨_, hfn⟩

theorem requireMetalevel_settles (ctx : Context) (term : Term) :
    Settles (ctx.requireMetalevel term) (fun _ => ctx.phase = .metalevel)
      fun _ => ctx.phase ≠ .metalevel := by
  unfold Context.requireMetalevel
  split
  · next hphase => exact hphase
  · next hphase =>
    show ctx.phase ≠ .metalevel
    rw [hphase]
    decide

namespace Environment

variable {env : Environment} (hsig : env.signature.Sound)

/-- What inference is to do with a term: to answer with a type of it, or to have a reason not
to. -/
def InfersRightly (env : Environment) (p : Phase) (Γ : List Term) (t : Term) : Prop :=
  Settles (env.infer ⟨p, Γ⟩ t) (Infers env.signature p Γ t) (Refuses env.signature p Γ t)

include hsig

/-- The universe that is computed for a type is one it lives in. -/
theorem inferSort_settles (hΓ : WellFormed env.signature p Γ) (position : String) {A : Term}
    (hA : env.InfersRightly p Γ A) :
    Settles (env.inferSort ⟨p, Γ⟩ position A) (fun l => Infers env.signature p Γ A (.sort l))
      fun e => IsOutOfFuel e ∨ ∀ l, ¬ Infers env.signature p Γ A (.sort l) := by
  refine (hA.mono_error fun e he => he.imp_right fun h l => h _).bind fun T hT => ?_
  obtain ⟨s, hTsort⟩ := hT.typed.sorted hsig hΓ
  have hexpect := expectSort_settles hsig.orderly position A hTsort.named
  refine (hexpect.mono_error fun e he => he.imp_right fun h l hl => ?_).mono fun l hl => ?_
  · exact h l ((hT.typed.unique hsig hΓ hl.typed).mono (Fragment.le_namedCalls _))
  · exact ⟨hT.typed.reduce_type hsig hΓ hl, hT.belowLast⟩

/-- The type that is computed for an application is a type of it. -/
theorem application_settles (hΓ : WellFormed env.signature p Γ) {f fnType a : Term}
    (hf : Infers env.signature p Γ f fnType) (ha : env.InfersRightly p Γ a) :
    Settles (do
      let (domain, body) ← env.expectPi f fnType
      let argType ← env.infer ⟨p, Γ⟩ a
      env.applicationType domain body a argType)
      (Infers env.signature p Γ (.app f a)) (Refuses env.signature p Γ (.app f a)) := by
  obtain ⟨s, hfnType⟩ := hf.typed.sorted hsig hΓ
  have hexpect := expectPi_settles hsig.orderly f hfnType.named
  refine (hexpect.mono_error fun e he => he.imp_right fun h T hT => ?_).bind
    fun ⟨A, B⟩ hsteps => ?_
  · obtain ⟨A, B, hf', _⟩ := hT.of_app
    have hequal := hf.typed.unique hsig hΓ hf'.typed
    exact h A B (hequal.mono (Fragment.le_namedCalls _))
  have hfpi : HasType env.signature p Γ f (.pi A B) := hf.typed.reduce_type hsig hΓ hsteps
  have hpi : HasType env.signature p Γ (.pi A B) (.sort s) := hfnType.steps hsig hΓ hsteps
  obtain ⟨m, n, hA, hB⟩ := hpi.pi_parts
  refine (ha.mono_error fun e he => he.of_part fun T hT => ?_).bind fun argType hargType => ?_
  · obtain ⟨A', B', _, ha'⟩ := hT.of_app
    exact ⟨A', ha'⟩
  obtain ⟨k, hargSort⟩ := hargType.typed.sorted hsig hΓ
  have happlied := applicationType_settles hsig.orderly B a hA.named hargSort.named
  refine (happlied.mono_error fun e he => he.imp_right fun h T hT => ?_).mono
    fun T ⟨hequal, hT⟩ => ?_
  · obtain ⟨A', B', hf', ha'⟩ := hT.of_app
    obtain ⟨s', hpi'⟩ := hf'.typed.sorted hsig hΓ
    have hfequal := hfpi.unique hsig hΓ hf'.typed
    obtain ⟨hAA', -⟩ := hpi.pi_inj hsig hpi' hfequal
    have haequal := hargType.typed.unique hsig hΓ ha'.typed
    exact h ((haequal.trans hAA'.symm).mono (Fragment.le_namedCalls _))
  · have hatyped : HasType env.signature p Γ a A :=
      hargType.typed.conv (hargSort.equalIn hsig hA hequal) hA
    have happ := (HasType.app hfpi hatyped).reduce_type hsig hΓ hT
    exact ⟨happ, .app hf.belowLast hargType.belowLast⟩

theorem inferArgs_settles (hΓ : WellFormed env.signature p Γ) {fn fnType : Term}
    {args : List Term} (hfn : Infers env.signature p Γ fn fnType)
    (hargs : ∀ arg ∈ args, env.InfersRightly p Γ arg) :
    Settles (env.inferArgs ⟨p, Γ⟩ fn fnType args)
      (Infers env.signature p Γ (fn.applyAll args))
      (Refuses env.signature p Γ (fn.applyAll args)) := by
  induction args generalizing fn fnType with
  | nil =>
    rw [inferArgs]
    exact hfn
  | cons arg args ih =>
    obtain ⟨harg, hargs⟩ := List.forall_mem_cons.1 hargs
    have happ := application_settles hsig hΓ hfn harg
    have hrest := (happ.mono_error fun e he => he.of_part fun T hT => hT.of_applyAll).bind
      fun resultType hresult => ih hresult hargs
    simp only [bind_assoc] at hrest
    rw [inferArgs]
    exact hrest

omit hsig in
theorem infer_pi (env : Environment) (ctx : Context) (A B : Term) :
    env.infer ctx (.pi A B) = (do
      let m ← env.inferSort ctx "Pi parameter" A
      let n ← env.inferSort (ctx.bind A) "Pi body" B
      return .sort (max m n)) := by
  simp only [infer, inferSort, bind_assoc]

omit hsig in
theorem infer_lam (env : Environment) (ctx : Context) (A b : Term) :
    env.infer ctx (.lam A b) = (do
      let _ ← env.inferSort ctx "Lambda parameter" A
      let B ← env.infer (ctx.bind A) b
      return .pi A B) := by
  simp only [infer, inferSort, bind_assoc]

/-! ## One lemma for each way to form a term -/

omit hsig in
theorem infersRightly_sort (l : Nat) : env.InfersRightly p Γ (.sort l) := by
  unfold InfersRightly infer
  split
  · next hl => exact ⟨.sort l, .sort hl⟩
  · next hl =>
    refine .inr fun T hT => ?_
    cases hT.belowLast with
    | sort hl' => exact hl hl'

omit hsig in
theorem infersRightly_var (i : Nat) : env.InfersRightly p Γ (.var i) := by
  rw [InfersRightly, infer, Context.lookup_eq]
  split
  · next A hget => exact ⟨.var hget, .var i⟩
  · next hnone =>
    refine .inr fun T hT => ?_
    obtain ⟨_, ⟨A, hget, _⟩, _⟩ := hT.typed.generation
    rw [hnone] at hget
    cases hget

omit hsig in
theorem infersRightly_const (n : String) : env.InfersRightly p Γ (.const n) := by
  unfold InfersRightly infer constantType
  split
  · next hnone =>
    refine .inr fun T hT => ?_
    obtain ⟨_, ⟨decl, hfind, _⟩, _⟩ := hT.typed.generation
    rw [hnone] at hfind
    cases hfind
  · next decl hfind =>
    split
    · next hobject => exact ⟨.const hfind (.inl hobject), .const trivial⟩
    · next hmeta =>
      have hphase := requireMetalevel_settles ⟨p, Γ⟩ (.const n)
      have hobject : ∀ e, p ≠ .metalevel → Refuses env.signature p Γ (.const n) e := by
        refine fun e hp => .inr fun T hT => ?_
        obtain ⟨_, ⟨decl', hfind', hvis, _⟩, _⟩ := hT.typed.generation
        obtain rfl := Option.some.inj (hfind.symm.trans hfind')
        rw [hmeta] at hvis
        exact hp (hvis.resolve_left (by decide))
      exact (hphase.mono_error hobject).bind fun _ hp =>
        ⟨.const hfind (.inr hp), .const trivial⟩

theorem infersRightly_pi (hΓ : WellFormed env.signature p Γ) {A B : Term}
    (hA : env.InfersRightly p Γ A)
    (hB : WellFormed env.signature p (A :: Γ) → env.InfersRightly p (A :: Γ) B) :
    env.InfersRightly p Γ (.pi A B) := by
  unfold InfersRightly
  rw [infer_pi]
  have hdomain := inferSort_settles hsig hΓ "Pi parameter" hA
  refine (hdomain.mono_error fun e he => he.imp_right fun h T hT => ?_).bind fun m hm => ?_
  · obtain ⟨m, _, hm, _⟩ := hT.of_pi
    exact h m hm
  have hΓA := hΓ.cons hm.typed
  have hbody := inferSort_settles hsig hΓA "Pi body" (hB hΓA)
  refine (hbody.mono_error fun e he => he.imp_right fun h T hT => ?_).bind fun n hn => ?_
  · obtain ⟨_, n, _, hn⟩ := hT.of_pi
    exact h n hn
  exact ⟨.pi hm.typed hn.typed, .pi hm.belowLast hn.belowLast⟩

theorem infersRightly_lam (hΓ : WellFormed env.signature p Γ) {A b : Term}
    (hA : env.InfersRightly p Γ A)
    (hb : WellFormed env.signature p (A :: Γ) → env.InfersRightly p (A :: Γ) b) :
    env.InfersRightly p Γ (.lam A b) := by
  unfold InfersRightly
  rw [infer_lam]
  have hdomain := inferSort_settles hsig hΓ "Lambda parameter" hA
  refine (hdomain.mono_error fun e he => he.imp_right fun h T hT => ?_).bind fun m hm => ?_
  · obtain ⟨m, _, hm, _⟩ := hT.of_lam
    exact h m hm
  have hΓA := hΓ.cons hm.typed
  refine ((hb hΓA).mono_error fun e he => he.of_part fun T hT => ?_).bind fun B hB => ?_
  · obtain ⟨_, B, _, hB⟩ := hT.of_lam
    exact ⟨B, hB⟩
  -- The codomain is not checked, and need not be: it is the type of a term.
  obtain ⟨s, hBsort⟩ := hB.typed.sorted hsig hΓA
  exact ⟨.lam (.pi hm.typed hBsort) hB.typed, .lam hm.belowLast hB.belowLast⟩

theorem infersRightly_app (hΓ : WellFormed env.signature p Γ) {f a : Term}
    (hf : env.InfersRightly p Γ f) (ha : env.InfersRightly p Γ a) :
    env.InfersRightly p Γ (.app f a) := by
  refine (hf.mono_error fun e he => he.of_part fun T hT => ?_).bind
    fun fnType hfnType => application_settles hsig hΓ hfnType ha
  obtain ⟨A, B, hf', _⟩ := hT.of_app
  exact ⟨_, hf'⟩

omit hsig in
theorem infersRightly_quote {b : Term} (hb : env.InfersRightly p Γ b) :
    env.InfersRightly p Γ (.quote b) := by
  have hphase := requireMetalevel_settles ⟨p, Γ⟩ (.quote b)
  refine (hphase.mono_error fun e hp => .inr fun T hT => hp hT.of_quote.1).bind fun _ hp => ?_
  exact (hb.mono_error fun e he => he.of_part fun T hT => hT.of_quote.2).mono
    fun T hT => ⟨.quote hp hT.typed, .quote trivial hT.belowLast⟩

omit hsig in
theorem infersRightly_splice {b : Term} (hb : env.InfersRightly p Γ b) :
    env.InfersRightly p Γ (.splice b) := by
  have hphase := requireMetalevel_settles ⟨p, Γ⟩ (.splice b)
  refine (hphase.mono_error fun e hp => .inr fun T hT => hp hT.of_splice.1).bind fun _ hp => ?_
  exact (hb.mono_error fun e he => he.of_part fun T hT => hT.of_splice.2).mono
    fun T hT => ⟨.splice hp hT.typed, .splice trivial hT.belowLast⟩

theorem infersRightly_call (hΓ : WellFormed env.signature p Γ) (n : String) {args : List Term}
    (hargs : ∀ arg ∈ args, env.InfersRightly p Γ arg) :
    env.InfersRightly p Γ (.call (.const n) args) := by
  have hphase := requireMetalevel_settles ⟨p, Γ⟩ (.call (.const n) args)
  refine (hphase.mono_error fun e hp => .inr fun T hT => hp hT.of_call.1).bind fun _ hp => ?_
  have hhead : env.InfersRightly p Γ (.const n) := infersRightly_const n
  have hfn := (hhead.mono_error fun e he => he.of_part fun T hT => hT.of_applyAll).bind
    fun fnType hfnType => inferArgs_settles hsig hΓ hfnType hargs
  refine (hfn.mono_error fun e he => he.of_part fun T hT => hT.of_call.2).mono fun T hT => ?_
  obtain ⟨-, hargsBelow⟩ := Within.applyAll.1 hT.belowLast
  exact ⟨.call hp hT.typed, .call trivial trivial hargsBelow⟩

/-- **Inference is right about every term.** It answers with a type of the term, and has no other
reason for an error than that there is none, that the last universe is mentioned, or that the fuel
runs out. -/
theorem infer_settles {t : Term} (ht : t.Within .namedCalls)
    (hΓ : WellFormed env.signature p Γ) : env.InfersRightly p Γ t := by
  induction t generalizing Γ with
  | sort l => exact infersRightly_sort l
  | num v => exact ⟨.num v, .num v⟩
  | str s => exact ⟨.str s, .str s⟩
  | const n => exact infersRightly_const n
  | var i => exact infersRightly_var i
  | pi A B ihA ihB =>
    obtain ⟨hA, hB⟩ := ht.of_pi
    exact infersRightly_pi hsig hΓ (ihA hA hΓ) (ihB hB)
  | lam A b ihA ihb =>
    obtain ⟨hA, hb⟩ := ht.of_lam
    exact infersRightly_lam hsig hΓ (ihA hA hΓ) (ihb hb)
  | app f a ihf iha =>
    obtain ⟨hf, ha⟩ := ht.of_app
    exact infersRightly_app hsig hΓ (ihf hf hΓ) (iha ha hΓ)
  | quote b ih => exact infersRightly_quote (ih ht.of_quote hΓ)
  | splice b ih => exact infersRightly_splice (ih ht.of_splice hΓ)
  | call head args _ ihargs =>
    obtain ⟨n, rfl, -, -, hargs⟩ := ht.of_call
    exact infersRightly_call hsig hΓ n fun arg harg => ihargs arg harg (hargs arg harg) hΓ

/-- To a term that has a type and does not mention the last universe, inference answers with a type
that is equal to the known one. -/
theorem infer_settles_equal (hΓ : WellFormed env.signature p Γ) {t T : Term}
    (h : Infers env.signature p Γ t T) :
    Settles (env.infer ⟨p, Γ⟩ t)
      (fun T' => Infers env.signature p Γ t T' ∧ EqualIn env.signature p.fragment T' T)
      IsOutOfFuel := by
  have hinfer := infer_settles hsig h.typed.named hΓ
  refine (hinfer.mono_error fun e he => he.resolve_right fun hnone => hnone T h).mono
    fun T' hT' => ?_
  exact ⟨hT', hT'.typed.unique hsig hΓ h.typed⟩

/-- **Inference is complete.** It answers with a type of every term that has one and does not
mention the last universe, unless the fuel runs out. -/
theorem infer_complete (hΓ : WellFormed env.signature p Γ) {t T : Term}
    (h : Infers env.signature p Γ t T) :
    (∃ T', env.infer ⟨p, Γ⟩ t = .ok T' ∧ EqualIn env.signature p.fragment T' T) ∨
      ∃ steps, env.infer ⟨p, Γ⟩ t = .error (.nonTermination steps) := by
  rcases (infer_settles_equal hsig hΓ h).exists_ok_or_error with
    ⟨T', hok, -, hequal⟩ | ⟨_, herror, steps, rfl⟩
  · exact .inl ⟨T', hok, hequal⟩
  · exact .inr ⟨steps, herror⟩

/-! ## Object code -/

omit hsig in
/-- Inference lets no metalevel construct into object code. -/
theorem infer_object_yields (env : Environment) (Γ : List Term) (t : Term) :
    Yields (env.infer ⟨.object, Γ⟩ t) fun _ => t.Within .stageFree :=
  (infer_object_within env Γ t).mono fun _ h => h.mono (Fragment.objectCode_le _)

omit hsig in
/-- A term that is accepted has calls of names only, if metalevel code that is looked at has. -/
theorem named_of_infer {t T : Term} (ht : p = .metalevel → t.Within .namedCalls)
    (hT : env.infer ⟨p, Γ⟩ t = .ok T) : t.Within .namedCalls := by
  cases p with
  | object => exact ((infer_object_yields env Γ t).of_ok hT).named
  | metalevel => exact ht rfl

/-- What inference gives as the type of a term is one, if the term is object code or its calls are
calls of names. -/
theorem infer_yields (hΓ : WellFormed env.signature p Γ) {t : Term}
    (ht : p = .metalevel → t.Within .namedCalls) :
    Yields (env.infer ⟨p, Γ⟩ t) (Infers env.signature p Γ t) :=
  yields_of_ok fun _ hT => (infer_settles hsig (named_of_infer ht hT) hΓ).of_ok hT

theorem inferSort_yields (hΓ : WellFormed env.signature p Γ) (position : String) {t : Term}
    (ht : p = .metalevel → t.Within .namedCalls) :
    Yields (env.inferSort ⟨p, Γ⟩ position t) fun l => Infers env.signature p Γ t (.sort l) := by
  cases hinfer : env.infer ⟨p, Γ⟩ t with
  | ok T =>
    have ht' := named_of_infer ht hinfer
    exact (inferSort_settles hsig hΓ position (infer_settles hsig ht' hΓ)).yields
  | error e =>
    rw [inferSort, hinfer]
    trivial

/-- A term that is checked against a type is of that type. -/
theorem check_yields (hΓ : WellFormed env.signature p Γ) {t T : Term} {s : Nat}
    (ht : p = .metalevel → t.Within .namedCalls) (hT : HasType env.signature p Γ T (.sort s)) :
    Yields (env.check ⟨p, Γ⟩ t T) fun _ => Infers env.signature p Γ t T := by
  refine (infer_yields hsig hΓ ht).bind fun S hS => ?_
  obtain ⟨k, hSsort⟩ := hS.typed.sorted hsig hΓ
  refine (convertible_settles hsig.orderly hSsort.named hT.named).yields.bind
    fun answer hanswer => ?_
  cases answer with
  | true =>
    have heq := hSsort.equalIn hsig hT (hanswer.1 rfl)
    exact ⟨hS.typed.conv heq hT, hS.belowLast⟩
  | false => exact (yields_any _).bind fun _ _ => (yields_any _).bind fun _ _ => trivial

end Environment

end StagedTT
