import StagedTT.Proofs.Session.Growth

/-!
# Load policies

A form that fails leaves nothing behind, so it makes no difference to later forms whether it was
there. To go on after failures is therefore the same as to define each form in turn and pass over
those that fail, and the same as to load the others alone; to stop at the first failure is to load
what stands before it (`Session.load_policies`).
-/

namespace StagedTT

namespace Session

/-- The session with another policy. -/
def withPolicy (s : Session) (policy : Policy) : Session := { s with policy }

/-! ## Attempts -/

/-- A form, and what its definition was answered with. -/
structure Attempt where
  form : SExpr
  answer : Except Diagnostic Entry

namespace Attempt

/-- What was declared. -/
def entry? (a : Attempt) : Option Entry := a.answer.toOption

/-- Why nothing was declared. -/
def diagnostic? (a : Attempt) : Option Diagnostic :=
  match a.answer with
  | .ok _ => none
  | .error d => some d

/-- Whether the form declared something. -/
def declares (a : Attempt) : Bool := a.answer.isOk

end Attempt

/-- The diagnostics of forms that do not declare anything. -/
def failures (attempts : List Attempt) : List Diagnostic := attempts.filterMap Attempt.diagnostic?

theorem failures_eq_nil_iff {attempts : List Attempt} :
    failures attempts = [] ↔ ∀ a ∈ attempts, a.declares = true := by
  rw [failures, List.filterMap_eq_nil_iff]
  refine forall₂_congr fun a _ => ?_
  obtain ⟨form, answer⟩ := a
  cases answer <;> simp [Attempt.diagnostic?, Attempt.declares, Except.isOk, Except.toBool]

section Arithmetic

variable [IndexArithmetic]

/-- The answers to definitions of the forms in turn, where those that fail are passed over. -/
def attempts (s : Session) : List SExpr → List Attempt
  | [] => []
  | form :: forms =>
    ⟨form, (s.define form).1⟩ :: (s.define form).2.attempts forms

variable {s next : Session} {form : SExpr} {forms : List SExpr} {entry : Entry} {d : Diagnostic}

theorem attempts_of_ok (h : s.define form = (.ok entry, next)) (forms : List SExpr) :
    s.attempts (form :: forms) = ⟨form, .ok entry⟩ :: next.attempts forms := by
  rw [attempts, h]

theorem attempts_of_error (h : (s.define form).1 = .error d) (forms : List SExpr) :
    s.attempts (form :: forms) = ⟨form, .error d⟩ :: s.attempts forms := by
  rw [attempts, define_of_error h]

theorem attempts_append (s : Session) (before after : List SExpr) :
    s.attempts (before ++ after) =
      s.attempts before ++ (s.run (before.map .define)).attempts after := by
  induction before generalizing s with
  | nil => rfl
  | cons form before ih =>
    show _ :: (s.define form).2.attempts (before ++ after) = _
    rw [ih]
    rfl

theorem map_form_attempts (s : Session) (forms : List SExpr) :
    (s.attempts forms).map Attempt.form = forms := by
  induction forms generalizing s with
  | nil => rfl
  | cons form forms ih =>
    show form :: ((s.define form).2.attempts forms).map Attempt.form = _
    rw [ih]

theorem run_of_ok (h : s.define form = (.ok entry, next)) (forms : List SExpr) :
    s.run ((form :: forms).map .define) = next.run (forms.map .define) := by
  show Session.run (s.define form).2 _ = _
  rw [h]

theorem run_of_error (h : (s.define form).1 = .error d) (forms : List SExpr) :
    s.run ((form :: forms).map .define) = s.run (forms.map .define) := by
  show Session.run (s.define form).2 _ = _
  rw [define_of_error h]

theorem defineEach_of_ok (h : s.define form = (.ok entry, next)) (forms : List SExpr) :
    s.defineEach (form :: forms) =
      { next.defineEach forms with installed := entry :: (next.defineEach forms).installed } := by
  rw [defineEach, h]

theorem defineEach_of_error (h : (s.define form).1 = .error d) (forms : List SExpr) :
    s.defineEach (form :: forms) =
      match s.policy with
      | .failFast => ⟨[], [d], s⟩
      | .collectAll =>
        { s.defineEach forms with diagnostics := d :: (s.defineEach forms).diagnostics } := by
  cases hpolicy : s.policy <;> simp only [defineEach, define_of_error h, hpolicy]

/-! ## Policies -/

/-- Definitions do not look at the policy, and keep it. -/
theorem define_withPolicy (s : Session) (policy : Policy) (form : SExpr) :
    (s.withPolicy policy).define form = (s.define form).map id (·.withPolicy policy) := by
  refine define_map (f := (·.withPolicy policy)) ?_ fun _ => rfl
  rw [define_fst, define_fst]
  rfl

theorem define_withPolicy_of_ok (h : s.define form = (.ok entry, next)) (policy : Policy) :
    (s.withPolicy policy).define form = (.ok entry, next.withPolicy policy) := by
  rw [define_withPolicy, h]
  rfl

theorem define_withPolicy_of_error (h : (s.define form).1 = .error d) (policy : Policy) :
    ((s.withPolicy policy).define form).1 = .error d := by
  rw [define_withPolicy]
  exact h

theorem attempts_withPolicy (s : Session) (policy : Policy) (forms : List SExpr) :
    (s.withPolicy policy).attempts forms = s.attempts forms := by
  induction forms generalizing s with
  | nil => rfl
  | cons form forms ih =>
    cases hanswer : (s.define form).1 with
    | ok entry =>
      have h := define_of_ok hanswer
      rw [attempts_of_ok h, attempts_of_ok (define_withPolicy_of_ok h policy), ih (s.enter entry)]
    | error d =>
      rw [attempts_of_error hanswer,
        attempts_of_error (define_withPolicy_of_error hanswer policy), ih s]

theorem run_withPolicy (s : Session) (policy : Policy) (forms : List SExpr) :
    (s.withPolicy policy).run (forms.map .define) =
      (s.run (forms.map .define)).withPolicy policy := by
  induction forms generalizing s with
  | nil => rfl
  | cons form forms ih =>
    cases hanswer : (s.define form).1 with
    | ok entry =>
      have h := define_of_ok hanswer
      rw [run_of_ok h, run_of_ok (define_withPolicy_of_ok h policy), ih (s.enter entry)]
    | error d =>
      rw [run_of_error hanswer, run_of_error (define_withPolicy_of_error hanswer policy), ih s]

/-! ## Loading -/

/-- To collect failures is to define each form in turn. -/
theorem defineEach_collectAll (s : Session) (forms : List SExpr) :
    (s.withPolicy .collectAll).defineEach forms =
      ⟨(s.attempts forms).filterMap Attempt.entry?,
        (s.attempts forms).filterMap Attempt.diagnostic?,
        (s.run (forms.map .define)).withPolicy .collectAll⟩ := by
  induction forms generalizing s with
  | nil => rfl
  | cons form forms ih =>
    cases hanswer : (s.define form).1 with
    | ok entry =>
      have h := define_of_ok hanswer
      rw [attempts_of_ok h, run_of_ok h, defineEach_of_ok (define_withPolicy_of_ok h _),
        ih (s.enter entry)]
      rfl
    | error d =>
      have hpolicy : (s.withPolicy .collectAll).policy = .collectAll := rfl
      rw [attempts_of_error hanswer, run_of_error hanswer,
        defineEach_of_error (define_withPolicy_of_error hanswer _), hpolicy, ih s]
      rfl

/-- To stop at the first failure is to define each form before it. -/
theorem defineEach_failFast (s : Session) (forms : List SExpr) :
    (s.withPolicy .failFast).defineEach forms =
      ⟨((s.attempts forms).takeWhile Attempt.declares).filterMap Attempt.entry?,
        ((s.attempts forms).filterMap Attempt.diagnostic?).take 1,
        (s.run ((((s.attempts forms).takeWhile Attempt.declares).map Attempt.form).map
          .define)).withPolicy .failFast⟩ := by
  induction forms generalizing s with
  | nil => rfl
  | cons form forms ih =>
    cases hanswer : (s.define form).1 with
    | ok entry =>
      have h := define_of_ok hanswer
      rw [attempts_of_ok h, List.takeWhile_cons_of_pos rfl, List.map_cons, run_of_ok h,
        defineEach_of_ok (define_withPolicy_of_ok h _), ih (s.enter entry)]
      rfl
    | error d =>
      rw [attempts_of_error hanswer, List.takeWhile_cons_of_neg (by exact Bool.false_ne_true),
        defineEach_of_error (define_withPolicy_of_error hanswer _)]
      rfl

/-- The forms that declare something declare it also without the others. -/
theorem defineEach_declaring (s : Session) (forms : List SExpr) :
    (s.withPolicy .failFast).defineEach
        (((s.attempts forms).filter Attempt.declares).map Attempt.form) =
      ⟨(s.attempts forms).filterMap Attempt.entry?, [],
        (s.run (forms.map .define)).withPolicy .failFast⟩ := by
  induction forms generalizing s with
  | nil => rfl
  | cons form forms ih =>
    cases hanswer : (s.define form).1 with
    | ok entry =>
      have h := define_of_ok hanswer
      rw [attempts_of_ok h, List.filter_cons_of_pos rfl, List.map_cons, run_of_ok h,
        defineEach_of_ok (define_withPolicy_of_ok h _), ih (s.enter entry)]
      rfl
    | error d =>
      rw [attempts_of_error hanswer, List.filter_cons_of_neg (by exact Bool.false_ne_true), ih s,
        run_of_error hanswer]
      rfl

/-! ## Answers -/

theorem load_collectAll (s : Session) (forms : List SExpr) :
    (s.withPolicy .collectAll).load forms =
      (match failures (s.attempts forms) with
        | [] => .ok ((s.attempts forms).filterMap Attempt.entry?)
        | diagnostics => .error (.collection (diagnostics.map .single)),
        (s.run (forms.map .define)).withPolicy .collectAll) := by
  simp only [load, defineEach_collectAll, failures]
  generalize (s.attempts forms).filterMap Attempt.diagnostic? = diagnostics
  cases diagnostics with
  | nil => rfl
  | cons d ds => rfl

/-- Loading fails if a form fails, and reports all that fail. -/
theorem load_collectAll_error (s : Session) (forms : List SExpr) :
    ((∃ report, ((s.withPolicy .collectAll).load forms).1 = .error report) ↔
        ∃ a ∈ s.attempts forms, a.declares = false) ∧
      ∀ report, ((s.withPolicy .collectAll).load forms).1 = .error report →
        report.diagnostics = failures (s.attempts forms) := by
  have hnil : failures (s.attempts forms) = [] ↔ ∀ a ∈ s.attempts forms, a.declares = true :=
    failures_eq_nil_iff
  rw [load_collectAll]
  generalize failures (s.attempts forms) = diagnostics at hnil ⊢
  cases diagnostics with
  | nil =>
    refine ⟨⟨fun ⟨_, h⟩ => (by cases h), fun ⟨a, ha, hfalse⟩ => ?_⟩, fun _ h => (by cases h)⟩
    rw [hnil.1 rfl a ha] at hfalse
    cases hfalse
  | cons d ds =>
    refine ⟨⟨fun _ => ?_, fun _ => ⟨_, rfl⟩⟩, fun report hreport => ?_⟩
    · by_contra hnone
      refine List.cons_ne_nil d ds (hnil.2 fun a ha => ?_)
      by_contra hfalse
      exact hnone ⟨a, ha, Bool.eq_false_iff.2 hfalse⟩
    · obtain rfl := Except.error.inj hreport
      exact Report.allDiagnostics_map_single (d :: ds)

/-- The forms that declare something load alone. -/
theorem load_declaring (s : Session) (forms : List SExpr) :
    (s.withPolicy .failFast).load
        (((s.attempts forms).filter Attempt.declares).map Attempt.form) =
      (.ok ((s.attempts forms).filterMap Attempt.entry?),
        (s.run (forms.map .define)).withPolicy .failFast) := by
  simp only [load, defineEach_declaring]

/-- Loading stops at the first form that fails. -/
theorem load_failFast_of_error (s : Session) {before : List SExpr} {form : SExpr}
    {d : Diagnostic} (hbefore : ∀ a ∈ s.attempts before, a.declares = true)
    (herror : ((s.run (before.map .define)).define form).1 = .error d) (after : List SExpr) :
    (s.withPolicy .failFast).load (before ++ form :: after) =
      (.error (.single d), (s.run (before.map .define)).withPolicy .failFast) := by
  have hattempts : s.attempts (before ++ form :: after) = s.attempts before ++
      ⟨form, .error d⟩ :: (s.run (before.map .define)).attempts after := by
    rw [attempts_append, attempts_of_error herror]
  have hpassed : (s.attempts (before ++ form :: after)).takeWhile Attempt.declares =
      s.attempts before := by
    rw [hattempts, List.takeWhile_append_of_pos hbefore,
      List.takeWhile_cons_of_neg (by exact Bool.false_ne_true), List.append_nil]
  have hfirst : ((s.attempts (before ++ form :: after)).filterMap Attempt.diagnostic?).take 1 =
      [d] := by
    have hnone : (s.attempts before).filterMap Attempt.diagnostic? = [] :=
      failures_eq_nil_iff.2 hbefore
    rw [hattempts, List.filterMap_append, hnone]
    rfl
  simp only [load, defineEach_failFast, hpassed, hfirst, map_form_attempts]
  rfl

/-- **The two load policies agree.** To go on after failures ends where definitions of the forms in
turn end. It fails if one of them fails, and reports all that fail, each for the reason that its
definition is refused for at that point. The forms that declare something, loaded alone up to the
first failure, have no failure, declare the same, and end in the same signature and scope. To stop
at the first failure ends where the definitions before it end, and reports this one alone. -/
theorem load_policies (s : Session) (forms : List SExpr) :
    let collecting := s.withPolicy .collectAll
    let stopping := s.withPolicy .failFast
    let attempts := collecting.attempts forms
    ((collecting.load forms).2 = collecting.run (forms.map .define) ∧
      ((∃ report, (collecting.load forms).1 = .error report) ↔
        ∃ a ∈ attempts, a.declares = false) ∧
      ∀ report, (collecting.load forms).1 = .error report →
        report.diagnostics = failures attempts) ∧
    (∃ last, stopping.load ((attempts.filter Attempt.declares).map Attempt.form) =
        (.ok (attempts.filterMap Attempt.entry?), last) ∧
      last.env = (collecting.load forms).2.env ∧ last.scope = (collecting.load forms).2.scope) ∧
    ∀ before form after d, forms = before ++ form :: after →
      (∀ a ∈ stopping.attempts before, a.declares = true) →
      ((stopping.run (before.map .define)).define form).1 = .error d →
      stopping.load forms = (.error (.single d), stopping.run (before.map .define)) := by
  intro collecting stopping attempts
  have hattempts : attempts = s.attempts forms := attempts_withPolicy s .collectAll forms
  have hload : (collecting.load forms).2 = (s.run (forms.map .define)).withPolicy .collectAll := by
    rw [load_collectAll]
  have herror := load_collectAll_error s forms
  rw [← hattempts] at herror
  refine ⟨⟨?_, herror⟩, ⟨(s.run (forms.map .define)).withPolicy .failFast, ?_, ?_, ?_⟩, ?_⟩
  · rw [hload, run_withPolicy]
  · rw [hattempts]
    exact load_declaring s forms
  · rw [hload]
    rfl
  · rw [hload]
    rfl
  · rintro before form after d rfl hbefore hform
    rw [attempts_withPolicy] at hbefore
    rw [run_withPolicy, define_withPolicy] at hform
    rw [run_withPolicy]
    exact load_failFast_of_error s hbefore hform after

end Arithmetic

/-- A form in the middle that fails is passed over by one policy, and ends the load by the other. -/
theorem load_policies_withSeven :
    let s := start ⟨100, 100⟩ .failFast
    let missing : SExpr := .list {} [.sym {} "defn", .sym {} "y", .sym {} "missing"]
    let d : Diagnostic := ⟨.unknownIdentifier "missing", {}⟩
    let forms := [sevenForm, missing, spliceForm]
    ((s.run [.define sevenForm]).define missing).1 = .error d ∧
      s.load forms = (.error (.single d), s.run [.define sevenForm]) ∧
      ((s.withPolicy .collectAll).load forms).2.env.signature.names =
        ["number", "string", "seven", "x"] := by
  intro s missing d forms
  obtain ⟨⟨hcollect, -⟩, -, hstop⟩ := load_policies s forms
  have hbefore : ∀ a ∈ s.attempts [sevenForm], a.declares = true := by decide +kernel
  have herror : ((s.run [.define sevenForm]).define missing).1 = .error d := by decide +kernel
  refine ⟨herror, hstop [sevenForm] missing [spliceForm] d rfl hbefore herror, ?_⟩
  rw [hcollect]
  decide +kernel

end Session

end StagedTT
