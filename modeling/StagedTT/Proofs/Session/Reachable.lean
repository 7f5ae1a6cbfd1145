import StagedTT.Proofs.Surface.FormSound
import StagedTT.Surface.Session

/-!
# Runs of a session

A definition enters what its form declares, or leaves the session as it is (`Session.define_eq`),
and a query leaves it as it is in any case (`Session.perform_of_reads`).

A session is reached from the one that declares the types of literals by calls. What holds at the
start and is kept by every definition that succeeds holds of all reached sessions
(`Session.Reachable.invariant`); so their two stores are in step (`Session.Reachable.stores`), their
signatures are sound (`Session.Reachable.sound`), and their scopes mirror their signatures
(`Session.Reachable.mirrors`). What a loaded list of forms is refused for is what one of its
definitions is refused for (`Session.Reachable.load_diagnostics`).
-/

namespace StagedTT

namespace Session

variable {s s' : Session} {form : SExpr} {entry : Entry} {d : Diagnostic}

/-! ## Calls -/

/-- A query leaves a session as it is. -/
theorem perform_of_reads {α : Type} (s : Session) (work : Elaboration α) (h : work.Reads) :
    (s.perform work).2 = s := by
  show { s with env := (work s.env).2 } = s
  rw [h]

/-- The session in which one more entry is made. -/
def enter (s : Session) (entry : Entry) : Session :=
  { s with
    env :=
      { s.env with
        signature := ⟨entry :: s.env.signature.table, s.env.signature.order ++ [entry.1]⟩ }
    scope := s.scope.define entry.1 entry.2.phase }

/-- The forms that a call hands over. -/
def Call.forms : Call → List SExpr
  | .define form => [form]
  | .load forms => forms
  | .elaborate _ | .infer _ | .normalize _ => []

section Arithmetic

variable [IndexArithmetic]

theorem infer_eq (s : Session) (e : SExpr) :
    s.infer e = s.elaborate e >>= fun t => e.location.reportKernel (s.inferTerm t) := by
  show (Elaboration.typeOf s.scope e).answer s.env = _
  rw [Elaboration.typeOf, Elaboration.expression, Elaboration.answer_ask_bind]
  rfl

theorem normalize_eq (s : Session) (e : SExpr) :
    s.normalize e = s.elaborate e >>= fun t => e.location.reportKernel (s.normalizeTerm t) := by
  show (Elaboration.normalForm s.scope e).answer s.env = _
  rw [Elaboration.normalForm, Elaboration.expression, Elaboration.answer_ask_bind]
  rfl

/-- **A definition enters what its form declares, or leaves the session as it is.** -/
theorem define_eq (s : Session) (form : SExpr) :
    s.define form =
      match s.env.elaborateForm s.scope form with
      | .ok entry => (.ok entry, s.enter entry)
      | .error d => (.error d, s) := by
  have hinstalls := Elaboration.installs_form s.scope form s.env
  unfold define perform Environment.elaborateForm Elaboration.answer
  rcases hrun : Elaboration.form s.scope form s.env with ⟨d | entry, env⟩
  · rw [hrun] at hinstalls
    obtain rfl : env = s.env := hinstalls
    rfl
  · rw [hrun] at hinstalls
    obtain ⟨signature, hinsert, rfl⟩ := hinstalls
    obtain ⟨-, rfl⟩ := Signature.insert?_eq_some.1 hinsert
    rfl

/-- A definition is answered with what its form declares. -/
theorem define_fst (s : Session) (form : SExpr) :
    (s.define form).1 = s.env.elaborateForm s.scope form := by
  rw [define_eq]
  cases s.env.elaborateForm s.scope form <;> rfl

/-- What is done by a definition depends on its answer alone. -/
theorem define_of_ok (h : (s.define form).1 = .ok entry) :
    s.define form = (.ok entry, s.enter entry) := by
  rw [define_fst] at h
  rw [define_eq, h]

theorem define_of_error (h : (s.define form).1 = .error d) : s.define form = (.error d, s) := by
  rw [define_fst] at h
  rw [define_eq, h]

/-- **A definition that fails leaves the session as it is.** -/
theorem define_eq_error (h : s.define form = (.error d, s')) : s' = s :=
  congrArg Prod.snd (h.symm.trans (define_of_error (congrArg Prod.fst h)))

/-- A change of a session that no answer depends on may be made before a definition or after it. -/
theorem define_map {f : Session → Session} (hanswer : ((f s).define form).1 = (s.define form).1)
    (henter : ∀ entry, (f s).enter entry = f (s.enter entry)) :
    (f s).define form = (s.define form).map id f := by
  cases hfst : (s.define form).1 with
  | ok entry =>
    rw [define_of_ok hfst, define_of_ok (hanswer.trans hfst), henter]
    rfl
  | error d =>
    rw [define_of_error hfst, define_of_error (hanswer.trans hfst)]
    rfl

/-- All that a definition does to a session. -/
theorem define_eq_ok (h : s.define form = (.ok entry, s')) :
    ∃ signature, s.env.Declares s.scope form entry ∧
      s.env.signature.insert? entry.1 entry.2 = some signature ∧
      s' = { s with env := { s.env with signature }
                    scope := s.scope.define entry.1 entry.2.phase } := by
  have hanswer := congrArg Prod.fst h
  obtain rfl : s' = s.enter entry := congrArg Prod.snd (h.symm.trans (define_of_ok hanswer))
  rw [define_fst] at hanswer
  have hdeclares := (s.env.elaborateForm_declares s.scope form).of_ok hanswer
  exact ⟨_, hdeclares, Signature.insert?_eq_some.2 ⟨hdeclares.free, rfl⟩, rfl⟩

theorem call_elaborate (s : Session) (e : SExpr) : (s.call (.elaborate e)).2 = s :=
  s.perform_of_reads (.expression s.scope e) (Elaboration.reads_expression s.scope e)

theorem call_infer (s : Session) (e : SExpr) : (s.call (.infer e)).2 = s :=
  s.perform_of_reads (.typeOf s.scope e) (Elaboration.reads_typeOf s.scope e)

theorem call_normalize (s : Session) (e : SExpr) : (s.call (.normalize e)).2 = s :=
  s.perform_of_reads (.normalForm s.scope e) (Elaboration.reads_normalForm s.scope e)

/-! ## Reached sessions -/

/-- A session that is reached by calls with forms of a kind alone. Calls may fail, and forms be
loaded under either policy. -/
inductive Reachable (allowed : SExpr → Prop) : Session → Prop
  | start (limits : Limits) (policy : Policy) : Reachable allowed (.start limits policy)
  | call {s : Session} {c : Call} : Reachable allowed s → (∀ form ∈ c.forms, allowed form) →
      Reachable allowed (s.call c).2

theorem Reachable.define {allowed : SExpr → Prop} (hs : Reachable allowed s) (hform : allowed form)
    (h : s.define form = (.ok entry, s')) : Reachable allowed s' := by
  have hcall := hs.call (c := .define form) (List.forall_mem_singleton.2 hform)
  rwa [show (s.call (.define form)).2 = s' from congrArg Prod.snd h] at hcall

theorem Reachable.load {allowed : SExpr → Prop} (hs : Reachable allowed s) {forms : List SExpr}
    (hforms : ∀ form ∈ forms, allowed form) : Reachable allowed (s.load forms).2 :=
  hs.call (c := .load forms) hforms

section Invariant

variable {allowed : SExpr → Prop} {P : Session → Prop}
  (hdefine : ∀ s form entry s', P s → allowed form → s.define form = (.ok entry, s') → P s')

include hdefine

theorem defineEach_invariant {s : Session} (hs : P s) {forms : List SExpr}
    (hforms : ∀ form ∈ forms, allowed form) : P (s.defineEach forms).session := by
  induction forms generalizing s with
  | nil =>
    rw [defineEach]
    exact hs
  | cons form forms ih =>
    obtain ⟨hform, hforms⟩ := List.forall_mem_cons.1 hforms
    rw [defineEach]
    split
    · next entry next hok => exact ih (hdefine s form entry next hs hform hok) hforms
    · next d next herror =>
      obtain rfl := define_eq_error herror
      split
      · exact hs
      · exact ih hs hforms

/-- What is kept by every definition that succeeds is kept by every call. -/
theorem call_invariant {s : Session} (hs : P s) {c : Call}
    (hforms : ∀ form ∈ c.forms, allowed form) : P (s.call c).2 := by
  cases c with
  | define form =>
    show P (s.define form).2
    rcases h : s.define form with ⟨d | entry, next⟩
    · obtain rfl := define_eq_error h
      exact hs
    · exact hdefine s form entry next hs (List.forall_mem_singleton.1 hforms) h
  | load forms => exact defineEach_invariant hdefine hs hforms
  | elaborate e => rwa [call_elaborate]
  | infer e => rwa [call_infer]
  | normalize e => rwa [call_normalize]

/-- What holds at the start and is kept by every definition holds of all reached sessions. -/
theorem Reachable.invariant (hstart : ∀ limits policy, P (.start limits policy)) {s : Session}
    (h : Reachable allowed s) : P s := by
  induction h with
  | start limits policy => exact hstart limits policy
  | call _ hforms ih => exact call_invariant hdefine ih hforms

end Invariant

variable {allowed : SExpr → Prop}

/-- An invariant that is kept by the definitions of reached sessions. -/
theorem Reachable.invariant_of_reachable {P : Session → Prop}
    (hdefine : ∀ s form entry s', Reachable allowed s → P s → allowed form →
      s.define form = (.ok entry, s') → P s')
    (hstart : ∀ limits policy, P (.start limits policy)) (h : Reachable allowed s) : P s := by
  refine (h.invariant (P := fun s => Reachable allowed s ∧ P s)
    (fun s form entry s' ⟨hreach, hs⟩ hform hok => ?_) fun limits policy => ?_).2
  · exact ⟨hreach.define hform hok, hdefine s form entry s' hreach hs hform hok⟩
  · exact ⟨.start limits policy, hstart limits policy⟩

/-- **The two stores of a reached signature are in step.** -/
theorem Reachable.stores (h : Reachable allowed s) : s.env.signature.Coherent := by
  refine h.invariant (P := fun s => s.env.signature.Coherent) (fun s form entry s' hs _ hok => ?_)
    fun _ _ => Signature.coherent_empty.withBaseTypes
  obtain ⟨signature, -, hinsert, rfl⟩ := define_eq_ok hok
  exact hs.insert? hinsert

/-- Every entry of a reached signature is what its name is declared as. -/
theorem Reachable.find?_of_mem (h : Reachable allowed s) {entry : Entry}
    (hentry : entry ∈ s.env.signature.entries) :
    s.env.signature.find? entry.1 = some entry.2 :=
  h.stores.mem_entries.1 hentry

/-- **The scope mirrors the signature** in every reached session. -/
theorem Reachable.mirrors (h : Reachable allowed s) : s.scope.Mirrors s.env.signature := by
  refine h.invariant (P := fun s => s.scope.Mirrors s.env.signature)
    (fun s form entry s' hs _ hok => ?_) fun limits policy => ?_
  · obtain ⟨signature, -, hinsert, rfl⟩ := define_eq_ok hok
    refine ⟨hs.binders, fun n => ?_⟩
    change (s.scope.define entry.1 entry.2.phase).phase? n = signature.phase? n
    rw [Signature.phase?, Signature.find?_insert? hinsert, Scope.phase?_define]
    by_cases hn : n = entry.1
    · rw [if_pos hn, if_pos hn]
      rfl
    · rw [if_neg hn, if_neg hn]
      exact hs.phase? n
  · exact ⟨rfl, Scope.phase?_ofSignature Signature.coherent_empty.withBaseTypes⟩

/-! ## Failures -/

theorem Reachable.defineEach_diagnostics {Q : Diagnostic → Prop}
    (hfail : ∀ s form d, Reachable allowed s → (s.define form).1 = .error d → Q d)
    (h : Reachable allowed s) {forms : List SExpr} (hforms : ∀ form ∈ forms, allowed form) :
    ∀ d ∈ (s.defineEach forms).diagnostics, Q d := by
  induction forms generalizing s with
  | nil =>
    intro d hd
    rw [defineEach] at hd
    cases hd
  | cons form forms ih =>
    obtain ⟨hform, hforms⟩ := List.forall_mem_cons.1 hforms
    rw [defineEach]
    split
    · next entry next hok => exact ih (.define h hform hok) hforms
    · next d next herror =>
      have hd := hfail s form d h (congrArg Prod.fst herror)
      obtain rfl := define_eq_error herror
      split
      · exact List.forall_mem_singleton.2 hd
      · exact List.forall_mem_cons.2 ⟨hd, ih h hforms⟩

/-- Whatever is true of all that definitions report is true of all that loading reports. -/
theorem Reachable.load_diagnostics {Q : Diagnostic → Prop}
    (hfail : ∀ s form d, Reachable allowed s → (s.define form).1 = .error d → Q d)
    (h : Reachable allowed s) {forms : List SExpr} (hforms : ∀ form ∈ forms, allowed form)
    {report : Report} (hload : (s.load forms).1 = .error report) :
    ∀ d ∈ report.diagnostics, Q d := by
  have hall := h.defineEach_diagnostics hfail hforms
  simp only [Session.load] at hload
  generalize (s.defineEach forms).diagnostics = diagnostics at hall hload
  generalize s.policy = policy at hload
  cases diagnostics with
  | nil => cases hload
  | cons first rest =>
    cases policy with
    | failFast =>
      obtain rfl := Except.error.inj hload
      exact List.forall_mem_singleton.2 (hall first List.mem_cons_self)
    | collectAll =>
      obtain rfl := Except.error.inj hload
      rw [Report.diagnostics, Report.allDiagnostics_map_single]
      exact hall

end Arithmetic

/-! ## Signatures -/

/-- **Every reached signature is sound.** -/
theorem Reachable.sound (h : Reachable allowed s) : s.env.signature.Sound := by
  refine h.invariant (P := fun s => s.env.signature.Sound) (fun s form entry s' hs _ hok => ?_)
    fun _ _ => Signature.sound_withBaseTypes
  obtain ⟨signature, hdeclares, hinsert, rfl⟩ := define_eq_ok hok
  exact hs.insert? hinsert (hdeclares.sound hs)

end Session

end StagedTT
