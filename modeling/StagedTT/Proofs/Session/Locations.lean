import StagedTT.Proofs.Session.Policies
import StagedTT.Proofs.Surface.Locations

/-!
# Locations in a session

Forms that are the same but for their locations are answered the same but for the places of
diagnostics: one after another, loaded as a list, or looked at by a query
(`Session.same_of_eraseLocations_eq`).
-/

namespace StagedTT

/-! ## Erasure -/

/-- The diagnostic at no place. -/
def Diagnostic.eraseLocation (d : Diagnostic) : Diagnostic := ⟨d.fault, {}⟩

namespace Report

mutual

/-- The report with every place forgotten. -/
def eraseLocations : Report → Report
  | .single d => .single d.eraseLocation
  | .collection reports => .collection (eraseAll reports)

/-- Reports with every place forgotten. -/
def eraseAll : List Report → List Report
  | [] => []
  | report :: reports => eraseLocations report :: eraseAll reports

end

theorem eraseAll_map_single (ds : List Diagnostic) :
    eraseAll (ds.map .single) = (ds.map Diagnostic.eraseLocation).map .single := by
  induction ds with
  | nil => rfl
  | cons d ds ih => simp only [List.map_cons, eraseAll, eraseLocations, ih]

end Report

section Unplaced

variable {α : Type} {r : Except Diagnostic α}

theorem eq_ok_of_unplaced {a : α} (h : unplaced r = .ok a) : r = .ok a := by
  cases r with
  | ok b =>
    obtain rfl := Except.ok.inj h
    rfl
  | error d => cases h

theorem eq_error_of_unplaced {fault : Fault} (h : unplaced r = .error fault) :
    ∃ loc, r = .error ⟨fault, loc⟩ := by
  cases r with
  | ok b => cases h
  | error d =>
    obtain rfl := Except.error.inj h
    exact ⟨d.location, rfl⟩

end Unplaced

namespace Session

/-- The outcome with the places of its diagnostics forgotten. -/
def Outcome.eraseLocations (o : Outcome) : Outcome :=
  { o with diagnostics := o.diagnostics.map Diagnostic.eraseLocation }

section Arithmetic

variable [IndexArithmetic] {s : Session} {form : SExpr} {entry : Entry} {d : Diagnostic}

/-! ## One form -/

/-- A form without its locations declares the same. -/
theorem unplaced_define (s : Session) (form : SExpr) :
    unplaced (s.define form.eraseLocations).1 = unplaced (s.define form).1 := by
  rw [define_fst, define_fst]
  exact s.env.unplaced_elaborateForm s.scope form

theorem define_eraseLocations_of_ok (h : (s.define form).1 = .ok entry) :
    (s.define form.eraseLocations).1 = .ok entry := by
  refine eq_ok_of_unplaced ?_
  rw [unplaced_define, h]
  rfl

theorem define_eraseLocations_of_error (h : (s.define form).1 = .error d) :
    ∃ loc, (s.define form.eraseLocations).1 = .error ⟨d.fault, loc⟩ := by
  refine eq_error_of_unplaced ?_
  rw [unplaced_define, h]
  rfl

/-- A form without its locations leads to the same session. -/
theorem define_eraseLocations_snd (s : Session) (form : SExpr) :
    (s.define form.eraseLocations).2 = (s.define form).2 := by
  cases h : (s.define form).1 with
  | ok entry => rw [define_of_ok (define_eraseLocations_of_ok h), define_of_ok h]
  | error d =>
    obtain ⟨loc, herased⟩ := define_eraseLocations_of_error h
    rw [define_of_error herased, define_of_error h]

/-! ## Lists of forms -/

theorem unplaced_attempts (s : Session) (forms : List SExpr) :
    (s.attempts (forms.map SExpr.eraseLocations)).map (fun a => unplaced a.answer) =
      (s.attempts forms).map (fun a => unplaced a.answer) := by
  induction forms generalizing s with
  | nil => rfl
  | cons form forms ih =>
    simp only [List.map_cons, attempts, unplaced_define, define_eraseLocations_snd, ih]

theorem run_eraseLocations (s : Session) (forms : List SExpr) :
    s.run ((forms.map SExpr.eraseLocations).map .define) = s.run (forms.map .define) := by
  induction forms generalizing s with
  | nil => rfl
  | cons form forms ih =>
    show Session.run (s.define form.eraseLocations).2 _ = Session.run (s.define form).2 _
    rw [define_eraseLocations_snd, ih]

/-- Forms without their locations declare the same, and are refused for the same faults. -/
theorem defineEach_eraseLocations (s : Session) (forms : List SExpr) :
    (s.defineEach (forms.map SExpr.eraseLocations)).eraseLocations =
      (s.defineEach forms).eraseLocations := by
  induction forms generalizing s with
  | nil => rfl
  | cons form forms ih =>
    cases h : (s.define form).1 with
    | ok entry =>
      have hrest := ih (s.enter entry)
      rw [List.map_cons, defineEach_of_ok (define_of_ok (define_eraseLocations_of_ok h)),
        defineEach_of_ok (define_of_ok h)]
      simp only [Outcome.eraseLocations, Outcome.mk.injEq] at hrest ⊢
      obtain ⟨hinstalled, hdiagnostics, hsession⟩ := hrest
      exact ⟨by rw [hinstalled], hdiagnostics, hsession⟩
    | error d =>
      obtain ⟨loc, herased⟩ := define_eraseLocations_of_error h
      rw [List.map_cons, defineEach_of_error herased, defineEach_of_error h]
      cases s.policy with
      | failFast => rfl
      | collectAll =>
        have hrest := ih s
        simp only [Outcome.eraseLocations, Outcome.mk.injEq, List.map_cons] at hrest ⊢
        obtain ⟨hinstalled, hdiagnostics, hsession⟩ := hrest
        exact ⟨hinstalled, by rw [hdiagnostics]; rfl, hsession⟩

/-- What loading answers, less the places, is read off its outcome, less the places. -/
theorem load_mapError (s : Session) (forms : List SExpr) :
    (s.load forms).1.mapError Report.eraseLocations =
      match (s.defineEach forms).eraseLocations.diagnostics, s.policy with
      | [], _ => .ok (s.defineEach forms).eraseLocations.installed
      | diagnostic :: _, .failFast => .error (.single diagnostic)
      | diagnostics, .collectAll => .error (.collection (diagnostics.map .single)) := by
  simp only [load, Outcome.eraseLocations]
  generalize s.defineEach forms = outcome
  cases outcome.diagnostics with
  | nil => rfl
  | cons d ds =>
    cases s.policy with
    | failFast => rfl
    | collectAll =>
      show Except.error (Report.collection (Report.eraseAll ((d :: ds).map .single))) = _
      rw [Report.eraseAll_map_single]
      rfl

theorem load_eraseLocations (s : Session) (forms : List SExpr) :
    (s.load (forms.map SExpr.eraseLocations)).1.mapError Report.eraseLocations =
        (s.load forms).1.mapError Report.eraseLocations ∧
      (s.load (forms.map SExpr.eraseLocations)).2 = (s.load forms).2 := by
  have houtcome := s.defineEach_eraseLocations forms
  refine ⟨?_, ?_⟩
  · rw [load_mapError, load_mapError, houtcome]
  · show (s.defineEach (forms.map SExpr.eraseLocations)).eraseLocations.session = _
    rw [houtcome]
    rfl

/-! ## Queries -/

theorem unplaced_elaborate (s : Session) (e : SExpr) :
    unplaced (s.elaborate e.eraseLocations) = unplaced (s.elaborate e) :=
  e.unplaced_elaborate s.env s.scope e.location e.eraseLocations.location

theorem unplaced_infer (s : Session) (e : SExpr) :
    unplaced (s.infer e.eraseLocations) = unplaced (s.infer e) := by
  rw [infer_eq, infer_eq]
  refine unplaced_bind_congr (s.unplaced_elaborate e) fun t => ?_
  rw [unplaced_reportKernel, unplaced_reportKernel]

theorem unplaced_normalize (s : Session) (e : SExpr) :
    unplaced (s.normalize e.eraseLocations) = unplaced (s.normalize e) := by
  rw [normalize_eq, normalize_eq]
  refine unplaced_bind_congr (s.unplaced_elaborate e) fun t => ?_
  rw [unplaced_reportKernel, unplaced_reportKernel]

/-! ## Noninterference -/

/-- **Locations serve diagnostics alone.** A form that differs in locations alone declares the same
and leaves the same session, or is refused for the same fault. Forms that do so in a list are
answered the same one by one, end in the same session, and load to the same entries or to reports
that differ in places alone. Queries answer the same. -/
theorem same_of_eraseLocations_eq (s : Session) :
    (∀ form form' : SExpr, form.eraseLocations = form'.eraseLocations →
      unplaced (s.define form).1 = unplaced (s.define form').1 ∧
        (s.define form).2 = (s.define form').2) ∧
    (∀ forms forms' : List SExpr,
      forms.map SExpr.eraseLocations = forms'.map SExpr.eraseLocations →
      (s.attempts forms).map (fun a => unplaced a.answer) =
          (s.attempts forms').map (fun a => unplaced a.answer) ∧
        s.run (forms.map .define) = s.run (forms'.map .define) ∧
        (s.load forms).1.mapError Report.eraseLocations =
          (s.load forms').1.mapError Report.eraseLocations ∧
        (s.load forms).2 = (s.load forms').2) ∧
    ∀ e e' : SExpr, e.eraseLocations = e'.eraseLocations →
      unplaced (s.elaborate e) = unplaced (s.elaborate e') ∧
        unplaced (s.infer e) = unplaced (s.infer e') ∧
        unplaced (s.normalize e) = unplaced (s.normalize e') := by
  refine ⟨fun form form' h => ⟨?_, ?_⟩, fun forms forms' h => ⟨?_, ?_, ?_, ?_⟩,
    fun e e' h => ⟨?_, ?_, ?_⟩⟩
  · rw [← s.unplaced_define form, h, s.unplaced_define form']
  · rw [← s.define_eraseLocations_snd form, h, s.define_eraseLocations_snd form']
  · rw [← s.unplaced_attempts forms, h, s.unplaced_attempts forms']
  · rw [← s.run_eraseLocations forms, h, s.run_eraseLocations forms']
  · rw [← (s.load_eraseLocations forms).1, h, (s.load_eraseLocations forms').1]
  · rw [← (s.load_eraseLocations forms).2, h, (s.load_eraseLocations forms').2]
  · rw [← s.unplaced_elaborate e, h, s.unplaced_elaborate e']
  · rw [← s.unplaced_infer e, h, s.unplaced_infer e']
  · rw [← s.unplaced_normalize e, h, s.unplaced_normalize e']

end Arithmetic

/-- A form on one line and on another is refused at different places, for the same fault. -/
theorem same_of_eraseLocations_eq_withMissing :
    let s := start ⟨100, 100⟩ .collectAll
    let missing (line : Nat) : SExpr :=
      .list ⟨line, 1, 20⟩ [.sym ⟨line, 2, 4⟩ "defn", .sym ⟨line, 7, 1⟩ "y",
        .sym ⟨line, 9, 7⟩ "missing"]
    (s.define (missing 1)).1 = .error ⟨.unknownIdentifier "missing", ⟨1, 9, 7⟩⟩ ∧
      (s.define (missing 2)).1 = .error ⟨.unknownIdentifier "missing", ⟨2, 9, 7⟩⟩ ∧
      unplaced (s.define (missing 1)).1 = unplaced (s.define (missing 2)).1 ∧
      (s.load [missing 1, sevenForm]).2 = (s.load [missing 2, sevenForm]).2 ∧
      unplaced (s.infer (missing 1)) = unplaced (s.infer (missing 2)) := by
  intro s missing
  obtain ⟨hdefine, hload, hquery⟩ := same_of_eraseLocations_eq s
  have hone : (s.define (missing 1)).1 = .error ⟨.unknownIdentifier "missing", ⟨1, 9, 7⟩⟩ := by
    decide +kernel
  have htwo : (s.define (missing 2)).1 = .error ⟨.unknownIdentifier "missing", ⟨2, 9, 7⟩⟩ := by
    decide +kernel
  exact ⟨hone, htwo, (hdefine _ _ rfl).1,
    (hload [missing 1, sevenForm] [missing 2, sevenForm] rfl).2.2.2, (hquery _ _ rfl).2.1⟩

end Session

end StagedTT
