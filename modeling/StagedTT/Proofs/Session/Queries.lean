import StagedTT.Proofs.Session.Locations

/-!
# Definitions and queries

A definition `(defn n e)` of a free name is made of two queries: it declares what `infer` and
`normalize` answer for `e`, and is refused for what they are refused for
(`Session.unplaced_define_defn`). The three differ in the places alone at which the refusals of the
kernel are reported, so what the queries say about an expression is what a definition would make of
it (`Session.defn_iff_queries`).
-/

namespace StagedTT

section Unplaced

variable {α β : Type}

theorem unplaced_bind (r : Except Diagnostic α) (f : α → Except Diagnostic β) :
    unplaced (r >>= f) = unplaced r >>= fun a => unplaced (f a) := by
  cases r <;> rfl

end Unplaced

/-- Where the failures of calls are reported makes no difference to what an expression stands
for. -/
theorem SExpr.unplaced_elaborate_at [IndexArithmetic] (e : SExpr) (env : Environment)
    (scope : Scope) (loc loc' : Location) :
    unplaced (e.elaborate env scope loc) = unplaced (e.elaborate env scope loc') :=
  unplaced_bind_congr rfl fun t => by rw [unplaced_report, unplaced_report]

namespace Session

/-- `(defn n e)` -/
def defnForm (loc wordLoc nameLoc : Location) (n : String) (e : SExpr) : SExpr :=
  .list loc [.sym wordLoc "defn", .sym nameLoc n, e]

section Arithmetic

variable [IndexArithmetic] {s : Session} {n : String}

theorem unplaced_infer_eq (s : Session) (e : SExpr) :
    unplaced (s.infer e) =
      unplaced (s.elaborate e) >>= fun t => (s.inferTerm t).mapError .kernel := by
  rw [infer_eq, unplaced_bind]
  simp only [unplaced_reportKernel]

theorem unplaced_normalize_eq (s : Session) (e : SExpr) :
    unplaced (s.normalize e) =
      unplaced (s.elaborate e) >>= fun t => (s.normalizeTerm t).mapError .kernel := by
  rw [normalize_eq, unplaced_bind]
  simp only [unplaced_reportKernel]

theorem unplaced_defineObject_inferred (hfree : s.env.signature.contains n = false)
    (loc nameLoc : Location) (e : SExpr) :
    unplaced (s.env.defineObject s.scope loc (.sym nameLoc n) none e) = (do
      let t ← unplaced (s.elaborate e)
      let T ← (s.inferTerm t).mapError Fault.kernel
      let v ← (s.normalizeTerm t).mapError Fault.kernel
      return (n, ⟨.object, T, some v⟩)) := by
  have hname : s.env.freeName (.sym nameLoc n) = .ok n := by
    rw [Environment.freeName, hfree]
    rfl
  have helaborate : unplaced (e.elaborate s.env s.scope loc) = unplaced (s.elaborate e) :=
    e.unplaced_elaborate_at s.env s.scope loc e.location
  rw [Environment.defineObject_eq, hname]
  show unplaced (e.elaborate s.env s.scope loc >>= _) = _
  simp only [unplaced_bind, helaborate, Environment.definitionType, unplaced_reportKernel]
  rfl

/-- **A definition is made of two queries**, up to the places of diagnostics. -/
theorem unplaced_define_defn (hfree : s.env.signature.contains n = false)
    (loc wordLoc nameLoc : Location) (e : SExpr) :
    unplaced (s.define (defnForm loc wordLoc nameLoc n e)).1 = (do
      let T ← unplaced (s.infer e)
      let v ← unplaced (s.normalize e)
      return (n, ⟨.object, T, some v⟩)) := by
  have hform : s.env.elaborateForm s.scope (defnForm loc wordLoc nameLoc n e) =
      s.env.defineObject s.scope loc (.sym nameLoc n) none e := rfl
  rw [define_fst, hform, unplaced_defineObject_inferred hfree, unplaced_infer_eq,
    unplaced_normalize_eq]
  -- The queries elaborate the expression twice, and get the same term.
  cases unplaced (s.elaborate e) <;> rfl

/-- **What the queries answer is what a definition declares.** A definition of a free name succeeds
exactly if both queries about its body do, and then it enters the inferred type and the normal form
as an object definition. If one of the queries fails, it fails for the same fault, for that of
`infer` if both do. -/
theorem defn_iff_queries (hfree : s.env.signature.contains n = false)
    (loc wordLoc nameLoc : Location) (e : SExpr) :
    (∀ entry next, s.define (defnForm loc wordLoc nameLoc n e) = (.ok entry, next) ↔
      ∃ T v, s.infer e = .ok T ∧ s.normalize e = .ok v ∧ entry = (n, ⟨.object, T, some v⟩) ∧
        next = s.enter entry) ∧
    (∀ d, s.infer e = .error d →
      ∃ place, s.define (defnForm loc wordLoc nameLoc n e) = (.error ⟨d.fault, place⟩, s)) ∧
    ∀ T d, s.infer e = .ok T → s.normalize e = .error d →
      ∃ place, s.define (defnForm loc wordLoc nameLoc n e) = (.error ⟨d.fault, place⟩, s) := by
  have hdefine := unplaced_define_defn hfree loc wordLoc nameLoc e
  refine ⟨fun entry next => ⟨fun h => ?_, ?_⟩, fun d hd => ?_, fun T d hT hd => ?_⟩
  · have hanswer := congrArg Prod.fst h
    obtain rfl : s.enter entry = next :=
      congrArg Prod.snd ((define_of_ok hanswer).symm.trans h)
    rw [hanswer] at hdefine
    cases hT : s.infer e with
    | error d => rw [hT] at hdefine; cases hdefine
    | ok T =>
      cases hv : s.normalize e with
      | error d => rw [hT, hv] at hdefine; cases hdefine
      | ok v =>
        rw [hT, hv] at hdefine
        cases hdefine
        exact ⟨T, v, rfl, rfl, rfl, rfl⟩
  · rintro ⟨T, v, hT, hv, rfl, rfl⟩
    rw [hT, hv] at hdefine
    exact define_of_ok (eq_ok_of_unplaced hdefine)
  · rw [hd] at hdefine
    obtain ⟨place, hanswer⟩ := eq_error_of_unplaced hdefine
    exact ⟨place, define_of_error hanswer⟩
  · rw [hT, hd] at hdefine
    obtain ⟨place, hanswer⟩ := eq_error_of_unplaced hdefine
    exact ⟨place, define_of_error hanswer⟩

end Arithmetic

/-- A definition whose body calls a metalevel definition, and one that mentions itself. -/
theorem defn_iff_queries_withSeven :
    let call : SExpr := .list {} [.sym {} "seven"]
    let seven : Entry := ("y", ⟨.object, .const "number", some (.num 7)⟩)
    withSeven.define (defnForm {} {} {} "y" call) = (.ok seven, withSeven.enter seven) ∧
      ∃ place, withSeven.define (defnForm {} {} {} "y" (.sym ⟨1, 9, 1⟩ "y")) =
        (.error ⟨.unknownIdentifier "y", place⟩, withSeven) := by
  intro call seven
  have hfree : withSeven.env.signature.contains "y" = false := by decide +kernel
  have hinfer : withSeven.infer call = .ok (.const "number") := by decide +kernel
  have hnormalize : withSeven.normalize call = .ok (.num 7) := by decide +kernel
  have hunknown : withSeven.infer (.sym ⟨1, 9, 1⟩ "y") =
      .error ⟨.unknownIdentifier "y", ⟨1, 9, 1⟩⟩ := by
    decide +kernel
  obtain ⟨hok, -, -⟩ := defn_iff_queries hfree {} {} {} call
  obtain ⟨-, herror, -⟩ := defn_iff_queries hfree {} {} {} (.sym ⟨1, 9, 1⟩ "y")
  exact ⟨(hok _ _).2 ⟨_, _, hinfer, hnormalize, rfl, rfl⟩, herror _ hunknown⟩

end Session

end StagedTT
