import StagedTT.Proofs.Session.Stored

/-!
# Growth of a session

Calls come to a session one after another, and each is answered (`Session.call`). In every state on
the way, each declared name stands in the list of entries once, and what expressions may use is what
is declared (`Session.Reachable.coherent`). A definition that succeeds appends the entry that it is
answered with; all that fails, and all that only asks, leaves the session as it is
(`Session.run_grows`).
-/

namespace StagedTT

open Signature (extends_insert?)

namespace Session

/-- The session after some calls. -/
def run [IndexArithmetic] (s : Session) (calls : List Call) : Session :=
  calls.foldl (fun s c => (s.call c).2) s

theorem run_nil [IndexArithmetic] (s : Session) : s.run [] = s := rfl

theorem run_cons [IndexArithmetic] (s : Session) (c : Call) (calls : List Call) :
    s.run (c :: calls) = (s.call c).2.run calls :=
  rfl

variable {s : Session}

theorem Reachable.run [IndexArithmetic] (hs : Reachable (fun _ => True) s) (calls : List Call) :
    Reachable (fun _ => True) (s.run calls) := by
  induction calls generalizing s with
  | nil => exact hs
  | cons c calls ih => exact ih (hs.call fun _ _ => trivial)

/-! ## States -/

/-- The three stores of a session are in step: the order in which names were declared has each name
of the table once, it is what the entries are listed by, and closed expressions may use what is
declared. -/
structure Coherent (s : Session) : Prop where
  stores : s.env.signature.Coherent
  order : s.env.signature.names = s.env.signature.order
  nodup : s.env.signature.names.Nodup
  names : ∀ n, n ∈ s.env.signature.names ↔ s.env.signature.contains n = true
  entries : ∀ n decl,
    (n, decl) ∈ s.env.signature.entries ↔ s.env.signature.find? n = some decl
  depth : s.scope.depth = 0
  resolves : ∀ n p, s.scope.resolve? n = some (.defined p) ↔ s.env.signature.phase? n = some p

section Reached

variable [IndexArithmetic] {allowed : SExpr → Prop} (hs : Reachable allowed s)

include hs

/-- **In every reached session, the scope mirrors the entries**, and each entry has its own name. -/
theorem Reachable.coherent : s.Coherent where
  stores := hs.stores
  order := hs.stores.names_eq
  nodup := by
    rw [hs.stores.names_eq]
    exact hs.stores.nodup
  names n := by
    rw [hs.stores.names_eq]
    exact hs.stores.mem_order n
  entries _ _ := hs.stores.mem_entries
  depth := hs.mirrors.depth
  resolves n p := by
    unfold Scope.resolve?
    rw [hs.mirrors.binders, List.idxOf?_nil, hs.mirrors.phase? n, Option.map_eq_some_iff]
    constructor
    · rintro ⟨_, hphase, ⟨⟩⟩
      exact hphase
    · exact fun hphase => ⟨p, hphase, rfl⟩

end Reached

/-! ## Steps -/

/-- One session has all the entries of another one first, and its options. -/
structure Grows (s' s : Session) : Prop where
  entries : s.env.signature.entries <+: s'.env.signature.entries
  declared : s'.env.signature.Extends s.env.signature
  limits : s'.env.limits = s.env.limits
  policy : s'.policy = s.policy

theorem Grows.refl (s : Session) : s.Grows s := ⟨List.prefix_rfl, fun _ _ h => h, rfl, rfl⟩

theorem Grows.trans {s s' s'' : Session} (h : s'.Grows s) (h' : s''.Grows s') : s''.Grows s where
  entries := h.entries.trans h'.entries
  declared n decl hfind := h'.declared n decl (h.declared n decl hfind)
  limits := h'.limits.trans h.limits
  policy := h'.policy.trans h.policy

section Define

variable [IndexArithmetic] {s' : Session} {form : SExpr} {entry : Entry}
  (hs : s.env.signature.Coherent)

include hs

theorem coherent_of_define (h : s.define form = (.ok entry, s')) : s'.env.signature.Coherent := by
  obtain ⟨signature, -, hinsert, rfl⟩ := define_eq_ok h
  exact hs.insert? hinsert

theorem entries_of_define (h : s.define form = (.ok entry, s')) :
    s'.env.signature.entries = s.env.signature.entries ++ [entry] := by
  obtain ⟨signature, -, hinsert, rfl⟩ := define_eq_ok h
  exact hs.entries_insert? hinsert

theorem grows_of_define (h : s.define form = (.ok entry, s')) : s'.Grows s := by
  have hentries := entries_of_define hs h
  obtain ⟨signature, -, hinsert, rfl⟩ := define_eq_ok h
  exact ⟨⟨[entry], hentries.symm⟩, extends_insert? hinsert, rfl, rfl⟩

/-- What a list of forms declares is appended in order, also if some of them fail. -/
theorem entries_defineEach (forms : List SExpr) :
    (s.defineEach forms).session.env.signature.entries =
      s.env.signature.entries ++ (s.defineEach forms).installed := by
  induction forms generalizing s with
  | nil =>
    rw [defineEach]
    exact (List.append_nil _).symm
  | cons form forms ih =>
    rw [defineEach]
    split
    · next entry next hok =>
      have hnext := ih (coherent_of_define hs hok)
      rw [entries_of_define hs hok, List.append_assoc] at hnext
      exact hnext
    · next d next herror =>
      obtain rfl := define_eq_error herror
      split
      · exact (List.append_nil _).symm
      · exact ih hs

theorem grows_call (c : Call) : (s.call c).2.Grows s ∧ (s.call c).2.env.signature.Coherent := by
  refine call_invariant (P := fun s' => s'.Grows s ∧ s'.env.signature.Coherent)
    (fun s₁ form entry s₂ ⟨hgrows, h₁⟩ _ hok => ?_) ⟨.refl s, hs⟩ fun _ _ => trivial
  exact ⟨hgrows.trans (grows_of_define h₁ hok), coherent_of_define h₁ hok⟩

theorem grows_run (calls : List Call) : (s.run calls).Grows s := by
  induction calls generalizing s with
  | nil => exact .refl s
  | cons c calls ih =>
    obtain ⟨hgrows, hcall⟩ := grows_call hs c
    exact hgrows.trans (ih hcall)

end Define

/-- What is done to a session in a call that is answered. -/
def Answer.Records (before after : Session) : Answer → Prop
  | .defined (.ok entry) =>
    after.env.signature.entries = before.env.signature.entries ++ [entry]
  | .loaded (.ok entries) =>
    after.env.signature.entries = before.env.signature.entries ++ entries
  | .loaded (.error _) => True
  | .defined (.error _) | .term _ => after = before

theorem records_call [IndexArithmetic] (hs : s.env.signature.Coherent) (c : Call) :
    (s.call c).1.Records s (s.call c).2 := by
  cases c with
  | define form =>
    show (Answer.defined (s.define form).1).Records s (s.define form).2
    rcases h : s.define form with ⟨d | entry, next⟩
    · exact define_eq_error h
    · exact entries_of_define hs h
  | load forms =>
    have hentries := entries_defineEach hs forms
    simp only [call, Session.load]
    generalize s.defineEach forms = outcome at hentries ⊢
    obtain ⟨installed, diagnostics, next⟩ := outcome
    cases diagnostics with
    | nil => exact hentries
    | cons d ds =>
      cases s.policy with
      | failFast => trivial
      | collectAll => trivial
  | elaborate e => exact s.call_elaborate e
  | infer e => exact s.call_infer e
  | normalize e => exact s.call_normalize e

/-- **A session grows one checked form at a time.** After any calls each declared name has one
entry, and the scope mirrors the entries. Later calls keep the entries, and add to them what they
are answered with; what fails, and what only asks, leaves the session as it is. -/
theorem run_grows [IndexArithmetic] (limits : Limits) (policy : Policy) (calls : List Call) :
    let s := (start limits policy).run calls
    s.Coherent ∧ (∀ c, (s.call c).1.Records s (s.call c).2) ∧ ∀ later, (s.run later).Grows s := by
  intro s
  have hs : Reachable (fun _ => True) s := (Reachable.start limits policy).run calls
  exact ⟨hs.coherent, records_call hs.stores, grows_run hs.stores⟩

/-- A name that is defined twice is declared once, and a query in between declares nothing. -/
theorem run_grows_withSeven :
    let calls : List Call :=
      [.define sevenForm, .infer (.sym {} "seven"), .define sevenForm, .load [spliceForm]]
    let s := (start ⟨100, 100⟩ .failFast).run calls
    s.env.signature.names = ["number", "string", "seven", "x"] ∧
      s.scope.resolve? "seven" = some (.defined .metalevel) := by
  intro calls s
  obtain ⟨hcoherent, -, -⟩ := run_grows ⟨100, 100⟩ .failFast calls
  have hphase : s.env.signature.phase? "seven" = some .metalevel := by decide +kernel
  exact ⟨by decide +kernel, (hcoherent.resolves "seven" .metalevel).2 hphase⟩

end Session

end StagedTT
