import StagedTT.Proofs.Reduction.NormalOrder
import StagedTT.Proofs.Session.Inference
import StagedTT.Proofs.Surface.Levels

/-!
# What a session stores

Whatever forms a session was given, inference still finds every stored type to be a type and every
stored value to be of its stored type (`Session.Reachable.infer_stored`). What object definitions
store is object code (`Session.Reachable.stored_object`). A declaration is sound over the entries
before it (`Session.Reachable.soundInOrder`), so what it stores is closed and mentions those alone,
and the value is a normal form that the name is unfolded to in one step
(`Session.Reachable.stored_order`).
-/

namespace StagedTT

open Term

/-- The terms that a declaration consists of. -/
def Declaration.Stores (decl : Declaration) (t : Term) : Prop :=
  t = decl.type ∨ decl.value? = some t

theorem Declaration.Sound.hasType {sig : Signature} {decl : Declaration} (h : decl.Sound sig)
    {t : Term} (ht : decl.Stores t) : ∃ T, HasType sig decl.phase [] t T := by
  rcases ht with rfl | hvalue
  · obtain ⟨l, hl⟩ := h.sorted
    exact ⟨_, hl⟩
  · exact ⟨_, h.typed t hvalue⟩

namespace Session

/-- `(defmeta seven (quote 7))` -/
def sevenForm : SExpr :=
  .list {} [.sym {} "defmeta", .sym {} "seven", .list {} [.sym {} "quote", .num {} 7]]

/-- `(defn x (splice (seven)))` -/
def spliceForm : SExpr :=
  .list {} [.sym {} "defn", .sym {} "x", .list {} [.sym {} "splice", .list {} [.sym {} "seven"]]]

/-- A session that has loaded a metalevel definition and an object definition that calls it. -/
def withSeven : Session :=
  ((Session.start ⟨100, 100⟩ .failFast).load [sevenForm, spliceForm]).2

theorem reachable_withSeven : Reachable (fun _ => True) withSeven :=
  .load (.start _ _) fun _ _ => trivial

theorem entries_withSeven :
    withSeven.env.signature.entries =
      [("number", .literalType), ("string", .literalType),
        ("seven", ⟨.metalevel, .const "number", some (.quote (.num 7))⟩),
        ("x", ⟨.object, .const "number", some (.num 7)⟩)] := by
  decide +kernel

variable {allowed : SExpr → Prop} {s : Session} (hs : Reachable allowed s)

include hs

/-! ## Types -/

/-- Declarations are within the levels of expressions. -/
theorem Reachable.leveled : s.env.signature.Leveled := by
  refine hs.invariant (P := fun s => s.env.signature.Leveled) (fun s form entry s' hs _ hok => ?_)
    fun _ _ => Signature.leveled_withBaseTypes
  obtain ⟨signature, hdeclares, hinsert, rfl⟩ := define_eq_ok hok
  exact hs.insert? hinsert (hdeclares.leveled hs)

/-- **What is stored stays well typed.** In code of the phase of an entry, inference answers for the
stored type with a universe, up to normalization, and for the stored value with a type that is
equal to the stored one; there is no other error than for want of fuel. -/
theorem Reachable.infer_stored {n : String} {decl : Declaration}
    (hentry : (n, decl) ∈ s.env.signature.entries) :
    Settles (s.env.infer (.empty decl.phase) decl.type)
        (fun T => Settles (s.env.normalize T) (fun N => ∃ l, N = .sort l) IsOutOfFuel)
        IsOutOfFuel ∧
      ∀ v, decl.value? = some v →
        Settles (s.env.infer (.empty decl.phase) v)
          (fun T => EqualIn s.env.signature .namedCalls T decl.type) IsOutOfFuel := by
  have hsig := hs.sound
  have hfind := hs.find?_of_mem hentry
  have hdecl := hsig.decl n decl hfind
  constructor
  · obtain ⟨l, hsort⟩ := hdecl.sorted
    have htype : Infers s.env.signature decl.phase [] decl.type (.sort l) :=
      ⟨hsort, (hs.leveled n decl hfind).belowLast⟩
    refine (Environment.infer_settles_equal hsig .nil htype).mono fun T ⟨hT, hequal⟩ => ?_
    obtain ⟨k, hTsort⟩ := hT.typed.sorted hsig .nil
    have hequal' : EqualIn s.env.signature .namedCalls T (.sort l) :=
      hequal.mono (Fragment.le_namedCalls _)
    refine (s.env.normalize_settles T).mono fun N hN => ?_
    exact ⟨l, (Environment.steps_of_equalIn hsig.orderly hTsort.named hN hequal').of_sort⟩
  · intro v hvalue
    have hv : Infers s.env.signature decl.phase [] v decl.type :=
      ⟨hdecl.typed v hvalue, hdecl.belowLast v hvalue⟩
    refine (Environment.infer_settles_equal hsig .nil hv).mono fun T ⟨_, hequal⟩ => ?_
    exact hequal.mono (Fragment.le_namedCalls _)

omit hs in
theorem infer_stored_withSeven :
    let sig := withSeven.env.signature
    ("seven", ⟨.metalevel, .const "number", some (.quote (.num 7))⟩) ∈ sig.entries ∧
      Settles (withSeven.env.normalize (.sort 0)) (fun N => ∃ l, N = .sort l) IsOutOfFuel ∧
      ∃ T, withSeven.env.infer (.empty .metalevel) (.quote (.num 7)) = .ok T ∧
        EqualIn sig .namedCalls T (.const "number") := by
  intro sig
  have hentry : ("seven", ⟨.metalevel, .const "number", some (.quote (.num 7))⟩) ∈ sig.entries := by
    change _ ∈ withSeven.env.signature.entries
    rw [entries_withSeven]
    decide
  obtain ⟨htype, hvalue⟩ := reachable_withSeven.infer_stored hentry
  have hsort : withSeven.env.infer (.empty .metalevel) (.const "number") = .ok (.sort 0) := by
    decide +kernel
  have hok : withSeven.env.infer (.empty .metalevel) (.quote (.num 7)) = .ok (.const "number") := by
    decide +kernel
  exact ⟨hentry, htype.of_ok hsort, _, hok, (hvalue _ rfl).of_ok hok⟩

/-! ## Phases -/

/-- **What object definitions store is object code.** It has no quotation, splice or suspended
call in it, and all names in it are names of object definitions. -/
theorem Reachable.stored_object {n : String} {decl : Declaration}
    (hentry : (n, decl) ∈ s.env.signature.entries) (hphase : decl.phase = .object) {t : Term}
    (ht : decl.Stores t) :
    t.Within ⟨fun _ => True, fun m => s.env.signature.phase? m = some .object, False⟩ := by
  have hdecl := hs.sound.decl n decl (hs.find?_of_mem hentry)
  obtain ⟨T, hT⟩ := hdecl.hasType ht
  rw [hphase] at hT
  refine hT.within.mono ⟨fun _ _ => trivial, fun m ⟨d, hd, hvisible⟩ => ?_, fun h => by cases h⟩
  have hobject : d.phase = .object := hvisible.resolve_right (by decide)
  change (s.env.signature.find? m).map (·.phase) = some .object
  rw [hd, ← hobject]
  rfl

omit hs in
theorem stored_object_withSeven :
    let sig := withSeven.env.signature
    sig.phase? "seven" = some .metalevel ∧
      (Term.const "number").Within
        ⟨fun _ => True, fun m => sig.phase? m = some .object, False⟩ := by
  intro sig
  have hentry : ("x", ⟨.object, .const "number", some (.num 7)⟩) ∈ sig.entries := by
    change _ ∈ withSeven.env.signature.entries
    rw [entries_withSeven]
    decide
  exact ⟨by decide +kernel, reachable_withSeven.stored_object hentry rfl (.inl rfl)⟩

/-! ## Order -/

/-- Every declaration is sound over the entries before it. -/
theorem Reachable.soundInOrder : s.env.signature.SoundInOrder := by
  refine hs.invariant_of_reachable (P := fun s => s.env.signature.SoundInOrder)
    (fun s form entry s' hreach horder _ hok => ?_) fun _ _ => Signature.soundInOrder_withBaseTypes
  obtain ⟨signature, hdeclares, hinsert, rfl⟩ := define_eq_ok hok
  exact horder.insert? hreach.stores hinsert (hdeclares.sound hreach.sound)

/-- **Stored terms look back, and stored values are unfolded once.** What an entry stores is closed
and mentions the names of earlier entries only, those that it calls included. Its value is a normal
form over all that is declared now, and to reduce or to normalize its name takes one unit of fuel
and answers with the value. -/
theorem Reachable.stored_order {before after : List Entry} {n : String} {decl : Declaration}
    (hsplit : s.env.signature.entries = before ++ (n, decl) :: after) :
    (∀ t, decl.Stores t →
        t.Closed ∧ t.Within ⟨fun _ => True, (· ∈ before.map (·.1)), True⟩) ∧
      ∀ v, decl.value? = some v → Normal s.env.signature v ∧
        ((Term.const n).whnf s.env.signature).Costs 1 v ∧
        ((Term.const n).normalizeMetered s.env.signature).Costs 1 v := by
  have hmem : (n, decl) ∈ s.env.signature.entries := by
    rw [hsplit]
    simp
  have hfind := hs.find?_of_mem hmem
  constructor
  · intro t ht
    have horder : s.env.signature.order = before.map (·.1) ++ n :: after.map (·.1) := by
      rw [← hs.stores.names_eq, Signature.names, hsplit, List.map_append, List.map_cons]
    obtain ⟨earlier, hearlier, hdecl⟩ := hs.soundInOrder _ _ _ horder decl hfind
    obtain ⟨T, hT⟩ := hdecl.hasType ht
    refine ⟨hT.closed, hT.within.mono ⟨fun _ _ => trivial, ?_, fun _ => trivial⟩⟩
    rintro m ⟨d, hd, -⟩
    exact hearlier m (Signature.contains_eq_true.2 ⟨d, hd⟩)
  · intro v hvalue
    have hnormal := (hs.sound.decl n decl hfind).normal v hvalue
    have hunfold : s.env.signature.value? n = some v :=
      Option.bind_eq_some_iff.2 ⟨decl, hfind, hvalue⟩
    exact ⟨hnormal, costs_whnf_const hunfold hnormal, costs_normalizeMetered_const hunfold hnormal⟩

omit hs in
theorem stored_order_withSeven :
    let sig := withSeven.env.signature
    (Term.const "number").Within ⟨fun _ => True, (· ∈ ["number", "string"]), True⟩ ∧
      Normal sig (.quote (.num 7)) ∧
      ((Term.const "seven").normalizeMetered sig).Costs 1 (.quote (.num 7)) := by
  intro sig
  have hsplit : sig.entries = [("number", .literalType), ("string", .literalType)] ++
      ("seven", ⟨.metalevel, .const "number", some (.quote (.num 7))⟩) ::
        [("x", ⟨.object, .const "number", some (.num 7)⟩)] := entries_withSeven
  obtain ⟨hterms, hvalue⟩ := reachable_withSeven.stored_order hsplit
  obtain ⟨hnormal, -, hcosts⟩ := hvalue _ rfl
  exact ⟨(hterms _ (.inl rfl)).2, hnormal, hcosts⟩

end Session

end StagedTT
