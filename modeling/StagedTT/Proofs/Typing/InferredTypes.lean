import StagedTT.Proofs.Reduction.Normalization

/-!
# What inferred types mention

An inferred type is put together from parts of the term, from declared types and from universes
one above those of the term, and is reduced on the way. A fragment that has all of these has the
types that are inferred for the terms of another one (`Environment.infer_within`); this needs no
assumption about what the declarations say.
-/

namespace StagedTT

open Term

/-- A fragment has the terms of another one and all that their types are put together from. -/
structure Fragment.HasTypesOf (G F : Fragment) (sig : Signature) : Prop where
  terms : F ≤ G
  level : ∀ l, F.level l → G.level (l + 1)
  number : G.name "number"
  string : G.name "string"
  declared : ∀ n decl, F.name n → sig.find? n = some decl → decl.type.Within G
  keeps : sig.Keeps G

namespace Environment

variable {env : Environment} {F G : Fragment}

theorem normalize_within (hkeeps : env.signature.Keeps F) {t : Term} (ht : t.Within F) :
    Yields (env.normalize t) fun n => n.Within F :=
  (env.normalize_settles t).yields.mono fun _ hn => Steps.within hkeeps hn.steps ht

theorem expectSort_within (hkeeps : env.signature.Keeps F) (position : String) (term : Term)
    {type : Term} (htype : type.Within F) :
    Yields (env.expectSort position term type) F.level := by
  refine (normalize_within hkeeps htype).bind fun n hn => ?_
  cases hn with
  | sort hl => exact hl
  | _ => trivial

theorem expectPi_within (hkeeps : env.signature.Keeps F) (fn : Term) {type : Term}
    (htype : type.Within F) :
    Yields (env.expectPi fn type) fun parts => parts.1.Within F ∧ parts.2.Within F := by
  refine (normalize_within hkeeps htype).bind fun n hn => ?_
  cases hn with
  | pi hA hB => exact ⟨hA, hB⟩
  | _ => trivial

theorem applicationType_within (hkeeps : env.signature.Keeps F) (domain : Term) {body arg : Term}
    (argType : Term) (hbody : body.Within F) (harg : arg.Within F) :
    Yields (env.applicationType domain body arg argType) fun T => T.Within F := by
  rw [applicationType_eq]
  refine (yields_any _).bind fun answer _ => ?_
  cases answer with
  | true => exact normalize_within hkeeps (hbody.instantiate harg)
  | false => exact (yields_any _).bind fun _ _ => trivial

section Inference

variable (h : G.HasTypesOf F env.signature) {p : Phase} {Γ : List Term}

include h

theorem constantType_within (ctx : Context) {n : String} (hn : F.name n) :
    Yields (env.constantType ctx n) fun T => T.Within G := by
  unfold constantType
  split
  · trivial
  · next decl hfind =>
    split
    · exact h.declared n decl hn hfind
    · exact (yields_any _).bind fun _ _ => h.declared n decl hn hfind

theorem inferArgs_within (fn : Term) {fnType : Term} (hfn : fnType.Within G) {args : List Term}
    (hargs : ∀ arg ∈ args, arg.Within F) (ctx : Context) :
    Yields (env.inferArgs ctx fn fnType args) fun T => T.Within G := by
  induction args generalizing fn fnType with
  | nil => exact hfn
  | cons arg args ih =>
    obtain ⟨harg, hargs⟩ := List.forall_mem_cons.1 hargs
    unfold inferArgs
    refine (expectPi_within h.keeps fn hfn).bind fun parts hparts => ?_
    obtain ⟨A, B⟩ := parts
    obtain ⟨-, hB⟩ := hparts
    refine (yields_any _).bind fun argType _ => ?_
    have happlied := applicationType_within h.keeps A argType hB (harg.mono h.terms)
    exact happlied.bind fun T hT => ih _ hT hargs

/-- **Inference stays in every fragment that has the types of the terms it looks at.** -/
theorem infer_within (hΓ : ∀ A ∈ Γ, A.Within F) {t : Term} (ht : t.Within F) :
    Yields (env.infer ⟨p, Γ⟩ t) fun T => T.Within G := by
  induction t generalizing Γ with
  | sort l =>
    cases ht with
    | sort hl =>
      unfold infer
      split
      · exact .sort (h.level l hl)
      · trivial
  | num v => exact .const h.number
  | str s => exact .const h.string
  | const n =>
    cases ht with
    | const hn => exact constantType_within h _ hn
  | var i =>
    rw [infer, Context.lookup_eq]
    split
    · next A hget => exact ((hΓ A (List.mem_of_getElem? hget)).mono h.terms).shift _ _
    · trivial
  | pi A B ihA ihB =>
    obtain ⟨hA, hB⟩ := ht.of_pi
    have hΓA : ∀ C ∈ A :: Γ, C.Within F := List.forall_mem_cons.2 ⟨hA, hΓ⟩
    refine (ihA hΓ hA).bind fun S hS => (expectSort_within h.keeps _ A hS).bind fun m hm => ?_
    refine (ihB hΓA hB).bind fun T hT => (expectSort_within h.keeps _ B hT).bind fun n hn => ?_
    have hmax : G.level (max m n) := by
      rw [Nat.max_def]
      split
      · exact hn
      · exact hm
    exact .sort hmax
  | lam A b ihA ihb =>
    obtain ⟨hA, hb⟩ := ht.of_lam
    have hΓA : ∀ C ∈ A :: Γ, C.Within F := List.forall_mem_cons.2 ⟨hA, hΓ⟩
    refine (yields_any _).bind fun S _ => (yields_any _).bind fun _ _ => ?_
    exact (ihb hΓA hb).bind fun B hB => .pi (hA.mono h.terms) hB
  | app f a ihf iha =>
    obtain ⟨hf, ha⟩ := ht.of_app
    refine (ihf hΓ hf).bind fun fnType hfnType => ?_
    refine (expectPi_within h.keeps f hfnType).bind fun parts hparts => ?_
    obtain ⟨A, B⟩ := parts
    obtain ⟨-, hB⟩ := hparts
    refine (yields_any _).bind fun argType _ => ?_
    exact applicationType_within h.keeps A argType hB (ha.mono h.terms)
  | quote b ih => exact (yields_any _).bind fun _ _ => ih hΓ ht.of_quote
  | splice b ih => exact (yields_any _).bind fun _ _ => ih hΓ ht.of_splice
  | call head args ih _ =>
    obtain ⟨n, rfl, hn, -, hargs⟩ := ht.of_call
    refine (yields_any _).bind fun _ _ => (ih hΓ (.const hn)).bind fun fnType hfnType => ?_
    exact inferArgs_within h _ hfnType hargs _

end Inference

end Environment

end StagedTT
