import StagedTT.Proofs.Reduction.NormalRuns
import StagedTT.Proofs.Term.Text
import StagedTT.Proofs.Typing.InferredTypes

/-!
# What mismatches show

Inference reports a mismatch at an application only, and shows the domain of the function and the
type of the argument, both in normal form (`Environment.infer_explains`). A check reports one of the
type that it infers and the one that it expects, again in normal form. In both cases the normal
forms are not the same, as otherwise they would be convertible. So neither are their texts, if the
names in them can be read.
-/

namespace StagedTT

open Term
open Text (IsName)

/-! ## Readable fragments -/

/-- All terms with names that can be read. -/
def Fragment.readable : Fragment := ⟨fun _ => True, IsName, True⟩

theorem Term.Within.part {F : Fragment} {t part : Term} (h : t.Within F) (hpart : part ∈ t.parts) :
    part.Within F := by
  cases h with
  | sort | const | num | str | var => cases hpart
  | pi hfirst hsecond | lam hfirst hsecond | app hfirst hsecond =>
    exact List.forall_mem_cons.2 ⟨hfirst, List.forall_mem_singleton.2 hsecond⟩ part hpart
  | quote _ hb | splice _ hb => exact List.forall_mem_singleton.2 hb part hpart
  | call _ hn hargs => exact List.forall_mem_cons.2 ⟨.const hn, hargs⟩ part hpart

theorem Term.Within.name_of_mem {F : Fragment} {t : Term} (h : t.Within F) {n : String}
    (hn : Term.const n ∈ t.subterms) : F.name n := by
  induction t using inductParts with
  | h t ih =>
    rcases mem_subterms.1 hn with rfl | hpart
    · cases h with
      | const hname => exact hname
    · obtain ⟨part, hmem, hpart⟩ := mem_subtermsAll.1 hpart
      exact ih part hmem (h.part hmem) hpart

theorem Term.Within.readable {t : Term} (h : t.Within .readable) : t.Readable :=
  fun _ hn => h.name_of_mem hn

theorem isName_number : IsName "number" := by decide +kernel

theorem isName_string : IsName "string" := by decide +kernel

/-- All names in the declared types and values can be read. -/
def Signature.Readable (sig : Signature) : Prop :=
  ∀ n decl, sig.find? n = some decl →
    decl.type.Within .readable ∧ ∀ v, decl.value? = some v → v.Within .readable

theorem Signature.Readable.hasTypesOf {sig : Signature} (h : sig.Readable) :
    Fragment.readable.HasTypesOf .readable sig where
  terms := ⟨fun _ hl => hl, fun _ hn => hn, fun hs => hs⟩
  level _ _ := trivial
  number := isName_number
  string := isName_string
  declared n decl _ hfind := (h n decl hfind).1
  keeps n v _ hv := by
    obtain ⟨decl, hfind, hvalue⟩ := Option.bind_eq_some_iff.1 hv
    exact (h n decl hfind).2 v hvalue

/-! ## Where inference goes -/

/-- Inference of a term comes to another one, under the binders in between. A suspended call is
looked at as the application that it stands for. -/
inductive Visits : Context → Term → Context → Term → Prop
  | self (ctx : Context) (t : Term) : Visits ctx t ctx t
  | piDomain {ctx ctx' : Context} {A u : Term} (B : Term) : Visits ctx A ctx' u →
      Visits ctx (.pi A B) ctx' u
  | piBody {ctx ctx' : Context} {A B u : Term} : Visits (ctx.bind A) B ctx' u →
      Visits ctx (.pi A B) ctx' u
  | lamDomain {ctx ctx' : Context} {A u : Term} (b : Term) : Visits ctx A ctx' u →
      Visits ctx (.lam A b) ctx' u
  | lamBody {ctx ctx' : Context} {A b u : Term} : Visits (ctx.bind A) b ctx' u →
      Visits ctx (.lam A b) ctx' u
  | appFn {ctx ctx' : Context} {f u : Term} (a : Term) : Visits ctx f ctx' u →
      Visits ctx (.app f a) ctx' u
  | appArg {ctx ctx' : Context} {a u : Term} (f : Term) : Visits ctx a ctx' u →
      Visits ctx (.app f a) ctx' u
  | quote {ctx ctx' : Context} {b u : Term} : Visits ctx b ctx' u → Visits ctx (.quote b) ctx' u
  | splice {ctx ctx' : Context} {b u : Term} : Visits ctx b ctx' u → Visits ctx (.splice b) ctx' u
  | call {ctx ctx' : Context} {head u : Term} {args : List Term} :
      Visits ctx (head.applyAll args) ctx' u → Visits ctx (.call head args) ctx' u

/-- On its way inference stays in a fragment that has the term and the types of its context. -/
theorem Visits.within {F : Fragment} {ctx ctx' : Context} {t u : Term} (h : Visits ctx t ctx' u)
    (hctx : ∀ A ∈ ctx.types, A.Within F) (ht : t.Within F) :
    (∀ A ∈ ctx'.types, A.Within F) ∧ u.Within F := by
  induction h with
  | self => exact ⟨hctx, ht⟩
  | piDomain _ _ ih => exact ih hctx ht.of_pi.1
  | piBody _ ih => exact ih (List.forall_mem_cons.2 ⟨ht.of_pi.1, hctx⟩) ht.of_pi.2
  | lamDomain _ _ ih => exact ih hctx ht.of_lam.1
  | lamBody _ ih => exact ih (List.forall_mem_cons.2 ⟨ht.of_lam.1, hctx⟩) ht.of_lam.2
  | appFn _ _ ih => exact ih hctx ht.of_app.1
  | appArg _ _ ih => exact ih hctx ht.of_app.2
  | quote _ ih => exact ih hctx ht.of_quote
  | splice _ ih => exact ih hctx ht.of_splice
  | call _ ih =>
    obtain ⟨n, rfl, hn, -, hargs⟩ := ht.of_call
    exact ih hctx (Within.applyAll.2 ⟨.const hn, hargs⟩)

/-! ## Where mismatches come from -/

/-- An error that shows two types that are not the same. -/
def KernelError.IsMismatch : KernelError → Prop
  | .argumentMismatch _ _ | .typeMismatch _ _ => True
  | _ => False

theorem KernelError.not_isMismatch {e : KernelError} (h : IsOutOfFuel e) : ¬ e.IsMismatch := by
  obtain ⟨steps, rfl⟩ := h
  exact id

/-- A computation of the kernel that does not end in a mismatch. -/
abbrev NoMismatch {α : Type} (r : Except KernelError α) (P : α → Prop) : Prop :=
  Settles r P fun e => ¬ e.IsMismatch

namespace Environment

variable {env : Environment}

theorem normalize_noMismatch (env : Environment) (t : Term) :
    NoMismatch (env.normalize t) fun n => env.normalize t = .ok n :=
  ((env.normalize_settles t).mono_error fun _ => KernelError.not_isMismatch).self

theorem expectSort_noMismatch (env : Environment) (position : String) (term type : Term) :
    NoMismatch (env.expectSort position term type) fun _ => True := by
  refine (env.normalize_noMismatch type).bind fun n _ => ?_
  cases n.level? with
  | some level => trivial
  | none => exact id

theorem expectPi_noMismatch (env : Environment) (fn type : Term) :
    NoMismatch (env.expectPi fn type) fun parts =>
      env.normalize type = .ok (.pi parts.1 parts.2) := by
  refine (env.normalize_noMismatch type).bind fun n hn => ?_
  cases n with
  | pi domain body => exact hn
  | _ => exact id

theorem requireMetalevel_noMismatch (ctx : Context) (term : Term) :
    NoMismatch (ctx.requireMetalevel term) fun _ => True := by
  unfold Context.requireMetalevel
  split
  · trivial
  · exact id

theorem constantType_noMismatch (env : Environment) (ctx : Context) (n : String) :
    NoMismatch (env.constantType ctx n) fun _ => True := by
  unfold constantType
  split
  · exact id
  · split
    · trivial
    · exact (requireMetalevel_noMismatch ctx _).bind fun _ _ => trivial

/-- Terms that are not convertible have different normal forms. -/
theorem convertible_noMismatch (env : Environment) (left right : Term) :
    NoMismatch (env.convertible left right) fun answer => answer = false →
      ∃ m n, env.normalize left = .ok m ∧ env.normalize right = .ok n ∧ m ≠ n := by
  unfold convertible
  split
  · exact fun h => by cases h
  · refine (env.normalize_noMismatch left).bind fun m hm =>
      (env.normalize_noMismatch right).bind fun n hn => ?_
    exact fun h => ⟨m, n, hm, hn, of_decide_eq_false h⟩

/-- To normalize the domain of a function type in normal form changes nothing. -/
theorem normalize_domain {type domain body : Term}
    (h : env.normalize type = .ok (.pi domain body)) : env.normalize domain = .ok domain := by
  obtain ⟨hdomain, -⟩ := normal_pi.1 ((env.normalize_settles type).of_ok h).normal
  unfold normalize
  rw [hdomain.normalizeMetered_eq]
  rfl

/-- In normal form, the domain of the function in an application is not the type of its argument. -/
structure MismatchAt (env : Environment) (ctx : Context) (fn arg domain found : Term) : Prop where
  function : ∃ fnType body, env.infer ctx fn = .ok fnType ∧
    env.normalize fnType = .ok (.pi domain body)
  argument : ∃ argType, env.infer ctx arg = .ok argType ∧ env.normalize argType = .ok found
  different : domain ≠ found

/-- If an error in the inference of a term is a mismatch, then it shows the one at an application
that inference comes to. -/
def Explains (env : Environment) (ctx : Context) (t : Term) : KernelError → Prop
  | .argumentMismatch expected shown => ∃ ctx' fn arg domain found,
      Visits ctx t ctx' (.app fn arg) ∧ env.MismatchAt ctx' fn arg domain found ∧
        expected = domain.text ∧ shown = found.text
  | .typeMismatch _ _ => False
  | _ => True

theorem explains_of_not_isMismatch {ctx : Context} {t : Term} {e : KernelError}
    (h : ¬ e.IsMismatch) : env.Explains ctx t e := by
  cases e with
  | argumentMismatch | typeMismatch => exact absurd trivial h
  | _ => trivial

/-- What explains an error in a term that inference comes to explains it in the whole term. -/
theorem Explains.of_visits {ctx ctx' : Context} {t u : Term} {e : KernelError}
    (h : env.Explains ctx' u e)
    (hvisits : ∀ {ctx'' : Context} {v : Term}, Visits ctx' u ctx'' v → Visits ctx t ctx'' v) :
    env.Explains ctx t e := by
  cases e with
  | argumentMismatch =>
    obtain ⟨ctx'', fn, arg, domain, found, hvisit, hfound⟩ := h
    exact ⟨ctx'', fn, arg, domain, found, hvisits hvisit, hfound⟩
  | typeMismatch => exact h
  | _ => trivial

/-- The type of a term is inferred, or the error is explained. -/
abbrev Explained (env : Environment) (ctx : Context) (t : Term) : Prop :=
  Settles (env.infer ctx t) (fun T => env.infer ctx t = .ok T) (env.Explains ctx t)

theorem NoMismatch.explained {α : Type} {r : Except KernelError α} {P : α → Prop}
    (h : NoMismatch r P) (ctx : Context) (t : Term) : Settles r P (env.Explains ctx t) :=
  h.mono_error fun _ => explains_of_not_isMismatch

theorem explained_app {ctx : Context} {fn arg : Term} (hfn : env.Explained ctx fn)
    (harg : env.Explained ctx arg) : env.Explained ctx (.app fn arg) := by
  refine Settles.self (P := fun _ => True) ?_
  unfold infer
  refine (hfn.mono_error fun e he => he.of_visits (.appFn arg)).bind fun fnType hfnType => ?_
  refine (NoMismatch.explained (env.expectPi_noMismatch fn fnType) _ _).bind fun parts hpi => ?_
  obtain ⟨domain, body⟩ := parts
  refine (harg.mono_error fun e he => he.of_visits (.appArg fn)).bind fun argType hargType => ?_
  rw [applicationType_eq]
  refine (NoMismatch.explained (env.convertible_noMismatch argType domain) _ _).bind
    fun answer hanswer => ?_
  cases answer with
  | true =>
    exact NoMismatch.explained ((env.normalize_noMismatch _).mono fun _ _ => trivial) _ _
  | false =>
    -- The domain is part of a normal form already, so it is shown as it was compared.
    obtain ⟨found, domain', hfound, hdomain, hne⟩ := hanswer rfl
    obtain rfl : domain' = domain :=
      Except.ok.inj (hdomain.symm.trans (normalize_domain hpi))
    simp only [Bool.false_eq_true, if_false, hfound]
    exact ⟨ctx, fn, arg, domain', found, .self _ _,
      ⟨⟨fnType, body, hfnType, hpi⟩, ⟨argType, hargType, hfound⟩, hne.symm⟩, rfl, rfl⟩

theorem explained_applyAll {ctx : Context} {head : Term} {args : List Term}
    (hhead : env.Explained ctx head) (hargs : ∀ arg ∈ args, env.Explained ctx arg) :
    env.Explained ctx (head.applyAll args) := by
  induction args generalizing head with
  | nil => exact hhead
  | cons arg args ih =>
    obtain ⟨harg, hargs⟩ := List.forall_mem_cons.1 hargs
    rw [applyAll_cons]
    exact ih (explained_app hhead harg) hargs

/-- **Inference reports a mismatch at an application only**, of the domain of the function and the
type of the argument. -/
theorem infer_explains (env : Environment) (ctx : Context) (t : Term) : env.Explained ctx t := by
  have hnone : ∀ {ctx : Context} {t : Term} {P : Term → Prop}, NoMismatch (env.infer ctx t) P →
      env.Explained ctx t := fun h => (NoMismatch.explained h _ _).self
  induction t generalizing ctx with
  | sort l =>
    refine hnone (P := fun _ => True) ?_
    unfold infer
    split
    · trivial
    · exact id
  | const n => exact hnone (env.constantType_noMismatch ctx n)
  | num v => exact hnone (P := fun _ => True) trivial
  | str s => exact hnone (P := fun _ => True) trivial
  | var i =>
    refine hnone (P := fun _ => True) ?_
    rw [infer, Context.lookup_eq]
    split
    · trivial
    · exact id
  | pi A B ihA ihB =>
    refine Settles.self (P := fun _ => True) ?_
    unfold infer
    refine ((ihA ctx).mono_error fun e he => he.of_visits (.piDomain B)).bind fun S _ => ?_
    refine (NoMismatch.explained (env.expectSort_noMismatch _ A S) _ _).bind fun _ _ => ?_
    refine ((ihB _).mono_error fun e he => he.of_visits .piBody).bind fun T _ => ?_
    exact (NoMismatch.explained (env.expectSort_noMismatch _ B T) _ _).bind fun _ _ => trivial
  | lam A b ihA ihb =>
    refine Settles.self (P := fun _ => True) ?_
    unfold infer
    refine ((ihA ctx).mono_error fun e he => he.of_visits (.lamDomain b)).bind fun S _ => ?_
    refine (NoMismatch.explained (env.expectSort_noMismatch _ A S) _ _).bind fun _ _ => ?_
    exact ((ihb _).mono_error fun e he => he.of_visits .lamBody).bind fun _ _ => trivial
  | app f a ihf iha => exact explained_app (ihf ctx) (iha ctx)
  | quote b ih =>
    refine Settles.self (P := fun _ => True) ?_
    unfold infer
    refine (NoMismatch.explained (requireMetalevel_noMismatch ctx _) _ _).bind fun _ _ => ?_
    exact ((ih ctx).mono_error fun e he => he.of_visits .quote).mono fun _ _ => trivial
  | splice b ih =>
    refine Settles.self (P := fun _ => True) ?_
    unfold infer
    refine (NoMismatch.explained (requireMetalevel_noMismatch ctx _) _ _).bind fun _ _ => ?_
    exact ((ih ctx).mono_error fun e he => he.of_visits .splice).mono fun _ _ => trivial
  | call head args ihHead ihArgs =>
    refine Settles.self (P := fun _ => True) ?_
    unfold infer
    refine (NoMismatch.explained (requireMetalevel_noMismatch ctx _) _ _).bind fun _ _ => ?_
    rw [← infer_applyAll]
    have happlied := explained_applyAll (ihHead ctx) fun arg harg => ihArgs arg harg ctx
    exact (happlied.mono_error fun e he => he.of_visits .call).mono fun _ _ => trivial

/-! ## What mismatches show -/

/-- In normal form, the type that a term is checked against is not the one that is inferred. -/
structure MismatchWith (env : Environment) (ctx : Context) (t type m n : Term) : Prop where
  expected : env.normalize type = .ok m
  inferred : ∃ T, env.infer ctx t = .ok T ∧ env.normalize T = .ok n
  different : m ≠ n

/-- If an error of a check is a mismatch, then it shows the one of the types of the whole term, or
one that inference comes to. -/
def ExplainsCheck (env : Environment) (ctx : Context) (t type : Term) : KernelError → Prop
  | .typeMismatch expected shown => ∃ m n, env.MismatchWith ctx t type m n ∧
      expected = m.text ∧ shown = n.text
  | e => env.Explains ctx t e

theorem Explains.check {ctx : Context} {t : Term} {e : KernelError} (h : env.Explains ctx t e)
    (type : Term) : env.ExplainsCheck ctx t type e := by
  cases e with
  | typeMismatch => exact h.elim
  | _ => exact h

/-- **A check reports a mismatch of the types of the whole term**, or one that inference reports. -/
theorem check_explains (env : Environment) (ctx : Context) (t type : Term) :
    Settles (env.check ctx t type) (fun _ => True) (env.ExplainsCheck ctx t type) := by
  have hnone : ∀ {e : KernelError}, ¬ e.IsMismatch → env.ExplainsCheck ctx t type e :=
    fun h => (explains_of_not_isMismatch h).check type
  refine ((env.infer_explains ctx t).mono_error fun e he => he.check type).bind fun T hT => ?_
  refine ((env.convertible_noMismatch T type).mono_error fun _ => hnone).bind
    fun answer hanswer => ?_
  cases answer with
  | true => trivial
  | false =>
    obtain ⟨n, m, hn, hm, hne⟩ := hanswer rfl
    simp only [Bool.false_eq_true, if_false, hm, hn]
    exact ⟨m, n, ⟨hm, ⟨T, hT, hn⟩, hne.symm⟩, rfl, rfl⟩

/-- What is shown of a readable term in a readable context is readable. -/
theorem MismatchAt.readable {ctx : Context} {fn arg domain found : Term}
    (h : env.MismatchAt ctx fn arg domain found) (hsig : env.signature.Readable)
    (hctx : ∀ A ∈ ctx.types, A.Within .readable) (happ : (Term.app fn arg).Within .readable) :
    domain.Readable ∧ found.Readable := by
  obtain ⟨⟨fnType, body, hfn, hpi⟩, ⟨argType, harg, hfound⟩, -⟩ := h
  have htypes := hsig.hasTypesOf
  have hfnType := (infer_within htypes hctx happ.of_app.1).of_ok hfn
  have hargType := (infer_within htypes hctx happ.of_app.2).of_ok harg
  have hpiWithin := (normalize_within htypes.keeps hfnType).of_ok hpi
  have hfoundWithin := (normalize_within htypes.keeps hargType).of_ok hfound
  exact ⟨hpiWithin.of_pi.1.readable, hfoundWithin.readable⟩

/-- What is shown of readable types is readable. -/
theorem MismatchWith.readable {ctx : Context} {t type m n : Term}
    (h : env.MismatchWith ctx t type m n) (hsig : env.signature.Readable)
    (hctx : ∀ A ∈ ctx.types, A.Within .readable) (ht : t.Within .readable)
    (htype : type.Within .readable) : m.Readable ∧ n.Readable := by
  obtain ⟨hm, ⟨T, hT, hn⟩, -⟩ := h
  have htypes := hsig.hasTypesOf
  have hTWithin := (infer_within htypes hctx ht).of_ok hT
  have hmWithin := (normalize_within htypes.keeps htype).of_ok hm
  have hnWithin := (normalize_within htypes.keeps hTWithin).of_ok hn
  exact ⟨hmWithin.readable, hnWithin.readable⟩

/-- Different readable terms have different texts. -/
theorem text_ne {m n : Term} (h : m ≠ n) (hm : m.Readable) (hn : n.Readable) : m.text ≠ n.text :=
  fun htext => h (hm.text_inj hn htext)

/-- **The text of a term is unambiguous, and no mismatch shows the same text twice.**

Readable terms with the same text are the same. An argument mismatch shows the domain of a function
and the type of its argument, for an application that inference comes to, and a type mismatch shows
the type that is expected and the one that is inferred, all in normal form. If both are readable
then the texts are different; and they are readable if all names can be read that are in the
signature, in the context and in what is checked. -/
theorem text_unambiguous (env : Environment) :
    (∀ t u : Term, t.Readable → u.Readable → t.text = u.text → t = u) ∧
    (∀ ctx t expected shown, env.infer ctx t = .error (.argumentMismatch expected shown) →
      ∃ ctx' fn arg domain found, Visits ctx t ctx' (.app fn arg) ∧
        env.MismatchAt ctx' fn arg domain found ∧
        expected = domain.text ∧ shown = found.text ∧
        (domain.Readable → found.Readable → expected ≠ shown)) ∧
    (∀ ctx t type expected shown, env.check ctx t type = .error (.typeMismatch expected shown) →
      ∃ m n, env.MismatchWith ctx t type m n ∧
        expected = m.text ∧ shown = n.text ∧
        (m.Readable → n.Readable → expected ≠ shown)) ∧
    (env.signature.Readable → ∀ ctx t type, (∀ A ∈ ctx.types, A.Within .readable) →
      t.Within .readable → type.Within .readable → ∀ expected shown,
        env.check ctx t type = .error (.argumentMismatch expected shown) ∨
          env.check ctx t type = .error (.typeMismatch expected shown) →
        expected ≠ shown) := by
  refine ⟨fun t u ht hu h => ht.text_inj hu h, ?_, ?_, ?_⟩
  · intro ctx t expected shown h
    obtain ⟨ctx', fn, arg, domain, found, hvisits, hat, rfl, rfl⟩ :=
      (env.infer_explains ctx t).of_error h
    exact ⟨ctx', fn, arg, domain, found, hvisits, hat, rfl, rfl, text_ne hat.different⟩
  · intro ctx t type expected shown h
    obtain ⟨m, n, hwith, rfl, rfl⟩ := (env.check_explains ctx t type).of_error h
    exact ⟨m, n, hwith, rfl, rfl, text_ne hwith.different⟩
  · rintro hsig ctx t type hctx ht htype expected shown (h | h)
    · obtain ⟨ctx', fn, arg, domain, found, hvisits, hat, rfl, rfl⟩ :=
        (env.check_explains ctx t type).of_error h
      obtain ⟨hctx', happ⟩ := hvisits.within hctx ht
      obtain ⟨hdomain, hfound⟩ := hat.readable hsig hctx' happ
      exact text_ne hat.different hdomain hfound
    · obtain ⟨m, n, hwith, rfl, rfl⟩ := (env.check_explains ctx t type).of_error h
      obtain ⟨hm, hn⟩ := hwith.readable hsig hctx ht htype
      exact text_ne hwith.different hm hn

theorem readable_withIdentity : withIdentity.signature.Readable := by
  intro n decl hfind
  by_cases hn : n = "id"
  · subst hn
    obtain rfl := Option.some.inj hfind
    refine ⟨.pi (.const isName_number) (.const isName_number), fun v hv => ?_⟩
    obtain rfl := Option.some.inj hv
    exact .lam (.const isName_number) (.var 0)
  · have hname : (n == "id") = false := beq_false_of_ne hn
    simp [withIdentity, Signature.find?, List.lookup_cons, hname] at hfind

theorem text_unambiguous_withIdentity :
    let ctx := Context.empty .object
    let t : Term := .app (.const "id") (.str "seven")
    let flat : Term := .app (.app (.const "id") (.const "id")) (.num 7)
    let nested : Term := .app (.const "id") (.app (.const "id") (.num 7))
    flat.text ≠ nested.text ∧
    (∃ ctx' fn arg domain found, Visits ctx t ctx' (.app fn arg) ∧
      withIdentity.MismatchAt ctx' fn arg domain found ∧
      "number" = domain.text ∧ "string" = found.text) ∧
    (∃ m n, withIdentity.MismatchWith ctx (.num 7) (.const "string") m n ∧
      "string" = m.text ∧ "number" = n.text) ∧
    "number" ≠ "string" := by
  intro ctx t flat nested
  obtain ⟨hinj, hinfer, hcheck, hall⟩ := text_unambiguous withIdentity
  have hid : IsName "id" := by decide +kernel
  have hflat : flat.Within .readable := .app (.app (.const hid) (.const hid)) (.num 7)
  have hnested : nested.Within .readable := .app (.const hid) (.app (.const hid) (.num 7))
  have ht : t.Within .readable := .app (.const hid) (.str "seven")
  refine ⟨fun htext => ?_, ?_, ?_, ?_⟩
  · have heq := hinj flat nested hflat.readable hnested.readable htext
    exact absurd heq (by decide)
  · obtain ⟨ctx', fn, arg, domain, found, hvisits, hat, hdomain, hfound, -⟩ :=
      hinfer ctx t "number" "string" (by decide +kernel)
    exact ⟨ctx', fn, arg, domain, found, hvisits, hat, hdomain, hfound⟩
  · obtain ⟨m, n, hwith, hm, hn, -⟩ :=
      hcheck ctx (.num 7) (.const "string") "string" "number" (by decide +kernel)
    exact ⟨m, n, hwith, hm, hn⟩
  · exact hall readable_withIdentity ctx t (.const "number") (List.forall_mem_nil _) ht
      (.const isName_number) "number" "string" (.inl (by decide +kernel))

end Environment

end StagedTT
