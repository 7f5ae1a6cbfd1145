import StagedTT.Proofs.Expansion.Relation

/-!
# Completeness of expansion

A term is expanded if it has no call and no splice outside its quotations. These are the terms that
expansion leaves as they are, at no cost (`Environment.expandMetered_eq_self_iff`).

What a call computes is expanded again, but what a splice takes out of a quotation is not. So the
result of an expansion is expanded exactly if all quoted code that its splices release was
expanded (`Environment.expand_isExpanded_iff`), and a splice of a quoted call expands to that call
(`Environment.expand_splice_quote_call`).
-/

namespace StagedTT

/-- A term without calls and splices, except in quotations. -/
def Term.IsExpanded : Term → Prop
  | .pi A B => A.IsExpanded ∧ B.IsExpanded
  | .lam A b => A.IsExpanded ∧ b.IsExpanded
  | .app f a => f.IsExpanded ∧ a.IsExpanded
  | .splice _ => False
  | .call _ _ => False
  | .quote _ => True
  | .sort _ | .const _ | .num _ | .str _ | .var _ => True

theorem Term.IsExpanded.of_unquote {t : Term} (h : t.unquote.IsExpanded) : t.IsExpanded := by
  cases t with
  | quote => trivial
  | _ => exact h

theorem Term.sizeOf_unquote_le (t : Term) : sizeOf t.unquote ≤ sizeOf t := by
  cases t with
  | quote b => exact Nat.le_of_lt (by simp [Term.unquote])
  | _ => exact Nat.le_refl _

namespace Environment

/-- The terms that expansion of a term comes to: its parts outside quotations, and those of what
calls among them compute. -/
inductive Reaches (env : Environment) : Term → Term → Prop
  | refl (t : Term) : Reaches env t t
  | piDomain {A u : Term} (B : Term) : Reaches env A u → Reaches env (.pi A B) u
  | piBody (A : Term) {B u : Term} : Reaches env B u → Reaches env (.pi A B) u
  | lamDomain {A u : Term} (b : Term) : Reaches env A u → Reaches env (.lam A b) u
  | lamBody (A : Term) {b u : Term} : Reaches env b u → Reaches env (.lam A b) u
  | appFn {f u : Term} (a : Term) : Reaches env f u → Reaches env (.app f a) u
  | appArg (f : Term) {a u : Term} : Reaches env a u → Reaches env (.app f a) u
  | splice {b u : Term} : Reaches env b u → Reaches env (.splice b) u
  | call {head value result u : Term} {args : List Term} :
      env.signature.callable? head = some value → env.runCall value args = .ok result →
      Reaches env result u → Reaches env (.call head args) u

/-- Whatever quoted code a splice releases on the way is expanded: if the body of a splice expands
to a quotation, then to one of an expanded term. -/
def ReleasesExpanded (env : Environment) (t : Term) : Prop :=
  ∀ body quoted, env.Reaches t (.splice body) →
    (∃ fuel, (env.expandMetered body fuel).1 = .ok (.quote quoted)) → quoted.IsExpanded

variable {env : Environment}

theorem expandMetered_of_isExpanded {t : Term} (h : t.IsExpanded) (env : Environment) :
    env.expandMetered t = pure t := by
  induction t with
  | sort | const | num | str | var | quote =>
    rw [expandMetered_eq]
    rfl
  | pi A B ihA ihB =>
    rw [expandMetered_pi, ihA h.1, ihB h.2]
    rfl
  | lam A b ihA ihb =>
    rw [expandMetered_lam, ihA h.1, ihb h.2]
    rfl
  | app f a ihf iha =>
    rw [expandMetered_app, ihf h.1, iha h.2]
    rfl
  | splice | call => exact h.elim

/-- Without a call, expansion makes no term larger. -/
theorem Expands.sizeOf_le {t t' : Term} {k : Nat} (h : env.Expands t k t') (hk : k = 0) :
    sizeOf t' ≤ sizeOf t := by
  induction h with
  | sort | const | num | str | var | quote => exact Nat.le_refl _
  | pi _ _ ihA ihB | lam _ _ ihA ihB | app _ _ ihA ihB =>
    have hA := ihA (by omega)
    have hB := ihB (by omega)
    simp only [Term.pi.sizeOf_spec, Term.lam.sizeOf_spec, Term.app.sizeOf_spec]
    omega
  | @splice b b' k _ ih =>
    have hb := ih hk
    have hunquote := Term.sizeOf_unquote_le b'
    simp only [Term.splice.sizeOf_spec]
    omega
  | call => cases hk

/-- What expands to itself without a call is expanded. -/
theorem Expands.isExpanded_of_eq {t t' : Term} {k : Nat} (h : env.Expands t k t') (hk : k = 0)
    (heq : t' = t) : t'.IsExpanded := by
  induction h with
  | sort | const | num | str | var | quote => trivial
  | pi _ _ ihA ihB =>
    obtain ⟨hA, hB⟩ := Term.pi.inj heq
    exact ⟨ihA (by omega) hA, ihB (by omega) hB⟩
  | lam _ _ ihA ihb =>
    obtain ⟨hA, hb⟩ := Term.lam.inj heq
    exact ⟨ihA (by omega) hA, ihb (by omega) hb⟩
  | app _ _ ihf iha =>
    obtain ⟨hf, ha⟩ := Term.app.inj heq
    exact ⟨ihf (by omega) hf, iha (by omega) ha⟩
  | @splice b b' k hb _ =>
    -- What is left of a splice is too small to be the splice.
    have hsize := hb.sizeOf_le hk
    have hunquote := Term.sizeOf_unquote_le b'
    rw [heq, Term.splice.sizeOf_spec] at hunquote
    omega
  | call => cases hk

/-- **A term is expanded exactly if expansion leaves it as it is, at no cost.** -/
theorem expandMetered_eq_self_iff {t : Term} :
    (∀ fuel, env.expandMetered t fuel = (.ok t, fuel)) ↔ t.IsExpanded := by
  constructor
  · intro h
    have hok := h ⟨0, 0⟩
    obtain ⟨k, hexpands⟩ := (env.expandMetered_settles t ⟨0, 0⟩).of_ok (congrArg Prod.fst hok)
    have hk : k ≤ 0 := (hexpands.costs.of_ok hok).1
    exact hexpands.isExpanded_of_eq (Nat.le_zero.1 hk) rfl
  · intro h fuel
    rw [expandMetered_of_isExpanded h]
    rfl

/-! ## What splices release -/

/-- If what a term reaches is in one of two parts, so is what it releases. -/
theorem releasesExpanded_of_parts {t u v : Term}
    (h : ∀ body, env.Reaches t (.splice body) ↔
      env.Reaches u (.splice body) ∨ env.Reaches v (.splice body)) :
    env.ReleasesExpanded t ↔ env.ReleasesExpanded u ∧ env.ReleasesExpanded v := by
  constructor
  · intro ht
    constructor
    · exact fun body quoted hreach => ht body quoted ((h body).2 (.inl hreach))
    · exact fun body quoted hreach => ht body quoted ((h body).2 (.inr hreach))
  · rintro ⟨hu, hv⟩ body quoted hreach
    exact ((h body).1 hreach).elim (hu body quoted) (hv body quoted)

theorem releasesExpanded_pi {A B : Term} :
    env.ReleasesExpanded (.pi A B) ↔ env.ReleasesExpanded A ∧ env.ReleasesExpanded B := by
  refine releasesExpanded_of_parts
    fun body => ⟨fun h => ?_, fun h => h.elim (.piDomain B) (.piBody A)⟩
  cases h with
  | piDomain _ h => exact .inl h
  | piBody _ h => exact .inr h

theorem releasesExpanded_lam {A b : Term} :
    env.ReleasesExpanded (.lam A b) ↔ env.ReleasesExpanded A ∧ env.ReleasesExpanded b := by
  refine releasesExpanded_of_parts
    fun body => ⟨fun h => ?_, fun h => h.elim (.lamDomain b) (.lamBody A)⟩
  cases h with
  | lamDomain _ h => exact .inl h
  | lamBody _ h => exact .inr h

theorem releasesExpanded_app {f a : Term} :
    env.ReleasesExpanded (.app f a) ↔ env.ReleasesExpanded f ∧ env.ReleasesExpanded a := by
  refine releasesExpanded_of_parts fun body => ⟨fun h => ?_, fun h => h.elim (.appFn a) (.appArg f)⟩
  cases h with
  | appFn _ h => exact .inl h
  | appArg _ h => exact .inr h

theorem Expands.isExpanded_iff {t t' : Term} {k : Nat} (h : env.Expands t k t') :
    t'.IsExpanded ↔ env.ReleasesExpanded t := by
  induction h with
  | sort | const | num | str | var | quote =>
    refine ⟨fun _ body quoted hreach => ?_, fun _ => trivial⟩
    cases hreach
  | pi _ _ ihA ihB => rw [Term.IsExpanded, ihA, ihB, releasesExpanded_pi]
  | lam _ _ ihA ihb => rw [Term.IsExpanded, ihA, ihb, releasesExpanded_lam]
  | app _ _ ihf iha => rw [Term.IsExpanded, ihf, iha, releasesExpanded_app]
  | @splice b b' k hb ih =>
    constructor
    · intro hreleased body quoted hreach hquoted
      cases hreach with
      | refl =>
        obtain ⟨_, hexpands⟩ := exists_expands_iff.2 hquoted
        obtain ⟨-, rfl⟩ := hb.unique hexpands
        exact hreleased
      | splice hreach => exact ih.1 (.of_unquote hreleased) body quoted hreach hquoted
    · intro h
      have hinner : b'.IsExpanded := ih.2 fun body quoted hreach => h body quoted (.splice hreach)
      cases b' with
      | quote quoted => exact h b quoted (.refl _) (exists_expands_iff.1 ⟨k, hb⟩)
      | _ => exact hinner
  | call hvalue hrun _ ih =>
    rw [ih]
    constructor
    · intro h body quoted hreach
      cases hreach with
      | call hvalue' hrun' hreach =>
        obtain rfl := Option.some.inj (hvalue.symm.trans hvalue')
        obtain rfl := Except.ok.inj (hrun.symm.trans hrun')
        exact h body quoted hreach
    · exact fun h body quoted hreach => h body quoted (.call hvalue hrun hreach)

/-- **What an expansion leaves is what its splices release.** The result is expanded, and so is
what expanding it again answers with at no cost, exactly if all quoted code that splices release on
the way was expanded. -/
theorem expand_isExpanded_iff {t t' : Term} (h : env.expand t = .ok t') :
    (t'.IsExpanded ↔ env.ReleasesExpanded t) ∧
      ((∀ fuel, env.expandMetered t' fuel = (.ok t', fuel)) ↔ env.ReleasesExpanded t) := by
  obtain ⟨k, hexpands⟩ := (env.expandMetered_settles t _).of_ok h
  have hiff := hexpands.isExpanded_iff
  exact ⟨hiff, expandMetered_eq_self_iff.trans hiff⟩

/-- An environment with one metalevel definition, which computes code for a number. -/
def withSeven : Environment :=
  let base := Signature.empty.withBaseTypes
  ⟨⟨("seven", ⟨.metalevel, .const "number", some (.quote (.num 7))⟩) :: base.table,
    base.order ++ ["seven"]⟩, ⟨10, 10⟩⟩

theorem expand_isExpanded_withSeven :
    let seven : Term := .call (.const "seven") []
    withSeven.ReleasesExpanded (.splice seven) ∧
      ∀ fuel, withSeven.expandMetered (.num 7) fuel = (.ok (.num 7), fuel) := by
  intro seven
  have hok : withSeven.expand (.splice seven) = .ok (.num 7) := by decide +kernel
  obtain ⟨hiff, hagain⟩ := expand_isExpanded_iff hok
  have hreleases := hiff.1 trivial
  exact ⟨hreleases, hagain.2 hreleases⟩

/-- A splice of a quoted call expands to the call, which another expansion would replace. -/
theorem expand_splice_quote_call :
    let seven : Term := .call (.const "seven") []
    withSeven.expand (.splice (.quote seven)) = .ok seven ∧ ¬ seven.IsExpanded ∧
      withSeven.expand seven = .ok (.num 7) :=
  ⟨by decide +kernel, id, by decide +kernel⟩

end Environment

end StagedTT
