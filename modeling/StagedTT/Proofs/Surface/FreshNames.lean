import Mathlib.Data.List.Nodup
import StagedTT.Proofs.Surface.Renaming

/-!
# Renaming to fresh names

`e.rename new ρ` gives new names to binders of `e`. For each of them it asks `new`, which is told
the key and how many binders are around it, and may leave the binder as it is. Symbols follow the
innermost binder of their name. `ρ` has the binders around `e`.

If the new names are fresh, nothing is captured, and the result is a renaming of `e`
(`SExpr.renamed_rename`). So it is lowered to the same term (`SExpr.lower_rename`).
-/

namespace StagedTT

/-- New names for binders: for a key under a number of binders, the new name that it gets, if it
gets one. -/
abbrev NewNames : Type := (depth : Nat) → (key : SExpr) → Option String

/-- The new names are names for binders that are not in use. No keyword is renamed, none is a new
name, and the names of binders inside one another differ. -/
structure NewNames.Fresh (new : NewNames) (used : String → Prop) : Prop where
  unused : ∀ {n key z}, new n key = some z → ¬ used z
  named : ∀ {n key z}, new n key = some z → SExpr.trimColons z = z ∧ z ≠ ""
  noWord : ∀ {n key z}, new n key = some z → Keyword.ofWord? z = none
  noOldWord : ∀ {n key z x}, new n key = some z → key.binderName = .ok x →
    Keyword.ofWord? x = none
  apart : ∀ {m n key key' z}, new m key = some z → new n key' = some z → m = n

namespace Renaming

/-- What a symbol becomes: it follows the innermost binder of its name. -/
def apply (ρ : Renaming) (x : String) : String := (ρ.lookup x).getD x

theorem apply_cons_self (ρ : Renaming) (x z : String) : apply ((x, z) :: ρ) x = z := by
  simp [apply]

theorem apply_cons_of_ne (ρ : Renaming) {x y : String} (h : x ≠ y) (w : String) :
    apply ((y, w) :: ρ) x = ρ.apply x := by
  simp [apply, List.lookup_cons, beq_eq_false_iff_ne.2 h]

/-- The binders inside one with this key. -/
def bind (new : NewNames) (ρ : Renaming) (key : SExpr) : Renaming :=
  match key.binderName with
  | .ok x => (x, (new ρ.length key).getD x) :: ρ
  | .error _ => ρ

/-- The binders inside all of a dictionary. -/
def bindAll (new : NewNames) (ρ : Renaming) (entries : List (SExpr × SExpr)) : Renaming :=
  entries.foldl (fun ρ entry => ρ.bind new entry.1) ρ

/-- The key with its new name. -/
def key (new : NewNames) (ρ : Renaming) (key : SExpr) : SExpr :=
  match key.binderName, new ρ.length key with
  | .ok _, some z => .sym key.location z
  | _, _ => key

end Renaming

namespace SExpr

mutual

/-- An expression with new names for its binders. -/
def rename (new : NewNames) : Renaming → SExpr → SExpr
  | _, .num loc value => .num loc value
  | _, .str loc value => .str loc value
  | ρ, .sym loc name => .sym loc (ρ.apply name)
  | ρ, .quote loc body => .quote loc (rename new ρ body)
  | ρ, .splice loc body => .splice loc (rename new ρ body)
  | _, .vector loc items => .vector loc items
  | _, .dict loc entries => .dict loc entries
  | _, .list loc [] => .list loc []
  | ρ, .list loc (head :: args) =>
    match head.keyword?, args with
    | some (.binder _), [.dict dictLoc (entry :: entries), body] =>
      .list loc [head, .dict dictLoc (renameEntries new ρ (entry :: entries)),
        rename new (ρ.bindAll new (entry :: entries)) body]
    | some .sort, [level] => .list loc [head, rename new ρ level]
    | some (.staging _), [body] => .list loc [head, rename new ρ body]
    | some _, args => .list loc (head :: args)
    | none, args => .list loc (rename new ρ head :: renameAll new ρ args)

/-- Arguments with new names for their binders. -/
def renameAll (new : NewNames) : Renaming → List SExpr → List SExpr
  | _, [] => []
  | ρ, arg :: args => rename new ρ arg :: renameAll new ρ args

/-- The entries of a dictionary with new names. Each type is inside the binders before its own. -/
def renameEntries (new : NewNames) : Renaming → List (SExpr × SExpr) → List (SExpr × SExpr)
  | _, [] => []
  | ρ, (key, type) :: entries =>
    (ρ.key new key, rename new ρ type) :: renameEntries new (ρ.bind new key) entries

end

end SExpr

/-! ## Nothing is captured -/

/-- Binders with names in use, each of which keeps its name or has the one that it gets. -/
inductive Renaming.Follows (new : NewNames) (used : String → Prop) : Renaming → Prop
  | nil : Follows new used []
  | cons {ρ : Renaming} {key : SExpr} {x : String} : Follows new used ρ → key.binderName = .ok x →
      used x → Follows new used ((x, (new ρ.length key).getD x) :: ρ)

section Fresh

variable {new : NewNames} {used : String → Prop} {ρ : Renaming}

/-- A symbol stays as it is, or it gets the new name of a binder of its name. -/
theorem Renaming.Follows.apply_cases (h : ρ.Follows new used) (x : String) :
    ρ.apply x = x ∨
      ∃ n < ρ.length, ∃ key, new n key = some (ρ.apply x) ∧ key.binderName = .ok x := by
  induction h with
  | nil => exact .inl rfl
  | @cons ρ key y _ hkey _ ih =>
    by_cases hxy : x = y
    · subst hxy
      rw [apply_cons_self]
      cases hnew : new ρ.length key with
      | none => exact .inl rfl
      | some z => exact .inr ⟨ρ.length, Nat.lt_succ_self _, key, hnew, hkey⟩
    · rw [apply_cons_of_ne ρ hxy]
      rcases ih with hsame | ⟨n, hn, key', hnew, hname⟩
      · exact .inl hsame
      · exact .inr ⟨n, Nat.lt_succ_of_lt hn, key', hnew, hname⟩

variable (hfresh : new.Fresh used)

include hfresh

/-- **No binder captures a symbol.** What a symbol in use becomes means the binder that the symbol
meant. -/
theorem Renaming.Follows.symbolRenamed (h : ρ.Follows new used) {x : String} (hx : used x) :
    SymbolRenamed ρ x (ρ.apply x) := by
  induction h with
  | nil => exact .free x
  | @cons ρ key y hρ _ hy ih =>
    by_cases hxy : x = y
    · subst hxy
      rw [apply_cons_self]
      exact .here ρ x _
    · rw [apply_cons_of_ne ρ hxy]
      refine .there hxy ?_ ih
      rcases hρ.apply_cases x with hsame | ⟨n, hn, key', hnew, -⟩
      · rw [hsame]
        cases hw : new ρ.length key with
        | none => exact hxy
        | some w =>
          rintro rfl
          exact hfresh.unused hw hx
      · cases hw : new ρ.length key with
        | none =>
          rintro heq
          rw [heq] at hnew
          exact hfresh.unused hnew hy
        | some w =>
          -- Two binders that are inside one another have different new names.
          rintro heq
          rw [heq] at hnew
          exact absurd (hfresh.apart hnew hw) (Nat.ne_of_lt hn)

theorem Renaming.Follows.noWord (h : ρ.Follows new used) {x : String}
    (hx : Keyword.ofWord? x = none) : Keyword.ofWord? (ρ.apply x) = none := by
  rcases h.apply_cases x with hsame | ⟨n, -, key, hnew, -⟩
  · rwa [hsame]
  · exact hfresh.noWord hnew

theorem Renaming.binderName_key {key : SExpr} {x : String} (ρ : Renaming)
    (hkey : key.binderName = .ok x) :
    (ρ.key new key).binderName = .ok ((new ρ.length key).getD x) := by
  unfold Renaming.key
  cases hnew : new ρ.length key with
  | none => simp only [hkey]; rfl
  | some z =>
    obtain ⟨htrim, hne⟩ := hfresh.named hnew
    simp only [hkey]
    show (SExpr.sym key.location z).binderName = .ok z
    simp only [SExpr.binderName, htrim, if_neg hne]

namespace SExpr

/-! ## Renaming -/

/-- The names in an expression are in use, also without the colons around them. -/
def UsesOnly (used : String → Prop) (e : SExpr) : Prop :=
  e.Names fun x => used x ∧ used (trimColons x)

/-- An expression of which renaming to the new names makes a renaming. -/
def RenamesFreshly (new : NewNames) (used : String → Prop) (e : SExpr) : Prop :=
  ∀ ρ : Renaming, ρ.Follows new used → e.UsesOnly used → Renamed ρ e (e.rename new ρ)

omit hfresh in
theorem used_of_binderName {key : SExpr} {x : String} (hkey : key.binderName = .ok x)
    (h : key.UsesOnly used) : used x := by
  unfold binderName at hkey
  split at hkey
  · next loc word =>
    have hword := (h word (List.mem_singleton.2 rfl)).2
    by_cases hempty : trimColons word = ""
    · simp only [hempty, if_true] at hkey
      cases hkey
    · simp only [hempty, if_false] at hkey
      cases hkey
      exact hword
  · cases hkey

omit hfresh in
theorem renamedAll_renameAll {args : List SExpr}
    (h : ∀ arg ∈ args, Renamed ρ arg (arg.rename new ρ)) :
    RenamedAll ρ args (renameAll new ρ args) := by
  induction args with
  | nil => exact .nil
  | cons arg args ih =>
    obtain ⟨hfirst, hrest⟩ := List.forall_mem_cons.1 h
    exact .cons hfirst (ih hrest)

theorem renamedTelescope_renameEntries {body : SExpr} (hbody : body.RenamesFreshly new used)
    (hnames : body.UsesOnly used) {entries : List (SExpr × SExpr)}
    (hentries : ∀ entry ∈ entries, entry.2.RenamesFreshly new used)
    (hused : ∀ entry ∈ entries, entry.1.UsesOnly used ∧ entry.2.UsesOnly used)
    (hρ : ρ.Follows new used) :
    RenamedTelescope ρ entries body (renameEntries new ρ entries)
      (body.rename new (ρ.bindAll new entries)) := by
  induction entries generalizing ρ with
  | nil => exact .nil (hbody ρ hρ hnames)
  | cons entry entries ih =>
    obtain ⟨key, type⟩ := entry
    obtain ⟨htype, hrest⟩ := List.forall_mem_cons.1 hentries
    obtain ⟨⟨hkeyUsed, htypeUsed⟩, hrestUsed⟩ := List.forall_mem_cons.1 hused
    rw [renameEntries]
    cases hkey : key.binderName with
    | error d =>
      have hsame : ρ.key new key = key := by simp only [Renaming.key, hkey]
      rw [hsame]
      exact .unnamed hkey hkey
    | ok x =>
      have hbind : ρ.bind new key = (x, (new ρ.length key).getD x) :: ρ := by
        simp only [Renaming.bind, hkey]
      have hinside := hρ.cons hkey (used_of_binderName hkey hkeyUsed)
      have hothers := ih hrest hrestUsed hinside
      rw [← hbind] at hothers
      refine .cons hkey (ρ.binderName_key hfresh hkey) (htype ρ hρ htypeUsed) ?_
      rw [← hbind]
      exact hothers

theorem rename_keyword? (hρ : ρ.Follows new used) {e : SExpr} (h : e.keyword? = none) :
    (e.rename new ρ).keyword? = none := by
  cases e with
  | sym loc x => exact hρ.noWord hfresh h
  | list loc items =>
    cases items with
    | nil => rfl
    | cons head args =>
      unfold rename
      split <;> rfl
  | _ => rfl

/-- **Renaming to fresh names is a renaming**: every symbol means the binder that it meant. -/
theorem renamed_rename (e : SExpr) : e.RenamesFreshly new used := by
  induction e using inductLowered with
  | num loc value => exact fun _ _ _ => .num loc loc value
  | str loc value => exact fun _ _ _ => .str loc loc value
  | sym loc name =>
    intro ρ hρ h
    exact .sym loc loc (hρ.symbolRenamed hfresh (h name (List.mem_singleton.2 rfl)).1)
  | vector | dict => exact fun _ _ _ => .illFormed trivial trivial
  | quote loc body ih => exact fun ρ hρ h => .quote loc loc (ih ρ hρ h)
  | splice loc body ih => exact fun ρ hρ h => .splice loc loc (ih ρ hρ h)
  | list loc items ih ihdict =>
    intro ρ hρ h
    have hitems := h.of_list
    have hrenamed : ∀ item ∈ items, Renamed ρ item (item.rename new ρ) := fun item hitem =>
      ih item hitem ρ hρ (hitems item hitem)
    cases items with
    | nil => exact .illFormed trivial trivial
    | cons head args =>
      obtain ⟨hhead, hargs⟩ := List.forall_mem_cons.1 hrenamed
      unfold rename
      split
      · next binder dictLoc entry entries body hkeyword =>
        have hdict : .dict dictLoc (entry :: entries) ∈ [head, .dict dictLoc (entry :: entries),
          body] := by simp
        have hbody : body ∈ [head, .dict dictLoc (entry :: entries), body] := by simp
        have htelescope := renamedTelescope_renameEntries hfresh (ih body hbody)
          (hitems body hbody) (ihdict _ _ hdict) (hitems _ hdict).of_dict hρ
        exact .binder loc loc dictLoc dictLoc hkeyword hkeyword htelescope
      · next level hkeyword => exact .sort loc loc hkeyword hkeyword (hargs level (by simp))
      · next staging body hkeyword =>
        exact .staging loc loc hkeyword hkeyword (hargs body (by simp))
      · next args _ _ keyword hkeyword hbinder hsort hstaging =>
        have hmisused : Misused keyword args := by
          unfold Misused
          split
          · exact hbinder _ _ _ _ _ rfl rfl
          · exact hsort _ rfl rfl
          · exact hstaging _ _ rfl rfl
          · trivial
        exact .illFormed ⟨keyword, hkeyword, hmisused⟩ ⟨keyword, hkeyword, hmisused⟩
      · next hkeyword =>
        exact .application loc loc hkeyword (rename_keyword? hfresh hρ hkeyword) hhead
          (renamedAll_renameAll hargs)

/-- **Fresh names for binders change no term.** -/
theorem lower_rename {e : SExpr} (h : e.UsesOnly used) (scope : Scope) :
    (∀ t, e.lower scope = .ok t ↔ (e.rename new []).lower scope = .ok t) ∧
      ∀ d, e.lower scope = .error d → ∃ d', (e.rename new []).lower scope = .error d' :=
  SameTerm.answers ((renamed_rename hfresh e [] .nil h).lower scope)

end SExpr

end Fresh

/-! ## A name for each depth -/

/-- The binders under `n` binders are called by the name at `n`, if there is one. Keywords stay. -/
def NewNames.byDepth (names : List String) : NewNames := fun depth key =>
  match key.binderName with
  | .ok x => if Keyword.ofWord? x = none then names[depth]? else none
  | .error _ => none

theorem NewNames.byDepth_eq_some {names : List String} {n : Nat} {key : SExpr} {z : String}
    (h : byDepth names n key = some z) :
    names[n]? = some z ∧ ∀ x, key.binderName = .ok x → Keyword.ofWord? x = none := by
  unfold byDepth at h
  cases hkey : key.binderName with
  | error d => simp only [hkey] at h; cases h
  | ok x =>
    by_cases hword : Keyword.ofWord? x = none
    · simp only [hkey, if_pos hword] at h
      exact ⟨h, fun y hy => Except.ok.inj hy ▸ hword⟩
    · simp only [hkey, if_neg hword] at h
      cases h

/-- Different names that are not in use make fresh names. -/
theorem NewNames.fresh_byDepth {names : List String} {used : String → Prop}
    (hdistinct : names.Nodup) (hunused : ∀ z ∈ names, ¬ used z)
    (hnames : ∀ z ∈ names, SExpr.trimColons z = z ∧ z ≠ "" ∧ Keyword.ofWord? z = none) :
    (byDepth names).Fresh used where
  unused h := hunused _ (List.mem_of_getElem? (byDepth_eq_some h).1)
  named h := by
    obtain ⟨htrim, hne, -⟩ := hnames _ (List.mem_of_getElem? (byDepth_eq_some h).1)
    exact ⟨htrim, hne⟩
  noWord h := (hnames _ (List.mem_of_getElem? (byDepth_eq_some h).1)).2.2
  noOldWord h hkey := (byDepth_eq_some h).2 _ hkey
  apart h h' := by
    obtain ⟨hm, hz⟩ := List.getElem?_eq_some_iff.1 (byDepth_eq_some h).1
    obtain ⟨hn, hz'⟩ := List.getElem?_eq_some_iff.1 (byDepth_eq_some h').1
    exact (List.Nodup.getElem_inj_iff hdistinct).1 (hz.trans hz'.symm)

/-- The second binder takes the name of the first one, and a type between them means the first. -/
example :
    let sym (name : String) : SExpr := .sym {} name
    let code (key key' type body : String) : SExpr :=
      .list {} [sym "pi", .dict {} [(sym key, sym "number"), (sym key', sym type)], sym body]
    (code "x" ":x" "x" "x").rename (.byDepth ["a", "b"]) [] = code "a" "b" "a" "b" := by
  decide

end StagedTT
