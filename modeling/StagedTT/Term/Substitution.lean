import StagedTT.Term.Basic

/-!
# Shifting and substitution

A variable counts binders from the innermost one outward, its index; a context is laid out from the
outermost binder inward, and a position in it is a level. `shift` moves the free variables of a term
past newly inserted binders; `subst` removes a binder from scope and puts a term in its place, which
is moved past each binder on the way.

Both add to indices, and indices are held in machine words. What comes of a sum that no word holds
is a matter of the build: it wraps around, or the run stops (`IndexArithmetic`). So each operation
comes twice, as `shift?` and `subst?`, which have no answer where the run stops, and without that
case. Where no arithmetic is named, indices are unbounded, and no sum is out of range. Then both
operations are one traversal, `Term.mapVars`, which hands every variable to a function together with
the depth at which it occurs, and have one simp equation per constructor.
-/

namespace StagedTT

/-! ## Indices -/

/-- How indices are added. Sums that a machine word holds are what they are. -/
class IndexArithmetic where
  /-- The sum, if the run does not stop at it. -/
  add? : (index amount : Nat) → Option Nat
  add?_of_lt : ∀ {index amount : Nat}, index + amount < UInt64.size →
    add? index amount = some (index + amount)

namespace IndexArithmetic

/-- Indices without a bound. -/
instance exact : IndexArithmetic where
  add? index amount := some (index + amount)
  add?_of_lt _ := rfl

/-- Sums wrap around. -/
abbrev wrapping : IndexArithmetic where
  add? index amount := some ((index + amount) % UInt64.size)
  add?_of_lt h := by rw [Nat.mod_eq_of_lt h]

/-- The run stops at a sum that no word holds. -/
abbrev checked : IndexArithmetic where
  add? index amount := if index + amount < UInt64.size then some (index + amount) else none
  add?_of_lt h := if_pos h

end IndexArithmetic

namespace Index

/-- The level of the binder with this index in a context of `depth` binders, if there is one. -/
def toLevel? (index depth : Nat) : Option Nat :=
  if index < depth then some (depth - index - 1) else none

/-- The index of the same variable once a binder inside its own is gone. The innermost variable
stays where it is. -/
def lowered (index : Nat) : Nat := index - 1

/-- The index of the same variable inside `amount` more binders. -/
def raised? [IndexArithmetic] (index amount : Nat) : Option Nat :=
  IndexArithmetic.add? index amount

end Index

namespace Term

mutual

/-- Replaces every variable by `f depth index`, where `depth` is the given one plus the number
of binders crossed on the way to the variable. -/
def mapVars (f : (depth index : Nat) → Term) : (depth : Nat) → Term → Term
  | _, .sort level => .sort level
  | _, .const name => .const name
  | _, .num value => .num value
  | _, .str value => .str value
  | depth, .var index => f depth index
  | depth, .pi domain body => .pi (mapVars f depth domain) (mapVars f (depth + 1) body)
  | depth, .lam domain body => .lam (mapVars f depth domain) (mapVars f (depth + 1) body)
  | depth, .app fn arg => .app (mapVars f depth fn) (mapVars f depth arg)
  | depth, .quote body => .quote (mapVars f depth body)
  | depth, .splice body => .splice (mapVars f depth body)
  | depth, .call head args => .call (mapVars f depth head) (mapVarsArgs f depth args)

/-- `mapVars` on each argument of a call. -/
def mapVarsArgs (f : (depth index : Nat) → Term) : (depth : Nat) → List Term → List Term
  | _, [] => []
  | depth, arg :: args => mapVars f depth arg :: mapVarsArgs f depth args

end

section MapVars

variable (f : (depth index : Nat) → Term) (depth : Nat)

@[simp] theorem mapVarsArgs_eq_map (args : List Term) :
    mapVarsArgs f depth args = args.map (mapVars f depth) := by
  induction args with
  | nil => rfl
  | cons arg args ih => exact congrArg (mapVars f depth arg :: ·) ih

@[simp] theorem mapVars_sort (l : Nat) : mapVars f depth (sort l) = sort l := rfl

@[simp] theorem mapVars_const (n : String) : mapVars f depth (const n) = const n := rfl

@[simp] theorem mapVars_num (v : Int64) : mapVars f depth (num v) = num v := rfl

@[simp] theorem mapVars_str (s : String) : mapVars f depth (str s) = str s := rfl

@[simp] theorem mapVars_var (i : Nat) : mapVars f depth (var i) = f depth i := rfl

@[simp] theorem mapVars_pi (A B : Term) :
    mapVars f depth (pi A B) = pi (mapVars f depth A) (mapVars f (depth + 1) B) := rfl

@[simp] theorem mapVars_lam (A b : Term) :
    mapVars f depth (lam A b) = lam (mapVars f depth A) (mapVars f (depth + 1) b) := rfl

@[simp] theorem mapVars_app (g a : Term) :
    mapVars f depth (app g a) = app (mapVars f depth g) (mapVars f depth a) := rfl

@[simp] theorem mapVars_quote (b : Term) :
    mapVars f depth (quote b) = quote (mapVars f depth b) := rfl

@[simp] theorem mapVars_splice (b : Term) :
    mapVars f depth (splice b) = splice (mapVars f depth b) := rfl

@[simp] theorem mapVars_call (h : Term) (as : List Term) :
    mapVars f depth (call h as) = call (mapVars f depth h) (as.map (mapVars f depth)) := by
  rw [← mapVarsArgs_eq_map]; rfl

end MapVars

theorem mapVars_congr {f g : Nat → Nat → Term} {t : Term} {c : Nat}
    (h : ∀ depth, c ≤ depth → ∀ i, f depth i = g depth i) : mapVars f c t = mapVars g c t := by
  induction t generalizing c with
  | sort | const | num | str => rfl
  | var i => exact h c (Nat.le_refl c) i
  | pi A B ihA ihB | lam A B ihA ihB =>
    have hB := ihB fun depth (hd : c + 1 ≤ depth) => h depth (by omega)
    simp only [mapVars_pi, mapVars_lam, ihA h, hB]
  | app g a ihg iha => simp only [mapVars_app, ihg h, iha h]
  | quote b ih | splice b ih => simp only [mapVars_quote, mapVars_splice, ih h]
  | call k as ihk ihas =>
    rw [mapVars_call, mapVars_call, ihk h, List.map_congr_left fun a ha => ihas a ha h]

/-- Traversals compose when they do so on variables. -/
theorem mapVars_mapVars {f g k : Nat → Nat → Term} {t : Term} {c d : Nat}
    (h : ∀ n i, mapVars f (c + n) (g (d + n) i) = k (d + n) i) :
    mapVars f c (mapVars g d t) = mapVars k d t := by
  induction t generalizing c d with
  | sort | const | num | str => rfl
  | var i => exact h 0 i
  | pi A B ihA ihB | lam A B ihA ihB =>
    have hB : mapVars f (c + 1) (mapVars g (d + 1) B) = mapVars k (d + 1) B := ihB fun n i => by
      have := h (n + 1) i
      rwa [← Nat.add_assoc, ← Nat.add_assoc, Nat.add_right_comm c, Nat.add_right_comm d] at this
    simp only [mapVars_pi, mapVars_lam, ihA h, hB]
  | app g a ihg iha => simp only [mapVars_app, ihg h, iha h]
  | quote b ih | splice b ih => simp only [mapVars_quote, mapVars_splice, ih h]
  | call j as ihj ihas =>
    rw [mapVars_call, mapVars_call, mapVars_call, ihj h, List.map_map]
    exact congrArg _ (List.map_congr_left fun a ha => ihas a ha h)

/-- A traversal that leaves every variable leaves the term. -/
theorem mapVars_id (t : Term) (c : Nat) : mapVars (fun _ i => .var i) c t = t := by
  induction t generalizing c with
  | sort | const | num | str | var => rfl
  | pi A B ihA ihB | lam A B ihA ihB => simp only [mapVars_pi, mapVars_lam, ihA, ihB]
  | app g a ihg iha => simp only [mapVars_app, ihg, iha]
  | quote b ih | splice b ih => simp only [mapVars_quote, mapVars_splice, ih]
  | call k as ihk ihas =>
    rw [mapVars_call, ihk, List.map_congr_left fun a ha => ihas a ha c, List.map_id']

/-! ## Shifting -/

section Arithmetic

variable [IndexArithmetic]

mutual

/-- Adds `amount` to every free variable at or above `cutoff`, if no sum stops the run. -/
def shiftFrom? (amount : Nat) : (cutoff : Nat) → Term → Option Term
  | _, .sort level => some (.sort level)
  | _, .const name => some (.const name)
  | _, .num value => some (.num value)
  | _, .str value => some (.str value)
  | cutoff, .var index =>
    if index < cutoff then some (.var index) else (Index.raised? index amount).map .var
  | cutoff, .pi domain body => do
    let domain ← shiftFrom? amount cutoff domain
    let body ← shiftFrom? amount (← Index.raised? cutoff 1) body
    return .pi domain body
  | cutoff, .lam domain body => do
    let domain ← shiftFrom? amount cutoff domain
    let body ← shiftFrom? amount (← Index.raised? cutoff 1) body
    return .lam domain body
  | cutoff, .app fn arg => do
    let fn ← shiftFrom? amount cutoff fn
    let arg ← shiftFrom? amount cutoff arg
    return .app fn arg
  | cutoff, .quote body => do
    let body ← shiftFrom? amount cutoff body
    return .quote body
  | cutoff, .splice body => do
    let body ← shiftFrom? amount cutoff body
    return .splice body
  | cutoff, .call head args => do
    let head ← shiftFrom? amount cutoff head
    let args ← shiftArgs? amount cutoff args
    return .call head args

/-- `shiftFrom?` on each argument of a call. -/
def shiftArgs? (amount : Nat) : (cutoff : Nat) → List Term → Option (List Term)
  | _, [] => some []
  | cutoff, arg :: args => do
    let arg ← shiftFrom? amount cutoff arg
    let args ← shiftArgs? amount cutoff args
    return arg :: args

end

/-- Adds `amount` to every free variable at or above `cutoff`, if no sum stops the run. -/
def shift? (t : Term) (amount cutoff : Nat) : Option Term :=
  if amount = 0 then some t else shiftFrom? amount cutoff t

/-- Adds `amount` to every free variable at or above `cutoff`, in runs that do not stop at it. -/
def shift (t : Term) (amount cutoff : Nat) : Term := (t.shift? amount cutoff).getD t

mutual

/-- Puts `replacement` for the variable `index` and takes its binder out of scope, if no sum stops
the run. The replacement is moved past every binder, also where the variable is not met. -/
def substFrom? : (index : Nat) → (replacement : Term) → Term → Option Term
  | _, _, .sort level => some (.sort level)
  | _, _, .const name => some (.const name)
  | _, _, .num value => some (.num value)
  | _, _, .str value => some (.str value)
  | index, replacement, .var other =>
    some (if other < index then .var other
      else if other = index then replacement
      else .var (Index.lowered other))
  | index, replacement, .pi domain body => do
    let domain ← substFrom? index replacement domain
    let lifted ← replacement.shift? 1 0
    let body ← substFrom? (← Index.raised? index 1) lifted body
    return .pi domain body
  | index, replacement, .lam domain body => do
    let domain ← substFrom? index replacement domain
    let lifted ← replacement.shift? 1 0
    let body ← substFrom? (← Index.raised? index 1) lifted body
    return .lam domain body
  | index, replacement, .app fn arg => do
    let fn ← substFrom? index replacement fn
    let arg ← substFrom? index replacement arg
    return .app fn arg
  | index, replacement, .quote body => do
    let body ← substFrom? index replacement body
    return .quote body
  | index, replacement, .splice body => do
    let body ← substFrom? index replacement body
    return .splice body
  | index, replacement, .call head args => do
    let head ← substFrom? index replacement head
    let args ← substArgs? index replacement args
    return .call head args

/-- `substFrom?` on each argument of a call. -/
def substArgs? : (index : Nat) → (replacement : Term) → List Term → Option (List Term)
  | _, _, [] => some []
  | index, replacement, arg :: args => do
    let arg ← substFrom? index replacement arg
    let args ← substArgs? index replacement args
    return arg :: args

end

/-- Puts `replacement` for the variable `index` and takes its binder out of scope, if no sum stops
the run. -/
def subst? (t : Term) (index : Nat) (replacement : Term) : Option Term :=
  substFrom? index replacement t

/-- Puts `replacement` for the variable `index` and takes its binder out of scope, in runs that do
not stop at it. -/
def subst (t : Term) (index : Nat) (replacement : Term) : Term :=
  (t.subst? index replacement).getD t

/-- The body of a binder with its own variable replaced: what `(fn {_: A} body) arg` contracts to,
if no sum stops the run. -/
def instantiate? (body arg : Term) : Option Term := body.subst? 0 arg

/-- What `(fn {_: A} body) arg` contracts to, in runs that do not stop at it. -/
def instantiate (body arg : Term) : Term := body.subst 0 arg

end Arithmetic

/-! ## Shifting unbounded indices -/

/-- No sum stops a run if indices have no bound, and to shift is one traversal. -/
theorem shiftFrom?_eq (amount cutoff : Nat) (t : Term) :
    shiftFrom? amount cutoff t =
      some (t.mapVars (fun depth i => .var (if i < depth then i else i + amount)) cutoff) := by
  induction t generalizing cutoff with
  | sort | const | num | str => rfl
  | var i =>
    by_cases h : i < cutoff <;> simp [shiftFrom?, Index.raised?, IndexArithmetic.add?, h]
  | pi A B ihA ihB | lam A B ihA ihB =>
    simp only [shiftFrom?, Index.raised?, IndexArithmetic.add?, ihA, ihB]
    rfl
  | app f a ihf iha =>
    simp only [shiftFrom?, ihf, iha]
    rfl
  | quote b ih | splice b ih =>
    simp only [shiftFrom?, ih]
    rfl
  | call h as ihh ihas =>
    have hargs : shiftArgs? amount cutoff as = some (as.map
        (mapVars (fun depth i => .var (if i < depth then i else i + amount)) cutoff)) := by
      clear ihh
      induction as with
      | nil => rfl
      | cons a as ih =>
        obtain ⟨ha, has⟩ := List.forall_mem_cons.1 ihas
        simp only [shiftArgs?, ha, ih has]
        rfl
    simp only [shiftFrom?, ihh, hargs, mapVars_call]
    rfl

theorem shift?_eq_shift (t : Term) (amount cutoff : Nat) :
    t.shift? amount cutoff = some (t.shift amount cutoff) := by
  unfold shift shift?
  split
  · rfl
  · rw [shiftFrom?_eq]
    rfl

theorem shift_eq_mapVars (t : Term) (amount cutoff : Nat) :
    t.shift amount cutoff =
      t.mapVars (fun depth i => .var (if i < depth then i else i + amount)) cutoff := by
  unfold shift shift?
  split
  · next h =>
    subst h
    exact ((mapVars_congr fun _ _ i => by rw [Nat.add_zero, ite_self]).trans
      (mapVars_id t cutoff)).symm
  · rw [shiftFrom?_eq]
    rfl

@[simp] theorem shift_zero (t : Term) (c : Nat) : t.shift 0 c = t := rfl

section Shift

variable (d c : Nat)

@[simp] theorem shift_sort (l : Nat) : (sort l).shift d c = sort l := by
  simp only [shift_eq_mapVars, mapVars_sort]

@[simp] theorem shift_const (n : String) : (const n).shift d c = const n := by
  simp only [shift_eq_mapVars, mapVars_const]

@[simp] theorem shift_num (v : Int64) : (num v).shift d c = num v := by
  simp only [shift_eq_mapVars, mapVars_num]

@[simp] theorem shift_str (s : String) : (str s).shift d c = str s := by
  simp only [shift_eq_mapVars, mapVars_str]

@[simp] theorem shift_var (i : Nat) :
    (var i).shift d c = var (if i < c then i else i + d) := by
  simp only [shift_eq_mapVars, mapVars_var]

@[simp] theorem shift_pi (A B : Term) :
    (pi A B).shift d c = pi (A.shift d c) (B.shift d (c + 1)) := by
  simp only [shift_eq_mapVars, mapVars_pi]

@[simp] theorem shift_lam (A b : Term) :
    (lam A b).shift d c = lam (A.shift d c) (b.shift d (c + 1)) := by
  simp only [shift_eq_mapVars, mapVars_lam]

@[simp] theorem shift_app (f a : Term) :
    (app f a).shift d c = app (f.shift d c) (a.shift d c) := by
  simp only [shift_eq_mapVars, mapVars_app]

@[simp] theorem shift_quote (b : Term) : (quote b).shift d c = quote (b.shift d c) := by
  simp only [shift_eq_mapVars, mapVars_quote]

@[simp] theorem shift_splice (b : Term) : (splice b).shift d c = splice (b.shift d c) := by
  simp only [shift_eq_mapVars, mapVars_splice]

@[simp] theorem shift_call (h : Term) (as : List Term) :
    (call h as).shift d c = call (h.shift d c) (as.map (·.shift d c)) := by
  simp only [shift_eq_mapVars, mapVars_call]

end Shift

/-- Adjacent insertions of binders are one insertion. -/
theorem shift_shift {a b c e : Nat} (hce : c ≤ e) (hea : e ≤ c + a) (t : Term) :
    (t.shift a c).shift b e = t.shift (a + b) c := by
  simp only [shift_eq_mapVars]
  refine mapVars_mapVars fun n i => ?_
  simp only [mapVars_var, var.injEq]
  split <;> split <;> omega

/-! ## Substitution of unbounded indices -/

/-- What stands for a variable below `depth` binders once `replacement` is put for `index`. -/
def substVar (index : Nat) (replacement : Term) (depth i : Nat) : Term :=
  if i < depth then .var i
  else if i = depth then replacement.shift (depth - index) 0
  else .var (i - 1)

/-- The traversal of a substitution, one binder further in. -/
theorem mapVars_substVar_shift (index : Nat) (replacement t : Term) :
    t.mapVars (substVar (index + 1) (replacement.shift 1 0)) (index + 1) =
      t.mapVars (substVar index replacement) (index + 1) := by
  refine mapVars_congr fun depth hd i => ?_
  unfold substVar
  rw [shift_shift (Nat.le_refl 0) (by omega),
    show 1 + (depth - (index + 1)) = depth - index by omega]

/-- No sum stops a run if indices have no bound, and to substitute is one traversal. -/
theorem substFrom?_eq (index : Nat) (replacement t : Term) :
    substFrom? index replacement t = some (t.mapVars (substVar index replacement) index) := by
  induction t generalizing index replacement with
  | sort | const | num | str => rfl
  | var i =>
    rw [mapVars_var, substVar, Nat.sub_self, shift_zero]
    rfl
  | pi A B ihA ihB | lam A B ihA ihB =>
    simp only [substFrom?, Index.raised?, IndexArithmetic.add?, shift?_eq_shift, ihA, ihB,
      mapVars_pi, mapVars_lam, ← mapVars_substVar_shift]
    rfl
  | app f a ihf iha =>
    simp only [substFrom?, ihf, iha]
    rfl
  | quote b ih | splice b ih =>
    simp only [substFrom?, ih]
    rfl
  | call h as ihh ihas =>
    have hargs : substArgs? index replacement as =
        some (as.map (mapVars (substVar index replacement) index)) := by
      clear ihh
      induction as with
      | nil => rfl
      | cons a as ih =>
        obtain ⟨ha, has⟩ := List.forall_mem_cons.1 ihas
        simp only [substArgs?, ha, ih has]
        rfl
    simp only [substFrom?, ihh, hargs, mapVars_call]
    rfl

theorem subst_eq_mapVars (t : Term) (index : Nat) (replacement : Term) :
    t.subst index replacement = t.mapVars (substVar index replacement) index := by
  rw [subst, subst?, substFrom?_eq]
  rfl

theorem subst?_eq_subst (t : Term) (index : Nat) (replacement : Term) :
    t.subst? index replacement = some (t.subst index replacement) := by
  rw [subst_eq_mapVars, subst?, substFrom?_eq]

theorem instantiate?_eq_instantiate (body arg : Term) :
    body.instantiate? arg = some (body.instantiate arg) := subst?_eq_subst body 0 arg

section Subst

variable (j : Nat) (r : Term)

@[simp] theorem subst_sort (l : Nat) : (sort l).subst j r = sort l := rfl

@[simp] theorem subst_const (n : String) : (const n).subst j r = const n := rfl

@[simp] theorem subst_num (v : Int64) : (num v).subst j r = num v := rfl

@[simp] theorem subst_str (s : String) : (str s).subst j r = str s := rfl

@[simp] theorem subst_var (i : Nat) :
    (var i).subst j r = if i < j then var i else if i = j then r else var (i - 1) := rfl

@[simp] theorem subst_pi (A B : Term) :
    (pi A B).subst j r = pi (A.subst j r) (B.subst (j + 1) (r.shift 1 0)) := by
  simp only [subst_eq_mapVars, mapVars_pi, mapVars_substVar_shift]

@[simp] theorem subst_lam (A b : Term) :
    (lam A b).subst j r = lam (A.subst j r) (b.subst (j + 1) (r.shift 1 0)) := by
  simp only [subst_eq_mapVars, mapVars_lam, mapVars_substVar_shift]

@[simp] theorem subst_app (f a : Term) :
    (app f a).subst j r = app (f.subst j r) (a.subst j r) := by
  simp only [subst_eq_mapVars, mapVars_app]

@[simp] theorem subst_quote (b : Term) : (quote b).subst j r = quote (b.subst j r) := by
  simp only [subst_eq_mapVars, mapVars_quote]

@[simp] theorem subst_splice (b : Term) : (splice b).subst j r = splice (b.subst j r) := by
  simp only [subst_eq_mapVars, mapVars_splice]

@[simp] theorem subst_call (h : Term) (as : List Term) :
    (call h as).subst j r = call (h.subst j r) (as.map (·.subst j r)) := by
  simp only [subst_eq_mapVars, mapVars_call]

end Subst

end Term

end StagedTT
