/-!
# Terms

Kernel terms are trees over de Bruijn indices, so terms that differ only in the names of their
binders are equal. A call of a metalevel definition stays suspended in a `Term.call` node, with
its argument list, until it is expanded.

`Term.induct` is the induction principle with one case per constructor, where the case of a call
has the hypothesis for each of its arguments. Equality of terms is decidable.
-/

namespace StagedTT

/-- A term of the kernel. Variables count binders from the innermost one outward. -/
inductive Term where
  /-- The universe of a level. -/
  | sort (level : Nat)
  /-- A name declared in the signature. -/
  | const (name : String)
  /-- A number literal. -/
  | num (value : Int64)
  /-- A string literal. -/
  | str (value : String)
  /-- A variable, by the number of binders between it and its own. -/
  | var (index : Nat)
  /-- A dependent function type; `body` is under the binder. -/
  | pi (domain body : Term)
  /-- A function; `body` is under the binder. -/
  | lam (domain body : Term)
  /-- An application to one argument. -/
  | app (fn arg : Term)
  /-- Object code as a value of the metalevel. -/
  | quote (body : Term)
  /-- Metalevel code whose result is inserted. -/
  | splice (body : Term)
  /-- A suspended call of a metalevel definition. -/
  | call (head : Term) (args : List Term)
  deriving Inhabited

namespace Term

@[elab_as_elim, induction_eliminator]
theorem induct {motive : Term → Prop}
    (sort : ∀ level, motive (.sort level))
    (const : ∀ name, motive (.const name))
    (num : ∀ value, motive (.num value))
    (str : ∀ value, motive (.str value))
    (var : ∀ index, motive (.var index))
    (pi : ∀ domain body, motive domain → motive body → motive (.pi domain body))
    (lam : ∀ domain body, motive domain → motive body → motive (.lam domain body))
    (app : ∀ fn arg, motive fn → motive arg → motive (.app fn arg))
    (quote : ∀ body, motive body → motive (.quote body))
    (splice : ∀ body, motive body → motive (.splice body))
    (call : ∀ head args, motive head → (∀ arg ∈ args, motive arg) → motive (.call head args))
    (t : Term) : motive t :=
  @Term.rec motive (fun args => ∀ arg ∈ args, motive arg)
    sort const num str var pi lam app quote splice call
    (fun _ h => nomatch h)
    (fun _ _ first rest => List.forall_mem_cons.2 ⟨first, rest⟩) t

/-! ## Equality -/

mutual

/-- Structural equality. -/
def beq : Term → Term → Bool
  | .sort l, .sort k => l == k
  | .const n, .const m => n == m
  | .num v, .num w => v == w
  | .str s, .str r => s == r
  | .var i, .var j => i == j
  | .pi A B, .pi C D => beq A C && beq B D
  | .lam A b, .lam C d => beq A C && beq b d
  | .app f a, .app g b => beq f g && beq a b
  | .quote b, .quote c => beq b c
  | .splice b, .splice c => beq b c
  | .call h as, .call k bs => beq h k && beqArgs as bs
  | _, _ => false

/-- Structural equality of argument lists. -/
def beqArgs : List Term → List Term → Bool
  | [], [] => true
  | a :: as, b :: bs => beq a b && beqArgs as bs
  | _, _ => false

end

private theorem beqArgs_iff {as : List Term} (h : ∀ a ∈ as, ∀ b, beq a b = true ↔ a = b)
    (bs : List Term) : beqArgs as bs = true ↔ as = bs := by
  induction as generalizing bs with
  | nil => cases bs <;> simp [beqArgs]
  | cons a as ih =>
    obtain ⟨ha, has⟩ := List.forall_mem_cons.1 h
    cases bs with
    | nil => simp [beqArgs]
    | cons b bs => simp [beqArgs, ha, ih has]

theorem beq_iff (t u : Term) : beq t u = true ↔ t = u := by
  induction t generalizing u with
  | call head args ihHead ihArgs =>
    cases u <;> simp [beq, ihHead, beqArgs_iff ihArgs]
  | _ => cases u <;> simp_all [beq]

instance : DecidableEq Term := fun t u => decidable_of_iff _ (beq_iff t u)

end Term

end StagedTT
