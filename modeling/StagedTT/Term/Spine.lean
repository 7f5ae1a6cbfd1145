import StagedTT.Term.Substitution

/-!
# Spines

Applications nest to the left. A spine lays such a nest out flat: the head that is applied
first, and its arguments in order. `toTerm_spine` and `spine_toTerm` say that nothing is lost
either way, as long as the head is no application itself.
-/

namespace StagedTT

namespace Term

/-- Applies `head` to each argument in turn. -/
def applyAll (head : Term) (args : List Term) : Term := args.foldl .app head

@[simp] theorem applyAll_nil (head : Term) : head.applyAll [] = head := rfl

@[simp] theorem applyAll_cons (head arg : Term) (args : List Term) :
    head.applyAll (arg :: args) = (app head arg).applyAll args := rfl

theorem applyAll_append (head : Term) (as bs : List Term) :
    head.applyAll (as ++ bs) = (head.applyAll as).applyAll bs := List.foldl_append

theorem shift_applyAll (d c : Nat) (head : Term) (args : List Term) :
    (head.applyAll args).shift d c = (head.shift d c).applyAll (args.map (·.shift d c)) := by
  induction args generalizing head with
  | nil => rfl
  | cons arg args ih => simp [ih]

/-- The level of a universe, and nothing for any other term. -/
def level? : Term → Option Nat
  | .sort level => some level
  | _ => none

end Term

/-- A head and the arguments it is applied to, first one first. -/
structure Spine where
  head : Term
  args : List Term

namespace Spine

/-- The term that a spine lays out. -/
def toTerm (s : Spine) : Term := s.head.applyAll s.args

end Spine

namespace Term

/-- Takes the arguments off `t` and puts them before `args`. -/
def unwind : Term → (args : List Term) → Spine
  | .app fn arg, args => unwind fn (arg :: args)
  | head, args => ⟨head, args⟩

/-- The spine of a term. -/
def spine (t : Term) : Spine := t.unwind []

theorem toTerm_unwind (t : Term) (args : List Term) :
    (t.unwind args).toTerm = t.applyAll args := by
  induction t generalizing args with
  | app fn arg ih => exact ih (arg :: args)
  | _ => rfl

@[simp] theorem toTerm_spine (t : Term) : t.spine.toTerm = t := toTerm_unwind t []

/-- Whether a term is an application. -/
def isApp : Term → Bool
  | .app _ _ => true
  | _ => false

theorem unwind_of_not_isApp {t : Term} (h : t.isApp = false) (args : List Term) :
    t.unwind args = ⟨t, args⟩ := by
  cases t <;> first | rfl | cases h

theorem unwind_applyAll (t : Term) (as bs : List Term) :
    (t.applyAll as).unwind bs = t.unwind (as ++ bs) := by
  induction as generalizing t with
  | nil => rfl
  | cons a as ih => exact ih (app t a)

theorem spine_toTerm {s : Spine} (h : s.head.isApp = false) : s.toTerm.spine = s := by
  rw [spine, Spine.toTerm, unwind_applyAll, List.append_nil, unwind_of_not_isApp h]

end Term

end StagedTT
