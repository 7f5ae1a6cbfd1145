import StagedTT.Proofs.Session.Reachable
import StagedTT.Proofs.Surface.Imitation

/-!
# Imitation of sessions

Of two sessions with the same names in scope, one imitates the other one if its environment does
(`Session.Imitates`). Then definitions and queries are answered alike, unless the imitated session
reports a fault of the kernel that its environment may fail with.
-/

namespace StagedTT

namespace Session

/-- The first session has the names of the second one, and its environment does what that of the
second one does, unless that one fails as `E` has it. -/
structure Imitates (E : KernelError → Prop) (A' : IndexArithmetic) (s' : Session)
    (A : IndexArithmetic) (s : Session) : Prop where
  env : Environment.ImitatesForms E A' s'.env A s.env
  scope : s'.scope = s.scope

namespace Imitates

variable {E : KernelError → Prop} {A' A : IndexArithmetic} {s' s : Session}
  (h : Imitates E A' s' A s)

include h

theorem define (form : SExpr) :
    SameUnless (Diagnostic.IsKernel E) (@Session.define A' s' form).1
      (@Session.define A s form).1 := by
  rw [@define_fst A', @define_fst A, h.scope]
  exact h.env.elaborateForm s.scope form

theorem elaborate (e : SExpr) :
    SameUnless (Diagnostic.IsKernel E) (@Session.elaborate A' s' e) (@Session.elaborate A s e) := by
  show SameUnless _ (@e.elaborate A' s'.env s'.scope e.location) _
  rw [h.scope]
  exact h.env.elaborate s.scope e.location e

theorem infer (e : SExpr) :
    SameUnless (Diagnostic.IsKernel E) (@Session.infer A' s' e) (@Session.infer A s e) := by
  rw [@infer_eq A', @infer_eq A]
  exact (h.elaborate e).bind fun t => (h.env.infer (.empty .object) t).reportKernel e.location

theorem normalize (e : SExpr) :
    SameUnless (Diagnostic.IsKernel E) (@Session.normalize A' s' e) (@Session.normalize A s e) := by
  rw [@normalize_eq A', @normalize_eq A]
  exact (h.elaborate e).bind fun t => (h.env.normalize t).reportKernel e.location

end Imitates

end Session

end StagedTT
