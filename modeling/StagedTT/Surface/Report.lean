import StagedTT.Surface.Diagnostic

/-!
# Reports

The failure of a run: one diagnostic, or a collection of failures. How one diagnostic is laid out is
up to whoever shows the report.
-/

namespace StagedTT

/-- One diagnostic, or several reports in order. -/
inductive Report where
  | single (diagnostic : Diagnostic)
  | collection (reports : List Report)

namespace Report

mutual

/-- Every diagnostic in a report, in order. -/
def diagnostics : Report → List Diagnostic
  | .single d => [d]
  | .collection reports => allDiagnostics reports

/-- Every diagnostic in a list of reports, in order. -/
def allDiagnostics : List Report → List Diagnostic
  | [] => []
  | report :: reports => diagnostics report ++ allDiagnostics reports

end

mutual

/-- The text of a report, each diagnostic as `layout` has it. Each member of a collection ends in a
line break of its own. -/
def render (layout : Diagnostic → String) : Report → String
  | .single d => layout d
  | .collection reports => renderAll layout reports

/-- The texts of the members of a collection. -/
def renderAll (layout : Diagnostic → String) : List Report → String
  | [] => ""
  | report :: reports => render layout report ++ "\n" ++ renderAll layout reports

end

theorem allDiagnostics_map_single (ds : List Diagnostic) :
    allDiagnostics (ds.map .single) = ds := by
  induction ds with
  | nil => rfl
  | cons d ds ih => simp [allDiagnostics, diagnostics, ih]

end Report

end StagedTT
