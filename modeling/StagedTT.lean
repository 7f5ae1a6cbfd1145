import StagedTT.Surface.Session
import StagedTT.Sharing.TermNode
import StagedTT.Proofs.Session.Consistency
import StagedTT.Proofs.Costs
import StagedTT.Proofs.Expansion.Relation
import StagedTT.Proofs.Expansion.Completeness
import StagedTT.Proofs.Reduction.Normalization
import StagedTT.Proofs.Session.Stored
import StagedTT.Proofs.Expansion.FormedTerms
import StagedTT.Proofs.Surface.Faults
import StagedTT.Proofs.Session.Faults
import StagedTT.Proofs.Typing.Canonical
import StagedTT.Proofs.Session.Canonical
import StagedTT.Proofs.Session.Growth
import StagedTT.Proofs.Typing.Agreement
import StagedTT.Proofs.Surface.Agreement
import StagedTT.Proofs.Session.Stability
import StagedTT.Proofs.Budgets
import StagedTT.Proofs.Session.Policies
import StagedTT.Proofs.Typing.Budgets
import StagedTT.Proofs.Session.Budgets
import StagedTT.Proofs.Session.Locations
import StagedTT.Proofs.Sharing.Runs
import StagedTT.Proofs.Sharing.Terms
import StagedTT.Proofs.Sharing.Construction
import StagedTT.Proofs.Sharing.FlatPayloads
import StagedTT.Proofs.Reduction.ExactFuel
import StagedTT.Proofs.Reduction.Standardization
import StagedTT.Proofs.Reduction.Redexes
import StagedTT.Proofs.Session.Queries
import StagedTT.Proofs.Reduction.WeakHead
import StagedTT.Proofs.Term.SubstitutionLaws
import StagedTT.Proofs.Expansion.ExactBudget
import StagedTT.Proofs.Typing.Weakening
import StagedTT.Proofs.Expansion.Hygiene
import StagedTT.Proofs.Typing.Phases
import StagedTT.Proofs.Surface.Renaming
import StagedTT.Proofs.Surface.FreshNames
import StagedTT.Proofs.Surface.Scoping
import StagedTT.Proofs.Surface.Weakening
import StagedTT.Proofs.Surface.Nesting
import StagedTT.Proofs.Session.Places
import StagedTT.Proofs.Session.MachineWords
import StagedTT.Proofs.Typing.Mismatches
