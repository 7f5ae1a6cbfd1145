import Mathlib.Data.Finset.Card
import StagedTT.Proofs.Sharing.Runs

/-!
# Tables of payloads that refer to no node

If payloads refer to no node, a node lives just as long as a handle on it is held. A row is made
with its payload, stays when the node dies, is used again when the payload is made anew, and is
taken out by the first purge that finds no handle on the node. So the rows are those of the payloads
that a handle was held on at the last purge, and of those made since (`Memory.mem_payloads_since`).

A purge takes out rows of dead nodes and no others, and those who make payloads cannot tell whether
such a row is there: with the purge and without it, all that is made later gets the same nodes
(`Memory.SameLive.run`). Together this is `Memory.rows_exact`.
-/

namespace StagedTT

/-- Payloads that refer to no node. -/
def FlatPayloads (α : Type) [Payload α] : Prop := ∀ payload : α, Payload.children payload = []

theorem flatPayloads_string : FlatPayloads String := fun _ => rfl

namespace NodeTable

section Payloads

variable {α : Type} [DecidableEq α] {t : NodeTable α} {p q : α}

/-- The payloads that have a row. -/
def payloads (t : NodeTable α) : Finset α := (t.rows.map Prod.fst).toFinset

theorem mem_payloads : p ∈ t.payloads ↔ ∃ node, (p, node) ∈ t.rows := by
  simp [payloads]

variable [Payload α]

/-- To make a payload gives it a row, and leaves the rows of the others. -/
theorem mem_payloads_make : q ∈ (t.make p).2.payloads ↔ q ∈ t.payloads ∨ q = p := by
  cases hfind : t.find? p with
  | some node =>
    have hp : p ∈ t.payloads := mem_payloads.2 ⟨node, (mem_rows_of_find? hfind).1⟩
    rw [make_of_find? hfind]
    refine ⟨.inl, fun h => ?_⟩
    rcases h with h | rfl
    · exact h
    · exact hp
  | none =>
    rw [make_of_not_find? hfind]
    by_cases hq : q = p
    · simp [payloads, hq]
    · simp [payloads, hq]

end Payloads

section Flat

variable {α : Type} [Payload α] (hflat : FlatPayloads α) {t : NodeTable α} {node : Nat} {p : α}

include hflat

theorem isLive_iff_held : t.isLive node = true ↔ node ∈ t.held := by
  simp [isLive, hflat _]

theorem heldWithout_eq_held : t.heldWithout p = t.held := by
  rw [heldWithout, hflat p, List.foldl_nil]

variable [DecidableEq α]

theorem visit_eq_filter (hrows : t.rows.Nodup) (row : α × Nat) :
    t.visit row = { t with rows := t.rows.filter fun r => r ≠ row ∨ r.2 ∈ t.held } := by
  unfold visit
  by_cases hlive : t.isLive row.2 = true
  · have hheld := (isLive_iff_held hflat).1 hlive
    rw [if_pos hlive, List.filter_eq_self.2 fun r _ => ?_]
    by_cases hr : r = row
    · simp [hr, hheld]
    · simp [hr]
  · have hdead : row.2 ∉ t.held := fun h => hlive ((isLive_iff_held hflat).2 h)
    rw [if_neg hlive, hrows.erase_eq_filter]
    congr 1
    refine List.filter_congr fun r _ => ?_
    by_cases hr : r = row
    · simp [hr, hdead]
    · simp [hr]

/-- The rows that a purge leaves are those it does not visit, and those of live nodes. -/
theorem purgeIn_eq_filter (hrows : t.rows.Nodup) (order : List (α × Nat)) :
    t.purgeIn order = { t with rows := t.rows.filter fun r => r ∉ order ∨ r.2 ∈ t.held } := by
  induction order generalizing t with
  | nil => simp [purgeIn]
  | cons row order ih =>
    have hvisit : (t.visit row).purgeIn order = t.purgeIn (row :: order) := rfl
    rw [← hvisit, visit_eq_filter hflat hrows row, ih (hrows.filter _)]
    congr 1
    rw [List.filter_filter]
    refine List.filter_congr fun r _ => ?_
    by_cases hheld : r.2 ∈ t.held
    · simp [hheld]
    · simp [hheld, Bool.and_comm]

theorem purgeIn_held (hrows : t.rows.Nodup) (order : List (α × Nat)) :
    (t.purgeIn order).held = t.held := by
  rw [purgeIn_eq_filter hflat hrows]

/-- No purge takes out the row of a live node. -/
theorem mem_purgeIn_of_held (hrows : t.rows.Nodup) (order : List (α × Nat)) {row : α × Nat}
    (hheld : row.2 ∈ t.held) : row ∈ (t.purgeIn order).rows ↔ row ∈ t.rows := by
  rw [purgeIn_eq_filter hflat hrows, List.mem_filter]
  simp [hheld]

/-- It makes no difference in which order the rows are visited. -/
theorem purgeIn_eq_purge (hrows : t.rows.Nodup) {order : List (α × Nat)}
    (horder : order.Perm t.rows) : t.purgeIn order = t.purge := by
  rw [purgeIn_eq_filter hflat hrows, purge]
  congr 1
  refine List.filter_congr fun r hr => ?_
  have hvisited : r ∈ order := horder.mem_iff.2 hr
  by_cases hheld : r.2 ∈ t.held
  · rw [(isLive_iff_held hflat).2 hheld]
    simp [hheld]
  · rw [Bool.eq_false_iff.2 fun hlive => hheld ((isLive_iff_held hflat).1 hlive)]
    simp [hheld, hvisited]

end Flat

end NodeTable

namespace Memory

theorem Coherent.nodup_rows {α : Type} [Payload α] {m : Memory α} (h : m.Coherent) :
    m.table.rows.Nodup := h.payloads.of_map _

variable {α : Type} [Payload α] [DecidableEq α] {m m' : Memory α} {p q : α}

/-- A handle is held on a node of the payload. -/
def Holds (m : Memory α) (payload : α) : Prop :=
  ∃ node ∈ m.table.held, m.contents[node]? = some payload

/-- There is one row for each payload that has one. -/
theorem Coherent.size_eq_card (h : m.Coherent) : m.table.size = m.table.payloads.card := by
  rw [NodeTable.payloads, List.toFinset_card_of_nodup h.payloads, List.length_map, NodeTable.size]

theorem Coherent.find?_eq_some_iff (h : m.Coherent) {node : Nat} :
    m.table.find? p = some node ↔ (p, node) ∈ m.table.rows ∧ m.table.isLive node = true :=
  ⟨NodeTable.mem_rows_of_find?, fun ⟨hrow, hlive⟩ => h.find?_of_row hrow hlive⟩

/-! ## The rows there are -/

/-- As long as there is no purge, rows are made and never taken out. -/
theorem mem_payloads_run {actions : List (Action α)}
    (hpurge : ∀ order, Action.purge order ∉ actions) :
    q ∈ (m.run actions).table.payloads ↔ q ∈ m.table.payloads ∨ .make q ∈ actions := by
  induction actions generalizing m with
  | nil => simp [run]
  | cons action actions ih =>
    have hrest : ∀ order, Action.purge order ∉ actions := fun order hmem =>
      hpurge order (List.mem_cons_of_mem _ hmem)
    have hstep : q ∈ (m.step action).table.payloads ↔ q ∈ m.table.payloads ∨ .make q = action := by
      cases action with
      | make p =>
        have hmake : q ∈ (m.make p).table.payloads ↔ q ∈ m.table.payloads ∨ q = p :=
          NodeTable.mem_payloads_make
        simp [step, hmake]
      | copy node | drop node => simp [step, NodeTable.payloads, NodeTable.drop]
      | purge order => exact (hpurge order List.mem_cons_self).elim
    show q ∈ ((m.step action).run actions).table.payloads ↔ _
    rw [ih hrest, hstep, List.mem_cons, or_assoc]

/-- The rows after a purge are those of the payloads that a handle is held on. -/
theorem Coherent.mem_payloads_purge (hflat : FlatPayloads α) (h : m.Coherent) :
    q ∈ m.table.purge.payloads ↔ m.Holds q := by
  rw [NodeTable.mem_payloads]
  constructor
  · rintro ⟨node, hmem⟩
    obtain ⟨hrow, hlive⟩ := List.mem_filter.1 hmem
    exact ⟨node, (NodeTable.isLive_iff_held hflat).1 hlive, h.contents _ hrow⟩
  · rintro ⟨node, hheld, hnode⟩
    have hlive := NodeTable.isLive_of_held hheld
    exact ⟨node, List.mem_filter.2 ⟨h.row_of_contents hlive hnode, hlive⟩⟩

theorem Coherent.mem_payloads_of_holds (h : m.Coherent) (hq : m.Holds q) :
    q ∈ m.table.payloads := by
  obtain ⟨node, hheld, hnode⟩ := hq
  exact NodeTable.mem_payloads.2 ⟨node, h.row_of_contents (NodeTable.isLive_of_held hheld) hnode⟩

/-- **The rows are those of the payloads that a handle was held on at the last purge, and of those
made since.** -/
theorem Coherent.mem_payloads_since (hflat : FlatPayloads α) (h : m.Coherent)
    {order : List (α × Nat)} (horder : order.Perm m.table.rows) {since : List (Action α)}
    (hsince : ∀ order, Action.purge order ∉ since) :
    q ∈ (m.run (.purge order :: since)).table.payloads ↔ m.Holds q ∨ .make q ∈ since := by
  have hpurge : (m.step (.purge order)).table = m.table.purge :=
    NodeTable.purgeIn_eq_purge hflat h.nodup_rows horder
  show q ∈ ((m.step (.purge order)).run since).table.payloads ↔ _
  rw [mem_payloads_run hsince, hpurge, h.mem_payloads_purge hflat]

/-! ## What a purge leaves unchanged -/

/-- Two memories differ only in rows of dead nodes. -/
structure SameLive (m m' : Memory α) : Prop where
  held : m'.table.held = m.table.held
  contents : m'.contents = m.contents
  rows : ∀ row, row.2 ∈ m.table.held → (row ∈ m'.table.rows ↔ row ∈ m.table.rows)

namespace SameLive

variable (hflat : FlatPayloads α) (hsame : m.SameLive m') (h : m.Coherent) (h' : m'.Coherent)

include hflat hsame h h'

theorem find?_eq (p : α) : m'.table.find? p = m.table.find? p := by
  refine Option.ext fun node => ?_
  rw [h.find?_eq_some_iff, h'.find?_eq_some_iff, NodeTable.isLive_iff_held hflat,
    NodeTable.isLive_iff_held hflat, hsame.held]
  exact and_congr_left (hsame.rows (p, node))

/-- To make a payload gives the same node. -/
theorem make_eq (p : α) : (m'.table.make p).1 = (m.table.make p).1 := by
  have hfind := hsame.find?_eq hflat h h' p
  cases hcase : m.table.find? p with
  | some node =>
    rw [hcase] at hfind
    rw [NodeTable.make_of_find? hcase, NodeTable.make_of_find? hfind]
  | none =>
    rw [hcase] at hfind
    rw [NodeTable.make_of_not_find? hcase, NodeTable.make_of_not_find? hfind, h.next, h'.next,
      hsame.contents]

theorem make (p : α) : (m.make p).SameLive (m'.make p) := by
  have hfind := hsame.find?_eq hflat h h' p
  cases hcase : m.table.find? p with
  | some node =>
    rw [hcase] at hfind
    rw [make_of_find? h hcase, make_of_find? h' hfind]
    refine ⟨?_, hsame.contents, fun row hrow => hsame.rows row ?_⟩
    · simp only [NodeTable.heldWithout_eq_held hflat, hsame.held]
    · simp only [NodeTable.heldWithout_eq_held hflat] at hrow
      rcases List.mem_cons.1 hrow with heq | hheld
      · rw [heq]
        exact (NodeTable.isLive_iff_held hflat).1 (NodeTable.mem_rows_of_find? hcase).2
      · exact hheld
  | none =>
    rw [hcase] at hfind
    rw [make_of_not_find? h hcase, make_of_not_find? h' hfind]
    refine ⟨?_, ?_, fun row hrow => ?_⟩
    · simp only [NodeTable.heldWithout_eq_held hflat, hsame.held, hsame.contents]
    · simp only [hsame.contents]
    · simp only [NodeTable.heldWithout_eq_held hflat, hsame.contents] at hrow ⊢
      rw [List.mem_cons, List.mem_cons, List.mem_filter, List.mem_filter]
      rcases List.mem_cons.1 hrow with heq | hheld
      · have hnot : row ∉ m.table.rows := fun hmem => by
          have hlt := h.node_lt hmem
          omega
        have hnot' : row ∉ m'.table.rows := fun hmem => by
          have hlt := h'.node_lt hmem
          rw [hsame.contents] at hlt
          omega
        simp [hnot, hnot']
      · rw [hsame.rows row hheld]

/-- **Actions do not tell a dead row.** -/
theorem step {action : Action α} (hallow : m.Allows action) :
    (m.step action).SameLive (m'.step action) ∧ (m'.step action).Coherent := by
  cases action with
  | make p =>
    have hnone : m'.Allows (.make p) := by
      show (Payload.children p).Subperm m'.table.held
      rw [hflat p]
      exact List.nil_subperm
    exact ⟨hsame.make hflat h h' p, h'.make hnone⟩
  | copy node =>
    have hheld : node ∈ m.table.held := (NodeTable.isLive_iff_held hflat).1 hallow
    refine ⟨⟨congrArg (node :: ·) hsame.held, hsame.contents, fun row hrow => hsame.rows row ?_⟩,
      h'.hold (List.forall_mem_cons.2 ⟨?_, fun _ => NodeTable.isLive_of_held⟩) _⟩
    · rcases List.mem_cons.1 hrow with heq | hrow
      · exact heq ▸ hheld
      · exact hrow
    · exact NodeTable.isLive_of_held (hsame.held ▸ hheld)
  | drop node =>
    refine ⟨⟨congrArg (List.erase · node) hsame.held, hsame.contents, fun row hrow =>
      hsame.rows row (List.mem_of_mem_erase hrow)⟩, h'.hold (fun _ hmem => ?_) _⟩
    exact NodeTable.isLive_of_held (List.mem_of_mem_erase hmem)
  | purge order =>
    have hrows := h.nodup_rows
    have hrows' := h'.nodup_rows
    refine ⟨⟨?_, hsame.contents, fun row hrow => ?_⟩, h'.purgeIn order⟩
    · show (m'.table.purgeIn order).held = (m.table.purgeIn order).held
      rw [NodeTable.purgeIn_held hflat hrows, NodeTable.purgeIn_held hflat hrows', hsame.held]
    · have hheld : row.2 ∈ m.table.held := by
        rw [← NodeTable.purgeIn_held hflat hrows order]
        exact hrow
      show row ∈ (m'.table.purgeIn order).rows ↔ row ∈ (m.table.purgeIn order).rows
      rw [NodeTable.mem_purgeIn_of_held hflat hrows order hheld,
        NodeTable.mem_purgeIn_of_held hflat hrows' order (hsame.held ▸ hheld),
        hsame.rows row hheld]

/-- **No run tells a dead row.** -/
theorem run {actions : List (Action α)} (hallow : m.AllowsAll actions) :
    (m.run actions).SameLive (m'.run actions) ∧ (m'.run actions).Coherent := by
  induction actions generalizing m m' with
  | nil => exact ⟨hsame, h'⟩
  | cons action actions ih =>
    obtain ⟨hfirst, hrest⟩ := hallow
    obtain ⟨hnext, hnext'⟩ := hsame.step hflat h h' hfirst
    exact ih hnext (h.step hfirst) hnext' hrest

end SameLive

theorem Coherent.sameLive_purge (hflat : FlatPayloads α) (h : m.Coherent)
    (order : List (α × Nat)) : m.SameLive (m.step (.purge order)) where
  held := NodeTable.purgeIn_held hflat h.nodup_rows order
  contents := rfl
  rows _ hheld := NodeTable.mem_purgeIn_of_held hflat h.nodup_rows order hheld

/-- To make a payload that a handle is held on gives the node of the handle. -/
theorem Coherent.make_of_held (h : m.Coherent) {node : Nat} (hheld : node ∈ m.table.held)
    (hnode : m.contents[node]? = some p) : (m.table.make p).1 = node := by
  have hlive := NodeTable.isLive_of_held hheld
  rw [NodeTable.make_of_find? (h.find?_of_row (h.row_of_contents hlive hnode) hlive)]

/-- **The rows of a table are exact.** After any run over payloads that refer to no node: two
handles are on the same node just if they are on the same payload. There is one row for each payload
that a handle was held on at the last purge or that was made since, or if there was no purge, that
was ever made. A purge, in whichever order it visits the rows, takes out the rows of the payloads
that no handle is held on; and whatever is done after it, to make a payload gives the node that it
would give without the purge, which is the node of the handles that are held on the payload, if
there are any. -/
theorem rows_exact (hflat : FlatPayloads α) {actions : List (Action α)}
    (hallow : (empty : Memory α).AllowsAll actions) :
    let m := (empty : Memory α).run actions
    (∀ node ∈ m.table.held, ∀ other ∈ m.table.held,
      node = other ↔ m.contents[node]? = m.contents[other]?) ∧
    m.table.size = m.table.payloads.card ∧
    ((∀ order, .purge order ∉ actions) → ∀ p, p ∈ m.table.payloads ↔ .make p ∈ actions) ∧
    (∀ before order since, actions = before ++ .purge order :: since →
      (∀ order, .purge order ∉ since) →
        ∀ p, p ∈ m.table.payloads ↔ ((empty : Memory α).run before).Holds p ∨ .make p ∈ since) ∧
    ∀ order, m.Allows (.purge order) →
      (m.step (.purge order)).table = m.table.purge ∧
      (∀ p, p ∈ m.table.purge.payloads ↔ p ∈ m.table.payloads ∧ m.Holds p) ∧
      ∀ later p, m.AllowsAll later →
        (((m.step (.purge order)).run later).table.make p).1 = ((m.run later).table.make p).1 ∧
        ∀ node ∈ (m.run later).table.held, (m.run later).contents[node]? = some p →
          ((m.run later).table.make p).1 = node := by
  intro m
  have h : m.Coherent := coherent_empty.run hallow
  refine ⟨fun node hnode other hother => ?_, h.size_eq_card, fun hpurge p => ?_,
    fun before order since hactions hsince p => ?_, fun order horder => ⟨?_, fun p => ?_,
      fun later p hlater => ⟨?_, fun node => ?_⟩⟩⟩
  · refine ⟨fun heq => by rw [heq], fun hsame => ?_⟩
    exact h.node_eq (NodeTable.isLive_of_held hnode) (NodeTable.isLive_of_held hother) hsame
  · rw [mem_payloads_run hpurge]
    simp [empty, NodeTable.empty, NodeTable.payloads]
  · subst hactions
    obtain ⟨hbefore, horder, -⟩ := allowsAll_append.1 hallow
    show p ∈ ((empty : Memory α).run (before ++ .purge order :: since)).table.payloads ↔ _
    rw [run_append, (coherent_empty.run hbefore).mem_payloads_since hflat horder hsince]
  · exact NodeTable.purgeIn_eq_purge hflat h.nodup_rows horder
  · rw [h.mem_payloads_purge hflat]
    exact (and_iff_right_of_imp h.mem_payloads_of_holds).symm
  · obtain ⟨hsame, hpurged⟩ := (h.sameLive_purge hflat order).run hflat h (h.purgeIn order) hlater
    exact hsame.make_eq hflat (h.run hlater) hpurged p
  · exact fun hheld hnode => (h.run hlater).make_of_held hheld hnode

/-- Two handles on one payload, and another payload that dies and is made anew twice, before a purge
and after it. -/
theorem rows_exact_remade :
    let actions : List (Action String) :=
      [.make "x", .make "y", .drop 1, .make "y", .make "x", .drop 2]
    let order : List (String × Nat) := [("x", 0), ("y", 2)]
    let later : List (Action String) := [.drop 0, .make "y"]
    let m : Memory String := (empty : Memory String).run actions
    (empty : Memory String).AllowsAll (actions ++ .purge order :: later) ∧
      m.table.held = [0, 0] ∧ m.table.size = 2 ∧ m.table.purge.payloads = {"x"} ∧
      ("y" ∈ m.table.payloads ↔ .make "y" ∈ actions) ∧
      (((m.step (.purge order)).run later).table.make "x").1 = 0 ∧
      (((m.step (.purge order)).run later).table.make "y").1 = 3 ∧
      ("x" ∈ ((m.step (.purge order)).run later).table.payloads ↔
        m.Holds "x" ∨ .make "x" ∈ later) := by
  intro actions order later m
  have hall : (empty : Memory String).AllowsAll (actions ++ .purge order :: later) := by
    decide +kernel
  obtain ⟨hactions, horder, -⟩ := allowsAll_append.1 hall
  have hlater : m.AllowsAll later := by decide +kernel
  obtain ⟨-, -, hrows, -, hpurge⟩ := rows_exact flatPayloads_string hactions
  obtain ⟨-, -, -, hsince, -⟩ := rows_exact flatPayloads_string hall
  obtain ⟨-, hpayloads, hmake⟩ := hpurge order horder
  refine ⟨hall, by decide +kernel, by decide +kernel, by decide +kernel, ?_, ?_, ?_, ?_⟩
  · exact hrows (by simp [actions]) "y"
  · rw [(hmake later "x" hlater).1]
    exact (hmake later "x" hlater).2 0 (by decide +kernel) (by decide +kernel)
  · rw [(hmake later "y" hlater).1]
    exact (hmake later "y" hlater).2 3 (by decide +kernel) (by decide +kernel)
  · have hlast := hsince actions order later rfl (by simp [later]) "x"
    rwa [run_append] at hlast

end Memory

end StagedTT
