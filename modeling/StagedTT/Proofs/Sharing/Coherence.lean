import StagedTT.Sharing.NodeTable
import Mathlib.Data.List.Nodup
import Mathlib.Data.List.Perm.Subperm

/-!
# Coherent memories

A memory is a node table together with what its nodes hold. It is coherent if rows say what their
nodes hold and every live node has a row (`Memory.Coherent`). Then live nodes that hold the same are
the same (`Memory.Coherent.node_eq`); and if all nodes live there is one row for each
(`Memory.Kept.size_eq`).
-/

namespace StagedTT

namespace NodeTable

variable {α : Type} [Payload α] {t : NodeTable α} {node : Nat} {payload : α}

theorem isLive_iff : t.isLive node = true ↔
    node ∈ t.held ∨ ∃ row ∈ t.rows, node ∈ Payload.children row.1 := by
  simp [isLive]

theorem isLive_of_held (h : node ∈ t.held) : t.isLive node = true := isLive_iff.2 (.inl h)

theorem isLive_of_row {row : α × Nat} (hrow : row ∈ t.rows) (h : node ∈ Payload.children row.1) :
    t.isLive node = true := isLive_iff.2 (.inr ⟨row, hrow, h⟩)

/-- With more handles and more rows no fewer nodes live. -/
theorem isLive_mono {t' : NodeTable α} (h : t.isLive node = true) (hheld : t.held ⊆ t'.held)
    (hrows : t.rows ⊆ t'.rows) : t'.isLive node = true := by
  rcases isLive_iff.1 h with hmem | ⟨row, hrow, hmem⟩
  · exact isLive_of_held (hheld hmem)
  · exact isLive_of_row (hrows hrow) hmem

theorem mem_held_of_heldWithout (h : node ∈ t.heldWithout payload) : node ∈ t.held := by
  rw [heldWithout, ← List.diff_eq_foldl] at h
  exact List.diff_subset _ _ h

theorem heldWithout_perm {rest : List Nat} (h : t.held.Perm (Payload.children payload ++ rest)) :
    (t.heldWithout payload).Perm rest := by
  have herase : ∀ nodes : List Nat, (nodes ++ rest).diff nodes = rest := by
    intro nodes
    induction nodes with
    | nil => rfl
    | cons node nodes ih => rw [List.cons_append, List.diff_cons, List.erase_cons_head, ih]
  rw [heldWithout, ← List.diff_eq_foldl]
  exact (h.diff_right _).trans (.of_eq (herase _))

theorem mem_heldWithout (h : node ∈ t.held) (hchild : node ∉ Payload.children payload) :
    node ∈ t.heldWithout payload := by
  rw [heldWithout, ← List.diff_eq_foldl]
  exact List.mem_diff_of_mem h hchild

variable [DecidableEq α]

theorem mem_rows_of_find? (h : t.find? payload = some node) :
    (payload, node) ∈ t.rows ∧ t.isLive node = true := by
  obtain ⟨hlookup, hlive⟩ := Option.filter_eq_some_iff.1 h
  obtain ⟨later, earlier, hrows, -⟩ := List.lookup_eq_some_iff.1 hlookup
  exact ⟨by simp [hrows], hlive⟩

theorem make_of_find? (h : t.find? payload = some node) :
    t.make payload = (node, { t with held := node :: t.heldWithout payload }) := by
  simp only [make, h]

theorem make_of_not_find? (h : t.find? payload = none) :
    t.make payload = (t.next,
      { rows := (payload, t.next) :: t.rows.filter (·.1 ≠ payload)
        held := t.next :: t.heldWithout payload
        next := t.next + 1 }) := by
  simp only [make, h]

/-- The answer is a handle, and those in the payload are given up. -/
theorem held_make (t : NodeTable α) (payload : α) :
    (t.make payload).2.held = (t.make payload).1 :: t.heldWithout payload := by
  cases h : t.find? payload with
  | some node => rw [make_of_find? h]
  | none => rw [make_of_not_find? h]

/-- To make a payload keeps every node alive: its row has the handles that are moved into it. -/
theorem isLive_make (h : t.isLive node = true) (payload : α) :
    (t.make payload).2.isLive node = true := by
  have hpayload : ∃ n, (payload, n) ∈ (t.make payload).2.rows := by
    cases hfind : t.find? payload with
    | some found =>
      rw [make_of_find? hfind]
      exact ⟨found, (mem_rows_of_find? hfind).1⟩
    | none =>
      rw [make_of_not_find? hfind]
      exact ⟨t.next, List.mem_cons_self⟩
  have hrows : ∀ row ∈ t.rows, row.1 ≠ payload → row ∈ (t.make payload).2.rows := by
    intro row hrow hne
    cases hfind : t.find? payload with
    | some found =>
      rw [make_of_find? hfind]
      exact hrow
    | none =>
      rw [make_of_not_find? hfind]
      exact List.mem_cons_of_mem _ (List.mem_filter.2 ⟨hrow, decide_eq_true hne⟩)
  obtain ⟨n, hn⟩ := hpayload
  rcases isLive_iff.1 h with hmem | ⟨row, hrow, hmem⟩
  · by_cases hgiven : node ∈ Payload.children payload
    · exact isLive_of_row hn hgiven
    · refine isLive_of_held ?_
      rw [held_make]
      exact List.mem_cons_of_mem _ (mem_heldWithout hmem hgiven)
  · by_cases hsame : row.1 = payload
    · exact isLive_of_row hn (hsame ▸ hmem)
    · exact isLive_of_row (hrows row hrow hsame) hmem

end NodeTable

theorem getElem?_concat_eq_some {α : Type} {as : List α} {a b : α} {n : Nat}
    (h : (as ++ [a])[n]? = some b) : as[n]? = some b ∨ n = as.length ∧ a = b := by
  by_cases hlt : n < as.length
  · rw [List.getElem?_append_left hlt] at h
    exact .inl h
  · have hbound := (List.getElem?_eq_some_iff.1 h).1
    rw [List.length_append, List.length_singleton] at hbound
    obtain rfl : n = as.length := by omega
    rw [List.getElem?_concat_length] at h
    exact .inr ⟨rfl, Option.some.inj h⟩

/-- A node table, what its nodes hold, and what it was asked for. -/
structure Memory (α : Type) where
  table : NodeTable α
  /-- The payload that each node was made with, the first node first. A node keeps what it holds. -/
  contents : List α
  /-- The nodes that were answered to those who made a payload, the latest first. -/
  built : List Nat

namespace Memory

variable {α : Type} [Payload α] {m : Memory α} {node other : Nat} {payload : α}

/-! ## Coherence -/

/-- Rows say what their nodes hold, no two of them the same; what a node refers to is older than the
node; and every live node has a row. -/
structure Coherent (m : Memory α) : Prop where
  next : m.table.next = m.contents.length
  contents : ∀ row ∈ m.table.rows, m.contents[row.2]? = some row.1
  payloads : (m.table.rows.map Prod.fst).Nodup
  latest : m.table.rows.Pairwise fun row earlier => earlier.2 < row.2
  older : ∀ node payload, m.contents[node]? = some payload →
    ∀ child ∈ Payload.children payload, child < node
  row : ∀ node, m.table.isLive node = true → ∃ payload, (payload, node) ∈ m.table.rows

/-- The memory in which nothing was done. -/
def empty : Memory α := ⟨.empty, [], []⟩

theorem coherent_empty : (empty : Memory α).Coherent where
  next := rfl
  contents := by simp [empty, NodeTable.empty]
  payloads := by simp [empty, NodeTable.empty]
  latest := by simp [empty, NodeTable.empty]
  older := by simp [empty]
  row := by simp [empty, NodeTable.empty, NodeTable.isLive]

namespace Coherent

theorem node_lt (h : m.Coherent) (hrow : (payload, node) ∈ m.table.rows) :
    node < m.contents.length :=
  (List.getElem?_eq_some_iff.1 (h.contents _ hrow)).1

theorem exists_contents (h : m.Coherent) (hlive : m.table.isLive node = true) :
    ∃ payload, m.contents[node]? = some payload := by
  obtain ⟨payload, hrow⟩ := h.row node hlive
  exact ⟨payload, h.contents _ hrow⟩

/-- A live node has the row of what it holds. -/
theorem row_of_contents (h : m.Coherent) (hlive : m.table.isLive node = true)
    (hnode : m.contents[node]? = some payload) : (payload, node) ∈ m.table.rows := by
  obtain ⟨found, hrow⟩ := h.row node hlive
  have hfound := h.contents _ hrow
  rw [hnode] at hfound
  obtain rfl := Option.some.inj hfound
  exact hrow

/-- A payload has one row. -/
theorem row_unique (h : m.Coherent) (hnode : (payload, node) ∈ m.table.rows)
    (hother : (payload, other) ∈ m.table.rows) : node = other := by
  have hrow := List.inj_on_of_nodup_map h.payloads hnode hother rfl
  exact congrArg Prod.snd hrow

/-- **Live nodes that hold the same are the same.** -/
theorem node_eq (h : m.Coherent) (hlive : m.table.isLive node = true)
    (hother : m.table.isLive other = true) (hsame : m.contents[node]? = m.contents[other]?) :
    node = other := by
  obtain ⟨payload, hrow⟩ := h.row node hlive
  have hpayload := h.contents _ hrow
  exact h.row_unique hrow (h.row_of_contents hother (hsame ▸ hpayload))

/-- What a live node refers to lives. -/
theorem isLive_child (h : m.Coherent) (hlive : m.table.isLive node = true)
    (hnode : m.contents[node]? = some payload) (hchild : other ∈ Payload.children payload) :
    m.table.isLive other = true :=
  NodeTable.isLive_of_row (h.row_of_contents hlive hnode) hchild

/-- Whether a node lives does not depend on the rows that are earlier than its own. -/
theorem isLive_of_earlier (h : m.Coherent) {later earlier kept : List (α × Nat)} {row : α × Nat}
    (hrows : m.table.rows = later ++ row :: earlier) (hkept : kept ⊆ earlier) :
    NodeTable.isLive ⟨later ++ row :: kept, m.table.held, m.table.next⟩ row.2 =
      m.table.isLive row.2 := by
  have hlatest : ∀ r ∈ earlier, r.2 < row.2 := by
    have hpair := h.latest
    rw [hrows] at hpair
    exact (List.pairwise_cons.1 (List.pairwise_append.1 hpair).2.1).1
  refine Bool.eq_iff_iff.2 ⟨fun hlive => ?_, fun hlive => ?_⟩
  · refine NodeTable.isLive_mono hlive (List.Subset.refl _) fun r hr => ?_
    rw [hrows]
    rcases List.mem_append.1 hr with hr | hr
    · exact List.mem_append_left _ hr
    · exact List.mem_append_right _ (List.cons_subset_cons _ hkept hr)
  · rcases NodeTable.isLive_iff.1 hlive with hmem | ⟨r, hr, hmem⟩
    · exact NodeTable.isLive_of_held hmem
    · have holder : row.2 < r.2 := h.older r.2 r.1 (h.contents r hr) row.2 hmem
      rw [hrows, List.mem_append, List.mem_cons] at hr
      refine NodeTable.isLive_iff.2 (.inr ⟨r, ?_, hmem⟩)
      rcases hr with hr | rfl | hr
      · exact List.mem_append_left _ hr
      · exact List.mem_append_right _ List.mem_cons_self
      · have hearlier := hlatest r hr
        omega

/-- Handles may be held on live nodes. -/
theorem hold (h : m.Coherent) {held : List Nat} (hheld : ∀ node ∈ held, m.table.isLive node = true)
    (built : List Nat) : Coherent { m with table := { m.table with held }, built } where
  next := h.next
  contents := h.contents
  payloads := h.payloads
  latest := h.latest
  older := h.older
  row node hlive := by
    rcases NodeTable.isLive_iff.1 hlive with hmem | ⟨row, hrow, hchild⟩
    · exact h.row node (hheld node hmem)
    · exact h.row node (NodeTable.isLive_of_row hrow hchild)

end Coherent

/-- All nodes live, and have been answered to those who made a payload. -/
structure Kept (m : Memory α) : Prop where
  isLive : ∀ node < m.contents.length, m.table.isLive node = true
  mem_built : ∀ node, node ∈ m.built ↔ node < m.contents.length

theorem kept_empty : (empty : Memory α).Kept where
  isLive node h := (Nat.not_lt_zero node h).elim
  mem_built := by simp [empty]

/-- **There is one row for each node** as long as every node lives. -/
theorem Kept.size_eq (hkept : m.Kept) (h : m.Coherent) : m.table.size = m.contents.length := by
  have hnodes : (m.table.rows.map Prod.snd).Perm (List.range m.contents.length) := by
    refine (List.perm_ext_iff_of_nodup ?_ List.nodup_range).2 fun node => ?_
    · refine List.pairwise_map.2 (h.latest.imp fun hlt => ?_)
      omega
    · rw [List.mem_range, List.mem_map]
      refine ⟨fun ⟨row, hrow, heq⟩ => heq ▸ h.node_lt hrow, fun hlt => ?_⟩
      obtain ⟨payload, hrow⟩ := h.row node (hkept.isLive node hlt)
      exact ⟨_, hrow, rfl⟩
  rw [NodeTable.size, ← List.length_map (f := Prod.snd), hnodes.length_eq, List.length_range]

variable [DecidableEq α]

namespace Coherent

/-- A payload is found as long as its node lives. -/
theorem find?_of_row (h : m.Coherent) (hrow : (payload, node) ∈ m.table.rows)
    (hlive : m.table.isLive node = true) : m.table.find? payload = some node := by
  cases hlookup : m.table.rows.lookup payload with
  | none =>
    have hne := List.lookup_eq_none_iff.1 hlookup _ hrow
    simp at hne
  | some found =>
    obtain ⟨later, earlier, hrows, -⟩ := List.lookup_eq_some_iff.1 hlookup
    have hfound : (payload, found) ∈ m.table.rows := by simp [hrows]
    obtain rfl := h.row_unique hrow hfound
    rw [NodeTable.find?, hlookup, Option.filter_some, if_pos hlive]

/-- A live node keeps its row when a payload is made anew: the row that is replaced is the row of a
dead node. -/
theorem row_of_not_find? (h : m.Coherent) (hfind : m.table.find? payload = none)
    (hlive : m.table.isLive node = true) :
    ∃ other, (other, node) ∈ m.table.rows.filter (·.1 ≠ payload) := by
  obtain ⟨other, hrow⟩ := h.row node hlive
  refine ⟨other, List.mem_filter.2 ⟨hrow, decide_eq_true ?_⟩⟩
  rintro rfl
  rw [h.find?_of_row hrow hlive] at hfind
  cases hfind

end Coherent

end Memory

end StagedTT
