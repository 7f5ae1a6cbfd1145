import StagedTT.Proofs.Sharing.Coherence

/-!
# Runs of a node table

Those who hold handles make payloads, copy handles and drop them, and purge the table, in any order.
A purge visits the rows in an order of its own. To take out a row gives up the handles in its
payload, so a purge that visits a row late may find its node dead which one that visits it early
leaves.

Whatever they do keeps a memory coherent (`Memory.Coherent.run`): a live node never loses its row.
As long as no handle is dropped all nodes live (`Memory.Kept.run`).
-/

namespace StagedTT

namespace NodeTable

variable {α : Type} [Payload α] [DecidableEq α] {t : NodeTable α}

/-- Takes out a row if its node is dead. -/
def visit (t : NodeTable α) (row : α × Nat) : NodeTable α :=
  if t.isLive row.2 then t else { t with rows := t.rows.erase row }

/-- Visits rows one after another. -/
def purgeIn (t : NodeTable α) (order : List (α × Nat)) : NodeTable α := order.foldl visit t

theorem purgeIn_concat (t : NodeTable α) (order : List (α × Nat)) (row : α × Nat) :
    t.purgeIn (order ++ [row]) = (t.purgeIn order).visit row := List.foldl_concat ..

theorem purgeIn_of_isLive {order : List (α × Nat)} (h : ∀ row ∈ order, t.isLive row.2 = true) :
    t.purgeIn order = t := by
  induction order with
  | nil => rfl
  | cons row order ih =>
    obtain ⟨hrow, horder⟩ := List.forall_mem_cons.1 h
    rw [purgeIn, List.foldl_cons, visit, if_pos hrow]
    exact ih horder

end NodeTable

/-- What the holders of handles may do. -/
inductive Action (α : Type) where
  /-- Make the node of a payload. The handles in the payload are moved into it. -/
  | make (payload : α)
  /-- Get one more handle on a node. -/
  | copy (node : Nat)
  /-- Give up a handle on a node. -/
  | drop (node : Nat)
  /-- Purge the table, where rows are visited in an order. -/
  | purge (order : List (α × Nat))

namespace Memory

variable {α : Type} [Payload α] [DecidableEq α] {m : Memory α} {node : Nat} {payload : α}

/-- Makes the node of a payload. A node that was not there before holds the payload. -/
def make (m : Memory α) (payload : α) : Memory α :=
  let (node, table) := m.table.make payload
  { table
    contents := if node < m.contents.length then m.contents else m.contents ++ [payload]
    built := node :: m.built }

/-- The memory after an action. -/
def step (m : Memory α) : Action α → Memory α
  | .make payload => m.make payload
  | .copy node => { m with table := { m.table with held := node :: m.table.held } }
  | .drop node => { m with table := m.table.drop node }
  | .purge order => { m with table := m.table.purgeIn order }

/-- Whether those who hold handles may do so: no one can use a handle that is not held, or copy one
that is not there. A purge visits each row once. -/
def Allows (m : Memory α) : Action α → Prop
  | .make payload => (Payload.children payload).Subperm m.table.held
  | .copy node => m.table.isLive node = true
  | .drop node => node ∈ m.table.held
  | .purge order => order.Perm m.table.rows

/-- The memory after actions in turn. -/
def run (m : Memory α) (actions : List (Action α)) : Memory α := actions.foldl step m

/-- Whether each action is allowed in its turn. -/
def AllowsAll (m : Memory α) : List (Action α) → Prop
  | [] => True
  | action :: actions => m.Allows action ∧ (m.step action).AllowsAll actions

instance (m : Memory α) : (action : Action α) → Decidable (m.Allows action)
  | .make payload => inferInstanceAs (Decidable ((Payload.children payload).Subperm m.table.held))
  | .copy node => inferInstanceAs (Decidable (m.table.isLive node = true))
  | .drop node => inferInstanceAs (Decidable (node ∈ m.table.held))
  | .purge order => inferInstanceAs (Decidable (order.Perm m.table.rows))

instance decidableAllowsAll : (m : Memory α) → (actions : List (Action α)) →
    Decidable (m.AllowsAll actions)
  | _, [] => isTrue trivial
  | m, action :: actions =>
    have := decidableAllowsAll (m.step action) actions
    inferInstanceAs (Decidable (m.Allows action ∧ (m.step action).AllowsAll actions))

theorem run_append (m : Memory α) (actions more : List (Action α)) :
    m.run (actions ++ more) = (m.run actions).run more := List.foldl_append

theorem allowsAll_append {actions more : List (Action α)} :
    m.AllowsAll (actions ++ more) ↔ m.AllowsAll actions ∧ (m.run actions).AllowsAll more := by
  induction actions generalizing m with
  | nil => exact ⟨fun h => ⟨trivial, h⟩, fun h => h.2⟩
  | cons action actions ih =>
    rw [List.cons_append, AllowsAll, AllowsAll, ih, and_assoc]
    rfl

theorem make_of_find? (h : m.Coherent) (hfind : m.table.find? payload = some node) :
    m.make payload =
      { table := { m.table with held := node :: m.table.heldWithout payload }
        contents := m.contents
        built := node :: m.built } := by
  have hlt := h.node_lt (NodeTable.mem_rows_of_find? hfind).1
  simp only [make, NodeTable.make_of_find? hfind, if_pos hlt]

theorem make_of_not_find? (h : m.Coherent) (hfind : m.table.find? payload = none) :
    m.make payload =
      { table :=
          { rows := (payload, m.contents.length) :: m.table.rows.filter (·.1 ≠ payload)
            held := m.contents.length :: m.table.heldWithout payload
            next := m.contents.length + 1 }
        contents := m.contents ++ [payload]
        built := m.contents.length :: m.built } := by
  simp only [make, NodeTable.make_of_not_find? hfind, h.next, if_neg (Nat.lt_irrefl _)]

namespace Coherent

/-- The answer to those who make a payload is a node that holds it. -/
theorem contents_make (h : m.Coherent) (payload : α) :
    (m.make payload).contents[(m.table.make payload).1]? = some payload := by
  cases hfind : m.table.find? payload with
  | some node =>
    rw [make_of_find? h hfind, NodeTable.make_of_find? hfind]
    exact h.contents _ (NodeTable.mem_rows_of_find? hfind).1
  | none =>
    rw [make_of_not_find? h hfind, NodeTable.make_of_not_find? hfind, h.next]
    exact List.getElem?_concat_length

/-- To make a payload makes at most one node, which is the answer. -/
theorem lt_contents_make (h : m.Coherent) (payload : α) :
    node < (m.make payload).contents.length ↔
      node < m.contents.length ∨ node = (m.table.make payload).1 := by
  cases hfind : m.table.find? payload with
  | some found =>
    have hlt := h.node_lt (NodeTable.mem_rows_of_find? hfind).1
    rw [make_of_find? h hfind, NodeTable.make_of_find? hfind]
    show node < m.contents.length ↔ node < m.contents.length ∨ node = found
    omega
  | none =>
    rw [make_of_not_find? h hfind, NodeTable.make_of_not_find? hfind, h.next, List.length_append,
      List.length_singleton]
    omega

/-- A payload may be made anew over live nodes. -/
theorem make_new (h : m.Coherent) (hfind : m.table.find? payload = none)
    (hchild : ∀ child ∈ Payload.children payload, m.table.isLive child = true) :
    (m.make payload).Coherent := by
  rw [make_of_not_find? h hfind]
  refine ⟨by simp, ?contents, ?payloads, ?latest, ?older, ?row⟩
  case contents =>
    refine List.forall_mem_cons.2 ⟨List.getElem?_concat_length, fun row hrow => ?_⟩
    have hrow := List.mem_of_mem_filter hrow
    rw [List.getElem?_append_left (h.node_lt hrow)]
    exact h.contents row hrow
  case payloads =>
    refine List.nodup_cons.2 ⟨by simp, ?_⟩
    exact h.payloads.sublist (List.filter_sublist.map _)
  case latest =>
    refine List.pairwise_cons.2 ⟨fun row hrow => ?_, h.latest.sublist List.filter_sublist⟩
    exact h.node_lt (List.mem_of_mem_filter hrow)
  case older =>
    intro node other hnode child hmem
    rcases getElem?_concat_eq_some hnode with hold | ⟨rfl, rfl⟩
    · exact h.older node other hold child hmem
    · obtain ⟨row, hrow⟩ := h.row child (hchild child hmem)
      exact h.node_lt hrow
  case row =>
    intro node hlive
    by_cases hnew : node = m.contents.length
    · exact ⟨payload, hnew ▸ List.mem_cons_self⟩
    · have hbefore : m.table.isLive node = true := by
        rcases NodeTable.isLive_iff.1 hlive with hmem | ⟨row, hrow, hmem⟩
        · have hheld := (List.mem_cons.1 hmem).resolve_left hnew
          exact NodeTable.isLive_of_held (NodeTable.mem_held_of_heldWithout hheld)
        · rcases List.mem_cons.1 hrow with rfl | hrow
          · exact hchild node hmem
          · exact NodeTable.isLive_of_row (List.mem_of_mem_filter hrow) hmem
      obtain ⟨other, hother⟩ := h.row_of_not_find? hfind hbefore
      exact ⟨other, List.mem_cons_of_mem _ hother⟩

theorem make (h : m.Coherent) (hallow : m.Allows (.make payload)) : (m.make payload).Coherent := by
  cases hfind : m.table.find? payload with
  | some node =>
    rw [make_of_find? h hfind]
    refine h.hold (List.forall_mem_cons.2 ⟨(NodeTable.mem_rows_of_find? hfind).2, ?_⟩) _
    exact fun _ hmem => NodeTable.isLive_of_held (NodeTable.mem_held_of_heldWithout hmem)
  | none =>
    refine h.make_new hfind fun child hmem => ?_
    exact NodeTable.isLive_of_held (hallow.subset hmem)

theorem visit (h : m.Coherent) (row : α × Nat) :
    Coherent { m with table := m.table.visit row } := by
  unfold NodeTable.visit
  by_cases hlive : m.table.isLive row.2 = true
  · rw [if_pos hlive]
    exact h
  · rw [if_neg hlive]
    have hsub : (m.table.rows.erase row).Sublist m.table.rows := List.erase_sublist
    refine ⟨h.next, fun r hr => h.contents r (hsub.mem hr), h.payloads.sublist (hsub.map _),
      h.latest.sublist hsub, h.older, fun node hnode => ?_⟩
    have hbefore : m.table.isLive node = true :=
      NodeTable.isLive_mono hnode (List.Subset.refl _) hsub.subset
    obtain ⟨q, hrow⟩ := h.row node hbefore
    refine ⟨q, (List.mem_erase_of_ne ?_).2 hrow⟩
    rintro rfl
    exact hlive hbefore

/-- **No purge takes out the row of a live node**, whatever the order. -/
theorem purgeIn (h : m.Coherent) (order : List (α × Nat)) :
    Coherent { m with table := m.table.purgeIn order } := by
  induction order generalizing m with
  | nil => exact h
  | cons row order ih => exact ih (h.visit row)

/-- **Every action keeps a memory coherent.** -/
theorem step (h : m.Coherent) {action : Action α} (hallow : m.Allows action) :
    (m.step action).Coherent := by
  cases action with
  | make payload => exact h.make hallow
  | copy node =>
    exact h.hold (List.forall_mem_cons.2 ⟨hallow, fun _ => NodeTable.isLive_of_held⟩) _
  | drop node =>
    exact h.hold (fun _ hmem => NodeTable.isLive_of_held (List.mem_of_mem_erase hmem)) _
  | purge order => exact h.purgeIn order

/-- **Every run keeps a memory coherent.** -/
theorem run (h : m.Coherent) {actions : List (Action α)} (hallow : m.AllowsAll actions) :
    (m.run actions).Coherent := by
  induction actions generalizing m with
  | nil => exact h
  | cons action actions ih =>
    obtain ⟨hfirst, hrest⟩ := hallow
    exact ih (h.step hfirst) hrest

/-- To take out the rows of dead nodes at once is to visit the earliest row first: what refers to a
node is later than the node. -/
theorem purge_eq_purgeIn (h : m.Coherent) :
    m.table.purge = m.table.purgeIn m.table.rows.reverse := by
  suffices hsuffix : ∀ earlier later, m.table.rows = later ++ earlier →
      m.table.purgeIn earlier.reverse =
        ⟨later ++ earlier.filter (m.table.isLive ·.2), m.table.held, m.table.next⟩ by
    exact (hsuffix m.table.rows [] rfl).symm
  intro earlier
  induction earlier with
  | nil =>
    intro later hrows
    rw [List.filter_nil, ← hrows]
    rfl
  | cons row earlier ih =>
    intro later hrows
    have hbefore := ih (later ++ [row]) (by rw [hrows, List.append_cons])
    rw [← List.append_cons] at hbefore
    have hlive := h.isLive_of_earlier hrows
      (List.filter_subset_self (p := fun row => m.table.isLive row.2) earlier)
    rw [List.reverse_cons, NodeTable.purgeIn_concat, hbefore, NodeTable.visit, hlive]
    by_cases hrow : m.table.isLive row.2 = true
    · rw [if_pos hrow, List.filter_cons, if_pos hrow]
    · have hnot : row ∉ later := by
        have hpair := h.latest
        rw [hrows] at hpair
        intro hmem
        exact Nat.lt_irrefl _ ((List.pairwise_append.1 hpair).2.2 row hmem row List.mem_cons_self)
      rw [if_neg hrow, List.filter_cons, if_neg hrow]
      simp only [List.erase_append_right _ hnot, List.erase_cons_head]

end Coherent

/-! ## Runs without drops -/

namespace Kept

theorem make (hkept : m.Kept) (h : m.Coherent) (payload : α) : (m.make payload).Kept := by
  have hlive : ∀ other, other ∈ (m.make payload).built →
      (m.make payload).table.isLive other = true := by
    intro other hmem
    rcases List.mem_cons.1 hmem with rfl | hmem
    · refine NodeTable.isLive_of_held ?_
      show (m.table.make payload).1 ∈ (m.table.make payload).2.held
      rw [NodeTable.held_make]
      exact List.mem_cons_self
    · exact NodeTable.isLive_make (hkept.isLive other ((hkept.mem_built other).1 hmem)) payload
  have hbuilt : ∀ other, other ∈ (m.make payload).built ↔
      other < (m.make payload).contents.length := by
    intro other
    show other ∈ (m.table.make payload).1 :: m.built ↔ _
    rw [h.lt_contents_make, List.mem_cons, hkept.mem_built, or_comm]
  exact ⟨fun other hlt => hlive other ((hbuilt other).2 hlt), hbuilt⟩

theorem step (hkept : m.Kept) (h : m.Coherent) {action : Action α} (hallow : m.Allows action)
    (hdrop : ∀ node, action ≠ .drop node) : (m.step action).Kept := by
  cases action with
  | make payload => exact hkept.make h payload
  | copy node =>
    refine ⟨fun other hlt => ?_, hkept.mem_built⟩
    exact NodeTable.isLive_mono (hkept.isLive other hlt) (List.subset_cons_self ..)
      (List.Subset.refl _)
  | drop node => exact (hdrop node rfl).elim
  | purge order =>
    have horder : ∀ row ∈ order, m.table.isLive row.2 = true := fun row hrow =>
      hkept.isLive row.2 (h.node_lt (hallow.subset hrow))
    show Kept { m with table := m.table.purgeIn order }
    rw [NodeTable.purgeIn_of_isLive horder]
    exact hkept

theorem run (hkept : m.Kept) (h : m.Coherent) {actions : List (Action α)}
    (hallow : m.AllowsAll actions) (hdrop : ∀ node, .drop node ∉ actions) :
    (m.run actions).Kept := by
  induction actions generalizing m with
  | nil => exact hkept
  | cons action actions ih =>
    obtain ⟨hfirst, hrest⟩ := hallow
    have hnot : ∀ node, action ≠ .drop node := fun node heq =>
      hdrop node (heq ▸ List.mem_cons_self)
    exact ih (hkept.step h hfirst hnot) (h.step hfirst) hrest fun node hmem =>
      hdrop node (List.mem_cons_of_mem _ hmem)

end Kept

end Memory

end StagedTT
