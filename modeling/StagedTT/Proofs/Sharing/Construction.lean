import StagedTT.Proofs.Sharing.Terms

/-!
# Construction of shared terms

To share a term makes payloads and does nothing else (`Memory.shares_share`), so what holds after
runs holds after terms were shared. Together: handles are the same just if their terms are, and
without drops the rows are the subterms of what was built (`Memory.sharing_faithful`).
-/

namespace StagedTT

namespace Term

/-- To share a term is to share its parts, and then to make its outermost layer over them. -/
theorem share_eq (t : Term) (table : NodeTable TermNode) :
    t.share table =
      (shareArgs t.parts table).2.make (t.layer (shareArgs t.parts table).1) := by
  cases t <;> rfl

theorem children_layer {t : Term} {nodes : List Nat} (h : nodes.length = t.parts.length) :
    (t.layer nodes).children = nodes := by
  cases t with
  | sort | const | num | str | var => exact (List.length_eq_zero_iff.1 h).symm
  | pi | lam | app =>
    match nodes, h with
    | [_, _], _ => rfl
  | quote | splice =>
    match nodes, h with
    | [_], _ => rfl
  | call =>
    match nodes, h with
    | _ :: _, _ => rfl

theorem toTerm_layer {t : Term} {nodes : List Nat} {part : Nat → Term}
    (h : nodes.map part = t.parts) : (t.layer nodes).toTerm part = t := by
  have hlength : nodes.length = t.parts.length := by rw [← h, List.length_map]
  cases t with
  | sort | const | num | str | var => rfl
  | pi | lam | app =>
    match nodes, hlength with
    | [_, _], _ =>
      cases h
      rfl
  | quote | splice =>
    match nodes, hlength with
    | [_], _ =>
      cases h
      rfl
  | call =>
    match nodes, hlength with
    | _ :: _, _ =>
      cases h
      rfl

end Term

namespace Memory

/-- In a run that only makes payloads, handles were got on nodes that stand for terms. Nothing else
was made than what these terms are made of, and all other handles are still held. -/
structure Shares (m : Memory TermNode) (ts : List Term) (nodes : List Nat)
    (last : Memory TermNode) : Prop where
  run : ∃ payloads : List TermNode,
    m.AllowsAll (payloads.map .make) ∧ m.run (payloads.map .make) = last
  term : nodes.map last.term = ts
  held : last.table.held.Perm (nodes ++ m.table.held)
  lt : ∀ node ∈ nodes, node < last.contents.length
  length_le : m.contents.length ≤ last.contents.length
  term_eq : ∀ node < m.contents.length, last.term node = m.term node
  part : ∀ node < last.contents.length,
    node < m.contents.length ∨ last.term node ∈ Term.subtermsAll ts

namespace Shares

variable {m middle last : Memory TermNode} {t : Term} {ts us : List Term} {nodes more : List Nat}

theorem coherent (h : m.Shares ts nodes last) (hm : m.Coherent) : last.Coherent := by
  obtain ⟨payloads, hallow, rfl⟩ := h.run
  exact hm.run hallow

theorem nil (m : Memory TermNode) : m.Shares [] [] m where
  run := ⟨[], trivial, rfl⟩
  term := rfl
  held := .refl _
  lt := List.forall_mem_nil _
  length_le := Nat.le_refl _
  term_eq _ _ := rfl
  part _ h := .inl h

/-- Terms are shared one after another. -/
theorem append (hfirst : m.Shares ts nodes middle) (hsecond : middle.Shares us more last) :
    m.Shares (ts ++ us) (nodes ++ more) last where
  run := by
    obtain ⟨payloads, hallow, rfl⟩ := hfirst.run
    obtain ⟨others, hothers, rfl⟩ := hsecond.run
    refine ⟨payloads ++ others, ?_, ?_⟩
    · rw [List.map_append]
      exact allowsAll_append.2 ⟨hallow, hothers⟩
    · rw [List.map_append, run_append]
  term := by
    have hkeep : nodes.map last.term = nodes.map middle.term :=
      List.map_congr_left fun node hnode => hsecond.term_eq node (hfirst.lt node hnode)
    rw [List.map_append, hkeep, hfirst.term, hsecond.term]
  held := by
    have hmore := hsecond.held.trans (hfirst.held.append_left more)
    rw [List.append_assoc]
    exact hmore.trans (List.perm_append_comm_assoc ..)
  lt := List.forall_mem_append.2
    ⟨fun node hnode => (hfirst.lt node hnode).trans_le hsecond.length_le, hsecond.lt⟩
  length_le := hfirst.length_le.trans hsecond.length_le
  term_eq node hlt := by
    rw [hsecond.term_eq node (hlt.trans_le hfirst.length_le), hfirst.term_eq node hlt]
  part node hlt := by
    rcases hsecond.part node hlt with hmiddle | hpart
    · rw [hsecond.term_eq node hmiddle, Term.subtermsAll_append]
      exact (hfirst.part node hmiddle).imp_right (Finset.mem_union_left _)
    · rw [Term.subtermsAll_append]
      exact .inr (Finset.mem_union_right _ hpart)

theorem children_layer (h : m.Shares t.parts nodes last) :
    Payload.children (t.layer nodes) = nodes :=
  Term.children_layer (by rw [← h.term, List.length_map])

/-- The outermost layer of a term can be made once its parts are shared. -/
theorem allows_make (h : m.Shares t.parts nodes last) : last.Allows (.make (t.layer nodes)) := by
  show (Payload.children (t.layer nodes)).Subperm last.table.held
  rw [h.children_layer]
  exact (List.sublist_append_left nodes _).subperm.trans h.held.symm.subperm

/-- The node of the outermost layer stands for the term. -/
theorem term_make (h : m.Shares t.parts nodes last) (hm : m.Coherent) :
    (last.make (t.layer nodes)).term (last.table.make (t.layer nodes)).1 = t := by
  have hlast := h.coherent hm
  have hparts : ∀ child ∈ Payload.children (t.layer nodes),
      (last.make (t.layer nodes)).term child = last.term child := by
    rw [h.children_layer]
    exact fun child hchild => hlast.term_make _ (h.lt child hchild)
  rw [(hlast.make h.allows_make).term_eq (hlast.contents_make _), TermNode.toTerm_congr hparts,
    Term.toTerm_layer h.term]

/-- The parts of a term are shared, and then its outermost layer is made. -/
theorem make (h : m.Shares t.parts nodes last) (hm : m.Coherent) :
    m.Shares [t] [(last.table.make (t.layer nodes)).1] (last.make (t.layer nodes)) := by
  have hlast := h.coherent hm
  have hterm := h.term_make hm
  have hlt := (List.getElem?_eq_some_iff.1 (hlast.contents_make (t.layer nodes))).1
  have hlength : last.contents.length ≤ (last.make (t.layer nodes)).contents.length :=
    le_of_forall_lt fun _ hnode => (hlast.lt_contents_make _).2 (.inl hnode)
  refine ⟨?_, ?_, ?_, ?_, ?_, ?_, ?_⟩
  · obtain ⟨payloads, hpayloads, rfl⟩ := h.run
    refine ⟨payloads ++ [t.layer nodes], ?_, ?_⟩
    · rw [List.map_append]
      exact allowsAll_append.2 ⟨hpayloads, h.allows_make, trivial⟩
    · rw [List.map_append, run_append]
      rfl
  · rw [List.map_singleton, hterm]
  · show (last.table.make (t.layer nodes)).2.held.Perm _
    rw [NodeTable.held_make]
    refine (NodeTable.heldWithout_perm ?_).cons _
    rw [h.children_layer]
    exact h.held
  · exact List.forall_mem_singleton.2 hlt
  · exact h.length_le.trans hlength
  · intro node hnode
    rw [hlast.term_make _ (hnode.trans_le h.length_le), h.term_eq node hnode]
  · intro node hnode
    rw [Term.subtermsAll_singleton]
    rcases (hlast.lt_contents_make _).1 hnode with hbefore | rfl
    · rw [hlast.term_make _ hbefore]
      exact (h.part node hbefore).imp_right fun hmem => Term.mem_subterms.2 (.inr hmem)
    · rw [hterm]
      exact .inr (Term.mem_subterms_self t)

end Shares

variable {m : Memory TermNode}

theorem shares_shareArgs {ts : List Term}
    (h : ∀ t ∈ ts, ∀ m : Memory TermNode, m.Coherent →
      ∃ last, m.Shares [t] [(t.share m.table).1] last ∧ last.table = (t.share m.table).2)
    (hm : m.Coherent) :
    ∃ last, m.Shares ts (Term.shareArgs ts m.table).1 last ∧
      last.table = (Term.shareArgs ts m.table).2 := by
  induction ts generalizing m with
  | nil => exact ⟨m, .nil m, rfl⟩
  | cons t ts ih =>
    obtain ⟨ht, hts⟩ := List.forall_mem_cons.1 h
    obtain ⟨middle, hfirst, hmiddle⟩ := ht m hm
    obtain ⟨last, hrest, hlast⟩ := ih hts (hfirst.coherent hm)
    rw [hmiddle] at hrest hlast
    exact ⟨last, hfirst.append hrest, hlast⟩

/-- **To share a term is a run that makes payloads**, the last of them that of the term. -/
theorem shares_share (t : Term) (m : Memory TermNode) (hm : m.Coherent) :
    ∃ last, m.Shares [t] [(t.share m.table).1] last ∧ last.table = (t.share m.table).2 := by
  induction t using Term.inductParts generalizing m with
  | h t ih =>
    obtain ⟨middle, hparts, hmiddle⟩ := shares_shareArgs ih hm
    rw [Term.share_eq, ← hmiddle]
    exact ⟨_, hparts.make hm, rfl⟩

/-! ## Faithfulness -/

theorem Shares.size_eq {ts : List Term} {nodes : List Nat} {last : Memory TermNode}
    (h : m.Shares ts nodes last) (hm : m.Coherent) (hkept : m.Kept) :
    last.table.size = (Term.subtermsAll (m.built.map m.term ++ ts)).card := by
  have hlast : last.Kept := by
    obtain ⟨payloads, hallow, rfl⟩ := h.run
    refine hkept.run hm hallow fun node hmem => ?_
    obtain ⟨payload, -, hmake⟩ := List.mem_map.1 hmem
    cases hmake
  refine hlast.size_eq_card (h.coherent hm) (fun t ht => ?_) fun node hnode => ?_
  · rcases List.mem_append.1 ht with ht | ht
    · obtain ⟨node, hnode, rfl⟩ := List.mem_map.1 ht
      have hlt := (hkept.mem_built node).1 hnode
      exact ⟨node, hlt.trans_le h.length_le, h.term_eq node hlt⟩
    · rw [← h.term] at ht
      obtain ⟨node, hnode, rfl⟩ := List.mem_map.1 ht
      exact ⟨node, h.lt node hnode, rfl⟩
  · rw [Term.subtermsAll_append]
    rcases h.part node hnode with hlt | hpart
    · rw [h.term_eq node hlt]
      exact Finset.mem_union_left _ (hkept.term_mem_built hlt)
    · exact Finset.mem_union_right _ hpart

/-- **Sharing is faithful.** Whatever the holders of handles do, live nodes are the same just if
they stand for the same term; and if they drop nothing, there is one row for each subterm of the
terms that were built. The purge of the table is a purge in one of the orders; and terms are shared
by runs that only make payloads, so that the same is true of these. -/
theorem sharing_faithful {actions : List (Action TermNode)}
    (hallow : Memory.empty.AllowsAll actions) :
    let m := Memory.empty.run actions
    (∀ node other, m.table.isLive node = true → m.table.isLive other = true →
      (node = other ↔ m.term node = m.term other)) ∧
    ((∀ node, .drop node ∉ actions) →
      m.table.size = (Term.subtermsAll (m.built.map m.term)).card) ∧
    m.table.purge = (m.step (.purge m.table.rows.reverse)).table ∧
    ∀ ts : List Term, ∃ last, m.Shares ts (Term.shareArgs ts m.table).1 last ∧
      last.table = (Term.shareArgs ts m.table).2 ∧
      ((∀ node, .drop node ∉ actions) →
        last.table.size = (Term.subtermsAll (m.built.map m.term ++ ts)).card) := by
  intro m
  have hm : m.Coherent := coherent_empty.run hallow
  have hkept : (∀ node, .drop node ∉ actions) → m.Kept := kept_empty.run coherent_empty hallow
  refine ⟨fun node other => hm.node_eq_iff, fun hdrop => (hkept hdrop).size_eq_card_built hm,
    hm.purge_eq_purgeIn, fun ts => ?_⟩
  obtain ⟨last, hshares, hlast⟩ := shares_shareArgs (fun t _ m hm => shares_share t m hm) hm
  exact ⟨last, hshares, hlast, fun hdrop => hshares.size_eq hm (hkept hdrop)⟩

/-- A call is built, dropped and purged with its argument, while its function is held; then it is
built anew, over an argument anew. -/
theorem sharing_faithful_rebuilt :
    let fn : TermNode := .const "f"
    let arg : TermNode := .var 0
    let build : List (Action TermNode) := [.make fn, .make arg, .make (.app 0 1), .copy 0]
    let rebuild : List (Action TermNode) :=
      [.drop 2, .purge [(.app 0 1, 2), (arg, 1), (fn, 0)], .make arg, .copy 0, .make (.app 0 3),
        .make arg, .make (.app 0 3)]
    let m : Memory TermNode := Memory.empty.run (build ++ rebuild)
    let before : Memory TermNode := Memory.empty.run build
    m.table.held = [4, 4] ∧ m.term 4 = .app (.const "f") (.var 0) ∧ m.term 0 ≠ m.term 3 ∧
      (Term.subtermsAll (before.built.map before.term)).card = 3 := by
  intro fn arg build rebuild m before
  have hallow : Memory.empty.AllowsAll (build ++ rebuild) := by decide +kernel
  have hbuild : Memory.empty.AllowsAll build := (allowsAll_append.1 hallow).1
  obtain ⟨hnodes, -⟩ := sharing_faithful hallow
  obtain ⟨-, hsize, -⟩ := sharing_faithful hbuild
  refine ⟨by decide +kernel, by decide +kernel, fun hterm => ?_, ?_⟩
  · have hsame := (hnodes 0 3 (by decide +kernel) (by decide +kernel)).2 hterm
    omega
  · rw [← hsize (by simp [build])]
    decide +kernel

end Memory

end StagedTT
