import StagedTT.Proofs.Sharing.Runs
import StagedTT.Proofs.Term.Subterms
import StagedTT.Sharing.TermNode
import Mathlib.Data.Finset.Card
import Mathlib.Data.List.GetD

/-!
# Sharing of terms

A node stands for the term that is read back from what it holds (`Memory.term`). Live nodes are the
same just if they stand for the same term (`Memory.Coherent.node_eq_iff`): by induction their
parts are the same nodes, so that they hold the same. As long as no handle is dropped there is one
row for each part of the terms that were made (`Memory.Kept.size_eq_card`).
-/

namespace StagedTT

namespace Term

/-- The outermost layer of a term, over nodes for its parts. -/
def layer : Term → List Nat → TermNode
  | .sort level, _ => .sort level
  | .const name, _ => .const name
  | .num value, _ => .num value
  | .str value, _ => .str value
  | .var index, _ => .var index
  | .pi _ _, nodes => .pi (nodes.getD 0 0) (nodes.getD 1 0)
  | .lam _ _, nodes => .lam (nodes.getD 0 0) (nodes.getD 1 0)
  | .app _ _, nodes => .app (nodes.getD 0 0) (nodes.getD 1 0)
  | .quote _, nodes => .quote (nodes.getD 0 0)
  | .splice _, nodes => .splice (nodes.getD 0 0)
  | .call _ _, nodes => .call (nodes.headD 0) nodes.tail

end Term

/-! ## Reading back -/

namespace TermNode

/-- The term of a layer, from the terms of its parts. -/
def toTerm (part : Nat → Term) : TermNode → Term
  | .sort level => .sort level
  | .const name => .const name
  | .num value => .num value
  | .str value => .str value
  | .var index => .var index
  | .pi domain body => .pi (part domain) (part body)
  | .lam domain body => .lam (part domain) (part body)
  | .app fn arg => .app (part fn) (part arg)
  | .quote body => .quote (part body)
  | .splice body => .splice (part body)
  | .call head args => .call (part head) (args.map part)

theorem parts_toTerm (part : Nat → Term) (node : TermNode) :
    (node.toTerm part).parts = node.children.map part := by
  cases node <;> rfl

theorem layer_toTerm (part : Nat → Term) (node : TermNode) :
    (node.toTerm part).layer node.children = node := by
  cases node <;> rfl

theorem toTerm_congr {part part' : Nat → Term} {node : TermNode}
    (h : ∀ child ∈ node.children, part child = part' child) :
    node.toTerm part = node.toTerm part' := by
  cases node <;> simp_all [toTerm, children]

/-- Layers of the same term are the same, if parts of the same term are. -/
theorem toTerm_inj {part : Nat → Term} {a b : TermNode}
    (hpart : ∀ c ∈ a.children, ∀ d ∈ b.children, part c = part d → c = d)
    (h : a.toTerm part = b.toTerm part) : a = b := by
  have hchildren : a.children = b.children := by
    refine eq_of_map_eq hpart ?_
    rw [← parts_toTerm, h, parts_toTerm]
  rw [← layer_toTerm part a, h, hchildren, layer_toTerm]

end TermNode

namespace Memory

/-- The terms that nodes stand for, from what they hold. What a node refers to comes before it. -/
def terms (contents : List TermNode) : List Term :=
  contents.foldl (fun terms node => terms ++ [node.toTerm (terms.getD · default)]) []

/-- The term that a node stands for. -/
def term (m : Memory TermNode) (node : Nat) : Term := (terms m.contents).getD node default

theorem terms_concat (contents : List TermNode) (node : TermNode) :
    terms (contents ++ [node]) =
      terms contents ++ [node.toTerm ((terms contents).getD · default)] := List.foldl_concat ..

theorem length_terms (contents : List TermNode) : (terms contents).length = contents.length := by
  induction contents using List.reverseRecOn with
  | nil => rfl
  | append_singleton contents node ih => simp [terms_concat, ih]

/-- A later node changes no earlier one. -/
theorem getD_terms_concat {contents : List TermNode} {n : Nat} (h : n < contents.length)
    (node : TermNode) :
    (terms (contents ++ [node])).getD n default = (terms contents).getD n default := by
  rw [terms_concat, List.getD_append]
  rwa [length_terms]

theorem getD_terms {contents : List TermNode}
    (holder : ∀ n (node : TermNode), contents[n]? = some node →
      ∀ child ∈ node.children, child < n)
    {n : Nat} {node : TermNode} (h : contents[n]? = some node) :
    (terms contents).getD n default = node.toTerm ((terms contents).getD · default) := by
  induction contents using List.reverseRecOn with
  | nil => cases h
  | append_singleton contents last ih =>
    have hparts : ∀ child ∈ node.children, child < contents.length := by
      intro child hchild
      have hbound := (List.getElem?_eq_some_iff.1 h).1
      have hlt := holder n node h child hchild
      rw [List.length_append, List.length_singleton] at hbound
      omega
    have hsame : node.toTerm ((terms (contents ++ [last])).getD · default) =
        node.toTerm ((terms contents).getD · default) :=
      TermNode.toTerm_congr fun child hchild => getD_terms_concat (hparts child hchild) last
    rw [hsame]
    rcases getElem?_concat_eq_some h with hbefore | ⟨rfl, rfl⟩
    · rw [getD_terms_concat (List.getElem?_eq_some_iff.1 hbefore).1]
      refine ih (fun k other hk => holder k other ?_) hbefore
      rwa [List.getElem?_append_left (List.getElem?_eq_some_iff.1 hk).1]
    · rw [terms_concat, List.getD_append_right _ _ _ _ (by rw [length_terms])]
      simp [length_terms]

variable {m : Memory TermNode} {node other : Nat} {payload : TermNode}

namespace Coherent

/-- A node stands for what it holds. -/
theorem term_eq (h : m.Coherent) (hnode : m.contents[node]? = some payload) :
    m.term node = payload.toTerm m.term := getD_terms h.older hnode

/-- Later payloads change no term that a node stands for. -/
theorem term_make (h : m.Coherent) (payload : TermNode) (hlt : node < m.contents.length) :
    (m.make payload).term node = m.term node := by
  cases hfind : m.table.find? payload with
  | some found =>
    rw [make_of_find? h hfind]
    rfl
  | none =>
    rw [make_of_not_find? h hfind]
    exact getD_terms_concat hlt payload

/-- **Live nodes are the same just if they stand for the same term.** -/
theorem node_eq_iff (h : m.Coherent) (hlive : m.table.isLive node = true)
    (hother : m.table.isLive other = true) : node = other ↔ m.term node = m.term other := by
  refine ⟨congrArg m.term, fun hterm => ?_⟩
  induction node using Nat.strong_induction_on generalizing other with
  | _ node ih =>
    obtain ⟨a, hnode⟩ := h.exists_contents hlive
    obtain ⟨b, hsecond⟩ := h.exists_contents hother
    rw [h.term_eq hnode, h.term_eq hsecond] at hterm
    refine h.node_eq hlive hother ?_
    rw [hnode, hsecond, TermNode.toTerm_inj (fun c hc d hd hpart => ?_) hterm]
    have hlivePart := h.isLive_child hlive hnode hc
    exact ih c (h.older node a hnode c hc) hlivePart (h.isLive_child hother hsecond hd) hpart

/-- The subterms of what nodes stand for are what nodes stand for. -/
theorem exists_node_of_mem_subterms (h : m.Coherent) {node : Nat} (hnode : node < m.contents.length)
    {u : Term} (hu : u ∈ (m.term node).subterms) : ∃ part < m.contents.length, u = m.term part := by
  induction node using Nat.strong_induction_on with
  | _ node ih =>
    have hpayload := List.getElem?_eq_getElem hnode
    rcases Term.mem_subterms.1 hu with rfl | hu
    · exact ⟨node, hnode, rfl⟩
    · obtain ⟨part, hpart, hu⟩ := Term.mem_subtermsAll.1 hu
      rw [h.term_eq hpayload, TermNode.parts_toTerm] at hpart
      obtain ⟨child, hchild, rfl⟩ := List.mem_map.1 hpart
      have hlt := h.older node _ hpayload child hchild
      exact ih child hlt (hlt.trans hnode) hu

end Coherent

/-- There is one row for each subterm of some terms, as long as every node lives, if these are terms
that nodes stand for and nodes stand for their subterms alone. -/
theorem Kept.size_eq_card (hkept : m.Kept) (h : m.Coherent) {ts : List Term}
    (hmade : ∀ t ∈ ts, ∃ node < m.contents.length, m.term node = t)
    (hpart : ∀ node < m.contents.length, m.term node ∈ Term.subtermsAll ts) :
    m.table.size = (Term.subtermsAll ts).card := by
  have hsame : Term.subtermsAll ts = (Finset.range m.contents.length).image m.term := by
    ext u
    rw [Finset.mem_image]
    constructor
    · intro hu
      obtain ⟨t, ht, hu⟩ := Term.mem_subtermsAll.1 hu
      obtain ⟨node, hnode, rfl⟩ := hmade t ht
      obtain ⟨part, hpart, rfl⟩ := h.exists_node_of_mem_subterms hnode hu
      exact ⟨part, Finset.mem_range.2 hpart, rfl⟩
    · rintro ⟨node, hnode, rfl⟩
      exact hpart node (Finset.mem_range.1 hnode)
  have hinj : Set.InjOn m.term (Finset.range m.contents.length : Set Nat) := by
    intro node hnode other hother hterm
    have hlive := hkept.isLive node (Finset.mem_range.1 hnode)
    exact (h.node_eq_iff hlive (hkept.isLive other (Finset.mem_range.1 hother))).2 hterm
  rw [hsame, Finset.card_image_of_injOn hinj, Finset.card_range, hkept.size_eq h]

theorem Kept.term_mem_built (hkept : m.Kept) (hlt : node < m.contents.length) :
    m.term node ∈ Term.subtermsAll (m.built.map m.term) := by
  have hbuilt := List.mem_map_of_mem (f := m.term) ((hkept.mem_built node).2 hlt)
  exact Term.mem_subtermsAll.2 ⟨m.term node, hbuilt, Term.mem_subterms_self _⟩

/-- **There is one row for each subterm of the terms that were built** as long as every node
lives. -/
theorem Kept.size_eq_card_built (hkept : m.Kept) (h : m.Coherent) :
    m.table.size = (Term.subtermsAll (m.built.map m.term)).card := by
  refine hkept.size_eq_card h (fun t ht => ?_) fun _ => hkept.term_mem_built
  obtain ⟨node, hnode, rfl⟩ := List.mem_map.1 ht
  exact ⟨node, (hkept.mem_built node).1 hnode, rfl⟩

end Memory

end StagedTT
