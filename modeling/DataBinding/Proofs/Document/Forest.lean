import DataBinding.Proofs.Document.Content

/-!
# The forest that a document holds

`Holds` says which tree a node stands for, wherever the nodes of the tree
are. The depth to which a document is read is no restriction: on the way
down from a node every node stands for a smaller tree than the one before
it, so that no node is met twice, and there are no more levels than there
are nodes. What is planted is held, and what is held is what is written.
-/

namespace DataBinding.Document

variable {d d' : Document} {n : NodeId}

mutual

/-- A node stands for a tree. -/
def Holds (d : Document) (n : NodeId) : Markup.Tree → Prop
  | .element tag attributes children =>
    (d.node n).kind = .element tag ∧ (d.node n).attributes = attributes ∧
      d.HoldAll (d.node n).children children
  | .text content =>
    (d.node n).kind = .text ∧ (d.node n).children = [] ∧ (d.node n).text = content

/-- Some nodes stand for a forest. -/
def HoldAll (d : Document) (nodes : List NodeId) : List Markup.Tree → Prop
  | [] => nodes = []
  | tree :: trees => ∃ n rest, nodes = n :: rest ∧ d.Holds n tree ∧ d.HoldAll rest trees

end

/-! ## There is one such forest -/

mutual

theorem Holds.unique : ∀ {tree tree' : Markup.Tree} {n : NodeId},
    d.Holds n tree → d.Holds n tree' → tree = tree'
  | .element tag attributes children, .element tag' attributes' children', n, h, h' => by
      obtain ⟨hkind, hattributes, hchildren⟩ := h
      obtain ⟨hkind', hattributes', hchildren'⟩ := h'
      obtain rfl := NodeKind.element.inj (hkind.symm.trans hkind')
      obtain rfl := hattributes.symm.trans hattributes'
      rw [HoldAll.unique hchildren hchildren']
  | .element _ _ _, .text _, n, h, h' => NodeKind.noConfusion (h.1.symm.trans h'.1)
  | .text _, .element _ _ _, n, h, h' => NodeKind.noConfusion (h.1.symm.trans h'.1)
  | .text content, .text content', n, h, h' => congrArg _ (h.2.2.symm.trans h'.2.2)

theorem HoldAll.unique : ∀ {trees trees' : List Markup.Tree} {nodes : List NodeId},
    d.HoldAll nodes trees → d.HoldAll nodes trees' → trees = trees'
  | [], [], _, _, _ => rfl
  | [], tree' :: trees', nodes, h, h' => by
      obtain ⟨n, rest, hcons, -, -⟩ := h'
      exact absurd (h.symm.trans hcons) (List.cons_ne_nil n rest).symm
  | tree :: trees, [], nodes, h, h' => by
      obtain ⟨n, rest, hcons, -, -⟩ := h
      exact absurd (h'.symm.trans hcons) (List.cons_ne_nil n rest).symm
  | tree :: trees, tree' :: trees', nodes, h, h' => by
      obtain ⟨n, rest, rfl, hn, hrest⟩ := h
      obtain ⟨n', rest', hcons, hn', hrest'⟩ := h'
      obtain ⟨rfl, rfl⟩ := List.cons.inj hcons
      rw [Holds.unique hn hn', HoldAll.unique hrest hrest']

end

/-! ## Planted forests -/

mutual

theorem Stands.holds {lo n : NodeId} : ∀ {tree : Markup.Tree}, d.Stands lo n tree → d.Holds n tree
  | .element _ _ _, h => ⟨h.2.2.1, h.2.2.2.1, StandAll.holdAll h.2.2.2.2⟩
  | .text _, h => h.2.2

theorem StandAll.holdAll {lo : NodeId} {nodes : List NodeId} :
    ∀ {trees : List Markup.Tree}, d.StandAll lo nodes trees → d.HoldAll nodes trees
  | [], h => h
  | tree :: trees, h => by
      obtain ⟨n, rest, rfl, hn, hrest⟩ := h
      exact ⟨n, rest, rfl, Stands.holds hn, StandAll.holdAll hrest⟩

end

/-! ## Reading what is held -/

/-- A node that stands for a tree is in the document. -/
theorem Holds.lt {tree : Markup.Tree} (h : d.Holds n tree) : n < d.nodes.length := by
  refine Decidable.byContradiction fun hout => ?_
  have hkind : (d.node n).kind = .fragment := by
    simp [node, Node.new, List.getElem?_eq_none (Nat.le_of_not_lt hout)]
  cases tree with
  | element tag attributes children => exact NodeKind.noConfusion (hkind.symm.trans h.1)
  | text content => exact NodeKind.noConfusion (hkind.symm.trans h.1)

/-- The nodes above a tree on the way down to it: there is no repetition,
and each of them stands for a tree that is larger than it. -/
structure Above (d : Document) (above : List NodeId) (size : Nat) : Prop where
  nodup : above.Nodup
  larger : ∀ m ∈ above, ∃ tree, d.Holds m tree ∧ size < sizeOf tree

theorem Above.mono {above : List NodeId} {size size' : Nat} (h : d.Above above size)
    (hle : size' ≤ size) : d.Above above size' :=
  ⟨h.nodup, fun m hm => (h.larger m hm).imp fun _ ⟨hm, hlt⟩ => ⟨hm, Nat.lt_of_le_of_lt hle hlt⟩⟩

theorem Above.not_mem {above : List NodeId} {tree : Markup.Tree}
    (h : d.Above above (sizeOf tree)) (hn : d.Holds n tree) : n ∉ above := by
  intro hmem
  obtain ⟨tree', hn', hlt⟩ := h.larger n hmem
  rw [hn'.unique hn] at hlt
  exact Nat.lt_irrefl _ hlt

/-- One level down. -/
theorem Above.cons {above : List NodeId} {tree : Markup.Tree} {size : Nat}
    (h : d.Above above (sizeOf tree)) (hn : d.Holds n tree) (hlt : size < sizeOf tree) :
    d.Above (n :: above) size := by
  refine ⟨List.nodup_cons.2 ⟨h.not_mem hn, h.nodup⟩, fun m hm => ?_⟩
  rcases List.mem_cons.1 hm with rfl | hm
  · exact ⟨tree, hn, hlt⟩
  · exact (h.mono (Nat.le_of_lt hlt)).larger m hm

/-- There are fewer nodes above a tree than there are nodes. -/
theorem Above.length_lt {above : List NodeId} {tree : Markup.Tree}
    (h : d.Above above (sizeOf tree)) (hn : d.Holds n tree) : above.length < d.nodes.length := by
  have hnodup : (n :: above).Nodup := List.nodup_cons.2 ⟨h.not_mem hn, h.nodup⟩
  have hsubset : n :: above ⊆ List.range d.nodes.length := by
    intro m hm
    rw [List.mem_range]
    rcases List.mem_cons.1 hm with rfl | hm
    · exact hn.lt
    · obtain ⟨tree', hm', -⟩ := h.larger m hm
      exact hm'.lt
  have hle := hnodup.length_le_of_subset hsubset
  rwa [List.length_cons, List.length_range] at hle

mutual

/-- What a node stands for is read from as many levels as there are nodes
that are not above it. -/
theorem Holds.trees : ∀ {tree : Markup.Tree} {n : NodeId} {levels : Nat} {above : List NodeId},
    d.Holds n tree → d.Above above (sizeOf tree) → d.nodes.length ≤ levels + above.length →
      d.treesWithin levels n = [tree]
  | tree, n, 0, above, h, habove, hlevels =>
      absurd (habove.length_lt h) (Nat.not_lt.2 (by rwa [Nat.zero_add] at hlevels))
  | .element tag attributes children, n, levels + 1, above, h, habove, hlevels => by
      have hsize : sizeOf children < sizeOf (Markup.Tree.element tag attributes children) := by
        rw [Markup.Tree.element.sizeOf_spec]
        omega
      have hbelow : d.Above (n :: above) (sizeOf children) := habove.cons h hsize
      obtain ⟨hkind, hattributes, hchildren⟩ := h
      rw [treesWithin]
      simp only [hkind, hattributes]
      rw [HoldAll.trees hchildren hbelow (by rw [List.length_cons]; omega)]
  | .text content, n, levels + 1, above, h, habove, hlevels => by
      obtain ⟨hkind, hchildren, htext⟩ := h
      rw [treesWithin]
      simp only [hkind, htext]

theorem HoldAll.trees : ∀ {trees : List Markup.Tree} {nodes : List NodeId} {levels : Nat}
    {above : List NodeId}, d.HoldAll nodes trees → d.Above above (sizeOf trees) →
      d.nodes.length ≤ levels + above.length → nodes.flatMap (d.treesWithin levels) = trees
  | [], nodes, levels, above, h, habove, hlevels => by
      obtain rfl : nodes = [] := h
      rfl
  | tree :: trees, nodes, levels, above, h, habove, hlevels => by
      obtain ⟨n, rest, rfl, hn, hrest⟩ := h
      have hsize : sizeOf (tree :: trees) = 1 + sizeOf tree + sizeOf trees := by simp
      rw [List.flatMap_cons, Holds.trees hn (habove.mono (by omega)) hlevels,
        HoldAll.trees hrest (habove.mono (by omega)) hlevels]
      rfl

end

/-- Nothing is above the node that is read. -/
theorem above_nil (d : Document) (size : Nat) : d.Above [] size :=
  ⟨List.nodup_nil, fun _ hm => absurd hm List.not_mem_nil⟩

theorem HoldAll.flatMap_trees {trees : List Markup.Tree} {nodes : List NodeId}
    (h : d.HoldAll nodes trees) : nodes.flatMap d.trees = trees :=
  h.trees (above_nil d _) (Nat.le_refl _)

/-- The markup inside of a node is that of what it holds. -/
theorem HoldAll.innerMarkup {trees : List Markup.Tree} (h : d.HoldAll (d.node n).children trees) :
    d.innerMarkup n = String.ofList (Markup.renderAll trees) := by
  rw [Document.innerMarkup, h.flatMap_trees]

/-- The text of a node is that of the tree it stands for. -/
theorem Holds.textContent {tree : Markup.Tree} (h : d.Holds n tree) :
    d.textContent n = String.ofList tree.content := by
  rw [Document.textContent, Document.trees, h.trees (above_nil d _) (Nat.le_refl _)]
  simp only [Markup.contentAll, List.append_nil]

end DataBinding.Document
