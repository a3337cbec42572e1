import DataBinding.Proofs.Compiling.Outline
import DataBinding.Proofs.Document.Evolving
import DataBinding.Proofs.Document.Forest

/-!
# Where a tree stands that is compiled

`Bears` says which node of the document each node of a forest is: the
nodes are counted in document order, and `site` gives the node for each
count. The sites are `Distinct`, so that what is done to one node leaves
the trees at the others as they were (`Bears.frame`).

A compilation moves the children of its root into a fragment first and
back at the end; the nodes of the forest stay the same ones.
-/

namespace DataBinding.Document

variable {inner value : NodeId → Prop} {d d' : Document} {site : Nat → NodeId}

mutual

/-- The nodes from `site place` on are those of a tree. -/
def Bears (d : Document) (site : Nat → NodeId) (place : Nat) : Markup.Tree → Prop
  | .element tag attributes children =>
    (d.node (site place)).kind = .element tag ∧ (d.node (site place)).attributes = attributes ∧
      d.BearAll site (place + 1) (d.node (site place)).children children
  | .text content => (d.node (site place)).kind = .text ∧ (d.node (site place)).text = content

/-- Some nodes are the roots of a forest. -/
def BearAll (d : Document) (site : Nat → NodeId) (place : Nat) (nodes : List NodeId) :
    List Markup.Tree → Prop
  | [] => nodes = []
  | tree :: trees => ∃ rest, nodes = site place :: rest ∧ d.Bears site place tree ∧
      d.BearAll site (place + tree.count) rest trees

end

/-- No two of the first `total` sites are the same node. -/
def Distinct (site : Nat → NodeId) (total : Nat) : Prop :=
  ∀ i < total, ∀ j < total, site i = site j → i = j

/-- A node that is no fragment is in the document. -/
theorem lt_of_kind {n : NodeId} (h : (d.node n).kind ≠ .fragment) : n < d.nodes.length := by
  refine Nat.lt_of_not_le fun hle => h ?_
  simp [node, Node.new, List.getElem?_eq_none hle]

theorem Bears.kind {place : Nat} {tree : Markup.Tree} (h : d.Bears site place tree) :
    (d.node (site place)).kind ≠ .fragment := by
  cases tree with
  | element tag attributes children => exact fun heq => NodeKind.noConfusion (h.1.symm.trans heq)
  | text content => exact fun heq => NodeKind.noConfusion (h.1.symm.trans heq)

mutual

/-- A tree stays where none of its nodes has other content. -/
theorem Bears.frame : ∀ {tree : Markup.Tree} {place : Nat}, d.Bears site place tree →
    Alters inner value d d' → (∀ i, place ≤ i → i < place + tree.count → ¬ inner (site i)) →
    d'.Bears site place tree
  | .element tag attributes children, place, h, halters, hout => by
      have hlt := lt_of_kind h.kind
      obtain ⟨hkind, hattributes, hchildren⟩ := h
      have hcount : (Markup.Tree.element tag attributes children).count =
          1 + Markup.Tree.countAll children := rfl
      refine ⟨(halters.kind _ hlt).trans hkind, (halters.attributes _ hlt).trans hattributes, ?_⟩
      rw [halters.children _ hlt (hout place (Nat.le_refl _) (by omega))]
      exact BearAll.frame hchildren halters fun i hle hi => hout i (by omega) (by omega)
  | .text content, place, h, halters, hout => by
      have hlt := lt_of_kind h.kind
      refine ⟨(halters.kind _ hlt).trans h.1, ?_⟩
      rw [halters.text _ hlt (hout place (Nat.le_refl _) (Nat.lt_succ_self _))]
      exact h.2

theorem BearAll.frame : ∀ {trees : List Markup.Tree} {place : Nat} {nodes : List NodeId},
    d.BearAll site place nodes trees → Alters inner value d d' →
    (∀ i, place ≤ i → i < place + Markup.Tree.countAll trees → ¬ inner (site i)) →
    d'.BearAll site place nodes trees
  | [], _, _, h, _, _ => h
  | tree :: trees, place, nodes, h, halters, hout => by
      obtain ⟨rest, rfl, hfirst, hrest⟩ := h
      rw [Markup.Tree.countAll] at hout
      exact ⟨rest, rfl, Bears.frame hfirst halters fun i hle hi => hout i hle (by omega),
        BearAll.frame hrest halters fun i hle hi => hout i (by omega) (by omega)⟩

end

mutual

/-- The sites are nodes of the document. -/
theorem Bears.lt : ∀ {tree : Markup.Tree} {place : Nat}, d.Bears site place tree →
    ∀ i, place ≤ i → i < place + tree.count → site i < d.nodes.length
  | .element tag attributes children, place, h, i, hle, hi => by
      have hcount : (Markup.Tree.element tag attributes children).count =
          1 + Markup.Tree.countAll children := rfl
      by_cases hself : i = place
      · rw [hself]
        exact lt_of_kind h.kind
      · exact BearAll.lt h.2.2 i (by omega) (by omega)
  | .text content, place, h, i, hle, hi => by
      have hcount : (Markup.Tree.text content).count = 1 := rfl
      obtain rfl : i = place := by omega
      exact lt_of_kind h.kind

theorem BearAll.lt : ∀ {trees : List Markup.Tree} {place : Nat} {nodes : List NodeId},
    d.BearAll site place nodes trees →
    ∀ i, place ≤ i → i < place + Markup.Tree.countAll trees → site i < d.nodes.length
  | [], place, _, _, i, hle, hi => absurd hle (Nat.not_le.2 hi)
  | tree :: trees, place, nodes, h, i, hle, hi => by
      obtain ⟨rest, rfl, hfirst, hrest⟩ := h
      rw [Markup.Tree.countAll] at hi
      by_cases hsplit : i < place + tree.count
      · exact Bears.lt hfirst i hle hsplit
      · exact BearAll.lt hrest i (by omega) (by omega)

end

/-- The roots of a forest are sites of it. -/
theorem BearAll.mem : ∀ {trees : List Markup.Tree} {place : Nat} {nodes : List NodeId},
    d.BearAll site place nodes trees → ∀ n ∈ nodes,
      (d.node n).kind ≠ .fragment ∧
        ∃ i, place ≤ i ∧ i < place + Markup.Tree.countAll trees ∧ n = site i
  | [], _, _, h, n, hn => by
      rw [show _ = [] from h] at hn
      exact absurd hn List.not_mem_nil
  | tree :: trees, place, nodes, h, n, hn => by
      obtain ⟨rest, rfl, hfirst, hrest⟩ := h
      have hpos := tree.count_pos
      rw [Markup.Tree.countAll]
      rcases List.mem_cons.1 hn with rfl | hn
      · exact ⟨hfirst.kind, place, Nat.le_refl _, by omega, rfl⟩
      · obtain ⟨hkind, i, hle, hi, rfl⟩ := hrest.mem n hn
        exact ⟨hkind, i, by omega, by omega, rfl⟩

/-- They are different nodes. -/
theorem BearAll.nodup {total : Nat} (hdistinct : Distinct site total) :
    ∀ {trees : List Markup.Tree} {place : Nat} {nodes : List NodeId},
      d.BearAll site place nodes trees → place + Markup.Tree.countAll trees ≤ total → nodes.Nodup
  | [], _, _, h, _ => by
      rw [show _ = [] from h]
      exact List.nodup_nil
  | tree :: trees, place, nodes, h, htotal => by
      obtain ⟨rest, rfl, -, hrest⟩ := h
      have hpos := tree.count_pos
      rw [Markup.Tree.countAll] at htotal
      refine List.nodup_cons.2 ⟨fun hmem => ?_, hrest.nodup hdistinct (by omega)⟩
      obtain ⟨-, i, hle, hi, heq⟩ := hrest.mem _ hmem
      have hsame := hdistinct place (by omega) i (by omega) heq
      omega

/-! ## Into the fragment and back -/

/-- Appending nodes that are no fragments is placing them. -/
theorem foldl_append_eq {parent : NodeId} : ∀ {children : List NodeId} {d : Document},
    (∀ c ∈ children, (d.node c).kind ≠ .fragment ∧ (d.node c).parent = none) →
    children.Nodup → parent < d.nodes.length →
    children.foldl (·.append parent ·) d = children.foldl (·.place parent ·) d
  | [], _, _, _, _ => rfl
  | c :: children, d, hfree, hnodup, hparent => by
      obtain ⟨hout, hrest⟩ := List.nodup_cons.1 hnodup
      obtain ⟨hkind, hc⟩ := hfree c List.mem_cons_self
      have happend : d.append parent c = d.place parent c := by
        unfold append
        split
        · rename_i hfragment
          exact absurd hfragment hkind
        · rfl
      have halters := @Alters.place (fun _ => False) d parent c hc
      obtain ⟨-, -, hothers⟩ := node_place hc hparent
      rw [List.foldl_cons, List.foldl_cons, happend]
      refine foldl_append_eq (fun m hm => ?_) hrest (Nat.lt_of_lt_of_le hparent halters.length)
      obtain ⟨hmkind, hmfree⟩ := hfree m (List.mem_cons_of_mem _ hm)
      rw [halters.kind m (lt_of_kind hmkind), hothers m fun heq => hout (heq ▸ hm)]
      exact ⟨hmkind, hmfree⟩

theorem gathered_frame {root : NodeId} (hroot : root < d.nodes.length)
    (hkind : ∀ c ∈ (d.node root).children, (d.node c).kind ≠ .fragment)
    (hnodup : (d.node root).children.Nodup) :
    Alters (fun n => n = root ∨ n = d.nextNode) (fun _ => False) d (d.gathered root) ∧
      d.nextNode < (d.gathered root).nodes.length ∧
      ((d.gathered root).node d.nextNode).kind = .fragment ∧
      ((d.gathered root).node d.nextNode).children = (d.node root).children ∧
      ((d.gathered root).node root).children = [] := by
  let added := d.add (.new .fragment)
  let taken := added.takeChildren root
  have hnext : d.nextNode < added.nodes.length := by
    rw [length_add]
    exact Nat.lt_succ_self _
  have hold : added.node root = d.node root := node_add_of_lt d _ hroot
  have htaken : ∀ {value}, Alters (· = root) value added taken := Alters.takeChildren added root
  have hlength := (@htaken fun _ => False).length
  obtain ⟨hemptied, hfree⟩ := node_takeChildren (d := added) (Nat.lt_trans hroot hnext)
  rw [hold] at hfree
  have hkinds : ∀ c ∈ (d.node root).children,
      (taken.node c).kind ≠ .fragment ∧ (taken.node c).parent = none := by
    intro c hc
    have hlt := lt_of_kind (hkind c hc)
    rw [(@htaken fun _ => False).kind c (Nat.lt_trans hlt hnext), node_add_of_lt d _ hlt]
    exact ⟨hkind c hc, hfree c hc⟩
  have hparent : d.nextNode < taken.nodes.length := Nat.lt_of_lt_of_le hnext hlength
  have heq : d.gathered root = (d.node root).children.foldl (·.place d.nextNode ·) taken :=
    foldl_append_eq hkinds hnodup hparent
  obtain ⟨hplaced, hchildren⟩ :=
    @placeAll (fun _ => False) _ _ _ (fun c hc => (hkinds c hc).2) hnodup hparent
  have hne : ¬ d.nextNode = root := Nat.ne_of_gt hroot
  rw [heq]
  have hnew : (taken.node d.nextNode).kind = .fragment ∧ (taken.node d.nextNode).children = [] := by
    rw [(@htaken fun _ => False).kind _ hnext, (@htaken fun _ => False).children _ hnext hne,
      node_add_next]
    exact ⟨rfl, rfl⟩
  refine ⟨?_, Nat.lt_of_lt_of_le hparent hplaced.length, (hplaced.kind _ hparent).trans hnew.1, ?_,
    ?_⟩
  · have hfirst : Alters (fun n => n = root ∨ n = d.nextNode) (fun _ => False) d taken :=
      (Alters.add d _).trans (htaken.mono (fun _ _ h => .inl h) fun _ _ h => h)
    exact hfirst.trans (hplaced.mono (fun _ _ h => .inr h) fun _ _ h => h)
  · rw [hchildren, hnew.2, List.nil_append]
  · refine (hplaced.children root ?_ (Ne.symm hne)).trans hemptied
    exact Nat.lt_trans hroot hparent

theorem gathered_spec {root : NodeId} {trees : List Markup.Tree}
    (hbears : d.BearAll site 0 (d.node root).children trees)
    (hdistinct : Distinct site (Markup.Tree.countAll trees)) (hroot : root < d.nodes.length) :
    Alters (fun n => n = root ∨ n = d.nextNode) (fun _ => False) d (d.gathered root) ∧
      d.nextNode < (d.gathered root).nodes.length ∧
      ((d.gathered root).node d.nextNode).kind = .fragment ∧
      ((d.gathered root).node d.nextNode).children = (d.node root).children := by
  obtain ⟨halters, hlength, hkind, hchildren, -⟩ := gathered_frame hroot
    (fun c hc => (hbears.mem c hc).1) (hbears.nodup hdistinct (Nat.le_of_eq (Nat.zero_add _)))
  exact ⟨halters, hlength, hkind, hchildren⟩

/-- Appending a fragment moves its children. -/
theorem append_fragment_spec {root fragment : NodeId} (hroot : root < d.nodes.length)
    (hfragment : fragment < d.nodes.length) (hkind : (d.node fragment).kind = .fragment)
    (hnodup : (d.node fragment).children.Nodup) :
    Alters (fun n => n = root ∨ n = fragment) (fun _ => False) d (d.append root fragment) ∧
      (root ≠ fragment → ((d.append root fragment).node root).children =
        (d.node root).children ++ (d.node fragment).children) := by
  have happend : d.append root fragment =
      (d.node fragment).children.foldl (·.place root ·) (d.takeChildren fragment) := by
    simp only [append, hkind]
  obtain ⟨-, hfree⟩ := node_takeChildren hfragment
  have htaken : ∀ {value}, Alters (· = fragment) value d (d.takeChildren fragment) :=
    Alters.takeChildren d fragment
  obtain ⟨hplaced, hchildren⟩ := @placeAll (fun _ => False) _ _ _ hfree hnodup
    (Nat.lt_of_lt_of_le hroot (@htaken fun _ => False).length)
  rw [happend]
  refine ⟨(htaken.mono (fun _ _ h => .inr h) fun _ _ h => h).trans
    (hplaced.mono (fun _ _ h => .inl h) fun _ _ h => h), fun hne => ?_⟩
  rw [hchildren, (@htaken fun _ => False).children root hroot hne]

/-! ## Planting -/

mutual

/-- A planted tree stands on new nodes, in document order. -/
theorem plant_bears : ∀ (tree : Markup.Tree) {d : Document} {parent place base : Nat},
    parent < d.nodes.length → d.nodes.length = base + place →
    (plant parent tree d).Bears (base + ·) place tree ∧
      ((plant parent tree d).node parent).children = (d.node parent).children ++ [base + place] ∧
      (plant parent tree d).nodes.length = d.nodes.length + tree.count
  | .text content, d, parent, place, base, hparent, hbase => by
      have h : Grows parent { Node.new .text with text := content } d
          (plant parent (.text content) d) := grows rfl hparent
      have hsite : d.nextNode = base + place := hbase
      refine ⟨?_, hsite ▸ h.children, h.length⟩
      rw [Bears, ← hsite]
      exact ⟨h.newKind, h.newText⟩
  | .element tag attributes children, d, parent, place, base, hparent, hbase => by
      let grown := (d.add { Node.new (.element tag) with attributes }).place parent d.nextNode
      have h : Grows parent { Node.new (.element tag) with attributes } d grown :=
        grows rfl hparent
      have hsite : d.nextNode = base + place := hbase
      have hnew : d.nextNode < grown.nodes.length := h.length ▸ Nat.lt_succ_self _
      obtain ⟨-, halters, -, -, -⟩ := plantAll_spec children hnew
      have hlast := @halters fun _ => False
      obtain ⟨nodes, hbears, hchildren, hlength⟩ :=
        @plantAll_bears children grown d.nextNode (place + 1) base hnew
          (by rw [h.length, hbase]; rfl)
      rw [h.newChildren] at hchildren
      refine ⟨?_, ?_, ?_⟩
      · rw [Bears, ← hsite]
        refine ⟨(hlast.kind _ hnew).trans h.newKind,
          (hlast.attributes _ hnew).trans h.newAttributes, ?_⟩
        rw [plant, hchildren]
        exact hbears
      · have hparent' : parent < grown.nodes.length := Nat.lt_trans hparent hnew
        exact (hlast.children parent hparent' (Nat.ne_of_lt hparent)).trans (hsite ▸ h.children)
      · refine hlength.trans ?_
        rw [h.length, Markup.Tree.count, Nat.add_assoc]

/-- A planted forest. -/
theorem plantAll_bears : ∀ (trees : List Markup.Tree) {d : Document} {parent place base : Nat},
    parent < d.nodes.length → d.nodes.length = base + place → ∃ nodes,
    (plantAll parent trees d).BearAll (base + ·) place nodes trees ∧
      ((plantAll parent trees d).node parent).children = (d.node parent).children ++ nodes ∧
      (plantAll parent trees d).nodes.length = d.nodes.length + Markup.Tree.countAll trees
  | [], d, parent, place, base, hparent, hbase => ⟨[], rfl, (List.append_nil _).symm, rfl⟩
  | tree :: trees, d, parent, place, base, hparent, hbase => by
      obtain ⟨hfirst, hchildren, hlength⟩ := plant_bears tree hparent hbase
      have hparent' : parent < (plant parent tree d).nodes.length := by omega
      obtain ⟨-, halters, -, -, -⟩ := plantAll_spec trees hparent'
      obtain ⟨nodes, hrest, hchildren', hlength'⟩ :=
        @plantAll_bears trees (plant parent tree d) parent (place + tree.count) base hparent'
          (by omega)
      refine ⟨(base + place) :: nodes, ⟨nodes, rfl, ?_, hrest⟩, ?_, ?_⟩
      · exact hfirst.frame (@halters fun _ => False)
          fun i hi _ (heq : base + i = parent) => by omega
      · rw [plantAll, hchildren', hchildren, List.append_assoc, List.singleton_append]
      · rw [plantAll, hlength', hlength, Markup.Tree.countAll, Nat.add_assoc]

end

/-! ## Reading a forest where it stands -/

mutual

/-- A tree is read from as many levels as it has nodes. -/
theorem Bears.trees : ∀ {tree : Markup.Tree} {place levels : Nat}, d.Bears site place tree →
    tree.count ≤ levels → d.treesWithin levels (site place) = [tree]
  | tree, place, 0, _, hlevels => absurd tree.count_pos (Nat.not_lt.2 hlevels)
  | .element tag attributes children, place, levels + 1, h, hlevels => by
      have hcount : (Markup.Tree.element tag attributes children).count =
          1 + Markup.Tree.countAll children := rfl
      obtain ⟨hkind, hattributes, hchildren⟩ := h
      rw [treesWithin]
      simp only [hkind, hattributes]
      rw [BearAll.trees hchildren (by omega)]
  | .text content, place, levels + 1, h, hlevels => by
      obtain ⟨hkind, htext⟩ := h
      rw [treesWithin]
      simp only [hkind, htext]

theorem BearAll.trees : ∀ {trees : List Markup.Tree} {place levels : Nat} {nodes : List NodeId},
    d.BearAll site place nodes trees → Markup.Tree.countAll trees ≤ levels →
      nodes.flatMap (d.treesWithin levels) = trees
  | [], place, levels, nodes, h, hlevels => by
      obtain rfl : nodes = [] := h
      rfl
  | tree :: trees, place, levels, nodes, h, hlevels => by
      obtain ⟨rest, rfl, hfirst, hrest⟩ := h
      rw [Markup.Tree.countAll] at hlevels
      rw [List.flatMap_cons, Bears.trees hfirst (by omega), BearAll.trees hrest (by omega)]
      rfl

end

/-- A forest stands below a node, apart from it. -/
structure Rooted (d : Document) (site : Nat → NodeId) (root : NodeId)
    (trees : List Markup.Tree) : Prop where
  there : root < d.nodes.length
  bears : d.BearAll site 0 (d.node root).children trees
  distinct : Distinct site (Markup.Tree.countAll trees)
  below : ∀ i < Markup.Tree.countAll trees, site i ≠ root

namespace Rooted

variable {root : NodeId} {trees : List Markup.Tree}

theorem site_lt (h : d.Rooted site root trees) {i : Nat} (hi : i < Markup.Tree.countAll trees) :
    site i < d.nodes.length :=
  h.bears.lt i (Nat.zero_le _) (by rwa [Nat.zero_add])

theorem nodup (h : d.Rooted site root trees) : (d.node root).children.Nodup :=
  h.bears.nodup h.distinct (Nat.le_of_eq (Nat.zero_add _))

/-- The forest is where it was when the children are in a fragment. -/
theorem gathered (h : d.Rooted site root trees) :
    (d.gathered root).BearAll site 0 ((d.gathered root).node d.nextNode).children trees := by
  obtain ⟨halters, -, -, hchildren, -⟩ :=
    gathered_frame h.there (fun c hc => (h.bears.mem c hc).1) h.nodup
  rw [hchildren]
  refine h.bears.frame halters fun i _ hi hor => ?_
  rw [Nat.zero_add] at hi
  exact hor.elim (h.below i hi) (Nat.ne_of_lt (h.site_lt hi))

/-- There are fewer nodes in the forest than in the document. -/
theorem count_lt (h : d.Rooted site root trees) :
    Markup.Tree.countAll trees < d.nodes.length := by
  let nodes := root :: (List.range (Markup.Tree.countAll trees)).map site
  have hnodup : nodes.Nodup := by
    refine List.nodup_cons.2 ⟨fun hmem => ?_, List.pairwise_map.2 (List.nodup_range.imp_of_mem
      fun {i j} hi hj hne heq => hne ?_)⟩
    · obtain ⟨i, hi, heq⟩ := List.mem_map.1 hmem
      exact h.below i (List.mem_range.1 hi) heq
    · exact h.distinct i (List.mem_range.1 hi) j (List.mem_range.1 hj) heq
  have hsubset : nodes ⊆ List.range d.nodes.length := by
    intro n hn
    rw [List.mem_range]
    rcases List.mem_cons.1 hn with rfl | hn
    · exact h.there
    · obtain ⟨i, hi, rfl⟩ := List.mem_map.1 hn
      exact h.site_lt (List.mem_range.1 hi)
  have hle := hnodup.length_le_of_subset hsubset
  rwa [List.length_cons, List.length_map, List.length_range, List.length_range] at hle

/-- Two documents with one forest below a node have the same markup there. -/
theorem outerMarkup_eq (h : d.Rooted site root trees) (h' : d'.Rooted site root trees)
    (hkind : (d'.node root).kind = (d.node root).kind)
    (hattributes : (d'.node root).attributes = (d.node root).attributes)
    (hroot : (d.node root).kind ≠ .text) : d'.outerMarkup root = d.outerMarkup root := by
  obtain ⟨levels, hlevels⟩ := Nat.exists_eq_add_one_of_ne_zero (Nat.ne_zero_of_lt h.there)
  obtain ⟨levels', hlevels'⟩ := Nat.exists_eq_add_one_of_ne_zero (Nat.ne_zero_of_lt h'.there)
  have hread := h.bears.trees (Nat.le_of_lt_succ (hlevels ▸ h.count_lt))
  have hread' := h'.bears.trees (Nat.le_of_lt_succ (hlevels' ▸ h'.count_lt))
  rw [outerMarkup, outerMarkup, Document.trees, Document.trees, hlevels, hlevels', treesWithin,
    treesWithin]
  simp only [hread, hread', hkind, hattributes]
  cases hsame : (d.node root).kind with
  | element tag => rfl
  | text => exact absurd hsame hroot
  | fragment => rfl

end Rooted

/-- A forest stands below the fragment that it was planted in. -/
theorem rooted_planted (trees : List Markup.Tree) :
    (plantAll 0 trees (empty.add (.new .fragment))).Rooted (1 + ·) 0 trees := by
  obtain ⟨nodes, hbears, hchildren, hlength⟩ :=
    @plantAll_bears trees (empty.add (.new .fragment)) 0 0 1 Nat.zero_lt_one rfl
  have hnodes : ((plantAll 0 trees (empty.add (.new .fragment))).node 0).children = nodes :=
    hchildren
  exact {
    there := hlength ▸ Nat.add_pos_left Nat.zero_lt_one _
    bears := hnodes.symm ▸ hbears
    distinct := fun _ _ _ _ heq => Nat.add_left_cancel heq
    below := fun i _ => Nat.ne_of_gt (Nat.add_pos_left Nat.zero_lt_one i)
  }

end DataBinding.Document
