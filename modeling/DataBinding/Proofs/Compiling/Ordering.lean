import DataBinding.Proofs.Compiling.Sites
import DataBinding.Proofs.Document.Grafting
import Mathlib.Data.Fintype.EquivFin
import Mathlib.Data.List.Nodup
import Mathlib.Order.WellFounded

/-!
# Nodes in document order

`nodesBelow` lists the nodes below a node in document order, a node before
what is below it. Below a node that is the top of a tree (`TreeTop`) the
list has every node that there is, and each of them once: the nodes stand
for a forest, and the sites of the forest are the list
(`TreeTop.rooted`). So what is known of a forest by its sites is known of
the document by its nodes.
-/

namespace DataBinding.Document

open Relation (ReflTransGen TransGen)

variable {d : Document} {root n m p c c' : NodeId} {nodes order order' : List NodeId}
  {trees trees' : List Markup.Tree}

/-! ## The list -/

/-- A node and what is below it down to some level, in document order. -/
def nodesWithin (d : Document) : Nat → NodeId → List NodeId
  | 0, _ => []
  | levels + 1, n => n :: (d.node n).children.flatMap (d.nodesWithin levels)

/-- The nodes below a node, in document order. -/
def nodesBelow (d : Document) (root : NodeId) : List NodeId :=
  (d.node root).children.flatMap (d.nodesWithin d.nodes.length)

/-! ## The top of a tree -/

/-- A node, or one below it. -/
def AtOrBelow (d : Document) : NodeId → NodeId → Prop :=
  ReflTransGen fun p c => c ∈ (d.node p).children

theorem AtOrBelow.below (h : d.AtOrBelow c m) (hc : c ∈ (d.node p).children) : d.Below p m :=
  TransGen.head' hc h

/-- The node at the top of a tree: the two records of the tree agree, what
is below it never comes round to itself, and texts have nothing below. -/
structure TreeTop (d : Document) (root : NodeId) : Prop extends Paired d where
  there : root < d.nodes.length
  acyclic : ∀ n, d.AtOrBelow root n → ¬ d.Below n n
  leaf : ∀ n, d.Below root n → (d.node n).kind = .text → (d.node n).children = []

theorem IsForest.treeTop (h : d.IsForest) (hroot : root < d.nodes.length)
    (hleaf : ∀ n, d.Below root n → (d.node n).kind = .text → (d.node n).children = []) :
    d.TreeTop root where
  toPaired := h.toPaired
  there := hroot
  acyclic n _ := h.acyclic n
  leaf := hleaf

namespace TreeTop

theorem lt (h : d.TreeTop root) (hn : d.AtOrBelow root n) : n < d.nodes.length := by
  rcases ReflTransGen.cases_tail hn with rfl | ⟨p, -, hc⟩
  · exact h.there
  · exact h.toPaired.toLinked.lt hc

/-- What holds of a node when it holds of its children holds of all nodes. -/
theorem induction {P : NodeId → Prop} (h : d.TreeTop root)
    (hstep : ∀ n, d.AtOrBelow root n → (∀ c ∈ (d.node n).children, P c) → P n) (n : NodeId)
    (hn : d.AtOrBelow root n) : P n := by
  let Inside := { n // d.AtOrBelow root n }
  let below : Inside → Inside → Prop := fun c p => d.Below p c
  have : Finite Inside := Finite.of_injective
    (fun n : Inside => (⟨n, h.lt n.2⟩ : Fin d.nodes.length))
    fun _ _ heq => Subtype.ext (Fin.mk.inj heq)
  have : IsTrans Inside below := ⟨fun _ _ _ hab hbc => hbc.trans hab⟩
  have : Std.Irrefl below := ⟨fun n => h.acyclic n n.2⟩
  have hwf : WellFounded below := Finite.wellFounded_of_trans_of_irrefl below
  refine hwf.induction (C := fun n => P n) (⟨n, hn⟩ : Inside) fun n ih => ?_
  exact hstep n n.2 fun c hc => ih ⟨c, n.2.tail hc⟩ (.single hc)

/-- Nothing is below two children of one node. -/
theorem same_child (h : d.TreeTop root) (hp : d.AtOrBelow root p)
    (hc : c ∈ (d.node p).children) (hc' : c' ∈ (d.node p).children) (hm : d.AtOrBelow c m)
    (hm' : d.AtOrBelow c' m) : c = c' := by
  have hsame : ∀ {a b : NodeId}, a ∈ (d.node p).children → b ∈ (d.node p).children →
      d.AtOrBelow a b → a = b := by
    intro a b ha hb hab
    rcases ReflTransGen.cases_tail hab with rfl | ⟨q, haq, hq⟩
    · rfl
    · obtain rfl := h.single hb hq
      exact absurd (AtOrBelow.below haq ha) (h.acyclic p hp)
  have hup : Relator.RightUnique fun c p => c ∈ (d.node p).children :=
    fun _ _ _ hp hp' => h.single hp hp'
  rcases ReflTransGen.total_of_right_unique hup (Relation.reflTransGen_swap.2 hm)
    (Relation.reflTransGen_swap.2 hm') with hcc | hcc
  · exact (hsame hc' hc (Relation.reflTransGen_swap.1 hcc)).symm
  · exact hsame hc hc' (Relation.reflTransGen_swap.1 hcc)

end TreeTop

/-! ## The forest and its sites -/

/-- Some nodes stand for a forest, whose nodes in document order are a
list of everything at or below them. -/
structure Ordered (d : Document) (nodes : List NodeId) (trees : List Markup.Tree)
    (order : List NodeId) : Prop where
  length : order.length = Markup.Tree.countAll trees
  mem_iff : ∀ m, m ∈ order ↔ ∃ n ∈ nodes, d.AtOrBelow n m
  nodup : order.Nodup
  listed : ∀ levels, order.length ≤ levels → nodes.flatMap (d.nodesWithin levels) = order
  bears : ∀ {site : Nat → NodeId} {place : Nat},
    (List.range' place order.length).map site = order → d.BearAll site place nodes trees

namespace Ordered

theorem nil : d.Ordered [] [] [] where
  length := rfl
  mem_iff _ := by simp
  nodup := List.nodup_nil
  listed _ _ := rfl
  bears _ := rfl

/-- A node whose children are ordered stands for a tree. -/
theorem tree (htop : d.TreeTop root) (hc : d.Below root c) (hkind : (d.node c).kind ≠ .fragment)
    (h : d.Ordered (d.node c).children trees order) : ∃ tree, tree.count = order.length + 1 ∧
      ∀ {site : Nat → NodeId} {place : Nat},
        (List.range' place (order.length + 1)).map site = c :: order → d.Bears site place tree := by
  cases hshape : (d.node c).kind with
  | fragment => exact absurd hshape hkind
  | element tag =>
      refine ⟨.element tag (d.node c).attributes trees, ?_, fun {site place} hsites => ?_⟩
      · rw [h.length]
        exact Nat.add_comm ..
      · obtain ⟨rfl, hrest⟩ := List.cons.inj hsites
        exact ⟨hshape, rfl, h.bears hrest⟩
  | text =>
      have hempty : order = [] := List.eq_nil_iff_forall_not_mem.2 fun m hm => by
        obtain ⟨n, hn, -⟩ := (h.mem_iff m).1 hm
        rw [htop.leaf c hc hshape] at hn
        exact List.not_mem_nil hn
      subst hempty
      refine ⟨.text (d.node c).text, rfl, fun {site place} hsites => ?_⟩
      obtain ⟨rfl, -⟩ := List.cons.inj hsites
      exact ⟨hshape, rfl⟩

/-- One node more, in front. -/
theorem cons (htop : d.TreeTop root) (hc : d.Below root c) (hkind : (d.node c).kind ≠ .fragment)
    (h : d.Ordered (d.node c).children trees order) (h' : d.Ordered nodes trees' order')
    (hapart : ∀ m, d.AtOrBelow c m → m ∉ order') :
    ∃ tree, d.Ordered (c :: nodes) (tree :: trees') (c :: order ++ order') := by
  obtain ⟨tree, hcount, hbears⟩ := h.tree htop hc hkind
  have hin : ∀ m, m ∈ c :: order ↔ d.AtOrBelow c m := by
    intro m
    rw [List.mem_cons, h.mem_iff]
    refine ⟨?_, fun hm => ?_⟩
    · rintro (rfl | ⟨n, hn, hm⟩)
      · exact .refl
      · exact .head hn hm
    · rcases ReflTransGen.cases_head hm with rfl | ⟨n, hn, hm⟩
      · exact .inl rfl
      · exact .inr ⟨n, hn, hm⟩
  have hself : c ∉ order := by
    intro hmem
    obtain ⟨n, hn, hcn⟩ := (h.mem_iff c).1 hmem
    exact htop.acyclic c hc.to_reflTransGen (hcn.below hn)
  refine ⟨tree, ?_, fun m => ?_, ?_, fun levels hlevels => ?_, fun {site place} hsites => ?_⟩
  · rw [List.length_append, List.length_cons, h'.length, Markup.Tree.countAll, hcount]
  · rw [List.mem_append, hin, h'.mem_iff]
    simp
  · refine List.nodup_append'.2 ⟨List.nodup_cons.2 ⟨hself, h.nodup⟩, h'.nodup, fun m hm => ?_⟩
    exact hapart m ((hin m).1 hm)
  · rw [List.length_append, List.length_cons] at hlevels
    obtain ⟨lower, rfl⟩ : ∃ lower, levels = lower + 1 := ⟨levels - 1, by omega⟩
    rw [List.flatMap_cons, nodesWithin, h.listed lower (by omega),
      h'.listed (lower + 1) (by omega)]
  · rw [List.length_append, List.length_cons, ← List.range'_append_1, List.map_append] at hsites
    obtain ⟨hfirst, hrest⟩ := List.append_inj hsites (by simp)
    have hplace : site place = c := (List.cons.inj hfirst).1
    exact ⟨nodes, by rw [hplace], hbears hfirst, h'.bears (hcount ▸ hrest)⟩

end Ordered

namespace TreeTop

/-- Some children of a node are ordered if what is below each is. -/
theorem ordered_children (h : d.TreeTop root) (hp : d.AtOrBelow root p)
    (hbelow : ∀ c ∈ (d.node p).children, ∃ trees order, d.Ordered (d.node c).children trees order) :
    ∀ {nodes : List NodeId}, nodes.Nodup → nodes ⊆ (d.node p).children →
      ∃ trees order, d.Ordered nodes trees order
  | [], _, _ => ⟨[], [], .nil⟩
  | c :: nodes, hnodup, hnodes => by
      obtain ⟨hout, hnodup⟩ := List.nodup_cons.1 hnodup
      obtain ⟨hc, hrest⟩ := List.cons_subset.1 hnodes
      obtain ⟨trees, order, hfirst⟩ := hbelow c hc
      obtain ⟨trees', order', hothers⟩ := ordered_children h hp hbelow hnodup hrest
      obtain ⟨tree, hordered⟩ := hfirst.cons h (TransGen.tail' hp hc) (h.kind hc) hothers
        fun m hm hmem => by
          obtain ⟨c', hc', hm'⟩ := (hothers.mem_iff m).1 hmem
          exact hout (h.same_child hp hc (hrest hc') hm hm' ▸ hc')
      exact ⟨_, _, hordered⟩

/-- What is below the top of a tree is a forest. -/
theorem ordered (h : d.TreeTop root) :
    ∃ trees order, d.Ordered (d.node root).children trees order :=
  h.induction (P := fun p => ∃ trees order, d.Ordered (d.node p).children trees order)
    (fun p hp hbelow => h.ordered_children hp hbelow (h.nodup p) (List.Subset.refl _)) root .refl

/-- The forest stands on the nodes that are below the top of the tree, in
document order. -/
theorem rooted (h : d.TreeTop root) : ∃ site trees, d.Rooted site root trees ∧
    d.nodesBelow root = (List.range (Markup.Tree.countAll trees)).map site ∧
      ∀ m, m ∈ d.nodesBelow root ↔ d.Below root m := by
  obtain ⟨trees, order, hordered⟩ := h.ordered
  let site : Nat → NodeId := fun i => order.getD i root
  have hsites : (List.range order.length).map site = order :=
    List.ext_getElem (by simp) fun i hi hi' => by simp [site, hi']
  have hin : ∀ m, m ∈ order ↔ d.Below root m := by
    intro m
    rw [hordered.mem_iff]
    refine ⟨fun ⟨c, hc, hm⟩ => AtOrBelow.below hm hc, fun hm => ?_⟩
    obtain ⟨c, hc, hm⟩ := TransGen.head'_iff.1 hm
    exact ⟨c, hc, hm⟩
  have hsite : ∀ i < Markup.Tree.countAll trees, site i ∈ order := fun i hi =>
    hsites ▸ List.mem_map_of_mem (List.mem_range.2 (hordered.length ▸ hi))
  have hrooted : d.Rooted site root trees := {
    there := h.there
    bears := hordered.bears (by rw [← List.range_eq_range', hsites])
    distinct := fun i hi j hj heq => by
      have hnodup : ((List.range order.length).map site).Nodup := hsites.symm ▸ hordered.nodup
      rw [hordered.length] at hnodup
      exact List.inj_on_of_nodup_map hnodup (List.mem_range.2 hi) (List.mem_range.2 hj) heq
    below := fun i hi heq => h.acyclic root .refl ((hin root).1 (heq ▸ hsite i hi)) }
  have hlisted : d.nodesBelow root = order :=
    hordered.listed _ (hordered.length ▸ Nat.le_of_lt hrooted.count_lt)
  refine ⟨site, trees, hrooted, ?_, fun m => hlisted ▸ hin m⟩
  rw [hlisted, ← hordered.length, hsites]

theorem mem_nodesBelow (h : d.TreeTop root) : m ∈ d.nodesBelow root ↔ d.Below root m :=
  let ⟨_, _, _, _, hmem⟩ := h.rooted
  hmem m

end TreeTop

end DataBinding.Document
