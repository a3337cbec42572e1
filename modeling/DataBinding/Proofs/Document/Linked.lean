import DataBinding.Proofs.Document.Content

/-!
# Parents and children agree

The tree is kept twice, as parents and as children. `Linked` says that
the two records agree: a child is an element or a text, stands once among
the children of one node, and has that node for its parent. Every
operation keeps it, whatever nodes it is about; most operations are about
the tree alone and leave kinds, attributes and listeners as they are
(`Reshapes`).
-/

namespace DataBinding.Document

variable {d d' d'' : Document} {n parent child : NodeId}

/-! ## Nodes after a change -/

theorem node_modify_ite (d : Document) (id m : NodeId) (change : Node → Node) :
    (d.modify id change).node m =
      if m = id ∧ m < d.nodes.length then change (d.node m) else d.node m := by
  by_cases hself : m = id
  · subst hself
    by_cases hm : m < d.nodes.length
    · rw [node_modify_self hm, if_pos ⟨rfl, hm⟩]
    · rw [if_neg fun h => hm h.2]
      simp [node, modify, List.getD_eq_getElem?_getD, hm]
  · rw [node_modify_of_ne hself, if_neg fun h => hself h.1]

theorem node_add_ite (d : Document) (node : Node) (m : NodeId) :
    (d.add node).node m = if m = d.nextNode then node else d.node m := by
  by_cases hself : m = d.nextNode
  · rw [if_pos hself, hself, node_add_next]
  · rw [if_neg hself]
    rcases Nat.lt_or_gt_of_ne hself with hlt | hgt
    · exact node_add_of_lt d node hlt
    · have hlength : (d.add node).nodes.length ≤ m := by
        rw [length_add]
        exact hgt
      rw [Document.node, Document.node, List.getD_eq_getElem?_getD, List.getD_eq_getElem?_getD,
        List.getElem?_eq_none hlength, List.getElem?_eq_none (Nat.le_of_lt hgt)]

/-- A field that a change leaves alone. -/
theorem field_modify {β : Type} (d : Document) (id m : NodeId) {change : Node → Node}
    (field : Node → β) (h : ∀ n, field (change n) = field n) :
    field ((d.modify id change).node m) = field (d.node m) := by
  rw [node_modify_ite]
  split
  · exact h _
  · rfl

/-- Whoever is not among the nodes whose parents are taken away keeps its
own. -/
theorem parent_releaseAll {nodes : List NodeId} (h : n ∉ nodes) (d : Document) :
    ((nodes.foldl (fun d child => d.modify child fun n => { n with parent := none }) d).node
      n).parent = (d.node n).parent := by
  induction nodes generalizing d with
  | nil => rfl
  | cons first nodes ih =>
      rw [List.mem_cons, not_or] at h
      rw [List.foldl_cons, ih h.2, node_modify_of_ne h.1]

theorem node_of_le (h : d.nodes.length ≤ n) : d.node n = .new .fragment := by
  simp [node, List.getElem?_eq_none h]

/-- A node that is no fragment is in the document. -/
theorem lt_of_no_fragment (h : (d.node n).kind ≠ .fragment) : n < d.nodes.length :=
  Nat.lt_of_not_le fun hle => h (congrArg Node.kind (node_of_le hle))

/-- Markup that parses replaces the children by its forest. -/
theorem eq_replace_of_setMarkup {markup : String} (h : d.setMarkup n markup = .ok d') :
    ∃ trees, d' = d.replace n trees := by
  unfold setMarkup at h
  cases hparse : Markup.parse markup with
  | error e =>
      rw [hparse] at h
      cases h
  | ok trees =>
      rw [hparse] at h
      exact ⟨trees, (Except.ok.inj h).symm⟩

/-- Markup that parses is planted under a new fragment. -/
theorem eq_planted_of_parse {markup : String} (h : d.parse markup = .ok d') :
    ∃ trees, d' = plantAll d.nextNode trees (d.add (.new .fragment)) := by
  unfold parse at h
  cases hparse : Markup.parse markup with
  | error e =>
      rw [hparse] at h
      cases h
  | ok trees =>
      rw [hparse] at h
      exact ⟨trees, (Except.ok.inj h).symm⟩

/-! ## Changes of the tree alone -/

/-- Nodes keep their kinds, attributes and listeners. -/
structure Reshapes (d d' : Document) : Prop where
  length : d.nodes.length ≤ d'.nodes.length
  nextListener : d'.nextListener = d.nextListener
  kind : ∀ n < d.nodes.length, (d'.node n).kind = (d.node n).kind
  attributes : ∀ n < d.nodes.length, (d'.node n).attributes = (d.node n).attributes
  listeners : ∀ n, (d'.node n).listeners = (d.node n).listeners

namespace Reshapes

theorem refl (d : Document) : Reshapes d d :=
  ⟨Nat.le_refl _, rfl, fun _ _ => rfl, fun _ _ => rfl, fun _ => rfl⟩

theorem trans (h : Reshapes d d') (h' : Reshapes d' d'') : Reshapes d d'' where
  length := Nat.le_trans h.length h'.length
  nextListener := h'.nextListener.trans h.nextListener
  kind n hn := (h'.kind n (Nat.lt_of_lt_of_le hn h.length)).trans (h.kind n hn)
  attributes n hn := (h'.attributes n (Nat.lt_of_lt_of_le hn h.length)).trans (h.attributes n hn)
  listeners n := (h'.listeners n).trans (h.listeners n)

theorem modify (d : Document) (id : NodeId) {change : Node → Node}
    (hkind : ∀ n, (change n).kind = n.kind)
    (hattributes : ∀ n, (change n).attributes = n.attributes)
    (hlisteners : ∀ n, (change n).listeners = n.listeners) : Reshapes d (d.modify id change) where
  length := Nat.le_of_eq (length_modify ..).symm
  nextListener := rfl
  kind n _ := field_modify d id n Node.kind hkind
  attributes n _ := field_modify d id n Node.attributes hattributes
  listeners n := field_modify d id n Node.listeners hlisteners

theorem add (d : Document) {node : Node} (h : node.listeners = []) : Reshapes d (d.add node) where
  length := by
    rw [length_add]
    exact Nat.le_succ _
  nextListener := rfl
  kind n hn := by rw [node_add_of_lt d node hn]
  attributes n hn := by rw [node_add_of_lt d node hn]
  listeners n := by
    rw [node_add_ite]
    split
    · rename_i hn
      rw [h, node_of_le (Nat.le_of_eq hn.symm)]
      rfl
    · rfl

/-- Something is done for each of several nodes. -/
theorem foldl {op : Document → NodeId → Document} (h : ∀ d m, Reshapes d (op d m))
    (nodes : List NodeId) (d : Document) : Reshapes d (nodes.foldl op d) := by
  induction nodes generalizing d with
  | nil => exact refl d
  | cons m nodes ih => exact (h d m).trans (ih _)

theorem reparent (d : Document) (n : NodeId) (place : Option NodeId) :
    Reshapes d (d.modify n fun m => { m with parent := place }) :=
  modify d n (fun _ => rfl) (fun _ => rfl) fun _ => rfl

theorem regroup (d : Document) (n : NodeId) (group : List NodeId → List NodeId) :
    Reshapes d (d.modify n fun m => { m with children := group m.children }) :=
  modify d n (fun _ => rfl) (fun _ => rfl) fun _ => rfl

theorem detach (d : Document) (parent child : NodeId) : Reshapes d (d.detach parent child) :=
  (regroup d parent (·.erase child)).trans (reparent _ child none)

theorem remove (d : Document) (parent child : NodeId) : Reshapes d (d.remove parent child).1 := by
  unfold Document.remove
  split
  · exact detach d parent child
  · exact refl d

theorem takeChildren (d : Document) (n : NodeId) : Reshapes d (d.takeChildren n) :=
  (regroup d n fun _ => []).trans (foldl (fun d m => reparent d m none) _ _)

/-- Putting a node under another one. -/
theorem attach (d : Document) (parent child : NodeId) :
    Reshapes d ((d.modify child fun n => { n with parent := some parent }).modify parent
      fun n => { n with children := n.children ++ [child] }) :=
  (reparent d child (some parent)).trans (regroup _ parent (· ++ [child]))

theorem place (d : Document) (parent child : NodeId) : Reshapes d (d.place parent child) := by
  unfold Document.place
  split
  · rename_i former _
    exact (remove d former child).trans (attach _ parent child)
  · exact attach d parent child

theorem append (d : Document) (parent child : NodeId) : Reshapes d (d.append parent child) := by
  unfold Document.append
  split
  · exact (takeChildren d child).trans (foldl (fun d m => place d parent m) _ _)
  · exact place d parent child

theorem addText (d : Document) (parent : NodeId) (content : String) :
    Reshapes d (d.addText parent content) :=
  (add d rfl).trans (place _ parent _)

theorem setText (d : Document) (n : NodeId) (content : String) :
    Reshapes d (d.setText n content) := by
  unfold Document.setText
  split
  · exact modify d n (fun _ => rfl) (fun _ => rfl) fun _ => rfl
  · split
    · exact takeChildren d n
    · exact (takeChildren d n).trans (addText _ n content)

theorem setValue (d : Document) (n : NodeId) (content : String) :
    Reshapes d (d.setValue n content) :=
  modify d n (fun _ => rfl) (fun _ => rfl) fun _ => rfl

mutual

theorem plant : ∀ (tree : Markup.Tree) (parent : NodeId) (d : Document),
    Reshapes d (Document.plant parent tree d)
  | .element _ _ children, parent, d =>
      ((add d rfl).trans (place _ parent _)).trans (plantAll children _ _)
  | .text content, parent, d => addText d parent content

theorem plantAll : ∀ (trees : List Markup.Tree) (parent : NodeId) (d : Document),
    Reshapes d (Document.plantAll parent trees d)
  | [], _, d => refl d
  | tree :: trees, parent, d => (plant tree parent d).trans (plantAll trees parent _)

end

theorem setMarkup {markup : String} (h : d.setMarkup n markup = .ok d') : Reshapes d d' := by
  obtain ⟨trees, rfl⟩ := eq_replace_of_setMarkup h
  exact (takeChildren d n).trans (plantAll trees n _)

theorem showMarkup (d : Document) (n : NodeId) (markup : String) :
    Reshapes d (d.showMarkup n markup) := by
  unfold Document.showMarkup
  split
  · rename_i hmarkup
    exact setMarkup hmarkup
  · exact setText d n markup

end Reshapes

/-- The fragment is in the document. -/
theorem lt_of_parse {markup : String} (h : d.parse markup = .ok d') :
    d.nextNode < d'.nodes.length := by
  obtain ⟨trees, rfl⟩ := eq_planted_of_parse h
  refine Nat.lt_of_lt_of_le ?_ (Reshapes.plantAll trees _ _).length
  rw [length_add]
  exact Nat.lt_succ_self _

/-- Going down comes to a child, if not to where it began. -/
theorem child_of_descend? {indices : List Nat} :
    ∀ {n m : NodeId}, d.descend? n indices = some m → m = n ∨ ∃ p, m ∈ (d.node p).children := by
  induction indices with
  | nil => exact fun h => .inl (Option.some.inj h).symm
  | cons index indices ih =>
      intro n m h
      obtain ⟨c, hc, hm⟩ := Option.bind_eq_some_iff.1 h
      rcases ih hm with rfl | hchild
      · exact .inr ⟨n, List.mem_of_getElem? hc⟩
      · exact .inr hchild

/-! ## Parents and children -/

/-- A child stands once among the children of one node, which is its
parent, and is no fragment. -/
structure Linked (d : Document) : Prop where
  nodup : ∀ p, (d.node p).children.Nodup
  kind : ∀ {p c}, c ∈ (d.node p).children → (d.node c).kind ≠ .fragment
  parent : ∀ {p c}, c ∈ (d.node p).children → (d.node c).parent = some p

namespace Linked

theorem empty : Linked .empty :=
  ⟨fun _ => List.nodup_nil, fun h => absurd h List.not_mem_nil,
    fun h => absurd h List.not_mem_nil⟩

/-- Children are nodes of the document. -/
theorem lt (h : d.Linked) (hchild : child ∈ (d.node parent).children) : child < d.nodes.length :=
  lt_of_no_fragment (h.kind hchild)

/-- Children may go, and the others stay where they are. -/
theorem mono (h : d.Linked) (hd : d.Reshapes d')
    (hchildren : ∀ p, ((d'.node p).children).Sublist (d.node p).children)
    (hparent : ∀ p c, c ∈ (d'.node p).children → (d'.node c).parent = (d.node c).parent) :
    d'.Linked where
  nodup p := (h.nodup p).sublist (hchildren p)
  kind {p c} hc := by
    have hold := (hchildren p).subset hc
    rw [hd.kind c (h.lt hold)]
    exact h.kind hold
  parent {p c} hc := (hparent p c hc).trans (h.parent ((hchildren p).subset hc))

/-- A change that is not about the tree. -/
theorem modify (h : d.Linked) (id : NodeId) {change : Node → Node}
    (hkind : ∀ n, (change n).kind = n.kind) (hparent : ∀ n, (change n).parent = n.parent)
    (hchildren : ∀ n, (change n).children = n.children) : (d.modify id change).Linked where
  nodup p := by
    rw [field_modify d id p Node.children hchildren]
    exact h.nodup p
  kind {p c} hc := by
    rw [field_modify d id p Node.children hchildren] at hc
    rw [field_modify d id c Node.kind hkind]
    exact h.kind hc
  parent {p c} hc := by
    rw [field_modify d id p Node.children hchildren] at hc
    rw [field_modify d id c Node.parent hparent]
    exact h.parent hc

theorem add (h : d.Linked) {node : Node} (hnode : node.children = []) : (d.add node).Linked := by
  have hchildren : ∀ p, ((d.add node).node p).children = (d.node p).children := by
    intro p
    rw [node_add_ite]
    split
    · rename_i hp
      rw [hnode, node_of_le (Nat.le_of_eq hp.symm)]
      rfl
    · rfl
  refine ⟨fun p => ?_, fun {p c} hc => ?_, fun {p c} hc => ?_⟩
  all_goals rw [hchildren p] at *
  · exact h.nodup p
  · rw [node_add_of_lt d node (h.lt hc)]
    exact h.kind hc
  · rw [node_add_of_lt d node (h.lt hc)]
    exact h.parent hc

/-- A node that is nobody's child is put under another one. -/
theorem attach (h : d.Linked) (parent : NodeId) (hkind : (d.node child).kind ≠ .fragment)
    (hout : ∀ p, child ∉ (d.node p).children) :
    ((d.modify child fun n => { n with parent := some parent }).modify parent
      fun n => { n with children := n.children ++ [child] }).Linked := by
  let moved := d.modify child fun n => { n with parent := some parent }
  have hmoved : ∀ p, (moved.node p).children = (d.node p).children := fun p =>
    field_modify d child p Node.children fun _ => rfl
  let last := moved.modify parent fun n => { n with children := n.children ++ [child] }
  have hchildren : ∀ p, (last.node p).children = (d.node p).children ∨
      p = parent ∧ (last.node p).children = (d.node p).children ++ [child] := by
    intro p
    simp only [last, node_modify_ite]
    split
    · rename_i hp
      exact .inr ⟨hp.1, congrArg (· ++ [child]) (hmoved p)⟩
    · exact .inl (hmoved p)
  have hreshapes : d.Reshapes last := .attach d parent child
  have hmem : ∀ {p c}, c ∈ (last.node p).children →
      c ∈ (d.node p).children ∨ p = parent ∧ c = child := by
    intro p c hc
    rcases hchildren p with hsame | ⟨hp, hmore⟩
    · exact .inl (hsame ▸ hc)
    · rw [hmore, List.mem_append, List.mem_singleton] at hc
      exact hc.imp_right fun h => ⟨hp, h⟩
  have hparents : ∀ m, (last.node m).parent = (moved.node m).parent := fun m =>
    field_modify moved parent m Node.parent fun _ => rfl
  refine ⟨fun p => ?_, fun {p c} hc => ?_, fun {p c} hc => ?_⟩
  · show (last.node p).children.Nodup
    rcases hchildren p with hsame | ⟨-, hmore⟩
    · rw [hsame]
      exact h.nodup p
    · rw [hmore, List.nodup_append]
      refine ⟨h.nodup p, List.nodup_cons.2 ⟨List.not_mem_nil, List.nodup_nil⟩,
        fun a ha b hb heq => hout p ?_⟩
      rwa [← List.mem_singleton.1 hb, ← heq]
  · rcases hmem hc with hold | ⟨-, rfl⟩
    · exact (hreshapes.kind c (h.lt hold)).symm ▸ h.kind hold
    · exact (hreshapes.kind c (lt_of_no_fragment hkind)).symm ▸ hkind
  · refine (hparents c).trans ?_
    rcases hmem hc with hold | ⟨rfl, rfl⟩
    · have hne : c ≠ child := fun heq => hout p (heq ▸ hold)
      rw [node_modify_of_ne hne]
      exact h.parent hold
    · rw [node_modify_self (lt_of_no_fragment hkind)]

/-- A node that is taken out of the children of another one. -/
theorem detach (h : d.Linked) (hchild : child ∈ (d.node parent).children) :
    (d.detach parent child).Linked ∧ ∀ p, child ∉ ((d.detach parent child).node p).children := by
  let fewer := d.modify parent fun n => { n with children := n.children.erase child }
  have hchildren : ∀ p, ((d.detach parent child).node p).children = (fewer.node p).children :=
    fun p => field_modify fewer child p Node.children fun _ => rfl
  have hfewer : ∀ p, (fewer.node p).children =
      if p = parent ∧ p < d.nodes.length then (d.node p).children.erase child
      else (d.node p).children := by
    intro p
    simp only [fewer, node_modify_ite]
    split
    · rfl
    · rfl
  have hout : ∀ p, child ∉ ((d.detach parent child).node p).children := by
    intro p hmem
    rw [hchildren, hfewer] at hmem
    split at hmem
    · exact (h.nodup p).not_mem_erase hmem
    · rename_i hp
      obtain rfl := Option.some.inj ((h.parent hmem).symm.trans (h.parent hchild))
      refine hp ⟨rfl, Nat.lt_of_not_le fun hle => ?_⟩
      rw [node_of_le hle] at hmem
      exact List.not_mem_nil hmem
  refine ⟨h.mono (.detach d parent child) (fun p => ?_) fun p c hc => ?_, hout⟩
  · rw [hchildren, hfewer]
    split
    · exact List.erase_sublist
    · exact List.Sublist.refl _
  · have hne : c ≠ child := fun heq => hout p (heq ▸ hc)
    exact (congrArg Node.parent (node_modify_of_ne hne fewer _)).trans
      (field_modify d parent c Node.parent fun _ => rfl)

theorem remove (h : d.Linked) (parent child : NodeId) : (d.remove parent child).1.Linked := by
  unfold Document.remove
  split
  · rename_i hchild
    exact (h.detach hchild).1
  · exact h

/-- The children of a node that lose it for their parent. -/
theorem takeChildren (h : d.Linked) (n : NodeId) : (d.takeChildren n).Linked := by
  let emptied := d.modify n fun n => { n with children := [] }
  obtain ⟨-, hkept, -⟩ :=
    @releaseAll (fun _ => False) (fun _ => False) (d.node n).children emptied
  have hchildren : ∀ p, ((d.takeChildren n).node p).children = (emptied.node p).children := hkept
  have hemptied : ∀ p, (emptied.node p).children =
      if p = n ∧ p < d.nodes.length then [] else (d.node p).children := by
    intro p
    simp only [emptied, node_modify_ite]
    split
    · rfl
    · rfl
  refine h.mono (.takeChildren d n) (fun p => ?_) fun p c hc => ?_
  · rw [hchildren, hemptied]
    split
    · exact List.nil_sublist _
    · exact List.Sublist.refl _
  · rw [hchildren, hemptied] at hc
    split at hc
    · exact absurd hc List.not_mem_nil
    · rename_i hp
      have hout : c ∉ (d.node n).children := fun hmem => by
        obtain rfl := Option.some.inj ((h.parent hc).symm.trans (h.parent hmem))
        refine hp ⟨rfl, Nat.lt_of_not_le fun hle => ?_⟩
        rw [node_of_le hle] at hmem
        exact List.not_mem_nil hmem
      exact (parent_releaseAll hout emptied).trans (field_modify d n c Node.parent fun _ => rfl)

theorem place (h : d.Linked) (parent : NodeId) (hkind : (d.node child).kind ≠ .fragment) :
    (d.place parent child).Linked := by
  -- whoever has the node among its children is its parent
  have howner : ∀ {p}, child ∈ (d.node p).children → (d.node child).parent = some p := h.parent
  unfold Document.place
  split
  · rename_i former hformer
    by_cases hchild : child ∈ (d.node former).children
    · obtain ⟨hlinked, hout⟩ := h.detach hchild
      have hkind' := (Reshapes.detach d former child).kind child (lt_of_no_fragment hkind)
      rw [Document.remove, if_pos hchild]
      exact hlinked.attach parent (hkind'.symm ▸ hkind) hout
    · rw [Document.remove, if_neg hchild]
      refine h.attach parent hkind fun p hp => hchild ?_
      obtain rfl := Option.some.inj (hformer.symm.trans (howner hp))
      exact hp
  · rename_i hfree
    refine h.attach parent hkind fun p hp => ?_
    rw [howner hp] at hfree
    cases hfree

theorem placeAll (parent : NodeId) : ∀ {children : List NodeId} {d : Document}, d.Linked →
    (∀ c ∈ children, (d.node c).kind ≠ .fragment) → (children.foldl (·.place parent ·) d).Linked
  | [], _, h, _ => h
  | c :: children, d, h, hkinds => by
      rw [List.foldl_cons]
      refine placeAll parent (h.place parent (hkinds c List.mem_cons_self)) fun m hm => ?_
      have hkind := hkinds m (List.mem_cons_of_mem _ hm)
      exact ((Reshapes.place d parent c).kind m (lt_of_no_fragment hkind)).symm ▸ hkind

theorem append (h : d.Linked) (parent child : NodeId) : (d.append parent child).Linked := by
  unfold Document.append
  split
  · refine (h.takeChildren child).placeAll parent fun c hc => ?_
    exact ((Reshapes.takeChildren d child).kind c (h.lt hc)).symm ▸ h.kind hc
  · rename_i hkind
    exact h.place parent hkind

theorem appendAll (h : d.Linked) (parent : NodeId) (children : List NodeId) :
    (children.foldl (·.append parent ·) d).Linked := by
  induction children generalizing d with
  | nil => exact h
  | cons c children ih => exact ih (h.append parent c)

/-- A new element or text without children is put under a node. -/
theorem grow (h : d.Linked) (parent : NodeId) {node : Node} (hkind : node.kind ≠ .fragment)
    (hnode : node.children = []) : ((d.add node).place parent d.nextNode).Linked := by
  refine (h.add hnode).place parent ?_
  rwa [node_add_next]

theorem setText (h : d.Linked) (n : NodeId) (content : String) : (d.setText n content).Linked := by
  unfold Document.setText
  split
  · exact h.modify n (fun _ => rfl) (fun _ => rfl) fun _ => rfl
  · split
    · exact h.takeChildren n
    · exact (h.takeChildren n).grow n nofun rfl

mutual

theorem plant : ∀ (tree : Markup.Tree) {d : Document} (parent : NodeId), d.Linked →
    (Document.plant parent tree d).Linked
  | .element _ _ children, _, parent, h => plantAll children _ (h.grow parent nofun rfl)
  | .text _, _, parent, h => h.grow parent nofun rfl

theorem plantAll : ∀ (trees : List Markup.Tree) {d : Document} (parent : NodeId), d.Linked →
    (Document.plantAll parent trees d).Linked
  | [], _, _, h => h
  | tree :: trees, _, parent, h => plantAll trees parent (plant tree parent h)

end

theorem setMarkup (h : d.Linked) {markup : String} (hmarkup : d.setMarkup n markup = .ok d') :
    d'.Linked := by
  obtain ⟨trees, rfl⟩ := eq_replace_of_setMarkup hmarkup
  exact (h.takeChildren n).plantAll trees n

theorem showMarkup (h : d.Linked) (n : NodeId) (markup : String) :
    (d.showMarkup n markup).Linked := by
  unfold Document.showMarkup
  split
  · rename_i hmarkup
    exact h.setMarkup hmarkup
  · exact h.setText n markup

end Linked

end DataBinding.Document
