import DataBinding.Document.Markup

/-!
# What a change of the document leaves alone

`Alters` is the frame of a change: except for the content of some nodes
and the form value of some, every node that was there is as it was, up to
its place in the tree and listeners that were added. Everything that
reactions and compiling do to a document is stated in it. `Stands` says
that a node is the root of a markup tree that was planted, at places from
`lo` on; the children stand at places behind their parent.
-/

namespace DataBinding.Document

variable {inner value : NodeId → Prop} {d d' d'' : Document} {n parent : NodeId}

/-! ## Changing one node -/

theorem length_modify (d : Document) (id : NodeId) (change : Node → Node) :
    (d.modify id change).nodes.length = d.nodes.length :=
  List.length_modify ..

theorem length_add (d : Document) (node : Node) :
    (d.add node).nodes.length = d.nodes.length + 1 :=
  List.length_append

theorem node_modify_of_ne {id other : NodeId} (h : other ≠ id) (d : Document)
    (change : Node → Node) : (d.modify id change).node other = d.node other := by
  simp [node, modify, List.getD_eq_getElem?_getD, Ne.symm h]

theorem node_modify_self {id : NodeId} (h : id < d.nodes.length) (change : Node → Node) :
    (d.modify id change).node id = change (d.node id) := by
  rw [node_modify d h, if_pos rfl]

/-! ## The frame of a change -/

/-- Nothing is changed but the content of some nodes, the form value of
some, places in the tree, and listeners that are added. -/
structure Alters (inner value : NodeId → Prop) (d d' : Document) : Prop where
  length : d.nodes.length ≤ d'.nodes.length
  kind : ∀ m < d.nodes.length, (d'.node m).kind = (d.node m).kind
  attributes : ∀ m < d.nodes.length, (d'.node m).attributes = (d.node m).attributes
  listeners : ∀ m < d.nodes.length, ∀ l ∈ (d.node m).listeners, l ∈ (d'.node m).listeners
  children : ∀ m < d.nodes.length, ¬ inner m → (d'.node m).children = (d.node m).children
  text : ∀ m < d.nodes.length, ¬ inner m → (d'.node m).text = (d.node m).text
  value : ∀ m < d.nodes.length, ¬ value m → (d'.node m).value = (d.node m).value

namespace Alters

theorem refl (d : Document) : Alters inner value d d :=
  ⟨Nat.le_refl _, fun _ _ => rfl, fun _ _ => rfl, fun _ _ _ h => h, fun _ _ _ => rfl,
    fun _ _ _ => rfl, fun _ _ _ => rfl⟩

/-- Only what is done to nodes that were there counts. -/
theorem andThen {inner' value' : NodeId → Prop} (h : Alters inner value d d')
    (h' : Alters inner' value' d' d'') (hinner : ∀ m < d.nodes.length, inner' m → inner m)
    (hvalue : ∀ m < d.nodes.length, value' m → value m) : Alters inner value d d'' := by
  have hlater : ∀ m < d.nodes.length, m < d'.nodes.length := fun m hm =>
    Nat.lt_of_lt_of_le hm h.length
  refine ⟨Nat.le_trans h.length h'.length, fun m hm => ?_, fun m hm => ?_, fun m hm l hl => ?_,
    fun m hm hout => ?_, fun m hm hout => ?_, fun m hm hout => ?_⟩
  · rw [h'.kind m (hlater m hm), h.kind m hm]
  · rw [h'.attributes m (hlater m hm), h.attributes m hm]
  · exact h'.listeners m (hlater m hm) l (h.listeners m hm l hl)
  · rw [h'.children m (hlater m hm) fun hin => hout (hinner m hm hin), h.children m hm hout]
  · rw [h'.text m (hlater m hm) fun hin => hout (hinner m hm hin), h.text m hm hout]
  · rw [h'.value m (hlater m hm) fun hin => hout (hvalue m hm hin), h.value m hm hout]

theorem trans (h : Alters inner value d d') (h' : Alters inner value d' d'') :
    Alters inner value d d'' :=
  h.andThen h' (fun _ _ hin => hin) fun _ _ hin => hin

theorem mono {inner' value' : NodeId → Prop} (h : Alters inner value d d')
    (hinner : ∀ m < d.nodes.length, inner m → inner' m)
    (hvalue : ∀ m < d.nodes.length, value m → value' m) : Alters inner' value' d d' :=
  (refl d).andThen h hinner hvalue

theorem add (d : Document) (node : Node) : Alters inner value d (d.add node) := by
  have hnode : ∀ m < d.nodes.length, (d.add node).node m = d.node m :=
    fun m hm => node_add_of_lt d node hm
  refine ⟨by rw [length_add]; exact Nat.le_succ _, fun m hm => ?_, fun m hm => ?_,
    fun m hm l hl => ?_, fun m hm _ => ?_, fun m hm _ => ?_, fun m hm _ => ?_⟩
  all_goals rw [hnode m hm]
  exact hl

/-- A change of one node. -/
theorem modify (d : Document) {id : NodeId} {change : Node → Node}
    (hkind : ∀ n, (change n).kind = n.kind)
    (hattributes : ∀ n, (change n).attributes = n.attributes)
    (hlisteners : ∀ n, ∀ l ∈ n.listeners, l ∈ (change n).listeners)
    (hinner : inner id ∨ ∀ n, (change n).children = n.children ∧ (change n).text = n.text)
    (hvalue : value id ∨ ∀ n, (change n).value = n.value) :
    Alters inner value d (d.modify id change) := by
  have hnode : ∀ m < d.nodes.length, (d.modify id change).node m =
      if m = id then change (d.node m) else d.node m := by
    intro m hm
    by_cases hself : m = id
    · subst hself
      rw [node_modify_self hm, if_pos rfl]
    · rw [node_modify_of_ne hself, if_neg hself]
  refine ⟨Nat.le_of_eq (length_modify ..).symm, fun m hm => ?_, fun m hm => ?_,
    fun m hm l hl => ?_, fun m hm hout => ?_, fun m hm hout => ?_, fun m hm hout => ?_⟩
  all_goals
    rw [hnode m hm]
    split
  · exact hkind _
  · rfl
  · exact hattributes _
  · rfl
  · exact hlisteners _ l hl
  · exact hl
  · rename_i hself
    exact (hinner.resolve_left (fun hin => hout (hself ▸ hin)) _).1
  · rfl
  · rename_i hself
    exact (hinner.resolve_left (fun hin => hout (hself ▸ hin)) _).2
  · rfl
  · rename_i hself
    exact hvalue.resolve_left (fun hin => hout (hself ▸ hin)) _
  · rfl

theorem listen (d : Document) (id : NodeId) (event : String) (handler : Handler) :
    Alters inner value d (d.listen id event handler) := by
  let l : Listener := ⟨d.nextListener, event, handler⟩
  have h : Alters inner value d
      (d.modify id fun n => { n with listeners := n.listeners ++ [l] }) :=
    .modify d (fun _ => rfl) (fun _ => rfl) (fun _ _ hl => List.mem_append_left _ hl)
      (.inr fun _ => ⟨rfl, rfl⟩) (.inr fun _ => rfl)
  exact ⟨h.length, h.kind, h.attributes, h.listeners, h.children, h.text, h.value⟩

end Alters

/-! ## Placing and releasing -/

/-- Putting a node that has no parent under one. -/
theorem place_of_free {child : NodeId} (h : (d.node child).parent = none) :
    d.place parent child = (d.modify child fun n => { n with parent := some parent }).modify
      parent fun n => { n with children := n.children ++ [child] } := by
  simp only [place, h]

theorem Alters.reparent (d : Document) (id : NodeId) (place : Option NodeId) :
    Alters inner value d (d.modify id fun n => { n with parent := place }) :=
  .modify d (fun _ => rfl) (fun _ => rfl) (fun _ _ h => h) (.inr fun _ => ⟨rfl, rfl⟩)
    (.inr fun _ => rfl)

/-- Another parent is another place for one node, and no change for any. -/
theorem node_reparent (d : Document) (id : NodeId) (place : Option NodeId) (m : NodeId) :
    ∃ parent, ((d.modify id fun n => { n with parent := place }).node m) =
        { d.node m with parent } ∧
      (m ≠ id → parent = (d.node m).parent) ∧ (m = id → place = none → parent = none) := by
  by_cases hself : m = id
  · subst hself
    by_cases hm : m < d.nodes.length
    · rw [node_modify_self hm]
      exact ⟨place, rfl, fun h => absurd rfl h, fun _ h => h⟩
    · have hnone : ∀ d' : Document, d'.nodes.length = d.nodes.length →
          d'.node m = .new .fragment := by
        intro d' hlength
        simp [node, List.getD_eq_getElem?_getD, hlength, hm]
      rw [hnone _ (length_modify ..), hnone d rfl]
      exact ⟨none, rfl, fun h => absurd rfl h, fun _ _ => rfl⟩
  · rw [node_modify_of_ne hself]
    exact ⟨_, rfl, fun _ => rfl, fun h => absurd h hself⟩

theorem Alters.place {child : NodeId} (h : (d.node child).parent = none) :
    Alters (· = parent) value d (d.place parent child) := by
  rw [place_of_free h]
  refine (Alters.reparent d child (some parent)).trans ?_
  exact .modify _ (fun _ => rfl) (fun _ => rfl) (fun _ _ h => h) (.inl rfl) (.inr fun _ => rfl)

theorem node_place {child : NodeId} (h : (d.node child).parent = none)
    (hparent : parent < d.nodes.length) :
    ((d.place parent child).node parent).children = (d.node parent).children ++ [child] ∧
      ((d.place parent child).node parent).text = (d.node parent).text ∧
      ∀ m, m ≠ child → ((d.place parent child).node m).parent = (d.node m).parent := by
  rw [place_of_free h]
  have hlength := length_modify d child fun n => { n with parent := some parent }
  obtain ⟨q, hnode, -⟩ := node_reparent d child (some parent) parent
  refine ⟨?_, ?_, fun m hm => ?_⟩
  · rw [node_modify_self (hlength.symm ▸ hparent), hnode]
  · rw [node_modify_self (hlength.symm ▸ hparent), hnode]
  · obtain ⟨q, hnode, hkept, -⟩ := node_reparent d child (some parent) m
    by_cases hself : m = parent
    · subst hself
      rw [node_modify_self (hlength.symm ▸ hparent), hnode]
      exact hkept hm
    · rw [node_modify_of_ne hself, hnode]
      exact hkept hm

/-- Putting several nodes without parents under one, in order. -/
theorem placeAll {children : List NodeId} (hfree : ∀ c ∈ children, (d.node c).parent = none)
    (hnodup : children.Nodup) (hparent : parent < d.nodes.length) :
    Alters (· = parent) value d (children.foldl (·.place parent ·) d) ∧
      ((children.foldl (·.place parent ·) d).node parent).children =
        (d.node parent).children ++ children := by
  induction children generalizing d with
  | nil => exact ⟨.refl d, (List.append_nil _).symm⟩
  | cons c children ih =>
      obtain ⟨hout, hrest⟩ := List.nodup_cons.1 hnodup
      have hc := hfree c List.mem_cons_self
      obtain ⟨hchildren, -, hothers⟩ := node_place hc hparent
      have halters : Alters (· = parent) value d (d.place parent c) := .place hc
      have hfree' : ∀ m ∈ children, ((d.place parent c).node m).parent = none := by
        intro m hm
        rw [hothers m fun heq => hout (heq ▸ hm)]
        exact hfree m (List.mem_cons_of_mem _ hm)
      obtain ⟨hall, hlast⟩ := ih hfree' hrest (Nat.lt_of_lt_of_le hparent halters.length)
      refine ⟨halters.trans hall, ?_⟩
      rw [List.foldl_cons, hlast, hchildren, List.append_assoc, List.singleton_append]

/-- Taking the parents of some nodes away. -/
theorem releaseAll (children : List NodeId) (d : Document) :
    let released := children.foldl
      (fun d child => d.modify child fun n => { n with parent := none }) d
    Alters inner value d released ∧
      (∀ m, (released.node m).children = (d.node m).children) ∧
      ∀ m, m ∈ children ∨ (d.node m).parent = none → (released.node m).parent = none := by
  induction children generalizing d with
  | nil => exact ⟨.refl d, fun _ => rfl, fun m h => h.resolve_left List.not_mem_nil⟩
  | cons c children ih =>
      obtain ⟨halters, hchildren, hfree⟩ := ih (d.modify c fun n => { n with parent := none })
      refine ⟨(Alters.reparent d c none).trans halters, fun m => ?_, fun m hm => hfree m ?_⟩
      · obtain ⟨q, hnode, -⟩ := node_reparent d c none m
        rw [List.foldl_cons, hchildren, hnode]
      · obtain ⟨q, hnode, hother, hself⟩ := node_reparent d c none m
        rw [hnode]
        by_cases heq : m = c
        · exact .inr (hself heq rfl)
        · rw [List.mem_cons, or_iff_right heq] at hm
          exact hm.imp_right (hother heq).trans

theorem Alters.takeChildren (d : Document) (n : NodeId) :
    Alters (· = n) value d (d.takeChildren n) := by
  have hemptied : Alters (· = n) value d (d.modify n fun n => { n with children := [] }) :=
    .modify d (fun _ => rfl) (fun _ => rfl) (fun _ _ h => h) (.inl rfl) (.inr fun _ => rfl)
  exact hemptied.trans (releaseAll _ _).1

/-- The children that were taken have no parent, and there are none. -/
theorem node_takeChildren (hn : n < d.nodes.length) :
    ((d.takeChildren n).node n).children = [] ∧
      ∀ m ∈ (d.node n).children, ((d.takeChildren n).node m).parent = none := by
  let emptied := d.modify n fun n => { n with children := [] }
  obtain ⟨-, hchildren, hfree⟩ :=
    @releaseAll (fun _ => False) (fun _ => False) (d.node n).children emptied
  refine ⟨?_, fun m hm => hfree m (.inl hm)⟩
  rw [Document.takeChildren, hchildren, node_modify_self hn]

/-! ## Growing -/

/-- A new node as the last child of one that is there. -/
structure Grows (parent : NodeId) (node : Node) (d d' : Document) : Prop where
  alters : ∀ {value}, Alters (· = parent) value d d'
  children : (d'.node parent).children = (d.node parent).children ++ [d.nextNode]
  text : (d'.node parent).text = (d.node parent).text
  length : d'.nodes.length = d.nodes.length + 1
  newKind : (d'.node d.nextNode).kind = node.kind
  newAttributes : (d'.node d.nextNode).attributes = node.attributes
  newChildren : (d'.node d.nextNode).children = node.children
  newText : (d'.node d.nextNode).text = node.text

theorem grows {node : Node} (hnode : node.parent = none) (hparent : parent < d.nodes.length) :
    Grows parent node d ((d.add node).place parent d.nextNode) := by
  have hnew : (d.add node).node d.nextNode = node := node_add_next d node
  have hold : (d.add node).node parent = d.node parent := node_add_of_lt d node hparent
  have hlt : d.nextNode < (d.add node).nodes.length := by
    rw [length_add]
    exact Nat.lt_succ_self _
  have hne : ¬ d.nextNode = parent := Nat.ne_of_gt hparent
  have hfree : ((d.add node).node d.nextNode).parent = none := by rw [hnew]; exact hnode
  have halters : ∀ {value}, Alters (· = parent) value (d.add node)
      ((d.add node).place parent d.nextNode) := .place hfree
  have hkept := @halters fun _ => False
  obtain ⟨hchildren, htext, -⟩ := node_place hfree (Nat.lt_trans hparent hlt)
  refine ⟨(Alters.add d node).trans halters, hold ▸ hchildren, hold ▸ htext, ?_, ?_, ?_, ?_, ?_⟩
  · rw [place_of_free hfree, length_modify, length_modify, length_add]
  · rw [hkept.kind d.nextNode hlt, hnew]
  · rw [hkept.attributes d.nextNode hlt, hnew]
  · rw [hkept.children d.nextNode hlt hne, hnew]
  · rw [hkept.text d.nextNode hlt hne, hnew]

/-! ## Planted trees -/

mutual

/-- A node is the root of a tree, at a place from `lo` on. -/
def Stands (d : Document) (lo n : NodeId) : Markup.Tree → Prop
  | .element tag attributes children =>
    lo ≤ n ∧ n < d.nodes.length ∧ (d.node n).kind = .element tag ∧
      (d.node n).attributes = attributes ∧ d.StandAll (n + 1) (d.node n).children children
  | .text content =>
    lo ≤ n ∧ n < d.nodes.length ∧ (d.node n).kind = .text ∧ (d.node n).children = [] ∧
      (d.node n).text = content

/-- Some nodes are the roots of a forest. -/
def StandAll (d : Document) (lo : NodeId) (nodes : List NodeId) : List Markup.Tree → Prop
  | [] => nodes = []
  | tree :: trees => ∃ n rest, nodes = n :: rest ∧ d.Stands lo n tree ∧ d.StandAll lo rest trees

end

mutual

/-- What is planted stays as it is when nothing at or behind its places is
changed. -/
theorem Stands.frame {lo lo' n : NodeId} : ∀ {tree : Markup.Tree}, d.Stands lo n tree →
    Alters inner value d d' → (∀ m, lo ≤ m → ¬ inner m) → lo' ≤ lo → d'.Stands lo' n tree
  | .element tag attributes children, hn, h, hlo, hle => by
      obtain ⟨hmin, hmax, hkind, hattributes, hchildren⟩ := hn
      refine ⟨Nat.le_trans hle hmin, Nat.lt_of_lt_of_le hmax h.length, (h.kind n hmax).trans hkind,
        (h.attributes n hmax).trans hattributes, ?_⟩
      rw [h.children n hmax (hlo n hmin)]
      exact StandAll.frame hchildren h (fun m hm => hlo m (Nat.le_trans hmin (Nat.le_of_succ_le hm)))
        (Nat.le_refl _)
  | .text content, hn, h, hlo, hle => by
      obtain ⟨hmin, hmax, hkind, hchildren, htext⟩ := hn
      exact ⟨Nat.le_trans hle hmin, Nat.lt_of_lt_of_le hmax h.length, (h.kind n hmax).trans hkind,
        (h.children n hmax (hlo n hmin)).trans hchildren, (h.text n hmax (hlo n hmin)).trans htext⟩

theorem StandAll.frame {lo lo' : NodeId} {nodes : List NodeId} :
    ∀ {trees : List Markup.Tree}, d.StandAll lo nodes trees → Alters inner value d d' →
      (∀ m, lo ≤ m → ¬ inner m) → lo' ≤ lo → d'.StandAll lo' nodes trees
  | [], hnodes, _, _, _ => hnodes
  | tree :: trees, hnodes, h, hlo, hle => by
      obtain ⟨n, rest, rfl, hn, hrest⟩ := hnodes
      exact ⟨n, rest, rfl, Stands.frame hn h hlo hle, StandAll.frame hrest h hlo hle⟩

end

theorem StandAll.mono {lo lo' : NodeId} {nodes : List NodeId} {trees : List Markup.Tree}
    (h : d.StandAll lo nodes trees) (hle : lo' ≤ lo) : d.StandAll lo' nodes trees :=
  h.frame (@Alters.refl (fun _ => False) (fun _ => False) d) (fun _ _ h => h) hle

mutual

/-- Planting a tree puts it behind the children that are there. -/
theorem plant_spec : ∀ (tree : Markup.Tree) {d : Document} {parent : NodeId},
    parent < d.nodes.length → ∃ n,
      (∀ {value}, Alters (· = parent) value d (plant parent tree d)) ∧
      ((plant parent tree d).node parent).children = (d.node parent).children ++ [n] ∧
      ((plant parent tree d).node parent).text = (d.node parent).text ∧
      (plant parent tree d).Stands d.nodes.length n tree
  | .text content, d, parent, hparent => by
      have h : Grows parent { Node.new .text with text := content } d
          (plant parent (.text content) d) := grows rfl hparent
      exact ⟨d.nextNode, h.alters, h.children, h.text, Nat.le_refl _,
        h.length ▸ Nat.lt_succ_self _, h.newKind, h.newChildren, h.newText⟩
  | .element tag attributes children, d, parent, hparent => by
      let grown := (d.add { Node.new (.element tag) with attributes }).place parent d.nextNode
      have h : Grows parent { Node.new (.element tag) with attributes } d grown :=
        grows rfl hparent
      have hnew : d.nextNode < grown.nodes.length := h.length ▸ Nat.lt_succ_self _
      have hparent' : parent < grown.nodes.length := Nat.lt_trans hparent hnew
      obtain ⟨nodes, halters, hchildren, -, hstand⟩ := plantAll_spec children hnew
      have hlast := @halters fun _ => False
      rw [h.newChildren] at hchildren
      refine ⟨d.nextNode, fun {_} => h.alters.andThen halters
        (fun m hm heq => absurd hm (heq ▸ Nat.lt_irrefl _)) (fun _ _ hin => hin), ?_, ?_,
        Nat.le_refl _, Nat.lt_of_lt_of_le hnew hlast.length, ?_, ?_, ?_⟩
      · exact (hlast.children parent hparent' (Nat.ne_of_lt hparent)).trans h.children
      · exact (hlast.text parent hparent' (Nat.ne_of_lt hparent)).trans h.text
      · exact (hlast.kind _ hnew).trans h.newKind
      · exact (hlast.attributes _ hnew).trans h.newAttributes
      · rw [h.length] at hstand
        exact hchildren ▸ hstand

/-- Planting a forest. -/
theorem plantAll_spec : ∀ (trees : List Markup.Tree) {d : Document} {parent : NodeId},
    parent < d.nodes.length → ∃ nodes,
      (∀ {value}, Alters (· = parent) value d (plantAll parent trees d)) ∧
      ((plantAll parent trees d).node parent).children = (d.node parent).children ++ nodes ∧
      ((plantAll parent trees d).node parent).text = (d.node parent).text ∧
      (plantAll parent trees d).StandAll d.nodes.length nodes trees
  | [], d, parent, hparent =>
      ⟨[], .refl d, (List.append_nil _).symm, rfl, rfl⟩
  | tree :: trees, d, parent, hparent => by
      obtain ⟨n, hfirst, hchildren, htext, hstands⟩ := plant_spec tree hparent
      have hlength := (@hfirst fun _ => False).length
      obtain ⟨nodes, hrest, hchildren', htext', hstandAll⟩ :=
        plantAll_spec trees (Nat.lt_of_lt_of_le hparent hlength)
      refine ⟨n :: nodes, fun {_} => hfirst.trans hrest, ?_, htext'.trans htext,
        n, nodes, rfl, ?_, ?_⟩
      · rw [plantAll, hchildren', hchildren, List.append_assoc, List.singleton_append]
      · exact hstands.frame (@hrest fun _ => False)
          (fun m hm heq => absurd hparent (heq ▸ Nat.not_lt.2 hm)) (Nat.le_refl _)
      · exact hstandAll.mono hlength

end

/-! ## Showing -/

/-- The forest that a text is shown as. -/
def textForest (content : String) : List Markup.Tree :=
  if content = "" then [] else [.text content]

/-- The forest that a markup is shown as. -/
def markupForest (markup : String) : List Markup.Tree :=
  match Markup.parse markup with
  | .ok trees => trees
  | .error _ => textForest markup

/-- Replaces the children of a node by a forest. -/
def replace (d : Document) (n : NodeId) (trees : List Markup.Tree) : Document :=
  plantAll n trees (d.takeChildren n)

theorem setText_of_text (hkind : (d.node n).kind = .text) (content : String) :
    d.setText n content = d.modify n fun m => { m with text := content } := by
  simp only [setText, hkind]

theorem setText_eq (hkind : (d.node n).kind ≠ .text) (content : String) :
    d.setText n content = d.replace n (textForest content) := by
  have hset : d.setText n content =
      if content = "" then d.takeChildren n else (d.takeChildren n).addText n content := by
    unfold setText
    split
    · rename_i htext
      exact absurd htext hkind
    · rfl
  rw [hset, textForest, replace]
  split
  · rfl
  · rfl

theorem showMarkup_eq (hkind : (d.node n).kind ≠ .text) (markup : String) :
    d.showMarkup n markup = d.replace n (markupForest markup) := by
  rw [showMarkup, setMarkup, markupForest]
  cases Markup.parse markup with
  | ok trees => rfl
  | error e => exact setText_eq hkind markup

/-- The forest is what the node holds then. -/
theorem replace_spec (trees : List Markup.Tree) (hn : n < d.nodes.length) :
    (∀ {value}, Alters (· = n) value d (d.replace n trees)) ∧
      (d.replace n trees).StandAll d.nodes.length ((d.replace n trees).node n).children trees := by
  have htaken := @Alters.takeChildren (fun _ => False) d n
  obtain ⟨hempty, -⟩ := node_takeChildren hn
  obtain ⟨nodes, halters, hchildren, -, hstand⟩ :=
    plantAll_spec trees (Nat.lt_of_lt_of_le hn htaken.length)
  refine ⟨(Alters.takeChildren d n).trans halters, ?_⟩
  rw [hempty, List.nil_append] at hchildren
  exact hchildren ▸ hstand.mono htaken.length

end DataBinding.Document
