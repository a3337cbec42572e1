import DataBinding.Proofs.Document.Grafting

/-!
# Changes confined to a part of the tree

A set of nodes is `Closed` when no node outside of it has a child in it,
so that a walk that begins outside never comes to it. `Draws` is a change
of content outside of such a set: its nodes keep their content, and
whoever has a new child has a new node for it, so that the set stays
closed, a text has the children that it had, and a forest stays a forest.
Showing a text, a markup or a form value at a node outside is such a
change.
-/

namespace DataBinding.Document

variable {out : NodeId → Prop} {d d' d'' : Document} {n parent child : NodeId}

/-- Nodes that are not children of any other. -/
structure Closed (out : NodeId → Prop) (d : Document) : Prop where
  there : ∀ {n}, out n → n < d.nodes.length
  shut : ∀ {p c}, ¬ out p → c ∈ (d.node p).children → ¬ out c

/-! ## Children that are new -/

/-- Whoever has a child that it did not have has a `new` one. -/
def Sprouts (new : NodeId → NodeId → Prop) (d d' : Document) : Prop :=
  ∀ p c, c ∈ (d'.node p).children → c ∈ (d.node p).children ∨ new p c

namespace Sprouts

variable {new : NodeId → NodeId → Prop} {lo : NodeId}

theorem refl (d : Document) : Sprouts new d d := fun _ _ h => .inl h

theorem trans (h : Sprouts new d d') (h' : Sprouts new d' d'') : Sprouts new d d'' :=
  fun p c hc => (h' p c hc).elim (h p c) .inr

theorem foldl {op : Document → NodeId → Document} (h : ∀ d m, Sprouts new d (op d m))
    (nodes : List NodeId) (d : Document) : Sprouts new d (nodes.foldl op d) := by
  induction nodes generalizing d with
  | nil => exact refl d
  | cons m nodes ih => exact (h d m).trans (ih _)

/-- A change of one node. -/
theorem modify (d : Document) (id : NodeId) {change : Node → Node}
    (h : ∀ n, ∀ c ∈ (change n).children, c ∈ n.children ∨ new id c) :
    Sprouts new d (d.modify id change) := by
  intro p c hc
  rw [node_modify_ite] at hc
  split at hc
  · rename_i hself
    obtain ⟨rfl, -⟩ := hself
    exact h _ c hc
  · exact .inl hc

theorem add (d : Document) {node : Node} (h : node.children = []) : Sprouts new d (d.add node) := by
  intro p c hc
  rw [node_add_ite] at hc
  split at hc
  · rw [h] at hc
    exact absurd hc List.not_mem_nil
  · exact .inl hc

theorem reparent (d : Document) (id : NodeId) (place : Option NodeId) :
    Sprouts new d (d.modify id fun n => { n with parent := place }) :=
  modify d id fun _ _ hc => .inl hc

theorem place (d : Document) (hnew : new parent child) : Sprouts new d (d.place parent child) := by
  have hattach : ∀ d : Document, Sprouts new d
      ((d.modify child fun n => { n with parent := some parent }).modify parent
        fun n => { n with children := n.children ++ [child] }) := by
    refine fun d => (reparent d child (some parent)).trans (modify _ parent fun n c hc => ?_)
    rw [List.mem_append, List.mem_singleton] at hc
    exact hc.imp_right fun (heq : c = child) => heq ▸ hnew
  unfold Document.place
  split
  · rename_i former _
    refine Sprouts.trans ?_ (hattach _)
    unfold Document.remove
    split
    · exact (modify d former fun _ _ hc => .inl (List.mem_of_mem_erase hc)).trans
        (reparent _ child none)
    · exact refl d
  · exact hattach d

theorem takeChildren (d : Document) (n : NodeId) : Sprouts new d (d.takeChildren n) := by
  intro p c hc
  obtain ⟨-, hkept, -⟩ := @releaseAll (fun _ => False) (fun _ => False) (d.node n).children
    (d.modify n fun n => { n with children := [] })
  have hsame : ((d.takeChildren n).node p).children =
      ((d.modify n fun n => { n with children := [] }).node p).children := hkept p
  rw [hsame, node_modify_ite] at hc
  split at hc
  · exact absurd hc List.not_mem_nil
  · exact .inl hc

theorem append (d : Document) (child : NodeId) (hnew : ∀ c, new parent c) :
    Sprouts new d (d.append parent child) := by
  unfold Document.append
  split
  · exact (takeChildren d child).trans (foldl (fun d m => place d (hnew m)) _ _)
  · exact place d (hnew child)

/-! ### New nodes -/

/-- A new node is put under another one. -/
theorem grow (d : Document) (parent : NodeId) {node : Node} (h : node.children = [])
    (hlo : lo ≤ d.nodes.length) :
    Sprouts (fun _ c => lo ≤ c) d ((d.add node).place parent d.nextNode) :=
  (add d h).trans (place _ hlo)

mutual

theorem plant : ∀ (tree : Markup.Tree) (parent : NodeId) (d : Document), lo ≤ d.nodes.length →
    Sprouts (fun _ c => lo ≤ c) d (Document.plant parent tree d)
  | .element _ _ children, parent, d, hlo => by
      refine (grow d parent rfl hlo).trans (plantAll children _ _ (Nat.le_trans hlo ?_))
      exact ((Reshapes.add d rfl).trans (.place _ parent _)).length
  | .text _, parent, d, hlo => grow d parent rfl hlo

theorem plantAll : ∀ (trees : List Markup.Tree) (parent : NodeId) (d : Document),
    lo ≤ d.nodes.length → Sprouts (fun _ c => lo ≤ c) d (Document.plantAll parent trees d)
  | [], _, d, _ => refl d
  | tree :: trees, parent, d, hlo =>
      (plant tree parent d hlo).trans
        (plantAll trees parent _ (Nat.le_trans hlo (Reshapes.plant tree parent d).length))

end

theorem replace (d : Document) (n : NodeId) (trees : List Markup.Tree) :
    Sprouts (fun _ c => d.nodes.length ≤ c) d (d.replace n trees) :=
  (takeChildren d n).trans (plantAll trees n _ (Reshapes.takeChildren d n).length)

theorem setText (d : Document) (n : NodeId) (content : String) :
    Sprouts (fun _ c => d.nodes.length ≤ c) d (d.setText n content) := by
  by_cases hkind : (d.node n).kind = .text
  · rw [setText_of_text hkind]
    exact modify d n fun _ _ hc => .inl hc
  · rw [setText_eq hkind]
    exact replace d n _

theorem showMarkup (d : Document) (n : NodeId) (markup : String) :
    Sprouts (fun _ c => d.nodes.length ≤ c) d (d.showMarkup n markup) := by
  unfold Document.showMarkup
  split
  · rename_i hmarkup
    obtain ⟨trees, rfl⟩ := eq_replace_of_setMarkup hmarkup
    exact replace d n trees
  · exact setText d n markup

end Sprouts

theorem Closed.next (h : d.Closed out) (hlength : d.nodes.length ≤ d'.nodes.length)
    (hsprouts : Sprouts (fun _ c => d.nodes.length ≤ c) d d') : d'.Closed out where
  there hn := Nat.lt_of_lt_of_le (h.there hn) hlength
  shut {p c} hp hc hout := (hsprouts p c hc).elim (fun hold => h.shut hp hold hout)
    fun hnew => Nat.not_lt.2 hnew (h.there hout)

/-! ## Content outside of a set -/

/-- Only content outside of a set of nodes is changed. -/
structure Draws (out : NodeId → Prop) (d d' : Document) : Prop where
  alters : Alters (fun n => ¬ out n) (fun _ => True) d d'
  nextListener : d'.nextListener = d.nextListener
  listeners : ∀ n, (d'.node n).listeners = (d.node n).listeners
  sprouts : Sprouts (fun _ c => d.nodes.length ≤ c) d d'
  texts : ∀ m < d.nodes.length, (d.node m).kind = .text →
    (d'.node m).children = (d.node m).children
  forest : d.IsForest → d'.IsForest

namespace Draws

theorem refl (d : Document) : Draws out d d :=
  ⟨.refl d, rfl, fun _ => rfl, .refl d, fun _ _ _ => rfl, id⟩

theorem of_reshapes {inner value : NodeId → Prop} (halters : Alters inner value d d')
    (hinner : ∀ m, inner m → ¬ out m) (h : d.Reshapes d')
    (hsprouts : Sprouts (fun _ c => d.nodes.length ≤ c) d d')
    (htexts : ∀ m < d.nodes.length, (d.node m).kind = .text →
      (d'.node m).children = (d.node m).children)
    (hforest : d.IsForest → d'.IsForest) : Draws out d d' :=
  ⟨halters.mono (fun m _ => hinner m) fun _ _ _ => trivial, h.nextListener, h.listeners, hsprouts,
    htexts, hforest⟩

/-- What is done to the content of one node that is no text is done to no
text. -/
theorem texts_of_alters (halters : Alters (· = n) (fun _ => False) d d')
    (hkind : (d.node n).kind ≠ .text) {m : NodeId} (hm : m < d.nodes.length)
    (htext : (d.node m).kind = .text) : (d'.node m).children = (d.node m).children :=
  halters.children m hm fun heq => hkind (heq ▸ htext)

theorem setText (hn : n < d.nodes.length) (hout : ¬ out n) (content : String) :
    Draws out d (d.setText n content) := by
  obtain ⟨halters, htexts⟩ : Alters (· = n) (fun _ => False) d (d.setText n content) ∧
      ∀ m < d.nodes.length, (d.node m).kind = .text →
        ((d.setText n content).node m).children = (d.node m).children := by
    by_cases hkind : (d.node n).kind = .text
    · rw [setText_of_text hkind]
      refine ⟨.modify d (fun _ => rfl) (fun _ => rfl) (fun _ _ hl => hl) (.inl rfl)
        (.inr fun _ => rfl), fun m _ _ => ?_⟩
      exact field_modify d n m Node.children fun _ => rfl
    · rw [setText_eq hkind]
      exact ⟨(replace_spec _ hn).1, fun _ => texts_of_alters (replace_spec _ hn).1 hkind⟩
  exact of_reshapes halters (fun m hm => hm ▸ hout) (.setText d n content) (.setText d n content)
    htexts fun h => h.setText hn content

theorem showMarkup (hn : n < d.nodes.length) (hkind : (d.node n).kind ≠ .text) (hout : ¬ out n)
    (markup : String) : Draws out d (d.showMarkup n markup) := by
  have halters : Alters (· = n) (fun _ => False) d (d.showMarkup n markup) := by
    rw [showMarkup_eq hkind]
    exact (replace_spec _ hn).1
  exact of_reshapes halters (fun m hm => hm ▸ hout) (.showMarkup d n markup)
    (.showMarkup d n markup) (fun _ => texts_of_alters halters hkind)
    fun h => h.showMarkup hn markup

theorem setValue (d : Document) (n : NodeId) (content : String) :
    Draws out d (d.setValue n content) := by
  have halters : Alters (fun _ => False) (fun _ => True) d (d.setValue n content) :=
    .modify d (fun _ => rfl) (fun _ => rfl) (fun _ _ hl => hl) (.inr fun _ => ⟨rfl, rfl⟩)
      (.inl trivial)
  exact of_reshapes halters (fun _ hm => hm.elim) (.setValue d n content)
    (.modify d n fun _ _ hc => .inl hc)
    (fun m hm _ => halters.children m hm id) fun h => h.setValue n content

end Draws

end DataBinding.Document
