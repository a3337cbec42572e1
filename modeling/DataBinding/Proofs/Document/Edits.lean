import DataBinding.Proofs.Document.Grafting

/-!
# What is done to a document

One write does at most one operation to the document. `Edits` lists them,
with the nodes that something may be put under: below other nodes nothing
new appears. Every edit lets the document evolve, and keeps a forest as
long as its sites are nodes of the document and no append makes a node its
own descendant.
-/

namespace DataBinding.Document

theorem Regrafts.dropListeners (d : Document) (listeners : List (NodeId × ListenerId)) :
    Regrafts [] none d (World.dropListeners d listeners) := by
  unfold World.dropListeners
  induction listeners generalizing d with
  | nil => exact .of_same (Nat.le_refl _) (fun _ _ => rfl) (fun _ => rfl) fun _ => rfl
  | cons first listeners ih =>
      have hfirst : d.Regrafts [] none (d.unlisten first.1 first.2) :=
        .modify d first.1 (fun _ => rfl) (fun _ => rfl) fun _ => rfl
      exact hfirst.append (ih _) fun _ hn => absurd hn List.not_mem_nil

/-- An operation on a document, with the sites that it may put something
under. -/
inductive Edits (sites : NodeId → Prop) (d : Document) : Document → Prop
  /-- Nothing is moved. -/
  | retouch {d' : Document} : d.Evolves d' → d.Regrafts [] none d' → Edits sites d d'
  | append {p : NodeId} (c : NodeId) : sites p → Edits sites d (d.append p c)
  | remove (p c : NodeId) : Edits sites d (d.remove p c).1
  | takeChildren (n : NodeId) : Edits sites d (d.takeChildren n)
  | setText {n : NodeId} (content : String) : sites n → Edits sites d (d.setText n content)
  | setMarkup {n : NodeId} {markup : String} {d' : Document} :
      sites n → d.setMarkup n markup = .ok d' → Edits sites d d'
  | parse {markup : String} {d' : Document} : d.parse markup = .ok d' → Edits sites d d'
  | gathered (root : NodeId) : Edits sites d (d.gathered root)

namespace Edits

variable {sites sites' : NodeId → Prop} {d d' : Document} {n : NodeId}

theorem evolves (h : d.Edits sites d') : d.Evolves d' := by
  cases h with
  | retouch h => exact h
  | append c => exact .append d _ c
  | remove p c => exact .remove d p c
  | takeChildren n => exact .takeChildren d n
  | setText content => exact .setText d _ content
  | setMarkup _ hmarkup => exact .setMarkup hmarkup
  | parse hmarkup => exact .parse hmarkup
  | gathered root => exact .gathered d root

theorem mono (h : d.Edits sites d') (hsites : ∀ n, sites n → sites' n) : d.Edits sites' d' := by
  cases h with
  | retouch h hd => exact .retouch h hd
  | append c hp => exact .append c (hsites _ hp)
  | remove p c => exact .remove p c
  | takeChildren n => exact .takeChildren n
  | setText content hn => exact .setText content (hsites _ hn)
  | setMarkup hn hmarkup => exact .setMarkup (hsites _ hn) hmarkup
  | parse hmarkup => exact .parse hmarkup
  | gathered root => exact .gathered root

/-- A forest stays one if no append makes a node its own descendant. -/
theorem isForest (hd : d.Edits (· < d.nodes.length) d') (h : d.IsForest)
    (happends : ∀ p c, d' = d.append p c → ∀ n, ¬ d'.Below n n) : d'.IsForest := by
  cases hd with
  | retouch _ hsame => exact hsame.isForest_of_same h
  | append c hp => exact ⟨h.paired_append hp c, happends _ c rfl⟩
  | remove p c => exact h.remove p c
  | takeChildren n => exact h.takeChildren n
  | setText content hn => exact h.setText hn content
  | setMarkup hn hmarkup => exact h.setMarkup hn hmarkup
  | parse hmarkup => exact h.parse hmarkup
  | gathered root => exact h.gathered root

theorem refl (d : Document) : d.Edits sites d :=
  .retouch (.refl d) (.of_same (Nat.le_refl _) (fun _ _ => rfl) (fun _ => rfl) fun _ => rfl)

theorem add (d : Document) {node : Node} (hparent : node.parent = none)
    (hchildren : node.children = []) (hlisteners : node.listeners = []) :
    d.Edits sites (d.add node) :=
  .retouch (.add d hlisteners hchildren) (.add d hparent hchildren)

theorem setAttribute (d : Document) (n : NodeId) (key content : String) :
    d.Edits sites (d.setAttribute n key content) :=
  .retouch (.setAttribute d n key content)
    (.modify d n (fun _ => rfl) (fun _ => rfl) fun _ => rfl)

theorem setValue (d : Document) (n : NodeId) (content : String) :
    d.Edits sites (d.setValue n content) :=
  .retouch (.setValue d n content) (.modify d n (fun _ => rfl) (fun _ => rfl) fun _ => rfl)

theorem unlisten (d : Document) (n : NodeId) (listener : ListenerId) :
    d.Edits sites (d.unlisten n listener) :=
  .retouch (.unlisten d n listener) (.modify d n (fun _ => rfl) (fun _ => rfl) fun _ => rfl)

theorem listen (d : Document) (n : NodeId) (event : String) (handler : Handler) :
    d.Edits sites (d.listen n event handler) :=
  .retouch (.listen d n event handler) (.listen d n event handler)

theorem dropListeners (d : Document) (listeners : List (NodeId × ListenerId)) :
    d.Edits sites (World.dropListeners d listeners) :=
  .retouch (.dropListeners d listeners) (.dropListeners d listeners)

theorem showMarkup (markup : String) (hn : sites n) : d.Edits sites (d.showMarkup n markup) := by
  unfold Document.showMarkup
  split
  · rename_i hmarkup
    exact .setMarkup hn hmarkup
  · exact .setText markup hn

end Edits

end DataBinding.Document
