import DataBinding.Proofs.Document.Linked
import DataBinding.World.View

/-!
# What every change of the document keeps

Listeners are known by identities that are never given twice: `Heard`
says that each of them is on one node only. `Evolves` is what all
operations on a document have in common: nodes stay what they are, a
listener that is on a node was there before or is new, and both the tree
and the listeners stay in order.
-/

namespace DataBinding.Document

variable {d d' d'' : Document} {n : NodeId}

/-- Identities of listeners are those that were given, each to one node. -/
structure Heard (d : Document) : Prop where
  below : ∀ {n l}, l ∈ (d.node n).listeners → l.id < d.nextListener
  single : ∀ {n m l l'}, l ∈ (d.node n).listeners → l' ∈ (d.node m).listeners → l.id = l'.id →
    n = m

theorem Heard.empty : Heard .empty :=
  ⟨fun h => absurd h List.not_mem_nil, fun h => absurd h List.not_mem_nil⟩

/-- Fewer listeners. -/
theorem Heard.mono (h : d.Heard) (hnext : d.nextListener ≤ d'.nextListener)
    (hlisteners : ∀ {n l}, l ∈ (d'.node n).listeners → l ∈ (d.node n).listeners) : d'.Heard where
  below hl := Nat.lt_of_lt_of_le (h.below (hlisteners hl)) hnext
  single hl hl' := h.single (hlisteners hl) (hlisteners hl')

/-- What every operation does. -/
structure Evolves (d d' : Document) : Prop where
  length : d.nodes.length ≤ d'.nodes.length
  kind : ∀ n < d.nodes.length, (d'.node n).kind = (d.node n).kind
  nextListener : d.nextListener ≤ d'.nextListener
  listeners : ∀ {n l}, l ∈ (d'.node n).listeners →
    l ∈ (d.node n).listeners ∨ d.nextListener ≤ l.id
  linked : d.Linked → d'.Linked
  heard : d.Heard → d'.Heard

/-- The children of a node, moved into a new fragment. -/
def gathered (d : Document) (root : NodeId) : Document :=
  (d.node root).children.foldl (·.append d.nextNode ·)
    ((d.add (.new .fragment)).takeChildren root)

namespace Evolves

theorem refl (d : Document) : Evolves d d :=
  ⟨Nat.le_refl _, fun _ _ => rfl, Nat.le_refl _, .inl, id, id⟩

theorem trans (h : Evolves d d') (h' : Evolves d' d'') : Evolves d d'' where
  length := Nat.le_trans h.length h'.length
  kind n hn := (h'.kind n (Nat.lt_of_lt_of_le hn h.length)).trans (h.kind n hn)
  nextListener := Nat.le_trans h.nextListener h'.nextListener
  listeners hl := by
    rcases h'.listeners hl with hl | hnew
    · exact h.listeners hl
    · exact .inr (Nat.le_trans h.nextListener hnew)
  linked hd := h'.linked (h.linked hd)
  heard hd := h'.heard (h.heard hd)

/-- A change that gives no listener to a node. -/
theorem of_fewer (hlength : d.nodes.length ≤ d'.nodes.length)
    (hkind : ∀ n < d.nodes.length, (d'.node n).kind = (d.node n).kind)
    (hnext : d'.nextListener = d.nextListener)
    (hlisteners : ∀ {n l}, l ∈ (d'.node n).listeners → l ∈ (d.node n).listeners)
    (hlinked : d.Linked → d'.Linked) : Evolves d d' :=
  ⟨hlength, hkind, Nat.le_of_eq hnext.symm, fun hl => .inl (hlisteners hl), hlinked,
    fun h => h.mono (Nat.le_of_eq hnext.symm) hlisteners⟩

theorem of_reshapes (h : Reshapes d d') (hlinked : d.Linked → d'.Linked) : Evolves d d' :=
  of_fewer h.length h.kind h.nextListener (fun {n _} hl => h.listeners n ▸ hl) hlinked

/-! ### The tree -/

theorem add (d : Document) {node : Node} (hlisteners : node.listeners = [])
    (hchildren : node.children = []) : Evolves d (d.add node) :=
  of_reshapes (.add d hlisteners) fun h => h.add hchildren

theorem remove (d : Document) (parent child : NodeId) : Evolves d (d.remove parent child).1 :=
  of_reshapes (.remove d parent child) fun h => h.remove parent child

theorem takeChildren (d : Document) (n : NodeId) : Evolves d (d.takeChildren n) :=
  of_reshapes (.takeChildren d n) fun h => h.takeChildren n

theorem append (d : Document) (parent child : NodeId) : Evolves d (d.append parent child) :=
  of_reshapes (.append d parent child) fun h => h.append parent child

theorem setText (d : Document) (n : NodeId) (content : String) : Evolves d (d.setText n content) :=
  of_reshapes (.setText d n content) fun h => h.setText n content

theorem setMarkup {markup : String} (h : d.setMarkup n markup = .ok d') : Evolves d d' :=
  of_reshapes (.setMarkup h) fun hd => hd.setMarkup h

theorem showMarkup (d : Document) (n : NodeId) (markup : String) :
    Evolves d (d.showMarkup n markup) :=
  of_reshapes (.showMarkup d n markup) fun h => h.showMarkup n markup

theorem plantAll (d : Document) (parent : NodeId) (trees : List Markup.Tree) :
    Evolves d (Document.plantAll parent trees d) :=
  of_reshapes (.plantAll trees parent d) fun h => h.plantAll trees parent

theorem parse {markup : String} (h : d.parse markup = .ok d') : Evolves d d' := by
  obtain ⟨trees, rfl⟩ := eq_planted_of_parse h
  have hadded : Evolves d (d.add (.new .fragment)) := add d rfl rfl
  exact hadded.trans (plantAll _ _ trees)

theorem gathered (d : Document) (root : NodeId) : Evolves d (d.gathered root) := by
  have hadded : Evolves d (d.add (.new .fragment)) := add d rfl rfl
  refine (hadded.trans (takeChildren _ root)).trans ?_
  exact of_reshapes (.foldl (fun d m => .append d _ m) _ _) fun h => h.appendAll _ _

/-! ### Attributes, form values and listeners -/

theorem setAttribute (d : Document) (n : NodeId) (key content : String) :
    Evolves d (d.setAttribute n key content) := by
  refine of_fewer (Nat.le_of_eq (length_modify ..).symm)
    (fun m _ => field_modify d n m Node.kind fun _ => rfl) rfl (fun {m l} hl => ?_)
    fun h => h.modify n (fun _ => rfl) (fun _ => rfl) fun _ => rfl
  have hsame : ((d.setAttribute n key content).node m).listeners = (d.node m).listeners :=
    field_modify d n m Node.listeners fun _ => rfl
  rwa [hsame] at hl

theorem setValue (d : Document) (n : NodeId) (content : String) :
    Evolves d (d.setValue n content) :=
  of_reshapes (.setValue d n content) fun h =>
    h.modify n (fun _ => rfl) (fun _ => rfl) fun _ => rfl

theorem unlisten (d : Document) (n : NodeId) (listener : ListenerId) :
    Evolves d (d.unlisten n listener) := by
  refine of_fewer (Nat.le_of_eq (length_modify ..).symm)
    (fun m _ => field_modify d n m Node.kind fun _ => rfl) rfl (fun {m l} hl => ?_)
    fun h => h.modify n (fun _ => rfl) (fun _ => rfl) fun _ => rfl
  rw [Document.unlisten, node_modify_ite] at hl
  split at hl
  · exact (List.mem_filter.1 hl).1
  · exact hl

theorem dropListeners (d : Document) (listeners : List (NodeId × ListenerId)) :
    Evolves d (World.dropListeners d listeners) := by
  unfold World.dropListeners
  induction listeners generalizing d with
  | nil => exact refl d
  | cons first listeners ih => exact (unlisten d first.1 first.2).trans (ih _)

/-- The listeners of a node after one was added to another. -/
theorem mem_listen {event : String} {handler : Handler} {m : NodeId} {l : Listener}
    (hl : l ∈ ((d.listen n event handler).node m).listeners) :
    l ∈ (d.node m).listeners ∨ m = n ∧ l.id = d.nextListener := by
  have hnode : (d.listen n event handler).node m =
      (d.modify n fun node => { node with
        listeners := node.listeners ++ [⟨d.nextListener, event, handler⟩] }).node m := rfl
  rw [hnode, node_modify_ite] at hl
  split at hl
  · rename_i hm
    rcases List.mem_append.1 hl with hold | hnew
    · exact .inl hold
    · exact .inr ⟨hm.1, by rw [List.mem_singleton.1 hnew]⟩
  · exact .inl hl

theorem listen (d : Document) (n : NodeId) (event : String) (handler : Handler) :
    Evolves d (d.listen n event handler) where
  length := Nat.le_of_eq (length_modify ..).symm
  kind m _ := field_modify d n m Node.kind fun _ => rfl
  nextListener := Nat.le_succ _
  listeners hl := by
    rcases mem_listen hl with hold | ⟨-, hnew⟩
    · exact .inl hold
    · exact .inr (Nat.le_of_eq hnew.symm)
  linked h := by
    have hmodified : (d.modify n fun node => { node with
        listeners := node.listeners ++ [⟨d.nextListener, event, handler⟩] }).Linked :=
      h.modify n (fun _ => rfl) (fun _ => rfl) fun _ => rfl
    exact ⟨hmodified.nodup, hmodified.kind, hmodified.parent⟩
  heard h := by
    refine ⟨fun hl => ?_, fun {m m' l l'} hl hl' heq => ?_⟩
    · rcases mem_listen hl with hold | ⟨-, hnew⟩
      · exact Nat.lt_succ_of_lt (h.below hold)
      · exact hnew ▸ Nat.lt_succ_self _
    · rcases mem_listen hl with hold | ⟨rfl, hnew⟩ <;>
        rcases mem_listen hl' with hold' | ⟨rfl, hnew'⟩
      · exact h.single hold hold' heq
      · exact absurd (h.below hold) (by rw [heq, hnew']; exact Nat.lt_irrefl _)
      · exact absurd (h.below hold') (by rw [← heq, hnew]; exact Nat.lt_irrefl _)
      · rfl

end Evolves

end DataBinding.Document
