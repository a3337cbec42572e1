import DataBinding.Proofs.Rendering.Apart

/-!
# Views that are bound to data

`Bound` says what a view relies on between any two moments at which its
watchers are told something: they begin at the data root, which leads to
reactive properties only, and no two of them keep the same part of the
document, but for the placeholders of one text. `Shows` is about one
watcher: the part that it keeps shows the value that it remembers.
-/

namespace DataBinding

open World

variable {data : ObjectId} {view : ViewId} {lo : NodeId} {w w' : World} {x y : WatcherId}

/-! ## The watchers of a view -/

/-- What the watchers of a view are for. -/
structure Wired (data : ObjectId) (view : ViewId) (lo : NodeId) (w : World) : Prop where
  base : lo ≤ w.document.nodes.length
  rooted : ∀ x ∈ (w.view view).watchers, (w.watcher x).data = data
  kept : ∀ x ∈ (w.view view).watchers, (w.watcher x).disposed = false
  fits : ∀ x ∈ (w.view view).watchers, (w.watcher x).reaction.Fits w.document lo
  rendered : ∀ x ∈ (w.view view).watchers, ∀ node parsed root,
    (w.watcher x).reaction = .template node parsed root → root = data
  separate : ∀ x ∈ (w.view view).watchers, ∀ y ∈ (w.view view).watchers,
    (w.watcher y).reaction.target? = (w.watcher x).reaction.target? → y = x ∨
      (w.watcher y).reaction = (w.watcher x).reaction ∧
        (w.watcher x).reaction.isTemplate = true

/-- Every placeholder of a text has a watcher. -/
def Complete (view : ViewId) (w : World) : Prop :=
  ∀ x ∈ (w.view view).watchers, ∀ node parsed root,
    (w.watcher x).reaction = .template node parsed root →
    ∀ path, .placeholder path ∈ parsed.segments →
      ∃ y ∈ (w.view view).watchers,
        (w.watcher y).reaction = (w.watcher x).reaction ∧ (w.watcher y).path = path

/-- The watchers of a view are for the same, whatever they remember. -/
structure SameWiring (view : ViewId) (w w' : World) : Prop where
  watchers : ∀ x ∈ (w.view view).watchers, ∃ value dependencies handles,
    w'.watcher x = { w.watcher x with value, dependencies, handles }
  view : w'.view view = w.view view

namespace SameWiring

theorem refl (view : ViewId) (w : World) : SameWiring view w w :=
  ⟨fun _ _ => ⟨_, _, _, rfl⟩, rfl⟩

theorem trans {w'' : World} (h : SameWiring view w w') (h' : SameWiring view w' w'') :
    SameWiring view w w'' := by
  refine ⟨fun x hx => ?_, h'.view.trans h.view⟩
  obtain ⟨v, ds, handles, hwatcher⟩ := h.watchers x hx
  obtain ⟨v', ds', handles', hwatcher'⟩ := h'.watchers x (h.view ▸ hx)
  exact ⟨v', ds', handles', by rw [hwatcher', hwatcher]⟩

theorem reaction (h : SameWiring view w w') (hx : x ∈ (w.view view).watchers) :
    (w'.watcher x).reaction = (w.watcher x).reaction := by
  obtain ⟨v, ds, handles, hwatcher⟩ := h.watchers x hx
  rw [hwatcher]

theorem path (h : SameWiring view w w') (hx : x ∈ (w.view view).watchers) :
    (w'.watcher x).path = (w.watcher x).path := by
  obtain ⟨v, ds, handles, hwatcher⟩ := h.watchers x hx
  rw [hwatcher]

theorem query (h : SameWiring view w w') (hx : x ∈ (w.view view).watchers) :
    (w'.watcher x).query = (w.watcher x).query := by
  obtain ⟨v, ds, handles, hwatcher⟩ := h.watchers x hx
  rw [hwatcher]
  rfl

theorem of_aside (h : Aside data view w w') : SameWiring view w w' := by
  refine ⟨fun x hx => ?_, h.view⟩
  obtain ⟨handles, hwatcher⟩ := h.watchers x hx
  exact ⟨_, _, handles, hwatcher⟩

end SameWiring

theorem Wired.next {inner value : NodeId → Prop} (h : Wired data view lo w)
    (hsame : SameWiring view w w') (halters : w.document.Alters inner value w'.document) :
    Wired data view lo w' where
  base := Nat.le_trans h.base halters.length
  rooted x hx := by
    rw [hsame.view] at hx
    obtain ⟨v, ds, handles, hwatcher⟩ := hsame.watchers x hx
    rw [hwatcher]
    exact h.rooted x hx
  kept x hx := by
    rw [hsame.view] at hx
    obtain ⟨v, ds, handles, hwatcher⟩ := hsame.watchers x hx
    rw [hwatcher]
    exact h.kept x hx
  fits x hx := by
    rw [hsame.view] at hx
    rw [hsame.reaction hx]
    exact (h.fits x hx).frame halters h.base
  rendered x hx := by
    rw [hsame.view] at hx
    rw [hsame.reaction hx]
    exact h.rendered x hx
  separate x hx y hy := by
    rw [hsame.view] at hx hy
    rw [hsame.reaction hx, hsame.reaction hy]
    exact h.separate x hx y hy

theorem Complete.next (h : Complete view w) (hsame : SameWiring view w w') :
    Complete view w' := by
  intro x hx node parsed root hreaction path hpath
  rw [hsame.view] at hx
  rw [hsame.reaction hx] at hreaction
  obtain ⟨y, hy, hsameReaction, hywatches⟩ := h x hx node parsed root hreaction path hpath
  refine ⟨y, hsame.view ▸ hy, ?_, ?_⟩
  · rw [hsame.reaction hy, hsame.reaction hx, hsameReaction]
  · rw [hsame.path hy, hywatches]

/-! ## Bound views -/

/-- A view whose data is reactive, while no evaluation is open. -/
structure Bound (data : ObjectId) (view : ViewId) (lo : NodeId) (w : World) : Prop
    extends Wired data view lo w where
  ledger : Ledger w
  slot : w.slot = none
  pure : w.Pure
  reactive : ∀ j, w.graph.Leads (· = data) j → w.graph.Reactive j

theorem Bound.next {inner value : NodeId → Prop} (h : Bound data view lo w)
    (hsame : SameWiring view w w') (halters : w.document.Alters inner value w'.document)
    (hdata : SameData data w w') (hledger : Ledger w') (hslot : w'.slot = none)
    (hpure : w'.Pure) : Bound data view lo w' where
  toWired := h.toWired.next hsame halters
  ledger := hledger
  slot := hslot
  pure := hpure
  reactive := hdata.reactive h.reactive

/-- A view keeps its watchers alive. -/
theorem Bound.handles (h : Bound data view lo w) (hx : x ∈ (w.view view).watchers) :
    0 < (w.watcher x).handles := by
  obtain ⟨i, hi⟩ := List.getElem?_of_mem hx
  exact LedgerDiscipline.handles_of_viewed h.ledger hi

/-! ## What a watcher shows -/

/-- The part that a watcher keeps shows the value that it remembers. -/
def Shows (lo : NodeId) (w : World) (x : WatcherId) : Prop :=
  (w.watcher x).reaction.Shown w.document w.graph lo (w.watcher x).value

end DataBinding
