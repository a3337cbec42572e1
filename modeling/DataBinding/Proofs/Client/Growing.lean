import DataBinding.Proofs.Document.Edits
import DataBinding.Proofs.Tracking.Lookup

/-!
# What a write does to the document and to views

Every write of the library either lets the document evolve and adds to
views at most (`Grows`), or disposes of one view, up to who holds it
(`Discards`). Either way a view never lists a listener that is somewhere
else (`Listed`).

`Untracked` and `GivesUp` put this beside what the write does to the
tracking part: nothing, or nothing but the disposal.
-/

namespace DataBinding.World

variable {w w' w'' : World} {v : ViewId}

/-! ## Listeners of views -/

/-- A listener that a view lists is on the node that it is listed with, or
on none. -/
structure Listed (w : World) : Prop where
  heard : w.document.Heard
  below : ∀ {v n id}, (n, id) ∈ (w.view v).listeners → id < w.document.nextListener
  place : ∀ {v n id m l}, (n, id) ∈ (w.view v).listeners → l ∈ (w.document.node m).listeners →
    l.id = id → m = n

theorem Listed.start : Listed World.start :=
  ⟨.empty, fun h => absurd h List.not_mem_nil, fun h => absurd h List.not_mem_nil⟩

/-- The document evolves, and views list nothing that they did not list. -/
theorem Listed.next (h : w.Listed) (hd : w.document.Evolves w'.document)
    (hviews : ∀ v, ((w'.view v).listeners) ⊆ (w.view v).listeners) : w'.Listed where
  heard := hd.heard h.heard
  below hid := Nat.lt_of_lt_of_le (h.below (hviews _ hid)) hd.nextListener
  place {v n id m l} hid hl heq := by
    rcases hd.listeners hl with hold | hnew
    · exact h.place (hviews _ hid) hold heq
    · exact absurd (h.below (hviews _ hid)) (Nat.not_lt.2 (heq ▸ hnew))

/-! ## Growing -/

/-- The document evolves, and views only get longer. -/
structure Grows (w w' : World) : Prop where
  document : w.document.Evolves w'.document
  views : w.views.length ≤ w'.views.length
  watching : ∀ v, (w.view v).watchers <+: (w'.view v).watchers
  listening : ∀ v, (w.view v).listeners <+: (w'.view v).listeners
  listed : w.Listed → w'.Listed

namespace Grows

theorem trans (h : Grows w w') (h' : Grows w' w'') : Grows w w'' where
  document := h.document.trans h'.document
  views := Nat.le_trans h.views h'.views
  watching v := (h.watching v).trans (h'.watching v)
  listening v := (h.listening v).trans (h'.listening v)
  listed hw := h'.listed (h.listed hw)

/-- The document evolves, and the views show the same. -/
theorem of_view (hd : w.document.Evolves w'.document) (hviews : w.views.length ≤ w'.views.length)
    (hview : ∀ v, w'.view v = w.view v) : Grows w w' where
  document := hd
  views := hviews
  watching v := (hview v).symm ▸ List.prefix_refl _
  listening v := (hview v).symm ▸ List.prefix_refl _
  listed h := h.next hd fun v => (hview v).symm ▸ List.Subset.refl _

/-- The document evolves, and the views are the same. -/
theorem of_document (hd : w.document.Evolves w'.document) (hviews : w'.views = w.views) :
    Grows w w' :=
  of_view hd (Nat.le_of_eq (by rw [hviews])) fun v => by rw [view, view, hviews]

/-- The document and the views are the same. -/
theorem of_same (hd : w'.document = w.document) (hviews : w'.views = w.views) : Grows w w' :=
  of_document (hd ▸ .refl _) hviews

theorem refl (w : World) : Grows w w :=
  of_same rfl rfl

theorem view_addView (w : World) (v : ViewId) : w.addView.view v = w.view v := by
  rcases Nat.lt_trichotomy v w.views.length with hlt | rfl | hgt
  · simp [view, World.addView, List.getD_eq_getElem?_getD, List.getElem?_append_left hlt]
  · simp [view, World.addView, List.getD_eq_getElem?_getD]
  · have hlength : w.addView.views.length ≤ v := by
      rw [World.addView, List.length_append]
      exact hgt
    rw [view, view, List.getD_eq_getElem?_getD, List.getD_eq_getElem?_getD,
      List.getElem?_eq_none hlength, List.getElem?_eq_none (Nat.le_of_lt hgt)]

theorem addView (w : World) : Grows w w.addView :=
  of_view (.refl _) (by simp [World.addView]) (view_addView w)

/-- The view at a place after one was changed. -/
theorem view_onView_ite (w : World) (view v : ViewId) (change : View → View) :
    (w.onView view change).view v =
      if v = view ∧ v < w.views.length then change (w.view v) else w.view v := by
  by_cases hself : v = view
  · subst hself
    by_cases hv : v < w.views.length
    · simp [World.view, World.onView, List.getD_eq_getElem?_getD, hv]
    · simp [World.view, World.onView, List.getD_eq_getElem?_getD, hv]
  · rw [if_neg fun h => hself h.1]
    simp [World.view, World.onView, List.getD_eq_getElem?_getD, Ne.symm hself]

theorem viewWatches (w : World) (view : ViewId) (x : WatcherId) :
    Grows w (w.viewWatches view x) := by
  have hlisteners : ∀ v, ((w.viewWatches view x).view v).listeners = (w.view v).listeners := by
    intro v
    rw [World.viewWatches, view_onView_ite]
    split
    · rfl
    · rfl
  refine ⟨.refl _, Nat.le_of_eq (List.length_modify ..).symm, fun v => ?_, fun v => ?_,
    fun h => ?_⟩
  · rw [World.viewWatches, view_onView_ite]
    split
    · exact List.prefix_append _ _
    · exact List.prefix_refl _
  · exact (hlisteners v).symm ▸ List.prefix_refl _
  · exact h.next (.refl _) fun v => (hlisteners v).symm ▸ List.Subset.refl _

theorem viewListens (w : World) (view : ViewId) (node : NodeId) (event : String)
    (handler : Handler) : Grows w (w.viewListens view node event handler) := by
  let w' := w.viewListens view node event handler
  have hevolves : w.document.Evolves w'.document := .listen w.document node event handler
  have hview : ∀ v, w'.view v = if v = view ∧ v < w.views.length then
      { w.view v with listeners := (w.view v).listeners ++ [(node, w.document.nextListener)] }
      else w.view v := fun v => view_onView_ite _ view v _
  have hlisteners : ∀ {v n id}, (n, id) ∈ (w'.view v).listeners →
      (n, id) ∈ (w.view v).listeners ∨ n = node ∧ id = w.document.nextListener := by
    intro v n id hid
    rw [hview] at hid
    split at hid
    · rw [List.mem_append, List.mem_singleton] at hid
      exact hid.imp_right fun h => Prod.mk.inj h
    · exact .inl hid
  refine ⟨hevolves, Nat.le_of_eq (List.length_modify ..).symm, fun v => ?_, fun v => ?_,
    fun h => ⟨hevolves.heard h.heard, fun {v n id} hid => ?_, fun {v n id m l} hid hl heq => ?_⟩⟩
  · show (w.view v).watchers <+: (w'.view v).watchers
    rw [hview]
    split
    · exact List.prefix_refl _
    · exact List.prefix_refl _
  · show (w.view v).listeners <+: (w'.view v).listeners
    rw [hview]
    split
    · exact List.prefix_append _ _
    · exact List.prefix_refl _
  · rcases hlisteners hid with hold | ⟨-, rfl⟩
    · exact Nat.lt_of_lt_of_le (h.below hold) hevolves.nextListener
    · exact Nat.lt_succ_self _
  · rcases hlisteners hid with hold | ⟨rfl, rfl⟩ <;>
      rcases Document.Evolves.mem_listen hl with hl | ⟨rfl, hnew⟩
    · exact h.place hold hl heq
    · exact absurd (h.below hold) (by rw [← heq, hnew]; exact Nat.lt_irrefl _)
    · exact absurd (h.heard.below hl) (by rw [heq]; exact Nat.lt_irrefl _)
    · rfl

end Grows

/-! ## Discarding a view -/

/-- Disposing of a view, whoever held it: under names for views and view
models, and as part of a view model. -/
def Discards (view : ViewId) (w w' : World) : Prop :=
  ∃ views modelNames models, w' = { w.disposeView view with
    names := { w.names with views, models := modelNames }
    models }

/-- Who holds a view does not matter for its disposal. -/
theorem dropWatchers_holders (names : Names) (models : List Model) (xs : List WatcherId)
    (w : World) : ({ w with names, models } : World).dropWatchers xs =
      { w.dropWatchers xs with names, models } := by
  induction xs generalizing w with
  | nil => rfl
  | cons x xs ih =>
      have hfirst : (({ w with names, models } : World).dispose x).release (.watcher x) =
          { (w.dispose x).release (.watcher x) with names, models } := by
        have hself : (({ w with names, models } : World).dispose x).watcher x =
            (w.dispose x).watcher x := rfl
        rw [release_watcher, release_watcher, hself]
        split
        · rfl
        · rfl
      rw [World.dropWatchers, List.foldl_cons, hfirst]
      exact ih _

theorem disposeView_holders (names : Names) (models : List Model) (view : ViewId) (w : World) :
    ({ w with names, models } : World).disposeView view =
      { w.disposeView view with names, models } := by
  have hwatchers := dropWatchers_holders names models (w.view view).watchers
    (w.onView view fun _ => ⟨[], []⟩)
  exact congrArg (World.onDocument · (dropListeners · (w.view view).listeners)) hwatchers

theorem discards_of_holders (w : World) (view : ViewId) (views : Keyed ViewId)
    (modelNames : Keyed ModelId) (models : List Model) :
    w.Discards view (({ w with
      names := { w.names with views, models := modelNames }, models } : World).disposeView view) :=
  ⟨views, modelNames, models, disposeView_holders _ _ view w⟩

namespace Discards

theorem disposeView (w : World) (view : ViewId) : w.Discards view (w.disposeView view) :=
  discards_of_holders w view w.names.views w.names.models w.models

theorem dropView {name : String} (h : w.names.views.find? name = some v) :
    w.Discards v (w.dropView name) := by
  rw [World.dropView, h]
  exact discards_of_holders w v _ _ _

theorem nameView {name : String} (h : w.names.views.find? name = some v) (other : ViewId) :
    w.Discards v (w.nameView name other) := by
  rw [World.nameView, h]
  exact discards_of_holders w v _ _ _

/-- The last handle on a view model goes. -/
theorem releaseModel {model : ModelId} (hview : (w.model model).view = v)
    (hhandles : (w.model model).handles ≤ 1) : w.Discards v (w.releaseModel model) := by
  simp only [World.releaseModel, if_pos hhandles, hview]
  exact discards_of_holders w v _ _ _

theorem dropModel {name : String} {model : ModelId} (h : w.names.models.find? name = some model)
    (hview : (w.model model).view = v) (hhandles : (w.model model).handles ≤ 1) :
    w.Discards v (w.dropModel name) := by
  rw [World.dropModel, h]
  have hlast : ((w.onNames fun names => { names with models := names.models.erase name }).model
      model).handles ≤ 1 := hhandles
  simp only [giveUp, World.releaseModel, if_pos hlast]
  rw [show ((w.onNames fun names => { names with models := names.models.erase name }).model
    model).view = v from hview]
  exact discards_of_holders w v _ _ _

theorem nameModel {name : String} {model : ModelId} (h : w.names.models.find? name = some model)
    (hview : (w.model model).view = v) (hhandles : (w.model model).handles ≤ 1)
    (other : ModelId) : w.Discards v (w.nameModel name other) := by
  rw [World.nameModel, h]
  have hlast : ((w.onNames fun names => { names with models := names.models.put name other }).model
      model).handles ≤ 1 := hhandles
  simp only [giveUp, World.releaseModel, if_pos hlast]
  rw [show ((w.onNames fun names => { names with models := names.models.put name other }).model
    model).view = v from hview]
  exact discards_of_holders w v _ _ _

/-! ### What is left of it -/

theorem dropWatchers_frame (xs : List WatcherId) (w : World) :
    (w.dropWatchers xs).document = w.document ∧ (w.dropWatchers xs).views = w.views := by
  induction xs generalizing w with
  | nil => exact ⟨rfl, rfl⟩
  | cons x xs ih =>
      obtain ⟨hdocument, hviews⟩ := ih ((w.dispose x).release (.watcher x))
      obtain ⟨-, -, -, hdocument', hviews', -⟩ := release_frame (w.dispose x) x
      exact ⟨hdocument.trans hdocument', hviews.trans hviews'⟩

theorem document (h : w.Discards v w') :
    w'.document = dropListeners w.document (w.view v).listeners := by
  obtain ⟨views, modelNames, models, rfl⟩ := h
  exact congrArg (dropListeners · (w.view v).listeners) (dropWatchers_frame _ _).1

theorem view_eq (h : w.Discards v w') (other : ViewId) :
    w'.view other = if other = v then ⟨[], []⟩ else w.view other := by
  obtain ⟨views, modelNames, models, rfl⟩ := h
  have hview : (w.disposeView v).view other = (w.onView v fun _ => ⟨[], []⟩).view other := by
    rw [view, view]
    exact congrArg (fun views : List View => views.getD other ⟨[], []⟩) (dropWatchers_frame _ _).2
  refine hview.trans ?_
  rw [Grows.view_onView_ite]
  by_cases hself : other = v
  · rw [if_pos hself]
    split
    · rfl
    · rename_i hout
      have hle : w.views.length ≤ other := Nat.le_of_not_lt fun hlt => hout ⟨hself, hlt⟩
      simp [view, List.getElem?_eq_none hle]
  · rw [if_neg hself, if_neg fun hboth => hself hboth.1]

theorem evolves (h : w.Discards v w') : w.document.Evolves w'.document := by
  rw [h.document]
  exact .dropListeners _ _

theorem listed (h : w.Discards v w') (hw : w.Listed) : w'.Listed :=
  hw.next h.evolves fun other => by
    rw [h.view_eq]
    split
    · exact List.nil_subset _
    · exact List.Subset.refl _

theorem sameTracking (h : w.Discards v w') : SameTracking (w.disposeView v) w' := by
  obtain ⟨views, modelNames, models, rfl⟩ := h
  have hholders := disposeView_holders w.names w.models v w
  have hnames : (w.disposeView v).names = w.names := (congrArg World.names hholders :)
  exact ⟨rfl, rfl, rfl, rfl, by rw [hnames], by rw [hnames], fun _ => rfl⟩

end Discards

/-- What a write does to the document and to views. -/
def Onward (w w' : World) : Prop :=
  w.Grows w' ∨ ∃ v, w.Discards v w'

namespace Onward

theorem document (h : w.Onward w') : w.document.Evolves w'.document := by
  rcases h with h | ⟨v, h⟩
  · exact h.document
  · exact h.evolves

theorem listed (h : w.Onward w') (hw : w.Listed) : w'.Listed := by
  rcases h with h | ⟨v, h⟩
  · exact h.listed hw
  · exact h.listed hw

end Onward

/-! ## Beside the tracking part -/

/-- A write outside the tracking part. It edits the document at some sites
at most, and makes names for these and for a node that is new. -/
structure Untracked (sites : NodeId → Prop) (w w' : World) : Prop
    extends SameTracking w w', Grows w w' where
  edits : w.document.Edits sites w'.document
  named : ∀ {name n}, w'.names.nodes.find? name = some n →
    w.names.nodes.find? name = some n ∨ sites n ∨
      n = w.document.nextNode ∧ n < w'.document.nodes.length

namespace Untracked

variable {sites sites' : NodeId → Prop}

/-- Neither the document nor the names for nodes have changed. -/
theorem of_same (h : SameTracking w w') (hgrows : Grows w w')
    (hdocument : w'.document = w.document) (hnames : w'.names.nodes = w.names.nodes) :
    w.Untracked sites w' :=
  ⟨h, hgrows, hdocument ▸ .refl _, fun hname => .inl (hnames ▸ hname)⟩

theorem mono (h : w.Untracked sites w') (hsites : ∀ n, sites n → sites' n) :
    w.Untracked sites' w' :=
  ⟨h.toSameTracking, h.toGrows, h.edits.mono hsites,
    fun hname => (h.named hname).imp_right (·.imp_left (hsites _))⟩

/-- Naming a node that is new is part of making it. -/
theorem andThen (h : w.Untracked sites w') (h' : w'.Untracked sites' w'')
    (hdocument : w''.document = w'.document) (hsites : ∀ n, sites' n →
      sites n ∨ n = w.document.nextNode ∧ n < w'.document.nodes.length) :
    w.Untracked sites w'' where
  toSameTracking := h.toSameTracking.trans h'.toSameTracking
  toGrows := h.toGrows.trans h'.toGrows
  edits := hdocument ▸ h.edits
  named hname := by
    rw [hdocument]
    rcases h'.named hname with hold | hsite | ⟨rfl, hlt⟩
    · exact h.named hold
    · exact .inr (hsites _ hsite)
    · exact absurd hlt (hdocument ▸ Nat.lt_irrefl _)

theorem trans (h : w.Untracked sites w') (h' : w'.Untracked sites w'')
    (hdocument : w''.document = w'.document) : w.Untracked sites w'' :=
  h.andThen h' hdocument fun _ => .inl

theorem note (w : World) (entry : LogEntry) : w.Untracked sites (w.note entry) :=
  of_same (.note w entry) (.of_same rfl rfl) rfl rfl

theorem clearLog (w : World) : w.Untracked sites { w with log := [] } :=
  of_same (.clearLog w) (.of_same rfl rfl) rfl rfl

theorem noteEvent (w : World) (event : Event)
    (entry : String → Option String → String → LogEntry) :
    w.Untracked sites (w.noteEvent event entry) :=
  of_same (.noteEvent w event entry) (.of_same rfl rfl) rfl rfl

theorem onDocument {change : Document → Document}
    (h : w.document.Edits sites (change w.document)) : w.Untracked sites (w.onDocument change) :=
  ⟨.onDocument w change, .of_document h.evolves rfl, h, .inl⟩

/-- Names other than those of watchers, evaluations and nodes are free. -/
theorem onNames (w : World) {change : Names → Names}
    (hwatchers : (change w.names).watchers = w.names.watchers)
    (hevaluations : (change w.names).evaluations = w.names.evaluations)
    (hnodes : (change w.names).nodes = w.names.nodes) : w.Untracked sites (w.onNames change) :=
  of_same (.onNames w hwatchers hevaluations) (.of_same rfl rfl) rfl hnodes

theorem nameNode (w : World) (name : String) {n : NodeId} (hn : sites n) :
    w.Untracked sites (w.nameNode name n) where
  toSameTracking := .onNames w rfl rfl
  toGrows := .of_same rfl rfl
  edits := .refl _
  named {other m} hname := by
    have hput : (w.names.nodes.put name n).find? other = some m := hname
    rw [Keyed.find?_put] at hput
    split at hput
    · obtain rfl := Option.some.inj hput
      exact .inr (.inl hn)
    · exact .inl hput

/-- A node that is new gets a name. -/
theorem nameNext (h : w.Untracked sites w') (name : String)
    (hnext : w.document.nextNode < w'.document.nodes.length) :
    w.Untracked sites (w'.nameNode name w.document.nextNode) := by
  have hnamed : w'.Untracked (· = w.document.nextNode) (w'.nameNode name w.document.nextNode) :=
    nameNode w' name rfl
  exact h.andThen hnamed rfl fun n hn => .inr ⟨hn, hn ▸ hnext⟩

theorem onClient (w : World) (id : Nat) (change : Client → Client) :
    w.Untracked sites (w.onClient id change) :=
  of_same (.onClient w id change) (.of_same rfl rfl) rfl rfl

theorem addClient (w : World) (name : String) (body : List Step) :
    w.Untracked sites (w.addClient name body) :=
  of_same (.addClient w name body) (.of_same rfl rfl) rfl rfl

/-- What a name for a subscriber stood for is given up. -/
theorem giveUpClient (w : World) (clients : Keyed Nat) (former : Option Nat) :
    w.Untracked sites ((w.onNames fun names => { names with clients }).giveUp former
      fun w id => w.release (.client id)) := by
  have hnames : w.Untracked sites (w.onNames fun names => { names with clients }) :=
    onNames w rfl rfl rfl
  cases former with
  | none => exact hnames
  | some id => exact hnames.trans (onClient _ id _) rfl

theorem nameClient (w : World) (name : String) (id : Nat) :
    w.Untracked sites (w.nameClient name id) :=
  giveUpClient w _ _

/-- A subscriber is made and named. -/
theorem newClient (w : World) (name : String) (body : List Step) (id : Nat) :
    w.Untracked sites ((w.addClient name body).nameClient name id) := by
  refine (addClient w name body).trans (nameClient _ name id) ?_
  unfold World.nameClient
  cases (w.addClient name body).names.clients.find? name with
  | none => rfl
  | some former => rfl

theorem dropClient (w : World) (name : String) : w.Untracked sites (w.dropClient name) :=
  giveUpClient w _ _

theorem onModel (w : World) (id : ModelId) (change : Model → Model) :
    w.Untracked sites (w.onModel id change) :=
  of_same (.onModel w id change) (.of_same rfl rfl) rfl rfl

theorem addModel (w : World) (context : Context) (element : NodeId) (view : ViewId) :
    w.Untracked sites (w.addModel context element view) :=
  of_same (.addModel w context element view) (.of_same rfl rfl) rfl rfl

theorem viewListens (w : World) (view : ViewId) (node : NodeId) (event : String)
    (handler : Handler) : w.Untracked sites (w.viewListens view node event handler) :=
  ⟨.viewListens w view node event handler, .viewListens w view node event handler,
    .listen w.document node event handler, .inl⟩

theorem openCompilation (w : World) (root : NodeId) :
    w.Untracked sites (w.openCompilation root) :=
  have hgathered : Grows w (w.onDocument (·.gathered root)) :=
    .of_document (.gathered w.document root) rfl
  ⟨.openCompilation w root, hgathered.trans (.addView _), .gathered root, .inl⟩

end Untracked

/-- A write that disposes of a view, or of none, and is otherwise outside
the tracking part. -/
def GivesUp (w w' : World) : Prop :=
  w.Untracked (fun _ => False) w' ∨ ∃ v, w.Discards v w'

namespace GivesUp

theorem tornDown (h : w.GivesUp w') : w.TornDown w' := by
  rcases h with h | ⟨v, h⟩
  · exact .inl h.toSameTracking
  · exact .inr ⟨v, h.sameTracking⟩

theorem onward (h : w.GivesUp w') : w.Onward w' :=
  h.imp_left (·.toGrows)

theorem disposeView (w : World) (view : ViewId) : w.GivesUp (w.disposeView view) :=
  .inr ⟨view, .disposeView w view⟩

/-- A name for a view comes to stand for something else. -/
theorem giveUpView (w : World) (views : Keyed ViewId) (former : Option ViewId) :
    w.GivesUp ((w.onNames fun names => { names with views }).giveUp former World.disposeView) := by
  have hnames : w.Untracked (fun _ => False) (w.onNames fun names => { names with views }) :=
    .onNames w rfl rfl rfl
  cases former with
  | none => exact .inl hnames
  | some v => exact .inr ⟨v, discards_of_holders w v _ _ _⟩

theorem nameView (w : World) (name : String) (view : ViewId) : w.GivesUp (w.nameView name view) :=
  giveUpView w _ _

theorem dropView (w : World) (name : String) : w.GivesUp (w.dropView name) :=
  giveUpView w _ _

/-- A name for a view model comes to stand for something else. -/
theorem giveUpModel (w : World) (models : Keyed ModelId) (former : Option ModelId) :
    w.GivesUp
      ((w.onNames fun names => { names with models }).giveUp former World.releaseModel) := by
  have hnames : w.Untracked (fun _ => False) (w.onNames fun names => { names with models }) :=
    .onNames w rfl rfl rfl
  cases former with
  | none => exact .inl hnames
  | some model =>
      simp only [giveUp, World.releaseModel]
      split
      · exact .inr ⟨_, discards_of_holders w _ _ _ _⟩
      · exact .inl (hnames.trans (.onModel _ model _) rfl)

theorem nameModel (w : World) (name : String) (model : ModelId) :
    w.GivesUp (w.nameModel name model) :=
  giveUpModel w _ _

theorem dropModel (w : World) (name : String) : w.GivesUp (w.dropModel name) :=
  giveUpModel w _ _

theorem releaseModel (w : World) (model : ModelId) : w.GivesUp (w.releaseModel model) := by
  simp only [World.releaseModel]
  split
  · exact .inr ⟨_, discards_of_holders w _ _ _ _⟩
  · exact .inl (.onModel w model _)

end GivesUp

end DataBinding.World
