import DataBinding.Proofs.Compiling.Sites
import DataBinding.Proofs.Rendering.Bound

/-!
# What compiling installs

`Installs` is what a stretch of a compilation has done: the watchers and
listeners that it has added to the view, each for a path and a reaction
or an event and a handler that were asked for, in order. Each of the
watchers has the value that its path gives, and each part of the document
that one of them keeps shows the value of such a watcher. What a text
renders to, and what it depends on, is known of accessors that are
functions of what they read.
Nothing else has changed: neither the data, nor what was watched before,
nor the content of other nodes.
-/

namespace DataBinding

open World

variable {data : ObjectId} {view : ViewId} {lo : NodeId} {w w' w'' : World}

/-! ## A new watcher -/

/-- A watcher of a data root, whose value is what its path gives. Where
accessors are functions of what they read, its path yields it. -/
structure World.Found (w : World) (data : ObjectId) (x : WatcherId) : Prop where
  rooted : (w.watcher x).data = data
  kept : (w.watcher x).disposed = false
  given : ∃ cells, w.graph.Gives (.walk (.object data) (w.watcher x).path.segments)
    (w.watcher x).value cells
  yields : w.Pure → ∃ cells, w.graph.Yields (w.watcher x).query [(w.watcher x).value] cells ∧
    ∀ d, d ∈ (w.watcher x).dependencies ↔ d ∈ w.dependenciesOf cells

theorem World.Found.frame {x : WatcherId} (h : w.Found data x)
    (hobjects : w'.graph.objects = w.graph.objects) (hwatcher : w'.watcher x = w.watcher x) :
    w'.Found data x := by
  refine ⟨by rw [hwatcher, h.rooted], by rw [hwatcher, h.kept], ?_, fun hpure => ?_⟩
  · obtain ⟨cells, hgives⟩ := h.given
    exact ⟨cells, hwatcher ▸ hgives.of_objects hobjects⟩
  obtain ⟨cells, hyields, hdependencies⟩ := h.yields (hpure.of_objects hobjects.symm)
  refine ⟨cells, ?_, fun d => ?_⟩
  · rw [hwatcher]
    exact hyields.of_objects hobjects
  · rw [hwatcher, dependenciesOf_eq hobjects]
    exact hdependencies d

/-- One watcher more, and nothing else that matters. -/
structure Creates (data : ObjectId) (path : Path) (r : Reaction) (w w' : World) : Prop where
  objects : w'.graph.objects = w.graph.objects
  slot : w'.slot = none
  older : ∀ x < w.watchers.length, w'.watcher x = w.watcher x
  length : w'.watchers.length = w.watchers.length + 1
  views : w'.views = w.views
  document : w'.document = w.document
  path : (w'.watcher w.nextWatcher).path = path
  reaction : (w'.watcher w.nextWatcher).reaction = r
  found : w'.Found data w.nextWatcher

theorem reaches_createWatcher {path : Path} {r : Reaction} {result : Except Error WatcherId}
    (hslot : w.slot = none) (hw : w.OnlyAsks)
    (h : Reaches ⟨w, createWatcher data path r⟩ ⟨w', .done result⟩) :
    result = .ok w.nextWatcher ∧ Creates data path r w w' := by
  let added := w.addWatcher data path r
  let x := w.nextWatcher
  obtain ⟨next, hbegin, hnext⟩ : ∃ next : Except Error Value → Proc (Except Error WatcherId),
      Passes ⟨w, createWatcher data path r⟩ [] ⟨added, evaluateWatcher x >>= next⟩ ∧
        ∀ value, next (.ok value) = (do
          rememberValue x value
          pure (.ok x)) :=
    ⟨_, .bind_nil (.ask _) (.bind_nil (.modify _) (.here _)), fun _ => rfl⟩
  obtain ⟨answer, u, hevaluate, hrest⟩ := (Reaches.through hbegin h rfl).of_bind
  have hfree : added.slot = none := hslot
  have hasks : added.OnlyAsks := hw.of_objects rfl
  obtain ⟨v, cells, rfl, rfl, ⟨looked, hgives⟩, hyields⟩ :=
    reaches_evaluateWatcher hfree hasks hevaluate
  rw [hnext] at hrest
  have hlast : Passes ⟨added.evaluated x cells, do
      rememberValue x v
      pure (.ok x : Except Error WatcherId)⟩ [] ⟨added.remembered x cells v, .done (.ok x)⟩ :=
    .bind_nil (.modify _) (.here _)
  obtain ⟨rfl, rfl⟩ := Reaches.result hlast hrest
  have hlength : added.watchers.length = w.watchers.length + 1 := List.length_append
  have hlt : x < added.watchers.length := hlength ▸ Nat.lt_succ_self _
  have hadded : added.watcher x = ⟨data, path, r, .undefined, [], false, 1⟩ := by
    rw [watcher_addWatcher, if_pos rfl]
  obtain ⟨ds, hevaluated, hds⟩ := watcher_evaluated hlt cells
  rw [hadded] at hevaluated
  have hself : (added.remembered x cells v).watcher x = ⟨data, path, r, v, ds, false, 1⟩ := by
    refine (watcher_onWatcher_self ((length_evaluated ..).symm ▸ hlt) _).trans ?_
    rw [hevaluated]
  obtain ⟨hviews, hdocument⟩ := views_evaluated added x cells
  have hobjects : (added.remembered x cells v).graph.objects = w.graph.objects :=
    objects_evaluated added x cells
  have hquery : (added.watcher x).query = .walk (.object data) path.segments := by
    rw [hadded]
    rfl
  rw [hquery] at hyields
  refine ⟨rfl, hobjects, rfl, fun y hy => ?_, ?_, hviews, hdocument,
    congrArg Watcher.path hself, congrArg Watcher.reaction hself, congrArg Watcher.data hself,
    congrArg Watcher.disposed hself, ⟨looked, ?_⟩, fun hpure => ⟨cells, ?_, fun d => ?_⟩⟩
  · have hne : y ≠ x := Nat.ne_of_lt hy
    refine (watcher_of_ne hne _ _).trans ((watcher_evaluated_of_ne hne added cells).trans ?_)
    rw [watcher_addWatcher, if_neg hne]
  · exact (List.length_modify ..).trans ((length_evaluated ..).trans hlength)
  · rw [hself]
    rw [hadded] at hgives
    exact hgives.of_objects hobjects
  · rw [hself]
    exact (hyields (hpure.of_objects hobjects.symm)).of_objects hobjects
  · rw [hself, dependenciesOf_eq hobjects]
    exact hds d

/-! ## Stretches of a compilation -/

/-- What a reaction is for: a path, and what is done about its value. -/
abbrev Watch := Path × Reaction

/-- What a listener is for: a node, an event, and its handler. -/
abbrev Hearing := NodeId × String × Handler

/-- Some of the reactions keep a part of the document. -/
def Keeps (ps : List Watch) (part : NodeId × Bool) : Prop :=
  ∃ p ∈ ps, p.2.target? = some part

theorem Keeps.of_append {ps ps' : List Watch} {part : NodeId × Bool} :
    Keeps (ps ++ ps') part ↔ Keeps ps part ∨ Keeps ps' part := by
  simp only [Keeps, List.mem_append, or_and_right, exists_or]

/-- When something may be installed for a view. -/
structure Ready (view : ViewId) (lo : NodeId) (w : World) : Prop where
  slot : w.slot = none
  asks : w.OnlyAsks
  view : view < w.views.length
  base : lo ≤ w.document.nodes.length

/-- Watchers `xs` and listeners `es` were added to a view for `ps` and `ls`,
and no content was changed but what they keep. -/
structure Adds (data : ObjectId) (view : ViewId) (lo : NodeId) (ps : List Watch)
    (ls : List Hearing) (xs : List WatcherId) (es : List (NodeId × Listener)) (w w' : World) :
    Prop where
  objects : w'.graph.objects = w.graph.objects
  slot : w'.slot = none
  views : w'.views.length = w.views.length
  alters : w.document.Alters (fun n => Keeps ps (n, false)) (fun n => Keeps ps (n, true))
    w'.document
  older : ∀ x < w.watchers.length, w'.watcher x = w.watcher x
  length : w.watchers.length ≤ w'.watchers.length
  newer : ∀ x ∈ xs, w.watchers.length ≤ x ∧ x < w'.watchers.length
  watching : (w'.view view).watchers = (w.view view).watchers ++ xs
  watches : xs.map (fun x => ((w'.watcher x).path, (w'.watcher x).reaction)) = ps
  fits : ∀ x ∈ xs, (w'.watcher x).reaction.Fits w'.document lo
  found : ∀ x ∈ xs, w'.Found data x
  listening : (w'.view view).listeners = (w.view view).listeners ++ es.map fun e => (e.1, e.2.id)
  hears : es.map (fun e => (e.1, e.2.event, e.2.handler)) = ls
  heard : ∀ e ∈ es, e.1 < w'.document.nodes.length ∧ e.2 ∈ (w'.document.node e.1).listeners

/-- The same, and the parts that are kept show values of those watchers;
texts do where accessors are functions of what they read. -/
structure Installs (data : ObjectId) (view : ViewId) (lo : NodeId) (ps : List Watch)
    (ls : List Hearing) (xs : List WatcherId) (es : List (NodeId × Listener)) (w w' : World) :
    Prop extends Adds data view lo ps ls xs es w w' where
  shown : ∀ part, Keeps ps part → ∃ x ∈ xs, (w'.watcher x).reaction.target? = some part ∧
    (((w'.watcher x).reaction.isTemplate = true → w'.Pure) → Shows lo w' x)

section

variable {ps ps' : List Watch} {ls ls' : List Hearing} {xs xs' : List WatcherId}
  {es es' : List (NodeId × Listener)}

theorem Ready.next (h : Ready view lo w) (hadds : Adds data view lo ps ls xs es w w') :
    Ready view lo w' :=
  ⟨hadds.slot, h.asks.of_objects hadds.objects, hadds.views ▸ h.view,
    Nat.le_trans h.base hadds.alters.length⟩

/-- A reaction that was asked for is that of a watcher. -/
theorem Adds.watcher (h : Adds data view lo ps ls xs es w w') {p : Watch} (hp : p ∈ ps) :
    ∃ x ∈ xs, (w'.watcher x).path = p.1 ∧ (w'.watcher x).reaction = p.2 := by
  rw [← h.watches] at hp
  obtain ⟨x, hx, rfl⟩ := List.mem_map.1 hp
  exact ⟨x, hx, rfl, rfl⟩

/-- A watcher is there for a reaction that was asked for. -/
theorem Adds.asked (h : Adds data view lo ps ls xs es w w') {x : WatcherId} (hx : x ∈ xs) :
    ((w'.watcher x).path, (w'.watcher x).reaction) ∈ ps :=
  h.watches ▸ List.mem_map_of_mem hx

/-- What is kept stood there before anything was planted. -/
theorem Adds.keeps_lt (h : Adds data view lo ps ls xs es w w') {n : NodeId} {form : Bool}
    (hkeeps : Keeps ps (n, form)) : n < lo := by
  obtain ⟨p, hp, htarget⟩ := hkeeps
  obtain ⟨x, hx, -, hreaction⟩ := h.watcher hp
  exact (h.fits x hx).lt (hreaction ▸ htarget)

theorem Adds.refl (data : ObjectId) (view : ViewId) (lo : NodeId) (hslot : w.slot = none) :
    Adds data view lo [] [] [] [] w w where
  objects := rfl
  slot := hslot
  views := rfl
  alters := .refl _
  older _ _ := rfl
  length := Nat.le_refl _
  newer _ hx := absurd hx List.not_mem_nil
  watching := (List.append_nil _).symm
  watches := rfl
  fits _ hx := absurd hx List.not_mem_nil
  found _ hx := absurd hx List.not_mem_nil
  listening := (List.append_nil _).symm
  hears := rfl
  heard _ he := absurd he List.not_mem_nil

theorem Installs.refl (data : ObjectId) (view : ViewId) (lo : NodeId) (hslot : w.slot = none) :
    Installs data view lo [] [] [] [] w w where
  toAdds := .refl data view lo hslot
  shown _ h := absurd h fun ⟨_, hp, _⟩ => List.not_mem_nil hp

/-- One stretch after another. -/
theorem Adds.trans (hlo : lo ≤ w.document.nodes.length) (h : Adds data view lo ps ls xs es w w')
    (h' : Adds data view lo ps' ls' xs' es' w' w'') :
    Adds data view lo (ps ++ ps') (ls ++ ls') (xs ++ xs') (es ++ es') w w'' := by
  have hsame : ∀ x ∈ xs, w''.watcher x = w'.watcher x := fun x hx => h'.older x (h.newer x hx).2
  refine {
    objects := h'.objects.trans h.objects
    slot := h'.slot
    views := h'.views.trans h.views
    alters := ?_
    older := fun x hx => (h'.older x (Nat.lt_of_lt_of_le hx h.length)).trans (h.older x hx)
    length := Nat.le_trans h.length h'.length
    newer := fun x hx => ?_
    watching := by rw [h'.watching, h.watching, List.append_assoc]
    watches := ?_
    fits := fun x hx => ?_
    found := fun x hx => ?_
    listening := by rw [h'.listening, h.listening, List.append_assoc, List.map_append]
    hears := by rw [List.map_append, h.hears, h'.hears]
    heard := fun e he => ?_ }
  · exact (h.alters.mono (fun _ _ hk => Keeps.of_append.2 (.inl hk))
      fun _ _ hk => Keeps.of_append.2 (.inl hk)).trans
        (h'.alters.mono (fun _ _ hk => Keeps.of_append.2 (.inr hk))
          fun _ _ hk => Keeps.of_append.2 (.inr hk))
  · rcases List.mem_append.1 hx with hx | hx
    · exact ⟨(h.newer x hx).1, Nat.lt_of_lt_of_le (h.newer x hx).2 h'.length⟩
    · exact ⟨Nat.le_trans h.length (h'.newer x hx).1, (h'.newer x hx).2⟩
  · rw [List.map_append, h'.watches, ← h.watches]
    exact congrArg (· ++ ps') (List.map_congr_left fun x hx => by rw [hsame x hx])
  · rcases List.mem_append.1 hx with hx | hx
    · rw [hsame x hx]
      exact (h.fits x hx).frame h'.alters (Nat.le_trans hlo h.alters.length)
    · exact h'.fits x hx
  · rcases List.mem_append.1 hx with hx | hx
    · exact (h.found x hx).frame h'.objects (hsame x hx)
    · exact h'.found x hx
  · rcases List.mem_append.1 he with he | he
    · obtain ⟨hlt, hmem⟩ := h.heard e he
      exact ⟨Nat.lt_of_lt_of_le hlt h'.alters.length, h'.alters.listeners e.1 hlt e.2 hmem⟩
    · exact h'.heard e he

/-- What the watchers keep is altered once they are all there. -/
theorem Adds.redraw (hlo : lo ≤ w.document.nodes.length) {d : Document}
    (h : Adds data view lo ps ls xs es w w')
    (halters : w'.document.Alters (fun n => Keeps ps (n, false)) (fun n => Keeps ps (n, true)) d) :
    Adds data view lo ps ls xs es w { w' with document := d } :=
  { h with
    alters := h.alters.trans halters
    fits := fun x hx => (h.fits x hx).frame halters (Nat.le_trans hlo h.alters.length)
    heard := fun e he => ⟨Nat.lt_of_lt_of_le (h.heard e he).1 halters.length,
      halters.listeners e.1 (h.heard e he).1 e.2 (h.heard e he).2⟩
    found := fun x hx => (h.found x hx).frame rfl rfl }

/-- What is shown stays shown, unless something else is shown instead. -/
theorem Installs.trans (hlo : lo ≤ w.document.nodes.length)
    (h : Installs data view lo ps ls xs es w w')
    (h' : Installs data view lo ps' ls' xs' es' w' w'') :
    Installs data view lo (ps ++ ps') (ls ++ ls') (xs ++ xs') (es ++ es') w w'' where
  toAdds := h.toAdds.trans hlo h'.toAdds
  shown part hkeeps := by
    by_cases hlater : Keeps ps' part
    · obtain ⟨x, hx, hshown⟩ := h'.shown part hlater
      exact ⟨x, List.mem_append_right _ hx, hshown⟩
    · obtain ⟨x, hx, htarget, hshows⟩ :=
        h.shown part ((Keeps.of_append.1 hkeeps).resolve_right hlater)
      have hsame : w''.watcher x = w'.watcher x := h'.older x (h.newer x hx).2
      refine ⟨x, List.mem_append_left _ hx, by rw [hsame, htarget], fun hpure => ?_⟩
      rw [hsame] at hpure
      have hshown : Shows lo w' x :=
        hshows fun htemplate => (hpure htemplate).of_objects h'.objects.symm
      have hkept : (w'.watcher x).reaction.Shown w''.document w'.graph lo (w'.watcher x).value := by
        refine hshown.frame (h.fits x hx) (Nat.le_trans hlo h.alters.length) h'.alters ?_ ?_ ?_
        · intro n hn hk
          cases htarget.symm.trans hn
          exact hlater hk
        · intro n hn hk
          cases htarget.symm.trans hn
          exact hlater hk
        · exact fun n hn hk => Nat.not_lt.2 hn (h'.keeps_lt hk)
      rw [Shows, hsame]
      refine hkept.of_graph rfl fun node parsed root _ hrenders => ?_
      exact hrenders.agree fun path _ v cells hv =>
        ⟨v, cells, hv.of_objects h'.objects, rfl⟩

end

/-! ## One watcher, one listener -/

theorem view_onView {view : ViewId} (h : view < w.views.length) (change : View → View) :
    (w.onView view change).view view = change (w.view view) := by
  simp [World.view, World.onView, List.getD_eq_getElem?_getD, h]

/-- A new watcher that the view takes over. -/
theorem Creates.adds {path : Path} {r : Reaction} {u : World} {d : Document}
    (h : Creates data path r w u) (hready : Ready view lo w) (hfits : r.Fits w.document lo)
    (halters : w.document.Alters (fun n => Keeps [(path, r)] (n, false))
      (fun n => Keeps [(path, r)] (n, true)) d) :
    Adds data view lo [(path, r)] [] [w.nextWatcher] [] w
      (({ u with document := d } : World).viewWatches view w.nextWatcher) := by
  let after := ({ u with document := d } : World).viewWatches view w.nextWatcher
  have hreaction : (after.watcher w.nextWatcher).reaction = r := h.reaction
  have hview : view < u.views.length := h.views.symm ▸ hready.view
  have hsame : u.view view = w.view view := by rw [World.view, World.view, h.views]
  have hlast : after.view view =
      ⟨(w.view view).watchers ++ [w.nextWatcher], (w.view view).listeners⟩ := by
    refine (view_onView (w := { u with document := d }) hview _).trans ?_
    exact congrArg (fun v : View => (⟨v.watchers ++ [w.nextWatcher], v.listeners⟩ : View)) hsame
  refine {
    objects := h.objects
    slot := h.slot
    views := (List.length_modify ..).trans (congrArg List.length h.views)
    alters := halters
    older := h.older
    length := Nat.le_trans (Nat.le_succ _) (Nat.le_of_eq h.length.symm)
    newer := fun x hx => ?_
    watching := by rw [hlast]
    watches := ?_
    fits := fun x hx => ?_
    found := fun x hx => ?_
    listening := by rw [hlast]; exact (List.append_nil _).symm
    hears := rfl
    heard := fun _ he => absurd he List.not_mem_nil }
  · rw [List.mem_singleton.1 hx]
    exact ⟨Nat.le_refl _, h.length.symm ▸ Nat.lt_succ_self _⟩
  · exact congrArg (fun p : Watch => [p]) (Prod.ext h.path h.reaction)
  · rw [List.mem_singleton.1 hx, hreaction]
    exact hfits.frame halters hready.base
  · rw [List.mem_singleton.1 hx]
    exact h.found.frame rfl rfl

/-- Binding a watcher that shows its first value. -/
theorem reaches_bindWatcher {path : Path} {r : Reaction} {result : Except Error Unit}
    (hready : Ready view lo w) (hfits : r.Fits w.document lo)
    (h : Reaches ⟨w, bindWatcher data path r view⟩ ⟨w', .done result⟩) :
    result = .ok () ∧ Installs data view lo [(path, r)] [] [w.nextWatcher] [] w w' := by
  obtain ⟨created, u, hcreate, hrest⟩ := Reaches.of_bind h
  obtain ⟨rfl, hcreates⟩ := reaches_createWatcher hready.slot hready.asks hcreate
  obtain ⟨watcher, u', hask, hrest⟩ := hrest.of_bind
  obtain ⟨rfl, rfl⟩ := Reaches.result (.ask _) hask
  obtain ⟨answer, u'', hrun, hrest⟩ := hrest.of_bind
  have hasks : u'.OnlyAsks := hready.asks.of_objects hcreates.objects
  have hdocument := hcreates.document
  obtain ⟨d, rfl, hshown, halters⟩ := reaches_run hasks (hdocument.symm ▸ hfits)
    (hdocument.symm ▸ hready.base) hrun
  have hlast : Passes ⟨{ u' with document := d }, Proc.modify (·.viewWatches view w.nextWatcher) >>=
      fun _ => (pure (.ok ()) : Proc (Except Error Unit))⟩ []
      ⟨({ u' with document := d } : World).viewWatches view w.nextWatcher, .done (.ok ())⟩ :=
    .bind_nil (.modify _) (.here _)
  obtain ⟨rfl, rfl⟩ := Reaches.result hlast hrest
  let after := ({ u' with document := d } : World).viewWatches view w.nextWatcher
  have hreaction : (after.watcher w.nextWatcher).reaction = r := hcreates.reaction
  have hkeeps : ∀ part, r.target? = some part ↔ Keeps [(path, r)] part := fun part =>
    ⟨fun htarget => ⟨_, List.mem_singleton.2 rfl, htarget⟩, fun ⟨p, hp, htarget⟩ => by
      rwa [List.mem_singleton.1 hp] at htarget⟩
  rw [hdocument] at halters
  have hadds := hcreates.adds hready hfits
    (halters.mono (fun n _ hn => (hkeeps _).1 hn) fun n _ hn => (hkeeps _).1 hn)
  refine ⟨rfl, hadds, fun part hpart => ⟨w.nextWatcher, List.mem_singleton.2 rfl, ?_,
    fun hpure => ?_⟩⟩
  · rw [hreaction]
    exact (hkeeps part).2 hpart
  · rw [hreaction] at hpure
    rw [Shows, hreaction]
    exact hshown fun htemplate => (hpure htemplate).of_objects rfl

/-- A listener that the view adds to a node. -/
theorem installs_listener (data : ObjectId) {node : NodeId} (event : String) (handler : Handler)
    (hready : Ready view lo w) (hnode : node < w.document.nodes.length) :
    ∃ l, Installs data view lo [] [(node, event, handler)] [] [(node, l)] w
      (w.viewListens view node event handler) := by
  let l : Listener := ⟨w.document.nextListener, event, handler⟩
  have hlength := List.length_modify (fun n : Node => { n with listeners := n.listeners ++ [l] })
    w.document.nodes node
  have hlast : (w.viewListens view node event handler).view view =
      ⟨(w.view view).watchers, (w.view view).listeners ++ [(node, l.id)]⟩ :=
    view_onView (w := w.onDocument (·.listen node event handler)) hready.view _
  refine ⟨l, {
    objects := rfl
    slot := hready.slot
    views := List.length_modify ..
    alters := .listen _ node event handler
    older := fun _ _ => rfl
    length := Nat.le_refl _
    newer := fun _ hx => absurd hx List.not_mem_nil
    watching := by rw [hlast]; exact (List.append_nil _).symm
    watches := rfl
    fits := fun _ hx => absurd hx List.not_mem_nil
    found := fun _ hx => absurd hx List.not_mem_nil
    listening := by rw [hlast]; rfl
    hears := rfl
    heard := fun e he => ?_ },
    fun part hpart => absurd hpart fun ⟨_, hp, _⟩ => List.not_mem_nil hp⟩
  rw [List.mem_singleton.1 he]
  refine ⟨hlength.symm ▸ hnode, ?_⟩
  have hself := Document.node_modify_self hnode fun n => { n with listeners := n.listeners ++ [l] }
  exact (congrArg (l ∈ ·.listeners) hself).mpr (List.mem_append_right _ (List.mem_singleton.2 rfl))

end DataBinding
