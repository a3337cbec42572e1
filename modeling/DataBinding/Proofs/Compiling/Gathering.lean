import DataBinding.Proofs.Document.Confined
import DataBinding.Proofs.Rendering.Apart

/-!
# What a walk of a compilation has gathered

`Gathers` is what any stretch of a compilation has done, however it ends
and whatever it has come across, in terms of the view that is being
filled: the watchers `xs` and the listeners `es` that it has put into the
view are new, at the end of the lists of the view, and the only ones that
it has added to subscriber lists and to nodes. Content is changed only
outside of a closed set of nodes, and not at all while an evaluation is
going on.

The walk goes down into what it has just rendered, so that this cannot
be an induction over the tree. It is a contract for the descent
(`gathering`), which every piece of a compilation keeps to.
-/

namespace DataBinding

open World

variable {view : ViewId} {out : NodeId → Prop} {w w' w'' : World} {xs xs' : List WatcherId}
  {es es' : List (NodeId × ListenerId)}

/-! ## Subscribers that are added -/

/-- Some lists have grown by subscribers of a kind. -/
def Graph.Enlists (who : SubscriberId → Prop) (g g' : Graph) : Prop :=
  ∀ d, ∃ more, g'.subscribersOf d = g.subscribersOf d ++ more ∧ ∀ s ∈ more, who s

namespace Graph.Enlists

variable {who who' : SubscriberId → Prop} {g g' g'' : Graph}

theorem refl (g : Graph) : Enlists who g g := fun _ =>
  ⟨[], (List.append_nil _).symm, fun _ h => absurd h List.not_mem_nil⟩

theorem trans (h : Enlists who g g') (h' : Enlists who' g' g'') :
    Enlists (fun s => who s ∨ who' s) g g'' := by
  intro d
  obtain ⟨more, hmore, hwho⟩ := h d
  obtain ⟨more', hmore', hwho'⟩ := h' d
  refine ⟨more ++ more', by rw [hmore', hmore, List.append_assoc], fun s hs => ?_⟩
  exact (List.mem_append.1 hs).imp (hwho s) (hwho' s)

theorem mono (h : Enlists who g g') (hwho : ∀ s, who s → who' s) : Enlists who' g g' := fun d =>
  let ⟨more, hmore, hall⟩ := h d
  ⟨more, hmore, fun s hs => hwho s (hall s hs)⟩

theorem register (g : Graph) (d : DependencyId) (s : SubscriberId) :
    Enlists (· = s) g (g.register d s) := by
  intro other
  by_cases hd : d < g.subscribers.length
  · rw [subscribersOf_register g hd]
    split
    · rename_i heq
      exact ⟨[s], by rw [heq], fun t ht => List.mem_singleton.1 ht⟩
    · exact refl g other
  · rw [Graph.register, List.modify_eq_self (Nat.le_of_not_lt hd)]
    exact refl g other

end Graph.Enlists

/-- An evaluation that was registered with nothing before adds the one who
is evaluated, and takes nobody away. -/
theorem World.enlists_evaluated {x : WatcherId} (hx : (w.watcher x).dependencies = [])
    (cells : List Cell) :
    w.graph.Enlists (· = .watcher x) (w.evaluated x cells).graph := by
  let e := w.nextEvaluation
  have htracked : ∀ (ds : List DependencyId) (u : World),
      (u.evaluation e).parent = .watcher x → (u.evaluation e).previous = [] →
      let last := ds.foldl (fun w d => w.track e d) u
      u.graph.Enlists (· = .watcher x) last.graph ∧ (last.evaluation e).previous = [] := by
    intro ds
    induction ds with
    | nil => exact fun u _ hprevious => ⟨.refl _, hprevious⟩
    | cons d ds ih =>
        intro u hparent hprevious
        have hfirst : u.graph.Enlists (· = .watcher x) (u.track e d).graph := by
          by_cases hcurrent : d ∈ (u.evaluation e).current
          · rw [track_of_read hcurrent]
            exact .refl _
          · rw [track_of_new hcurrent (by rw [hprevious]; exact List.not_mem_nil)]
            exact hparent ▸ .register u.graph d _
        obtain ⟨hrest, hlast⟩ := ih (u.track e d)
          ((field_track u e e d Evaluation.parent fun _ => rfl).trans hparent)
          ((field_track u e e d Evaluation.previous fun _ => rfl).trans hprevious)
        exact ⟨(hfirst.trans hrest).mono fun _ hs => hs.elim id id, hlast⟩
  have hbegun : (w.begun x).evaluation e = ⟨.watcher x, [], [], true, 1⟩ := by
    refine (evaluation_append w _ (some (.watcher x)) e).trans ((if_pos rfl).trans ?_)
    rw [hx]
  let ds := (w.begun x).dependenciesOf cells
  obtain ⟨henlists, hprevious⟩ := htracked ds (w.begun x) (by rw [hbegun]) (by rw [hbegun])
  have hstale : ((w.begun x).trackCells (some e) cells).stale e = [] := by
    rw [World.stale]
    exact congrArg (List.filter _) hprevious
  have hgraph : (w.evaluated x cells).graph = ((w.begun x).trackCells (some e) cells).graph := by
    show Graph.unregisterAll _ (World.stale _ e) _ = _
    rw [hstale]
    rfl
  rw [hgraph]
  exact henlists

/-- Watchers `xs` were made, and are the only ones that were subscribed to
anything. -/
structure Makes (xs : List WatcherId) (w w' : World) : Prop where
  objects : w'.graph.objects = w.graph.objects
  slot : w'.slot = w.slot
  watchers : w.watchers.length ≤ w'.watchers.length
  newer : ∀ x ∈ xs, w.watchers.length ≤ x
  subscribers : w.graph.Enlists (fun s => ∃ x ∈ xs, s = .watcher x) w'.graph

namespace Makes

theorem refl (w : World) : Makes [] w w :=
  ⟨rfl, rfl, Nat.le_refl _, fun _ h => absurd h List.not_mem_nil, .refl _⟩

theorem trans (h : Makes xs w w') (h' : Makes xs' w' w'') : Makes (xs ++ xs') w w'' where
  objects := h'.objects.trans h.objects
  slot := h'.slot.trans h.slot
  watchers := Nat.le_trans h.watchers h'.watchers
  newer x hx := (List.mem_append.1 hx).elim (h.newer x)
    fun hx => Nat.le_trans h.watchers (h'.newer x hx)
  subscribers := (h.subscribers.trans h'.subscribers).mono fun s hs => by
    rcases hs with ⟨x, hx, rfl⟩ | ⟨x, hx, rfl⟩
    · exact ⟨x, List.mem_append_left _ hx, rfl⟩
    · exact ⟨x, List.mem_append_right _ hx, rfl⟩

end Makes

/-! ## What was gathered -/

/-- Watchers `xs` and listeners `es` were gathered for a view. -/
structure Gathers (view : ViewId) (out : NodeId → Prop) (xs : List WatcherId)
    (es : List (NodeId × ListenerId)) (w w' : World) : Prop extends Makes xs w w' where
  views : w'.views.length = w.views.length
  watching : (w'.view view).watchers = (w.view view).watchers ++ xs
  listening : (w'.view view).listeners = (w.view view).listeners ++ es
  alters : w.document.Alters (fun n => ¬ out n) (fun _ => True) w'.document
  sprouts : Document.Sprouts (fun _ c => w.document.nodes.length ≤ c) w.document w'.document
  texts : ∀ n < w.document.nodes.length, (w.document.node n).kind = .text →
    (w'.document.node n).children = (w.document.node n).children
  forest : w.document.IsForest → w'.document.IsForest
  nextListener : w.document.nextListener ≤ w'.document.nextListener
  fresh : ∀ e ∈ es, w.document.nextListener ≤ e.2
  listeners : ∀ n, ∃ more, (w'.document.node n).listeners = (w.document.node n).listeners ++ more ∧
    ∀ l ∈ more, (n, l.id) ∈ es
  busy : w.slot ≠ none → xs = [] ∧ w.document.Alters (fun _ => False) (fun _ => False) w'.document

/-- A view can be filled outside of a set of nodes. -/
structure Fillable (view : ViewId) (out : NodeId → Prop) (w : World) : Prop where
  asks : w.OnlyAsks
  view : view < w.views.length
  closed : w.document.Closed out

namespace Gathers

theorem refl (view : ViewId) (out : NodeId → Prop) (w : World) : Gathers view out [] [] w w where
  toMakes := .refl w
  views := rfl
  watching := (List.append_nil _).symm
  listening := (List.append_nil _).symm
  alters := .refl _
  sprouts := .refl _
  texts _ _ _ := rfl
  forest := id
  nextListener := Nat.le_refl _
  fresh _ h := absurd h List.not_mem_nil
  listeners _ := ⟨[], (List.append_nil _).symm, fun _ h => absurd h List.not_mem_nil⟩
  busy _ := ⟨rfl, .refl _⟩

theorem trans (h : Gathers view out xs es w w') (h' : Gathers view out xs' es' w' w'') :
    Gathers view out (xs ++ xs') (es ++ es') w w'' where
  toMakes := h.toMakes.trans h'.toMakes
  views := h'.views.trans h.views
  watching := by rw [h'.watching, h.watching, List.append_assoc]
  listening := by rw [h'.listening, h.listening, List.append_assoc]
  alters := h.alters.trans h'.alters
  sprouts p c hc := (h'.sprouts p c hc).elim (h.sprouts p c)
    fun hnew => .inr (Nat.le_trans h.alters.length hnew)
  texts n hn hkind := by
    have hlater := Nat.lt_of_lt_of_le hn h.alters.length
    rw [h'.texts n hlater ((h.alters.kind n hn).trans hkind), h.texts n hn hkind]
  forest := h'.forest ∘ h.forest
  nextListener := Nat.le_trans h.nextListener h'.nextListener
  fresh e he := (List.mem_append.1 he).elim (h.fresh e)
    fun he => Nat.le_trans h.nextListener (h'.fresh e he)
  listeners n := by
    obtain ⟨more, hmore, hall⟩ := h.listeners n
    obtain ⟨more', hmore', hall'⟩ := h'.listeners n
    refine ⟨more ++ more', by rw [hmore', hmore, List.append_assoc], fun l hl => ?_⟩
    exact List.mem_append.2 ((List.mem_append.1 hl).imp (hall l) (hall' l))
  busy hslot := by
    obtain ⟨rfl, hsame⟩ := h.busy hslot
    obtain ⟨rfl, hsame'⟩ := h'.busy (h.slot ▸ hslot)
    exact ⟨rfl, hsame.trans hsame'⟩

theorem fillable (h : Gathers view out xs es w w') (hw : Fillable view out w) :
    Fillable view out w' :=
  ⟨hw.asks.of_objects h.objects, h.views ▸ hw.view, hw.closed.next h.alters.length h.sprouts⟩

/-- Content was drawn outside of the set. -/
theorem draw {d : Document} (hslot : w.slot = none) (h : w.document.Draws out d) :
    Gathers view out [] [] w { w with document := d } where
  toMakes := ⟨rfl, rfl, Nat.le_refl _, fun _ h => absurd h List.not_mem_nil, .refl _⟩
  views := rfl
  watching := (List.append_nil _).symm
  listening := (List.append_nil _).symm
  alters := h.alters
  sprouts := h.sprouts
  texts := h.texts
  forest := h.forest
  nextListener := Nat.le_of_eq h.nextListener.symm
  fresh _ h := absurd h List.not_mem_nil
  listeners n := ⟨[], (h.listeners n).trans (List.append_nil _).symm,
    fun _ h => absurd h List.not_mem_nil⟩
  busy hbusy := absurd hslot hbusy

/-- A watcher was made and given up. -/
theorem of_makes (h : Makes [] w w') (hviews : w'.views = w.views)
    (hdocument : w'.document = w.document) : Gathers view out [] [] w w' := by
  have hview : w'.view view = w.view view := by rw [World.view, World.view, hviews]
  refine {
    toMakes := h
    views := congrArg List.length hviews
    watching := by rw [hview, List.append_nil]
    listening := by rw [hview, List.append_nil]
    alters := ?_
    sprouts := ?_
    texts := fun _ _ _ => by rw [hdocument]
    forest := ?_
    nextListener := Nat.le_of_eq (by rw [hdocument])
    fresh := fun _ h => absurd h List.not_mem_nil
    listeners := fun n => ⟨[], by rw [hdocument, List.append_nil],
      fun _ h => absurd h List.not_mem_nil⟩
    busy := fun _ => ⟨rfl, ?_⟩ }
  all_goals rw [hdocument]
  · exact .refl _
  · exact .refl _
  · exact id
  · exact .refl _

/-- A watcher was made, has shown its value, and is taken over by the view. -/
theorem takes {x : WatcherId} {u : World} (hslot : w.slot = none) (hview : view < w.views.length)
    (h : Makes [x] w u) (hviews : u.views = w.views) (hdraws : w.document.Draws out u.document) :
    Gathers view out [x] [] w (u.viewWatches view x) := by
  have hlast : (u.viewWatches view x).view view =
      ⟨(w.view view).watchers ++ [x], (w.view view).listeners⟩ := by
    rw [World.viewWatches, Grows.view_onView_ite, if_pos ⟨rfl, hviews ▸ hview⟩, World.view,
      World.view, hviews]
  exact {
    objects := h.objects
    slot := h.slot
    watchers := h.watchers
    newer := h.newer
    subscribers := h.subscribers
    views := (List.length_modify ..).trans (congrArg List.length hviews)
    watching := by rw [hlast]
    listening := by rw [hlast, List.append_nil]
    alters := hdraws.alters
    sprouts := hdraws.sprouts
    texts := hdraws.texts
    forest := hdraws.forest
    nextListener := Nat.le_of_eq hdraws.nextListener.symm
    fresh := fun _ h => absurd h List.not_mem_nil
    listeners := fun n => ⟨[], (hdraws.listeners n).trans (List.append_nil _).symm,
      fun _ h => absurd h List.not_mem_nil⟩
    busy := fun hbusy => absurd hslot hbusy }

/-- A listener was added for the view. -/
theorem listens (hview : view < w.views.length) (node : NodeId) (event : String)
    (handler : Handler) : Gathers view out [] [(node, w.document.nextListener)] w
      (w.viewListens view node event handler) := by
  let l : Listener := ⟨w.document.nextListener, event, handler⟩
  have hlast : (w.viewListens view node event handler).view view =
      ⟨(w.view view).watchers, (w.view view).listeners ++ [(node, w.document.nextListener)]⟩ := by
    rw [World.viewListens, Grows.view_onView_ite, if_pos ⟨rfl, hview⟩]
    rfl
  refine {
    objects := rfl
    slot := rfl
    watchers := Nat.le_refl _
    newer := fun _ h => absurd h List.not_mem_nil
    subscribers := .refl _
    views := List.length_modify ..
    watching := by rw [hlast, List.append_nil]
    listening := by rw [hlast]
    alters := .listen ..
    sprouts := .modify w.document node fun _ _ hc => .inl hc
    texts := fun n _ _ => Document.field_modify w.document node n Node.children fun _ => rfl
    forest := fun h => h.listen node event handler
    nextListener := Nat.le_succ _
    fresh := fun e he => Nat.le_of_eq (by rw [List.mem_singleton.1 he])
    listeners := fun n => ?_
    busy := fun _ => ⟨rfl, .listen ..⟩ }
  have hnode : (w.viewListens view node event handler).document.node n =
      if n = node ∧ n < w.document.nodes.length then
        { w.document.node n with listeners := (w.document.node n).listeners ++ [l] }
      else w.document.node n := Document.node_modify_ite w.document node n _
  rw [hnode]
  split
  · rename_i hself
    refine ⟨[l], rfl, fun l' hl' => List.mem_singleton.2 ?_⟩
    rw [List.mem_singleton.1 hl', hself.1]
  · exact ⟨[], (List.append_nil _).symm, fun _ h => absurd h List.not_mem_nil⟩

end Gathers

/-! ## The contract -/

/-- A descent gathers for the view, and only accessors are called besides. -/
@[reducible] def gathering (view : ViewId) (out : NodeId → Prop) : Contract .plain where
  always _ := True
  pre c w := match c with
    | .accessor _ _ body => w.OnlyAsks ∧ body.Asks
    | .descend node _ _ v =>
      v = view ∧ Fillable view out w ∧ ∀ c ∈ (w.document.node node).children, ¬ out c
    | _ => False
  post c w a w' := match c, a with
    | .accessor data tracker body, v => Asked body data tracker w v w'
    | .descend .., _ => ∃ xs es, Gathers view out xs es w w'
    | _, _ => True

namespace Gathering

theorem consults : Consults (gathering view out) where
  track {w t e d} hw ht := by
    obtain rfl : t = w.track e d := ht
    exact ⟨trivial, hw.of_objects (objects_track w e d)⟩
  pre hw hbody := ⟨hw, hbody⟩
  post ht := ht

/-- A stretch of a compilation gathers for the view. -/
@[reducible] def Gathered (view : ViewId) (out : NodeId → Prop) (w w' : World) : Prop :=
  ∃ xs es, Gathers view out xs es w w'

theorem gathered_refl (w : World) : Gathered view out w w :=
  ⟨[], [], .refl view out w⟩

theorem gathered_trans (h : Gathered view out w w') (h' : Gathered view out w' w'') :
    Gathered view out w w'' :=
  let ⟨_, _, h⟩ := h
  let ⟨_, _, h'⟩ := h'
  ⟨_, _, h.trans h'⟩

theorem modify {α : Type} {f : World → World} {p : Unit → Proc α} {Q : α → World → Prop}
    (h : (p ()).Safe (gathering view out) Q (f w)) :
    (Proc.modify f >>= p).Safe (gathering view out) Q w :=
  Proc.Safe.bind (Q := fun _ t => t = f w) (Proc.Safe.modify (fun _ ht => ⟨trivial, ht⟩) trivial)
    fun _ _ ht => ht ▸ h

theorem ask {α β : Type} {f : World → α} {p : α → Proc β} {Q : β → World → Prop}
    (h : (p (f w)).Safe (gathering view out) Q w) :
    (Proc.ask f >>= p).Safe (gathering view out) Q w := ⟨trivial, h⟩

/-! ### Watchers -/

/-- An evaluation fails while another one is going on, and else it comes to
a value. -/
theorem evaluate (hw : w.OnlyAsks) (x : WatcherId) :
    (evaluateWatcher x).Safe (gathering view out) (fun
      | .error _, w' => w.slot ≠ none ∧ w' = w
      | .ok _, w' => w.slot = none ∧ ∃ cells, w' = w.evaluated x cells) w := by
  refine Proc.Safe.bind (Q := fun v t => v = w ∧ t = w) (Proc.Safe.state ⟨rfl, rfl⟩ trivial) ?_
  rintro _ _ ⟨rfl, rfl⟩
  rename_i u
  cases hslot : u.slot with
  | some s =>
      rw [beginWatcher_of_isEvaluating (by rw [isEvaluating, hslot]; rfl)]
      exact Proc.Safe.pure ⟨Option.some_ne_none s, rfl⟩
  | none =>
      rw [beginWatcher_of_free hslot]
      refine modify ?_
      have hbegun : (u.begun x).OnlyAsks := hw.of_objects rfl
      refine (consults.resolve hbegun _ _).bind fun v t ht => modify (Proc.Safe.pure ?_)
      obtain ⟨-, cells, -, ht⟩ := ht
      exact ⟨rfl, cells, congrArg (World.endWatcher · x u.nextEvaluation) ht⟩

/-- A new watcher, or none while an evaluation is going on. -/
theorem create (hw : w.OnlyAsks) (data : ObjectId) (path : Path) (r : Reaction) :
    (createWatcher data path r).Safe (gathering view out) (fun
      | .error _, w' => w.slot ≠ none ∧ Makes [] w w' ∧ w'.views = w.views ∧
          w'.document = w.document
      | .ok x, w' => w.slot = none ∧ Makes [x] w w' ∧ w'.views = w.views ∧
          w'.document = w.document) w := by
  let x := w.nextWatcher
  let added := w.addWatcher data path r
  have hadded : (added.watcher x).dependencies = [] := by
    rw [watcher_addWatcher, if_pos rfl]
  have hmakes : Makes [x] w added :=
    ⟨rfl, rfl, by simp [added, World.addWatcher], fun _ hy => by
      rw [List.mem_singleton.1 hy]
      exact Nat.le_refl _, .refl _⟩
  refine ask (modify ?_)
  have hasks : added.OnlyAsks := hw.of_objects rfl
  refine (evaluate hasks x).bind fun result t ht => ?_
  cases result with
  | error e =>
      obtain ⟨hslot, rfl⟩ := ht
      refine modify (Proc.Safe.pure ⟨hslot, ?_⟩)
      have hgraph : (added.release (.watcher x)).graph = w.graph := graph_release hadded
      obtain ⟨hslot', -, hlength, hdocument, hviews, -⟩ := release_frame added x
      exact ⟨⟨by rw [hgraph], hslot', hlength ▸ hmakes.watchers,
        fun _ h => absurd h List.not_mem_nil, hgraph ▸ .refl _⟩, hviews, hdocument⟩
  | ok v =>
      obtain ⟨hslot, cells, rfl⟩ := ht
      obtain ⟨hviews, hdocument⟩ := views_evaluated added x cells
      refine modify (Proc.Safe.pure ⟨hslot, ?_, hviews, hdocument⟩)
      refine ⟨objects_evaluated added x cells, hslot.symm, ?_, hmakes.newer, ?_⟩
      · refine Nat.le_trans hmakes.watchers (Nat.le_of_eq ?_)
        exact ((List.length_modify ..).trans (length_evaluated added x cells)).symm
      · exact (enlists_evaluated hadded cells).mono fun s hs =>
          ⟨x, List.mem_singleton.2 rfl, hs⟩

/-! ### Bindings -/

/-- A watcher that draws its value. -/
theorem bindWatcher (h : Fillable view out w) (data : ObjectId) (path : Path) {r : Reaction}
    {draw : Value → Document → Document}
    (hrun : ∀ v, r.run v = Proc.modify (·.onDocument (draw v)))
    (hdraw : ∀ v, w.document.Draws out (draw v w.document)) :
    (bindWatcher data path r view).Safe (gathering view out)
      (fun _ w' => Gathered view out w w') w := by
  refine (create h.asks data path r).bind fun result t ht => ?_
  cases result with
  | error e =>
      obtain ⟨hslot, hmakes, hviews, hdocument⟩ := ht
      exact Proc.Safe.pure ⟨[], [], .of_makes hmakes hviews hdocument⟩
  | ok x =>
      obtain ⟨hslot, hmakes, hviews, hdocument⟩ := ht
      refine ask ?_
      rw [hrun]
      refine modify (modify (Proc.Safe.pure ⟨[x], [], .takes hslot h.view ?_ hviews ?_⟩))
      · exact ⟨hmakes.objects, hmakes.slot, hmakes.watchers, hmakes.newer, hmakes.subscribers⟩
      · show w.document.Draws out (draw _ t.document)
        rw [hdocument]
        exact hdraw _

theorem bindDirective (h : Fillable view out w) {node : NodeId}
    (hnode : ∃ tag, (w.document.node node).kind = .element tag) (hout : ¬ out node)
    (directive : Directive) (context : Context) :
    (directive.bind node context view).Safe (gathering view out)
      (fun _ w' => Gathered view out w w') w := by
  obtain ⟨tag, htag⟩ := hnode
  have hlt : ∀ {d : Document}, (d.node node).kind = .element tag → node < d.nodes.length :=
    fun hkind => Document.lt_of_no_fragment (hkind ▸ nofun)
  cases directive with
  | text path => exact bindWatcher h _ _ (fun _ => rfl) fun _ => .setText (hlt htag) hout _
  | html path =>
      exact bindWatcher h _ _ (fun _ => rfl) fun _ => .showMarkup (hlt htag) (htag ▸ nofun) hout _
  | model path =>
      have hfirst : Gathers view out [] _ w _ :=
        .listens h.view node "input" (.writeBack context.data path)
      refine modify ((bindWatcher (hfirst.fillable h) _ _ (fun _ => rfl) fun _ =>
        .setValue _ _ _).mono fun _ _ ht => ?_)
      exact gathered_trans ⟨_, _, hfirst⟩ ht
  | on event method =>
      simp only [Directive.bind]
      split
      · exact Proc.Safe.pure (gathered_refl w)
      · exact modify (Proc.Safe.pure ⟨_, _, .listens h.view node event _⟩)

theorem bindAttribute (h : Fillable view out w) {node : NodeId}
    (hnode : ∃ tag, (w.document.node node).kind = .element tag) (hout : ¬ out node)
    (context : Context) (convention : Convention) (pair : String × String) :
    (bindAttribute node context convention view pair).Safe (gathering view out)
      (fun _ w' => Gathered view out w w') w := by
  unfold DataBinding.bindAttribute
  split
  · exact Proc.Safe.pure (gathered_refl w)
  · exact Proc.Safe.pure (gathered_refl w)
  · exact bindDirective h hnode hout _ context

/-- What gathers for each of several items gathers for all of them. -/
theorem tryEach {ι : Type} {f : ι → Proc (Except Error Unit)} {items : List ι}
    (hf : ∀ item ∈ items, ∀ t, Gathered view out w t →
      (f item).Safe (gathering view out) (fun _ u => Gathered view out t u) t) :
    (Proc.tryEach f items).Safe (gathering view out) (fun _ w' => Gathered view out w w') w := by
  refine (Proc.Safe.tryEach (M := .plain) (fun rest t => rest ⊆ items ∧ Gathered view out w t)
    (fun _ t => Gathered view out w t) ⟨List.Subset.refl _, gathered_refl w⟩ ?_).mono
    fun result t ht => ?_
  · rintro item rest t ⟨hrest, ht⟩
    refine (hf item (hrest List.mem_cons_self) t ht).mono fun result u hu => ?_
    cases result with
    | ok _ => exact ⟨fun _ h => hrest (List.mem_cons_of_mem _ h), gathered_trans ht hu⟩
    | error e => exact gathered_trans ht hu
  · cases result with
    | ok _ => exact ht.2
    | error e => exact ht

theorem bindPlaceholder (h : Fillable view out w) (node : NodeId) (template : Template)
    (data : ObjectId) (path : Path) :
    (bindPlaceholder node template data view path).Safe (gathering view out) (fun result w' =>
      Gathered view out w w' ∧ (result = .ok () → w.slot = none)) w := by
  refine (create h.asks data path _).bind fun result t ht => ?_
  cases result with
  | error e =>
      obtain ⟨hslot, hmakes, hviews, hdocument⟩ := ht
      exact Proc.Safe.pure ⟨⟨[], [], .of_makes hmakes hviews hdocument⟩, nofun⟩
  | ok x =>
      obtain ⟨hslot, hmakes, hviews, hdocument⟩ := ht
      refine modify (Proc.Safe.pure
        ⟨⟨[x], [], .takes hslot h.view hmakes hviews ?_⟩, fun _ => hslot⟩)
      exact hdocument ▸ .refl _

/-- Rendering changes nothing. -/
theorem render (hw : w.OnlyAsks) (root : ObjectId) : ∀ (segments : List Segment),
    (renderSegments root none segments).Safe (gathering view out) (fun _ t => t = w) w
  | [] => Proc.Safe.pure (M := .plain) (Q := fun _ t => t = w) rfl
  | .literal _ :: segments => (render hw root segments).bind fun _ _ ht =>
      Proc.Safe.pure (M := .plain) (Q := fun _ t => t = w) ht
  | .placeholder path :: segments => by
      refine (consults.resolve hw path root).bind fun v t ht => ?_
      obtain ⟨-, cells, -, ht⟩ := ht
      obtain rfl : w = t := ht.symm
      exact (render hw root segments).bind fun _ _ hu =>
        Proc.Safe.pure (M := .plain) (Q := fun _ u => u = w) hu

theorem bindText (h : Fillable view out w) {node : NodeId} (hnode : node < w.document.nodes.length)
    (hout : ¬ out node) (context : Context) (convention : Convention) :
    (bindText node context convention view).Safe (gathering view out)
      (fun _ w' => Gathered view out w w') w := by
  refine ask (Proc.Safe.bind (Q := fun _ t => t = w) (Proc.Safe.need (fun _ _ => rfl) trivial) ?_)
  rintro template t rfl
  split
  · rename_i hplaceholders
    -- once one placeholder has a watcher, no evaluation is going on
    refine Proc.Safe.bind (Q := fun result u => Gathered view out t u ∧
      (result = .ok () → t.slot = none)) ?_ fun result u hu => ?_
    · refine (Proc.Safe.tryEach (M := .plain) (fun rest u => Gathered view out t u ∧
        (rest ≠ template.placeholders → t.slot = none)) (fun _ u => Gathered view out t u)
        ⟨gathered_refl t, fun h => absurd rfl h⟩ ?_).mono fun result u hu => ?_
      · rintro path rest u ⟨hu, -⟩
        obtain ⟨xs, es, hgathers⟩ := id hu
        refine (bindPlaceholder (hgathers.fillable h) _ _ _ _).mono fun result v hv => ?_
        cases result with
        | ok _ => exact ⟨gathered_trans hu hv.1, fun _ => hgathers.slot ▸ hv.2 rfl⟩
        | error e => exact gathered_trans hu hv.1
      · cases result with
        | ok _ =>
            refine ⟨hu.1, fun _ => hu.2 fun hnone => ?_⟩
            simp [Template.hasPlaceholders, ← hnone] at hplaceholders
        | error e => exact ⟨hu, nofun⟩
    · cases result with
      | error e => exact Proc.Safe.pure hu.1
      | ok _ =>
          obtain ⟨⟨xs, es, hgathers⟩, hslot⟩ := hu
          refine (render (hgathers.fillable h).asks context.data _).bind ?_
          rintro content v rfl
          refine modify (Proc.Safe.pure (gathered_trans ⟨xs, es, hgathers⟩ ⟨[], [], ?_⟩))
          exact .draw (hgathers.slot.trans (hslot rfl))
            (.setText (Nat.lt_of_lt_of_le hnode hgathers.alters.length) hout content)
  · exact Proc.Safe.pure (gathered_refl t)

/-! ### The tree -/

theorem compileChild (h : Fillable view out w) {node : NodeId} (hout : ¬ out node)
    (context : Context) (convention : Convention) :
    (compileChild context convention view node).Safe (gathering view out)
      (fun _ w' => Gathered view out w w') w := by
  refine ask ?_
  split
  · exact Proc.Safe.pure (gathered_refl w)
  · rename_i hkind
    exact bindText h (Document.lt_of_no_fragment (hkind ▸ nofun)) hout context convention
  · rename_i tag hkind
    have hlt : node < w.document.nodes.length := Document.lt_of_no_fragment (hkind ▸ nofun)
    refine Proc.Safe.bind (tryEach fun pair _ t ht => ?_) fun result t ht => ?_
    · obtain ⟨xs, es, hgathers⟩ := ht
      exact bindAttribute (hgathers.fillable h) ⟨tag, (hgathers.alters.kind node hlt).trans hkind⟩
        hout context convention pair
    · cases result with
      | error e => exact Proc.Safe.pure ht
      | ok _ =>
          obtain ⟨xs, es, hgathers⟩ := id ht
          have hopen := hgathers.fillable h
          exact Proc.Safe.perform ⟨rfl, hopen, fun c hc => hopen.closed.shut hout hc⟩
            fun _ _ hu => gathered_trans ht hu

theorem compileChildren (h : Fillable view out w) {node : NodeId}
    (hchildren : ∀ c ∈ (w.document.node node).children, ¬ out c) (context : Context)
    (convention : Convention) :
    (compileChildren node context convention view).Safe (gathering view out)
      (fun _ w' => Gathered view out w w') w := by
  refine ask (tryEach fun c hc t ht => ?_)
  obtain ⟨xs, es, hgathers⟩ := ht
  exact compileChild (hgathers.fillable h) (hchildren c hc) context convention

theorem met : (gathering view out).Met := by
  intro c w hpre
  cases c with
  | accessor data tracker body => exact consults.eval data hpre.1 hpre.2
  | descend node context convention v =>
      obtain ⟨rfl, hopen, hchildren⟩ := hpre
      exact compileChildren hopen hchildren context convention
  | _ => exact hpre.elim

end Gathering

/-! ## A whole compilation -/

/-- Nothing is compiled below a text, and nothing is done. -/
theorem Reaches.of_compile_text {root : NodeId} {context : Context} {convention : Convention}
    {result : Except Error ViewId} (hkind : (w.document.node root).kind = .text)
    (h : Reaches ⟨w, compile root context convention⟩ ⟨w', .done result⟩) :
    w' = w ∧ result = .error .invalidRoot := by
  have hfail : Passes ⟨w, compile root context convention⟩ [] ⟨w, .done (.error .invalidRoot)⟩ := by
    refine .bind_nil .state ?_
    rw [if_pos hkind]
    exact .here _
  exact Reaches.result hfail h

/-- A compilation that has returned has walked over the children of its
root in their fragment, and has put them back. -/
theorem Reaches.of_compile {root : NodeId} {context : Context} {convention : Convention}
    {result : Except Error ViewId} (hkind : (w.document.node root).kind ≠ .text)
    (h : Reaches ⟨w, compile root context convention⟩ ⟨w', .done result⟩) :
    ∃ walked u, Reaches ⟨w.openCompilation root,
        compileChildren w.document.nextNode context convention w.nextView⟩ ⟨u, .done walked⟩ ∧
      (walked = .ok () ∧ result = .ok w.nextView ∧
          w' = u.onDocument (·.append root w.document.nextNode) ∨
        ∃ e, walked = .error e ∧ result = .error e ∧
          w' = (u.onDocument (·.append root w.document.nextNode)).disposeView w.nextView) := by
  obtain ⟨initial, u, hstate, hrest⟩ := Reaches.of_bind h
  obtain ⟨hsame, hinitial⟩ := Reaches.result .state hstate
  rw [hsame, hinitial, if_neg hkind] at hrest
  obtain ⟨answer, u', hopen, hrest⟩ := Reaches.of_bind hrest
  obtain ⟨rfl, -⟩ := Reaches.result (.modify _) hopen
  obtain ⟨walked, u'', hwalk, hrest⟩ := Reaches.of_bind hrest
  obtain ⟨answer, v, hclose, hrest⟩ := Reaches.of_bind hrest
  obtain ⟨rfl, -⟩ := Reaches.result (.modify _) hclose
  refine ⟨walked, u'', hwalk, ?_⟩
  cases walked with
  | ok _ =>
      obtain ⟨rfl, rfl⟩ := Reaches.done_inj hrest
      exact .inl ⟨rfl, rfl, rfl⟩
  | error e =>
      obtain ⟨answer, v, hdispose, hrest⟩ := Reaches.of_bind hrest
      obtain ⟨rfl, -⟩ := Reaches.result (.modify _) hdispose
      obtain ⟨rfl, rfl⟩ := Reaches.done_inj hrest
      exact .inr ⟨e, rfl, rfl, rfl⟩

/-- What compiling the children of a node gathers, however it ends. -/
theorem gathers_of_compileChildren (h : Fillable view out w) {node : NodeId}
    (hchildren : ∀ c ∈ (w.document.node node).children, ¬ out c) {context : Context}
    {convention : Convention} {result : Except Error Unit}
    (hrun : Reaches ⟨w, compileChildren node context convention view⟩ ⟨w', .done result⟩) :
    ∃ xs es, Gathers view out xs es w w' :=
  (Gathering.compileChildren h hchildren context convention).run Gathering.met
    (Monitor.plain_run hrun)

/-- The view that is opened for a compilation can be filled. -/
theorem World.OnlyAsks.fillable (hw : w.OnlyAsks) {root : NodeId}
    (hclosed : (w.openCompilation root).document.Closed out) :
    Fillable w.nextView out (w.openCompilation root) where
  asks := hw.of_objects rfl
  view := by
    simp [World.nextView, World.openCompilation, World.addView, World.onDocument]
  closed := hclosed

/-- What compiling the content of a root gathers, however it ends. -/
theorem World.OnlyAsks.gathers (hw : w.OnlyAsks) {root : NodeId} {context : Context}
    {convention : Convention} {result : Except Error Unit}
    (hrun : Reaches ⟨w.openCompilation root,
      compileChildren w.document.nextNode context convention w.nextView⟩ ⟨w', .done result⟩) :
    ∃ xs es, Gathers w.nextView (fun _ => False) xs es (w.openCompilation root) w' :=
  gathers_of_compileChildren (hw.fillable ⟨False.elim, fun _ _ => id⟩) (fun _ _ => id) hrun

end DataBinding
