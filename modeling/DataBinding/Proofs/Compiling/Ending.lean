import DataBinding.Proofs.Compiling.Gathering
import DataBinding.Proofs.Compiling.Installing
import DataBinding.Proofs.Document.Parsing
import DataBinding.Proofs.Resolution.Exact

/-!
# Compilations that end

A walk goes down into what `v-html` has just shown, so that the tree that
is compiled is no bound for it. It ends where that is finite: a tree is
`Bounded` when the markup that its directives show, the markup that the
directives in that show, and so on, comes to an end. Then every
compilation returns, whatever it comes across (`compile_returns`).

Markup in the data that shows itself has no such end: the walk below it
comes to the same walk one level further down, and compiling it does not
return (`compile_of_quine`).
-/

namespace DataBinding

open World

variable {context : Context} {convention : Convention} {view : ViewId} {data : ObjectId}
  {site : Nat → NodeId} {root : NodeId} {w w' w'' : World}

/-! ## What is touched -/

/-- What can be read stays the same, and so does content elsewhere. -/
structure World.Touches (inner : NodeId → Prop) (w w' : World) : Prop where
  objects : w'.graph.objects = w.graph.objects
  alters : w.document.Alters inner (fun _ => True) w'.document

namespace World.Touches

variable {inner inner' : NodeId → Prop}

theorem refl (inner : NodeId → Prop) (w : World) : w.Touches inner w :=
  ⟨rfl, .refl _⟩

/-- Only what is done to nodes that were there counts. -/
theorem andThen (h : w.Touches inner w') (h' : w'.Touches inner' w'')
    (hinner : ∀ m < w.document.nodes.length, inner' m → inner m) : w.Touches inner w'' :=
  ⟨h'.objects.trans h.objects, h.alters.andThen h'.alters hinner fun _ _ _ => trivial⟩

theorem mono (h : w.Touches inner w') (hinner : ∀ m, inner m → inner' m) : w.Touches inner' w' :=
  ⟨h.objects, h.alters.mono (fun m _ => hinner m) fun _ _ h => h⟩

theorem asks (h : w.Touches inner w') (hw : w.OnlyAsks) : w'.OnlyAsks :=
  hw.of_objects h.objects

end World.Touches

/-- Every path gives something, among accessors that only ask. -/
def Graph.Responds (g : Graph) (data : ObjectId) : Prop :=
  ∀ keys, ∃ v cells, g.Gives (.walk (.object data) keys) v cells

theorem Graph.Responds.frame {g g' : Graph} (h : g.Responds data)
    (hobjects : g'.objects = g.objects) : g'.Responds data := fun keys =>
  let ⟨v, cells, hgives⟩ := h keys
  ⟨v, cells, hgives.of_objects hobjects⟩

/-- It does if every path can be resolved. -/
theorem World.OnlyAsks.responds (hasks : w.OnlyAsks)
    (h : ∀ path, ∃ v, w.ResolvesTo path data v) : w.graph.Responds data := by
  intro keys
  obtain ⟨v, hresolves⟩ := h ⟨"", keys⟩
  obtain ⟨cells, hgives⟩ := (resolvesTo_iff hasks).1 hresolves
  exact ⟨v, cells, hgives⟩

/-- It does where there are no accessors. -/
theorem Graph.responds_of_allReactive {g : Graph} (h : g.allReactive = true) (data : ObjectId) :
    g.Responds data := by
  intro keys
  generalize Value.object data = v
  induction keys generalizing v with
  | nil => exact ⟨v, [], .stop⟩
  | cons key keys ih =>
      cases v with
      | object id =>
          have hproperty : ∃ u cells, g.Gives (.property id key) u cells := by
            cases hslot : g.slot? id key with
            | none => exact ⟨_, _, .missing (by rw [Graph.content, hslot]; rfl)⟩
            | some slot =>
                obtain ⟨property, rfl, -⟩ := Graph.data_of_allReactive h hslot
                exact ⟨_, _, .data (by rw [Graph.content, hslot]; rfl)⟩
          obtain ⟨u, cells, hu⟩ := hproperty
          obtain ⟨last, cells', hrest⟩ := ih u
          exact ⟨last, _, .step hu hrest⟩
      | _ => exact ⟨.undefined, [], .leave rfl⟩

/-! ## Watchers -/

theorem returns_evaluateWatcher {x : WatcherId} (h : w.graph.Responds (w.watcher x).data) :
    (evaluateWatcher x).Returns w fun _ _ => True := by
  cases hslot : w.slot with
  | some s =>
      have hbusy := beginWatcher_of_isEvaluating (by rw [isEvaluating, hslot]; rfl) x
      refine .bind (.of_passes (Q := fun v u => v = w ∧ u = w) .state ⟨rfl, rfl⟩) ?_
      rintro _ _ ⟨rfl, rfl⟩
      rw [hbusy]
      exact .pure trivial
  | none =>
      obtain ⟨v, cells, hgives⟩ := h (w.watcher x).path.segments
      obtain ⟨calls, hpasses⟩ := hgives.passes (some w.nextEvaluation) (w := w.begun x) fun _ => rfl
      refine .bind (.of_passes (Q := fun v u => v = w ∧ u = w) .state ⟨rfl, rfl⟩) ?_
      rintro _ w ⟨rfl, rfl⟩
      rw [beginWatcher_of_free hslot]
      exact .modify ((Proc.Returns.of_passes hpasses (Q := fun _ _ => True) trivial).bind
        fun _ _ _ => .modify (.pure trivial))

/-- A watcher is made, or given up at once, and nothing else is done. -/
theorem returns_createWatcher (hw : w.OnlyAsks) (hresponds : w.graph.Responds data) (path : Path)
    (r : Reaction) : (createWatcher data path r).Returns w fun result w' =>
      w'.graph.objects = w.graph.objects ∧ w'.document = w.document ∧
        ∀ x, result = .ok x → (w'.watcher x).path = path ∧ w'.Found data x := by
  let x := w.nextWatcher
  let added := w.addWatcher data path r
  have hdata : (added.watcher x).data = data := by
    rw [watcher_addWatcher, if_pos rfl]
  have hreturns : (createWatcher data path r).Returns w fun _ _ => True := by
    refine .ask (.modify ?_)
    refine (returns_evaluateWatcher (w := added) ?_).bind fun result u _ => ?_
    · rw [hdata]
      exact hresponds
    · cases result with
      | error e => exact .modify (.pure trivial)
      | ok v => exact .modify (.pure trivial)
  refine hreturns.of_reaches fun result w' hrun _ => ?_
  have hsafe : (createWatcher data path r).Safe (gathering 0 fun _ => False) _ w :=
    Gathering.create hw data path r
  have hmade := hsafe.run Gathering.met (Monitor.plain_run hrun)
  cases result with
  | error e => exact ⟨hmade.2.1.objects, hmade.2.2.2, nofun⟩
  | ok y =>
      obtain ⟨hslot, hmakes, -, hdocument⟩ := hmade
      obtain ⟨hy, hcreates⟩ := reaches_createWatcher hslot hw hrun
      refine ⟨hmakes.objects, hdocument, fun z hz => ?_⟩
      obtain rfl := Except.ok.inj (hz.symm.trans hy)
      exact ⟨hcreates.path, hcreates.found⟩

/-- A watcher that draws its value, which is what its path gives. -/
theorem returns_bindWatcher (hw : w.OnlyAsks) (hresponds : w.graph.Responds data) (path : Path)
    {r : Reaction} {draw : Value → Document → Document}
    (hrun : ∀ v, r.run v = Proc.modify (·.onDocument (draw v))) :
    (bindWatcher data path r view).Returns w fun result w' => result = .ok () →
      w'.graph.objects = w.graph.objects ∧ ∃ v cells,
        w.graph.Gives (.walk (.object data) path.segments) v cells ∧
          w'.document = draw v w.document := by
  refine (returns_createWatcher hw hresponds path r).bind fun result u hu => ?_
  obtain ⟨hobjects, hdocument, hmade⟩ := hu
  cases result with
  | error e => exact .failed
  | ok x =>
      obtain ⟨hpath, hfound⟩ := hmade x rfl
      obtain ⟨cells, hgives⟩ := hfound.given
      rw [hpath] at hgives
      refine .ask ?_
      rw [hrun]
      exact .modify (.modify (.pure fun _ =>
        ⟨hobjects, _, cells, hgives.of_objects hobjects.symm, congrArg (draw _) hdocument⟩))

/-! ## What hangs below a node -/

/-- A forest that takes the place of another stands on new nodes. -/
theorem Document.replace_bears {d : Document} {n : NodeId} (hn : n < d.nodes.length)
    (trees : List Markup.Tree) :
    (d.replace n trees).BearAll ((d.takeChildren n).nodes.length + ·) 0
      ((d.replace n trees).node n).children trees := by
  obtain ⟨hempty, -⟩ := node_takeChildren hn
  have htaken := (@Alters.takeChildren (fun _ => False) d n).length
  obtain ⟨nodes, hbears, hchildren, -⟩ := @plantAll_bears trees (d.takeChildren n) n 0
    (d.takeChildren n).nodes.length (Nat.lt_of_lt_of_le hn htaken) rfl
  rw [hempty, List.nil_append] at hchildren
  exact hchildren.symm ▸ hbears

/-- A forest hangs below a node whose trees have a property, on nodes from
a set. -/
def Document.Hangs (d : Document) (among : NodeId → Prop) (P : Markup.Tree → Prop) (n : NodeId) :
    Prop :=
  ∃ site place total trees, d.BearAll site place (d.node n).children trees ∧
    Document.Distinct site total ∧ place + Markup.Tree.countAll trees ≤ total ∧
    (∀ tree ∈ trees, P tree) ∧
    ∀ i, place ≤ i → i < place + Markup.Tree.countAll trees → among (site i)

namespace Document.Hangs

variable {among : NodeId → Prop} {P : Markup.Tree → Prop} {n : NodeId} {d d' : Document}

/-- It still does when no content has changed. -/
theorem frame (h : d.Hangs among P n) (halters : d.Alters (fun _ => False) (fun _ => True) d')
    (hn : n < d.nodes.length) : d'.Hangs among P n := by
  obtain ⟨site, place, total, trees, hbears, hdistinct, htotal, hP, hamong⟩ := h
  refine ⟨site, place, total, trees, ?_, hdistinct, htotal, hP, hamong⟩
  rw [halters.children n hn id]
  exact hbears.frame halters fun _ _ _ => id

/-- Another forest takes its place, on new nodes. -/
theorem replace (hn : n < d.nodes.length) {trees : List Markup.Tree}
    (hP : ∀ tree ∈ trees, P tree) (hnew : ∀ m, d.nodes.length ≤ m → among m) :
    (d.replace n trees).Hangs among P n := by
  have htaken := (@Alters.takeChildren (fun _ => False) d n).length
  exact ⟨_, 0, Markup.Tree.countAll trees, trees, d.replace_bears hn trees,
    fun i _ j _ heq => Nat.add_left_cancel heq, Nat.le_of_eq (Nat.zero_add _), hP,
    fun i _ _ => hnew _ (Nat.le_trans htaken (Nat.le_add_right _ i))⟩

end Document.Hangs

/-! ## Bounded trees -/

/-- What a tree comes to show is finite: its children, the markup that its
`v-html` directives show, and so on. -/
inductive Markup.Tree.Bounded (convention : Convention) (g : Graph) (data : ObjectId) :
    Markup.Tree → Prop
  | text (content : String) : Bounded convention g data (.text content)
  | element {tag : String} {attributes : Keyed String} {children : List Markup.Tree} :
      (∀ tree ∈ children, Bounded convention g data tree) →
      (∀ pair ∈ attributes.entries, ∀ path,
        Directive.parse convention.marker pair.1 pair.2 = .ok (some (.html path)) →
        ∀ v cells, g.Gives (.walk (.object data) path.segments) v cells →
        ∀ tree ∈ Document.markupForest v.text, Bounded convention g data tree) →
      Bounded convention g data (.element tag attributes children)

/-! ## Bindings -/

section

variable {among : NodeId → Prop} {P : Markup.Tree → Prop} {n : NodeId} {tag : String}

/-- A directive of an element touches the element alone, and what hangs
below it then is what hung there or what the directive shows. -/
theorem returns_bindDirective (hw : w.OnlyAsks) (hresponds : w.graph.Responds context.data)
    (hkind : (w.document.node n).kind = .element tag) (hhangs : w.document.Hangs among P n)
    (hnew : ∀ m, w.document.nodes.length ≤ m → among m) (htext : ∀ content, P (.text content))
    {directive : Directive} (hhtml : ∀ path, directive = .html path → ∀ v cells,
      w.graph.Gives (.walk (.object context.data) path.segments) v cells →
      ∀ tree ∈ Document.markupForest v.text, P tree) :
    (directive.bind n context view).Returns w fun result w' => result = .ok () →
      w.Touches (· = n) w' ∧ w'.document.Hangs among P n := by
  have hn : n < w.document.nodes.length := Document.lt_of_no_fragment (hkind ▸ nofun)
  have hnotText : (w.document.node n).kind ≠ .text := hkind ▸ nofun
  have hreplace : ∀ {u : World} {trees : List Markup.Tree}, u.graph.objects = w.graph.objects →
      u.document = w.document.replace n trees → (∀ tree ∈ trees, P tree) →
      w.Touches (· = n) u ∧ u.document.Hangs among P n := by
    intro u trees hobjects hdocument hP
    refine ⟨⟨hobjects, ?_⟩, ?_⟩
    all_goals rw [hdocument]
    · exact (Document.replace_spec trees hn).1
    · exact .replace hn hP hnew
  have hkeep : ∀ {u : World}, w.Touches (fun _ => False) u →
      w.Touches (· = n) u ∧ u.document.Hangs among P n := fun h =>
    ⟨h.mono fun _ => False.elim, hhangs.frame h.alters hn⟩
  cases directive with
  | text path =>
      refine (returns_bindWatcher hw hresponds path fun _ => rfl).mono fun result u hu hok => ?_
      obtain ⟨hobjects, v, -, -, hdocument⟩ := hu hok
      rw [Document.setText_eq hnotText] at hdocument
      refine hreplace hobjects hdocument fun tree htree => ?_
      rw [Document.textForest] at htree
      split at htree
      · exact absurd htree List.not_mem_nil
      · exact List.mem_singleton.1 htree ▸ htext _
  | html path =>
      refine (returns_bindWatcher hw hresponds path fun _ => rfl).mono fun result u hu hok => ?_
      obtain ⟨hobjects, v, cells, hgives, hdocument⟩ := hu hok
      rw [Document.showMarkup_eq hnotText] at hdocument
      exact hreplace hobjects hdocument (hhtml path rfl v cells hgives)
  | model path =>
      let listened := w.viewListens view n "input" (.writeBack context.data path)
      have hlistened : w.Touches (fun _ => False) listened := ⟨rfl, .listen ..⟩
      refine .modify ((returns_bindWatcher (w := listened) (hlistened.asks hw)
        (hresponds.frame rfl) path fun _ => rfl).mono fun result u hu hok => ?_)
      obtain ⟨hobjects, v, -, -, hdocument⟩ := hu hok
      refine hkeep (hlistened.andThen ⟨hobjects, ?_⟩ fun _ _ => id)
      have hdraws : listened.document.Draws (fun _ => True) u.document :=
        hdocument ▸ .setValue _ n v.text
      exact hdraws.alters.mono (fun _ _ h => h trivial) fun _ _ h => h
  | on event method =>
      simp only [Directive.bind]
      split
      · exact .failed
      · exact .modify (.pure fun _ => hkeep ⟨rfl, .listen ..⟩)

/-- The attributes of an element, one after the other. -/
theorem returns_attributes (hw : w.OnlyAsks) (hresponds : w.graph.Responds context.data)
    (hkind : (w.document.node n).kind = .element tag) (hhangs : w.document.Hangs among P n)
    (hnew : ∀ m, w.document.nodes.length ≤ m → among m) (htext : ∀ content, P (.text content))
    {pairs : List (String × String)} (hhtml : ∀ pair ∈ pairs, ∀ path,
      Directive.parse convention.marker pair.1 pair.2 = .ok (some (.html path)) →
      ∀ v cells, w.graph.Gives (.walk (.object context.data) path.segments) v cells →
      ∀ tree ∈ Document.markupForest v.text, P tree) :
    (Proc.tryEach (bindAttribute n context convention view) pairs).Returns w
      fun result w' => result = .ok () → w.Touches (· = n) w' ∧ w'.document.Hangs among P n := by
  have hn : n < w.document.nodes.length := Document.lt_of_no_fragment (hkind ▸ nofun)
  refine (Proc.Returns.tryEach (fun rest u => rest ⊆ pairs ∧ w.Touches (· = n) u ∧
    u.document.Hangs among P n) ⟨List.Subset.refl _, .refl _ w, hhangs⟩ ?_).mono
    fun result u hu hok => (hu hok).2
  rintro pair rest u ⟨hpairs, htouches, hhangs⟩
  have hrest : rest ⊆ pairs := fun _ h => hpairs (List.mem_cons_of_mem _ h)
  unfold bindAttribute
  split
  · exact .failed
  · exact .pure fun _ => ⟨hrest, htouches, hhangs⟩
  · rename_i directive hparse
    refine (returns_bindDirective (htouches.asks hw) (hresponds.frame htouches.objects)
      ((htouches.alters.kind n hn).trans hkind) hhangs
      (fun m hm => hnew m (Nat.le_trans htouches.alters.length hm)) htext
      fun path hpath => ?_).mono fun result v hv hok => ?_
    · exact fun v cells hgives => hhtml pair (hpairs List.mem_cons_self) path (hpath ▸ hparse)
        v cells (hgives.of_objects htouches.objects.symm)
    · exact ⟨hrest, htouches.andThen (hv hok).1 fun _ _ => id, (hv hok).2⟩

end

/-- Rendering returns, and changes nothing. -/
theorem returns_renderSegments (hresponds : w.graph.Responds data) :
    ∀ segments : List Segment, (renderSegments data none segments).Returns w fun _ w' => w' = w
  | [] => .pure rfl
  | .literal text :: segments =>
      (returns_renderSegments hresponds segments).bind fun _ _ hu => .pure hu
  | .placeholder path :: segments => by
      obtain ⟨v, cells, hgives⟩ := hresponds path.segments
      obtain ⟨calls, hpasses⟩ := hgives.passes none (w := w) fun _ => rfl
      refine (Proc.Returns.of_passes hpasses (Q := fun _ u => u = w) rfl).bind fun v u hu => ?_
      rw [show u = w from hu]
      exact (returns_renderSegments hresponds segments).bind fun _ _ hu => .pure hu

/-- The placeholders of a text, and its rendering. -/
theorem returns_bindText (hopening : convention.opening ≠ "") (hw : w.OnlyAsks)
    (hresponds : w.graph.Responds context.data) {n : NodeId} (hn : n < w.document.nodes.length) :
    (bindText n context convention view).Returns w fun result w' =>
      result = .ok () → w.Touches (· = n) w' := by
  refine .ask ?_
  rw [Template.parse?, if_neg hopening]
  refine .bind (.pure (Q := fun _ u => u = w) rfl) ?_
  rintro template w rfl
  split
  · refine Proc.Returns.bind (Proc.Returns.tryEach (fun _ u => u.graph.objects = w.graph.objects ∧
      u.document = w.document) ⟨rfl, rfl⟩ ?_) fun result u hu => ?_
    · rintro path rest u ⟨hobjects, hdocument⟩
      refine (returns_createWatcher (hw.of_objects hobjects) (hresponds.frame hobjects) path _).bind
        fun result v hv => ?_
      cases result with
      | error e => exact .failed
      | ok x =>
          exact .modify (.pure fun _ => ⟨hv.1.trans hobjects, hv.2.1.trans hdocument⟩)
    · cases result with
      | error e => exact .failed
      | ok _ =>
          obtain ⟨hobjects, hdocument⟩ := hu rfl
          refine (returns_renderSegments (hresponds.frame hobjects) template.segments).bind ?_
          rintro text u rfl
          refine .modify (.pure fun _ => ⟨hobjects, ?_⟩)
          have hdraws : u.document.Draws (· ≠ n) (u.document.setText n text) :=
            .setText (hdocument ▸ hn) (not_not_intro rfl) text
          exact hdocument ▸ hdraws.alters.mono (fun _ _ => Decidable.not_not.1) fun _ _ h => h
  · exact .pure fun _ => .refl _ _

/-! ## The walk -/

/-- Compiling a tree returns, wherever it stands, and touches nothing but
the tree. -/
def Markup.Tree.Ends (convention : Convention) (context : Context) (view : ViewId) (g : Graph)
    (tree : Markup.Tree) : Prop :=
  ∀ {w : World} {site : Nat → NodeId} {place total : Nat},
    w.graph.objects = g.objects → w.OnlyAsks →
    w.document.Bears site place tree → Document.Distinct site total → place + tree.count ≤ total →
    (compileChild context convention view (site place)).Returns w fun result w' =>
      result = .ok () → w.Touches (fun m => ∃ i, place ≤ i ∧ i < place + tree.count ∧ m = site i) w'

/-- The same for a forest. -/
theorem returns_compileAll {g : Graph} {total : Nat} (hdistinct : Document.Distinct site total) :
    ∀ {trees : List Markup.Tree} {nodes : List NodeId} {place : Nat} {w : World},
      (∀ tree ∈ trees, tree.Ends convention context view g) →
      w.graph.objects = g.objects → w.OnlyAsks → w.document.BearAll site place nodes trees →
      place + Markup.Tree.countAll trees ≤ total →
      (Proc.tryEach (compileChild context convention view) nodes).Returns w fun result w' =>
        result = .ok () → w.Touches
          (fun m => ∃ i, place ≤ i ∧ i < place + Markup.Tree.countAll trees ∧ m = site i) w'
  | [], nodes, place, w, _, _, _, hbears, _ => by
      obtain rfl : nodes = [] := hbears
      exact .pure fun _ => .refl _ _
  | tree :: trees, nodes, place, w, hends, hobjects, hw, hbears, htotal => by
      obtain ⟨rest, rfl, hfirst, hrest⟩ := hbears
      rw [Markup.Tree.countAll] at htotal ⊢
      refine Proc.Returns.bind (hends tree List.mem_cons_self hobjects hw hfirst hdistinct
        (by omega)) fun result u hu => ?_
      cases result with
      | error e => exact .failed
      | ok _ =>
          have htouches := hu rfl
          have hstill := hrest.frame htouches.alters fun i hle hi => by
            -- the nodes of the other trees are not those of the first one
            rintro ⟨j, hj, hlt, heq⟩
            have hsame := hdistinct i (by omega) j (by omega) heq
            omega
          refine (returns_compileAll hdistinct (fun t ht => hends t (List.mem_cons_of_mem _ ht))
            (htouches.objects.trans hobjects) (htouches.asks hw) hstill (by omega)).mono
            fun result v hv hok => ?_
          refine (htouches.mono ?_).andThen (hv hok) fun m _ => ?_
          · rintro m ⟨i, hle, hlt, rfl⟩
            exact ⟨i, hle, by omega, rfl⟩
          · rintro ⟨i, hle, hlt, rfl⟩
            exact ⟨i, by omega, by omega, rfl⟩

theorem Markup.Tree.Ends.text (hopening : convention.opening ≠ "") {g : Graph}
    (hresponds : g.Responds context.data) (content : String) :
    (Markup.Tree.text content).Ends convention context view g := by
  intro w site place total hobjects hw hbears _ _
  refine .ask ?_
  rw [hbears.1]
  refine (returns_bindText hopening hw (hresponds.frame hobjects)
    (Document.lt_of_no_fragment (hbears.1 ▸ nofun))).mono fun result w' hw' hok => ?_
  exact (hw' hok).mono fun m hm => ⟨place, Nat.le_refl _, Nat.lt_succ_self _, hm⟩

/-- An element ends if its children do, and whatever markup its `v-html`
directives show. -/
theorem Markup.Tree.Ends.element (hopening : convention.opening ≠ "") {g : Graph}
    (hresponds : g.Responds context.data) {tag : String} {attributes : Keyed String}
    {children : List Markup.Tree} (hchildren : ∀ tree ∈ children,
      tree.Ends convention context view g)
    (hhtml : ∀ pair ∈ attributes.entries, ∀ path,
      Directive.parse convention.marker pair.1 pair.2 = .ok (some (.html path)) →
      ∀ v cells, g.Gives (.walk (.object context.data) path.segments) v cells →
        ∀ tree ∈ Document.markupForest v.text, tree.Ends convention context view g) :
    (Markup.Tree.element tag attributes children).Ends convention context view g := by
  intro w site place total hobjects hw hbears hdistinct htotal
  have hcount : (Markup.Tree.element tag attributes children).count =
      1 + Markup.Tree.countAll children := rfl
  obtain ⟨hkind, hattributes, hbody⟩ := hbears
  -- a node is below the element, or new
  let among : NodeId → Prop := fun m => w.document.nodes.length ≤ m ∨
    ∃ i, place + 1 ≤ i ∧ i < place + 1 + Markup.Tree.countAll children ∧ m = site i
  have hhangs : w.document.Hangs among (·.Ends convention context view g) (site place) :=
    ⟨site, place + 1, total, children, hbody, hdistinct, by omega, hchildren,
      fun i hle hlt => .inr ⟨i, hle, hlt, rfl⟩⟩
  refine .ask ?_
  simp only [hkind, hattributes]
  refine (returns_attributes hw (hresponds.frame hobjects) hkind hhangs (fun m hm => .inl hm)
    (Markup.Tree.Ends.text hopening hresponds) fun pair hpair path hparse => ?_).bind
      fun result u hu => ?_
  · exact fun v cells hgives =>
      hhtml pair hpair path hparse v cells (hgives.of_objects hobjects.symm)
  · cases result with
    | error e => exact .failed
    | ok _ =>
        obtain ⟨htouches, site', place', total', trees, hbears', hdistinct', htotal', hends,
          hamong⟩ := hu rfl
        refine .perform (.ask ?_)
        refine (returns_compileAll hdistinct' hends (htouches.objects.trans hobjects)
          (htouches.asks hw) hbears' htotal').mono fun result w' hw' hok => ?_
        refine (htouches.mono ?_).andThen (hw' hok) fun m hm => ?_
        · rintro m rfl
          exact ⟨place, Nat.le_refl _, by omega, rfl⟩
        · rintro ⟨i, hle, hlt, rfl⟩
          rcases hamong i hle hlt with hnew | ⟨j, hj, hlt', heq⟩
          · exact absurd hm (Nat.not_lt.2 hnew)
          · exact ⟨j, by omega, by omega, heq⟩

/-- By induction on what the tree comes to show. -/
theorem Markup.Tree.Bounded.ends (hopening : convention.opening ≠ "") {g : Graph}
    (hresponds : g.Responds context.data) {tree : Markup.Tree}
    (h : tree.Bounded convention g context.data) : tree.Ends convention context view g := by
  induction h with
  | text content => exact Markup.Tree.Ends.text hopening hresponds content
  | element _ _ ihchildren ihshown =>
      exact Markup.Tree.Ends.element hopening hresponds ihchildren ihshown

/-! ## Compiling -/

/-- A compilation returns if no accessor runs on for ever and compiling
the trees below its root ends. -/
theorem returns_compile {trees : List Markup.Tree} (hasks : w.OnlyAsks)
    (hrooted : w.document.Rooted site root trees)
    (hends : ∀ tree ∈ trees, tree.Ends convention context w.nextView w.graph) :
    ∃ w' result, Reaches ⟨w, compile root context convention⟩ ⟨w', .done result⟩ := by
  have hreturns : (compile root context convention).Returns w fun _ _ => True := by
    refine .bind (.of_passes (Q := fun v u => v = w ∧ u = w) .state ⟨rfl, rfl⟩) ?_
    rintro _ w ⟨rfl, rfl⟩
    split
    · exact .pure trivial
    · let opened := w.openCompilation root
      have hwalk : (compileChildren w.document.nextNode context convention w.nextView).Returns
          opened fun _ _ => True := by
        refine .ask ((returns_compileAll (w := opened) hrooted.distinct hends rfl
          (hasks.of_objects rfl) hrooted.gathered ?_).mono fun _ _ _ => trivial)
        exact Nat.le_of_eq (Nat.zero_add _)
      refine .modify (hwalk.bind fun result u _ => .modify ?_)
      cases result with
      | error e => exact .modify (.pure trivial)
      | ok _ => exact .pure trivial
  obtain ⟨result, w', hrun, -⟩ := hreturns
  exact ⟨w', result, hrun⟩

/-- A compilation returns if no accessor runs on for ever and what the tree
comes to show is finite. -/
theorem compile_returns {trees : List Markup.Tree} (hopening : convention.opening ≠ "")
    (hasks : w.OnlyAsks) (hresolves : ∀ path, ∃ v, w.ResolvesTo path context.data v)
    (hrooted : w.document.Rooted site root trees)
    (hbounded : ∀ tree ∈ trees, tree.Bounded convention w.graph context.data) :
    ∃ w' result, Reaches ⟨w, compile root context convention⟩ ⟨w', .done result⟩ :=
  returns_compile hasks hrooted fun tree htree =>
    (hbounded tree htree).ends hopening (hasks.responds hresolves)

/-! ## Markup that shows itself -/

/-- A paragraph that shows the markup that is the property `a`. -/
def excerptTrees : List Markup.Tree :=
  [.element "p" ⟨[("v-html", "a")]⟩ []]

/-- The paragraph, next to observed data with a markup for it. -/
def excerptWorld (markup : String) : World :=
  { World.start with
    graph := ⟨[⟨[("a", .data ⟨.string markup, some 0⟩)]⟩], [[]]⟩
    document := Document.plantAll 0 excerptTrees (Document.empty.add (.new .fragment))
    names := { Names.empty with objects := ⟨[("o", 0)]⟩, nodes := ⟨[("n", 0), ("p", 1)]⟩ } }

variable {markup : String}

theorem reactive_excerptWorld (markup : String) :
    (excerptWorld markup).graph.allReactive = true := rfl

theorem onlyGets_excerptWorld (markup : String) : (excerptWorld markup).OnlyGets :=
  Pure.onlyGets (.of_allReactive (reactive_excerptWorld markup))

theorem responds_excerptWorld (markup : String) : (excerptWorld markup).graph.Responds 0 :=
  Graph.responds_of_allReactive (reactive_excerptWorld markup) 0

theorem resolves_excerptWorld (markup : String) (path : Path) :
    ∃ v, (excerptWorld markup).ResolvesTo path 0 v :=
  let ⟨v, cells, hgives⟩ := responds_excerptWorld markup path.segments
  ⟨v, (resolvesTo_iff (onlyGets_excerptWorld markup).onlyAsks).2 ⟨cells, hgives⟩⟩

theorem text_excerptWorld {v : Value} {cells : List Cell}
    (h : (excerptWorld markup).graph.Gives (.walk (.object 0) ["a"]) v cells) :
    v.text = markup := by
  obtain rfl : v = .string markup := h.unique (.step (.data rfl) .stop)
  rfl

/-- A markup without directives is shown, and that is all. -/
theorem compile_returns_of_excerpt : ∃ w' result,
    Reaches ⟨excerptWorld "<b>x</b>", compile 0 ⟨0, .empty⟩ .standard⟩ ⟨w', .done result⟩ := by
  let shown : List Markup.Tree := [.element "b" .empty [.text "x"]]
  have hshown : Document.markupForest "<b>x</b>" = shown := by
    have hbold : Markup.IsTag "b" :=
      ⟨⟨by decide, List.all_eq_true.1 (by decide)⟩, by simp, by decide⟩
    have hwritable : Markup.WritableAll shown := by
      simp [shown, Markup.WritableAll, Markup.Tree.Writable, Markup.Tree.isText, Keyed.keys,
        Keyed.empty, hbold, show Markup.isVoid "b" = false by decide]
    rw [show "<b>x</b>" = String.ofList (Markup.renderAll shown) by decide]
    exact Document.markupForest_renderAll hwritable
  refine compile_returns (by decide) (onlyGets_excerptWorld _).onlyAsks (resolves_excerptWorld _)
    (Document.rooted_planted excerptTrees) fun tree htree => ?_
  obtain rfl := List.mem_singleton.1 htree
  refine .element (fun _ h => absurd h List.not_mem_nil) fun pair hpair path hparse v cells hv => ?_
  obtain rfl := List.mem_singleton.1 hpair
  obtain rfl : ⟨"a", ["a"]⟩ = path := by
    cases hparse
    rfl
  rw [text_excerptWorld hv, hshown]
  intro tree htree
  obtain rfl := List.mem_singleton.1 htree
  refine .element (fun tree htree => ?_) fun _ h => absurd h List.not_mem_nil
  obtain rfl := List.mem_singleton.1 htree
  exact .text "x"

/-- The markup of the paragraph itself. -/
def quine : String := "<p v-html=\"a\"></p>"

theorem markupForest_quine : Document.markupForest quine = excerptTrees := by
  have hparagraph : Markup.IsTag "p" :=
    ⟨⟨by decide, List.all_eq_true.1 (by decide)⟩, by simp, by decide⟩
  have hname : Markup.IsName "v-html" := ⟨by decide, List.all_eq_true.1 (by decide)⟩
  have hwritable : Markup.WritableAll excerptTrees := by
    simp [excerptTrees, Markup.WritableAll, Markup.Tree.Writable, Markup.Tree.isText, Keyed.keys,
      hparagraph, hname]
  rw [show quine = String.ofList (Markup.renderAll excerptTrees) by decide]
  exact Document.markupForest_renderAll hwritable

theorem reachable_excerptWorld : (excerptWorld quine).Reachable := by
  have hrun : ∃ reports, runScript 100 .start
      [.newObject "o" [("a", .const (.string quine))], .observe (.object "o"),
        .node (.fragment "n"), .node (.element "p" "p"), .node (.setAttribute "p" "v-html" "a"),
        .node (.append "n" "p")] = .finished reports (excerptWorld quine) := ⟨_, rfl⟩
  obtain ⟨reports, hrun⟩ := hrun
  exact (World.Rested.start.runScript hrun).reachable

/-- The paragraph is about to be compiled below a node, and what it shows
is itself. -/
structure World.Echoes (w : World) (view : ViewId) (n : NodeId) : Prop where
  ready : Ready view 0 w
  objects : w.graph.objects = (excerptWorld quine).graph.objects
  bears : ∃ site, w.document.BearAll site 0 (w.document.node n).children excerptTrees

theorem World.Echoes.responds {n : NodeId} (hw : w.Echoes view n) : w.graph.Responds 0 :=
  (responds_excerptWorld quine).frame hw.objects

/-- Its directive puts it below itself. -/
theorem World.Echoes.shows {m n : NodeId} (hw : w.Echoes view n)
    (hkind : (w.document.node m).kind = .element "p") :
    (Proc.tryEach (bindAttribute m ⟨0, .empty⟩ .standard view) [("v-html", "a")]).Returns w
      fun result w' => result = .ok () ∧ w'.Echoes view m := by
  have hm : m < w.document.nodes.length := Document.lt_of_no_fragment (hkind ▸ nofun)
  have hfits : (Reaction.markup m).Fits w.document w.document.nodes.length := ⟨hm, "p", hkind⟩
  have hbind : (bindWatcher 0 ⟨"a", ["a"]⟩ (.markup m) view).Returns w
      fun result w' => result = .ok () ∧ w'.Echoes view m := by
    refine (returns_bindWatcher hw.ready.asks hw.responds ⟨"a", ["a"]⟩ fun _ => rfl).of_reaches
      fun result w' hrun hshown => ?_
    obtain ⟨rfl, hinstalls⟩ := reaches_bindWatcher
      ⟨hw.ready.slot, hw.ready.asks, hw.ready.view, Nat.le_refl _⟩ hfits hrun
    obtain ⟨-, v, cells, hgives, hdocument⟩ := hshown rfl
    have htext : v.text = quine := text_excerptWorld (hgives.of_objects hw.objects.symm)
    rw [Document.showMarkup_eq (hkind ▸ nofun), htext, markupForest_quine] at hdocument
    have hbears := w.document.replace_bears hm excerptTrees
    rw [← hdocument] at hbears
    have hready : Ready view 0 w' := ⟨hinstalls.slot,
      hw.ready.asks.of_objects hinstalls.objects, hinstalls.views ▸ hw.ready.view, Nat.zero_le _⟩
    exact ⟨rfl, hready, hinstalls.objects.trans hw.objects, _, hbears⟩
  refine Proc.Returns.bind hbind fun result w' hw' => ?_
  obtain ⟨rfl, hechoes⟩ := hw'
  exact .pure ⟨rfl, hechoes⟩

/-- So the walk below a node comes to the walk below the paragraph. -/
theorem World.Echoes.round {β : Type} {n : NodeId} (hw : w.Echoes view n)
    (k : Except Error Unit → Proc β) : ∃ calls w' m k', calls ≠ [] ∧ w'.Echoes view m ∧
      Passes ⟨w, compileChildren n ⟨0, .empty⟩ .standard view >>= k⟩ calls
        ⟨w', compileChildren m ⟨0, .empty⟩ .standard view >>= k'⟩ := by
  obtain ⟨site, rest, hchildren, ⟨hkind, hattributes, -⟩, rfl⟩ := hw.bears
  obtain ⟨result, w', hrun, rfl, hechoes⟩ := hw.shows hkind
  obtain ⟨calls, hpasses⟩ := hrun.passes
  let context : Context := ⟨0, .empty⟩
  let descent : Call := .descend (site 0) context .standard view
  have hchild : Passes ⟨w, compileChild context .standard view (site 0)⟩ (calls ++ [])
      ⟨w', Proc.perform descent⟩ := by
    refine .bind_nil (.ask _) ?_
    simp only [hkind, hattributes]
    exact .bind hpasses (.here _)
  have hwalk : Passes ⟨w, compileChildren n context .standard view⟩ (calls ++ [])
      ⟨w', Proc.tryEach (fun _ => Proc.perform descent) [site 0]⟩ := by
    refine .bind_nil (.ask _) ?_
    rw [hchildren]
    exact hchild.bind_left _
  exact ⟨_, w', site 0, _, by simp, hechoes, (hwalk.bind_left k).trans (.call (.here _))⟩

/-- A paragraph that shows its own markup is compiled for ever. -/
theorem compile_of_quine : ∃ w : World,
    w.Reachable ∧ w.slot = none ∧ w.OnlyGets ∧ (∀ path, ∃ v, w.ResolvesTo path 0 v) ∧
      w.document.Rooted (1 + ·) 0 excerptTrees ∧
      w.document.outerMarkup 0 = "<p v-html=\"a\"></p>" ∧
      w.graph.content (0, "a") = some (.inl (.string "<p v-html=\"a\"></p>")) ∧
      ¬ ∃ w' result, Reaches ⟨w, compile 0 ⟨0, .empty⟩ .standard⟩ ⟨w', .done result⟩ := by
  let w := excerptWorld quine
  have hgets : w.OnlyGets := onlyGets_excerptWorld quine
  have hrooted : w.document.Rooted (1 + ·) 0 excerptTrees := Document.rooted_planted excerptTrees
  refine ⟨w, reachable_excerptWorld, rfl, hgets, resolves_excerptWorld _, hrooted,
    by decide +kernel, rfl, ?_⟩
  rintro ⟨w', result, hrun⟩
  let opened := w.openCompilation 0
  obtain ⟨k, hopens⟩ : ∃ k, Passes ⟨w, compile 0 ⟨0, .empty⟩ .standard⟩ []
      ⟨opened, compileChildren w.document.nextNode ⟨0, .empty⟩ .standard w.nextView >>= k⟩ :=
    ⟨_, .bind_nil .state (.bind_nil (.modify _) (.here _))⟩
  have hechoes : opened.Echoes w.nextView w.document.nextNode :=
    ⟨⟨rfl, hgets.onlyAsks.of_objects rfl, by decide, Nat.zero_le _⟩, rfl, _,
      hrooted.gathered⟩
  refine Passes.endless (I := fun c => ∃ u n k, u.Echoes w.nextView n ∧
    c = ⟨u, compileChildren n ⟨0, .empty⟩ .standard w.nextView >>= k⟩) ?_
    ⟨_, _, _, hechoes, rfl⟩ (Reaches.through hopens hrun rfl) rfl
  rintro _ ⟨u, n, k, hu, rfl⟩
  obtain ⟨calls, u', m, k', hcalls, hu', hround⟩ := hu.round k
  exact ⟨calls, _, hcalls, hround, u', m, k', hu', rfl⟩

end DataBinding
