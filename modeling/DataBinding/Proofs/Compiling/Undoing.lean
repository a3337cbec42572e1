import DataBinding.Proofs.Client.Ticks
import DataBinding.Proofs.Compiling.Gathering
import DataBinding.Proofs.Compiling.Sites
import DataBinding.Proofs.Disposal.Views
import DataBinding.Proofs.Document.Grafting

/-!
# Compiling and disposing undo each other

What a compilation has gathered is in its view, and nothing else was
added to any list (`Gathers`). So disposing of the view right after the
walk, whether the walk has failed or not, leaves every subscriber list
and every listener list as it was before, and the root has its children
back (`Walked`). For a compilation that fails this is the end of it
(`failed_compile_leaves_no_binding`).
-/

namespace DataBinding

open World

/-! ## Below a node -/

/-- The nodes that are not below one. -/
def Document.beside (d : Document) (n m : NodeId) : Prop :=
  m < d.nodes.length ∧ ¬ d.Below n m

theorem Document.closed_beside (d : Document) (n : NodeId) : d.Closed (d.beside n) where
  there hm := hm.1
  shut {p c} hp hc hout := hp ⟨Nat.lt_of_not_le fun hle => by
    rw [Document.node_of_le hle] at hc
    exact List.not_mem_nil hc, fun hbelow => hout.2 (hbelow.tail hc)⟩

variable {w w' last : World} {root : NodeId} {context : Context} {convention : Convention}

/-! ## Opening -/

/-- The children of a node are in a fragment of their own, and nothing else
has changed. -/
structure Document.Opened (d : Document) (root : NodeId) (d' : Document) : Prop where
  reshapes : d.Reshapes d'
  linked : d'.Linked
  there : d.nextNode < d'.nodes.length
  fragment : (d'.node d.nextNode).kind = .fragment
  gathered : (d'.node d.nextNode).children = (d.node root).children
  emptied : (d'.node root).children = []
  others : ∀ n c, c ∈ (d'.node n).children → c ∈ (d.node n).children ∨ n = d.nextNode

theorem Document.opened {d : Document} (h : d.Linked) (hroot : root < d.nodes.length) :
    d.Opened root (d.gathered root) := by
  obtain ⟨-, hthere, hfragment, hgathered, hemptied⟩ :=
    gathered_frame hroot (fun c hc => h.kind hc) (h.nodup root)
  have hadded : (d.add (.new .fragment)).Linked := h.add rfl
  refine ⟨?_, (hadded.takeChildren root).appendAll _ _, hthere, hfragment, hgathered, hemptied, ?_⟩
  · exact ((Reshapes.add d rfl).trans (.takeChildren _ root)).trans
      (.foldl (fun d' m => .append d' d.nextNode m) _ _)
  · exact ((Sprouts.add d rfl).trans (.takeChildren _ root)).trans
      (.foldl (fun d' m => .append d' m fun _ => rfl) _ _)

namespace Document.Opened

variable {d d' : Document}

/-- What is below the fragment was below the node. -/
theorem below (h : d.Opened root d') {n : NodeId} (hn : d'.Below d.nextNode n) :
    d.Below root n := by
  have hstep : ∀ {p c}, d.Below root p → c ∈ (d'.node p).children → d.Below root c := by
    intro p c hp hc
    rcases h.others p c hc with hold | rfl
    · exact hp.tail hold
    · rw [h.gathered] at hc
      exact .single hc
  induction hn with
  | single hc =>
      rw [h.gathered] at hc
      exact .single hc
  | tail _ hc ih => exact hstep ih hc

/-- Nothing has the fragment for a child. -/
theorem fragment_beside (h : d.Opened root d') : d'.beside d.nextNode d.nextNode := by
  refine ⟨h.there, fun hbelow => ?_⟩
  obtain ⟨p, -, hc⟩ := (Relation.TransGen.tail'_iff).1 hbelow
  exact h.linked.kind hc h.fragment

end Document.Opened

/-- If what is below the fragment was all that changed, its children can be
put back: the node has those that it had. -/
theorem Document.Opened.closed {d d' u : Document} {value : NodeId → Prop} (h : d.Opened root d')
    (hlinked : d.Linked) (hroot : root < d.nodes.length) (hacyclic : ¬ d.Below root root)
    (hwalked : d'.Alters (fun n => ¬ d'.beside d.nextNode n) value u) :
    ((u.append root d.nextNode).node root).children = (d.node root).children := by
  have hroot' : root < d'.nodes.length := Nat.lt_of_lt_of_le hroot h.reshapes.length
  have hbeside : d'.beside d.nextNode root := ⟨hroot', fun hbelow => hacyclic (h.below hbelow)⟩
  have hchildren : (u.node d.nextNode).children = (d.node root).children :=
    (hwalked.children d.nextNode h.there fun hbelow => hbelow h.fragment_beside).trans h.gathered
  have hnone : (u.node root).children = [] :=
    (hwalked.children root hroot' fun hbelow => hbelow hbeside).trans h.emptied
  obtain ⟨-, happend⟩ := Document.append_fragment_spec
    (Nat.lt_of_lt_of_le hroot' hwalked.length) (Nat.lt_of_lt_of_le h.there hwalked.length)
    ((hwalked.kind d.nextNode h.there).trans h.fragment) (hchildren ▸ hlinked.nodup root)
  refine (happend (Nat.ne_of_lt hroot)).trans ?_
  rw [hnone, hchildren, List.nil_append]

/-! ## Nobody is in a list before it was made -/

/-- What was appended is what is filtered out. -/
theorem filter_append_of_old {α : Type} {old more : List α} {p : α → Bool}
    (hold : ∀ a ∈ old, p a = true) (hmore : ∀ a ∈ more, ¬ p a = true) :
    (old ++ more).filter p = old := by
  rw [List.filter_append, List.filter_eq_self.2 hold, List.filter_eq_nil_iff.2 hmore,
    List.append_nil]

theorem World.Ledger.lt_of_mem_subscribers (h : Ledger w) {x : WatcherId} {d : DependencyId}
    (hx : SubscriberId.watcher x ∈ w.graph.subscribersOf d) : x < w.watchers.length := by
  refine Nat.lt_of_not_le fun hle => ?_
  have hfree : w.slot ≠ some (.watcher x) := fun hslot =>
    Nat.not_lt.2 hle (h.lt_of_slot hslot)
  have hnone : w.entries x d = 0 := h.never fun hs => by
    rw [h.subscribed_iff hfree, watcher_eq_default hle] at hs
    exact List.not_mem_nil hs
  exact List.count_eq_zero.1 hnone hx

namespace Gathers

variable {view : ViewId} {out : NodeId → Prop} {xs : List WatcherId} {es : List (NodeId × ListenerId)}

/-- Without the watchers that were gathered the lists are what they were. -/
theorem subscribers_without (h : Gathers view out xs es w w')
    (hold : ∀ {x d}, SubscriberId.watcher x ∈ w.graph.subscribersOf d → x < w.watchers.length)
    (d : DependencyId) :
    ((w'.graph.subscribersOf d).filter fun s => ∀ x ∈ xs, s ≠ .watcher x) =
      w.graph.subscribersOf d := by
  obtain ⟨more, hmore, hnew⟩ := h.subscribers d
  rw [hmore]
  refine filter_append_of_old (fun s hs => ?_) fun s hs hkept => ?_
  · rw [decide_eq_true_eq]
    rintro x hx rfl
    exact Nat.not_lt.2 (h.newer x hx) (hold hs)
  · obtain ⟨x, hx, rfl⟩ := hnew s hs
    exact of_decide_eq_true hkept x hx rfl

/-- Without the listeners that were gathered the lists are what they were. -/
theorem listeners_without (h : Gathers view out xs es w w')
    (hold : ∀ {n l}, l ∈ (w.document.node n).listeners → l.id < w.document.nextListener)
    (n : NodeId) :
    ((w'.document.node n).listeners.filter fun l => (n, l.id) ∉ es) =
      (w.document.node n).listeners := by
  obtain ⟨more, hmore, hnew⟩ := h.listeners n
  rw [hmore]
  refine filter_append_of_old (fun l hl => ?_) fun l hl hkept => ?_
  · rw [decide_eq_true_eq]
    exact fun hmem => Nat.not_lt.2 (h.fresh _ hmem) (hold hl)
  · exact of_decide_eq_true hkept (hnew l hl)

end Gathers

/-! ## The walk, and what it can be undone to -/

/-- What a compilation has come to when its children are back in place. -/
structure Walked (w : World) (root : NodeId) (last : World) : Prop where
  ledger : Ledger last
  free : ∀ x ∈ (last.view w.nextView).watchers, last.slot ≠ some (.watcher x)
  subscribers : ∀ {after}, last.Discards w.nextView after →
    ∀ d, after.graph.subscribersOf d = w.graph.subscribersOf d
  listeners : ∀ {after}, last.Discards w.nextView after →
    ∀ n, (after.document.node n).listeners = (w.document.node n).listeners
  kind : ∀ n < w.document.nodes.length,
    (last.document.node n).kind = (w.document.node n).kind ∧
      (last.document.node n).attributes = (w.document.node n).attributes
  children : ¬ w.document.Below root root →
    (last.document.node root).children = (w.document.node root).children

theorem walked {result : Except Error Unit} (hledger : Ledger w) (hlisted : w.Listed)
    (hlinked : w.document.Linked) (hasks : w.OnlyAsks) (hroot : root < w.document.nodes.length)
    {u : World} (h : Reaches ⟨w.openCompilation root,
        compileChildren w.document.nextNode context convention w.nextView⟩ ⟨u, .done result⟩) :
    Walked w root (u.onDocument (·.append root w.document.nextNode)) := by
  let first := w.openCompilation root
  let fragment := w.document.nextNode
  let last := u.onDocument (·.append root fragment)
  have hopened : w.document.Opened root first.document := Document.opened hlinked hroot
  have hempty : first.view w.nextView = ⟨[], []⟩ := by
    simp [first, World.view, World.nextView, World.openCompilation, World.addView,
      World.onDocument]
  have hfillable : Fillable w.nextView (first.document.beside fragment) first :=
    hasks.fillable (Document.closed_beside _ _)
  obtain ⟨xs, es, hgathers⟩ :=
    gathers_of_compileChildren hfillable (fun c hc hout => hout.2 (.single hc)) h
  have hback : u.document.Reshapes last.document := .append _ root fragment
  have hfirst : Ledger first := (hledger.frame (.openCompilation w root)).ledger
  have hu : Ledger u := hfirst.along (LedgerDiscipline.lawful.compileChildren _ _ _ _) h
  have hlast : Ledger last := (hu.frame (.onDocument u _)).ledger
  have hwatchers : (last.view w.nextView).watchers = xs := by
    refine hgathers.watching.trans ?_
    rw [hempty, List.nil_append]
  have hlisteners : (last.view w.nextView).listeners = es := by
    refine hgathers.listening.trans ?_
    rw [hempty, List.nil_append]
  have hfree : ∀ x ∈ (last.view w.nextView).watchers, last.slot ≠ some (.watcher x) := by
    intro x hx hslot
    rw [hwatchers] at hx
    exact Nat.not_lt.2 (hgathers.newer x hx) (hledger.lt_of_slot (hgathers.slot ▸ hslot))
  refine ⟨hlast, hfree, fun {after} hafter d => ?_, fun {after} hafter n => ?_,
    fun n hn => ⟨?_, ?_⟩, fun hacyclic => hopened.closed hlinked hroot hacyclic hgathers.alters⟩
  · rw [hafter.subscribers hlast.toTracked hfree d, hwatchers]
    exact hgathers.subscribers_without hledger.lt_of_mem_subscribers d
  · have hheard : ∀ {n l}, l ∈ (first.document.node n).listeners →
        l.id < first.document.nextListener := fun {n l} hl => by
      rw [hopened.reshapes.listeners n] at hl
      rw [hopened.reshapes.nextListener]
      exact hlisted.heard.below hl
    rw [hafter.listeners n, hlisteners, hback.listeners n, hgathers.listeners_without hheard n]
    exact hopened.reshapes.listeners n
  · have hn' := Nat.lt_of_lt_of_le hn hopened.reshapes.length
    rw [hback.kind n (Nat.lt_of_lt_of_le hn' hgathers.alters.length), hgathers.alters.kind n hn',
      hopened.reshapes.kind n hn]
  · have hn' := Nat.lt_of_lt_of_le hn hopened.reshapes.length
    rw [hback.attributes n (Nat.lt_of_lt_of_le hn' hgathers.alters.length),
      hgathers.alters.attributes n hn', hopened.reshapes.attributes n hn]

/-! ## Failing -/

/-- A field that is not about listeners. -/
theorem field_dropListeners {β : Type} (d : Document) (es : List (NodeId × ListenerId))
    (n : NodeId) {field : Node → β}
    (h : ∀ (node : Node) (listeners : List Listener),
      field { node with listeners } = field node) :
    field ((dropListeners d es).node n) = field (d.node n) := by
  induction es generalizing d with
  | nil => rfl
  | cons e es ih => exact (ih _).trans (Document.field_modify d e.1 n field fun _ => h _ _)

/-- A compilation that fails leaves no binding behind, wherever in the tree
it fails: subscribers, listeners, kinds and attributes are what they were,
and the root has its children back. Only a root that is below itself, which
none is in a forest, can come to have others: its own directives are then
bound while its children are away. -/
theorem failed_compile_leaves_no_binding {e : Error} (hw : w.Reachable) (hasks : w.OnlyAsks)
    (hroot : root < w.document.nodes.length)
    (h : Reaches ⟨w, compile root context convention⟩ ⟨w', .done (.error e)⟩) :
    (∀ d, w'.graph.subscribersOf d = w.graph.subscribersOf d) ∧
    (∀ n, (w'.document.node n).listeners = (w.document.node n).listeners) ∧
    (∀ n < w.document.nodes.length, (w'.document.node n).kind = (w.document.node n).kind ∧
      (w'.document.node n).attributes = (w.document.node n).attributes) ∧
    (w.document.IsForest → ¬ w.document.Below root root) ∧
    (¬ w.document.Below root root →
      (w'.document.node root).children = (w.document.node root).children ∧
        ∀ c ∈ (w.document.node root).children, (w'.document.node c).parent = some root) := by
  have hlinked : w'.document.Linked := Lasting.linked.compile hw.linked h
  by_cases hkind : (w.document.node root).kind = .text
  · obtain ⟨rfl, -⟩ := Reaches.of_compile_text hkind h
    exact ⟨fun _ => rfl, fun _ => rfl, fun _ _ => ⟨rfl, rfl⟩, fun hforest => hforest.acyclic root,
      fun _ => ⟨rfl, fun c hc => hlinked.parent hc⟩⟩
  · obtain ⟨walk, u, hwalk, ⟨-, hok, -⟩ | ⟨e, -, -, rfl⟩⟩ := Reaches.of_compile hkind h
    · cases hok
    · have hwalked := walked hw.ledger hw.listed hw.linked hasks hroot hwalk
      let last := u.onDocument (·.append root w.document.nextNode)
      have hundone : last.Discards w.nextView (last.disposeView w.nextView) := .disposeView _ _
      have hfield : ∀ {β : Type} {field : Node → β} (n : NodeId),
          (∀ (node : Node) (listeners : List Listener),
            field { node with listeners } = field node) →
          field ((last.disposeView w.nextView).document.node n) = field (last.document.node n) := by
        intro β field n hfield
        rw [hundone.document]
        exact field_dropListeners _ _ n hfield
      refine ⟨hwalked.subscribers hundone, hwalked.listeners hundone, fun n hn => ?_,
        fun hforest => hforest.acyclic root, fun hacyclic => ?_⟩
      · exact ⟨(hfield n fun _ _ => rfl).trans (hwalked.kind n hn).1,
          (hfield n fun _ _ => rfl).trans (hwalked.kind n hn).2⟩
      · have hchildren : ((last.disposeView w.nextView).document.node root).children =
            (w.document.node root).children :=
          (hfield root fun _ _ => rfl).trans (hwalked.children hacyclic)
        exact ⟨hchildren, fun c hc => hlinked.parent (hchildren ▸ hc)⟩

/-! ### A misspelt directive -/

/-- A text that shows the property `a`, and a paragraph with a directive
that there is not. -/
def misspeltTrees : List Markup.Tree :=
  [.text "\x7b\x7ba\x7d\x7d", .element "p" ⟨[("v-bogus", "x")]⟩ []]

/-- The two of them, next to observed data. -/
def misspeltWorld : World :=
  { World.start with
    graph := ⟨[⟨[("a", .data ⟨.string "1", some 0⟩)]⟩], [[]]⟩
    document := Document.plantAll 0 misspeltTrees (Document.empty.add (.new .fragment))
    names := { Names.empty with
      objects := ⟨[("o", 0)]⟩, nodes := ⟨[("n", 0), ("t", 1), ("p", 2)]⟩ } }

theorem reachable_misspeltWorld : misspeltWorld.Reachable := by
  have hrun : ∃ reports, runScript 100 .start
      [.newObject "o" [("a", .const (.string "1"))], .observe (.object "o"),
        .node (.fragment "n"), .node (.text "t" "\x7b\x7ba\x7d\x7d"), .node (.append "n" "t"),
        .node (.element "p" "p"), .node (.setAttribute "p" "v-bogus" "x"),
        .node (.append "n" "p")] = .finished reports misspeltWorld := ⟨_, rfl⟩
  obtain ⟨reports, hrun⟩ := hrun
  exact (World.Rested.start.runScript hrun).reachable

/-- The paragraph fails when the text has got its watcher, and the watcher
is in no list then. -/
theorem failed_compile_leaves_no_binding_of_misspelt : ∃ w' : World,
    Reaches ⟨misspeltWorld, compile 0 ⟨0, .empty⟩ .standard⟩
      ⟨w', .done (.error (.unknownDirective "v-bogus"))⟩ ∧ w'.watchers.length = 1 ∧
      (∀ d, w'.graph.subscribersOf d = misspeltWorld.graph.subscribersOf d) ∧
      (w'.document.node 0).children = [1, 2] := by
  have hrun := @Config.reaches_of_error? 300
    ⟨misspeltWorld, compile 0 ⟨0, .empty⟩ .standard⟩ (.unknownDirective "v-bogus")
    (by decide +kernel)
  have hforest : misspeltWorld.document.IsForest := .planted misspeltTrees
  obtain ⟨hsubscribers, -, -, hacyclic, hchildren⟩ := failed_compile_leaves_no_binding
    reachable_misspeltWorld (Pure.onlyAsks (.of_allReactive rfl)) (by decide) hrun
  exact ⟨_, hrun, by decide +kernel, hsubscribers, (hchildren (hacyclic hforest)).1⟩

end DataBinding
