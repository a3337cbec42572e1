import DataBinding.Proofs.Compiling.Independence
import DataBinding.Proofs.Compiling.Undoing
import DataBinding.Proofs.Disposal.Final

/-!
# Disposal takes a compilation back

Between a compilation and the disposal of its view the watchers subscribe
to whatever they come to read, and client code adds what it likes. The
disposal takes away the watchers and the listeners of the view, wherever
they are by then, and nothing else; nothing is heard of them afterwards
(`disposal_takes_compilation_back`). What a compilation adds is just what
its view has (`loses_of_compile`), so that every list is what it was before
the compilation if the view is disposed of at once.
-/

namespace DataBinding

open World

variable {a b c : Config Reply} {v : ViewId}

/-! ## Along a run -/

/-- What is kept holds wherever a run comes to. -/
theorem Lasting.proceeds {I : World → Prop} {delivers : Listener → Prop} (h : Lasting I delivers)
    (ha : a.Reachable) (hI : I a.world) (hrun : Proceeds a b) : I b.world := by
  induction hrun with
  | here => exact hI
  | tick hrun htick ih => exact h.next ih ((hrun.reachable ha).onward htick)
  | step s _ ih => exact h.next ih (.inl (.of_same rfl rfl))

/-- A tick of a run disposes of a view. -/
def Config.Discards (a : Config Reply) (v : ViewId) (b : Config Reply) : Prop :=
  ∃ before after, Proceeds a before ∧ before.tick = some after ∧ Proceeds after b ∧
    before.world.Discards v after.world

/-- Until a view is disposed of, it has what it had. -/
theorem Proceeds.holds (hrun : Proceeds a b) (ha : a.Reachable) (v : ViewId) :
    a.Discards v b ∨ (a.world.view v).watchers <+: (b.world.view v).watchers ∧
      (a.world.view v).listeners <+: (b.world.view v).listeners := by
  induction hrun with
  | here => exact .inr ⟨List.prefix_refl _, List.prefix_refl _⟩
  | @tick b c hrun htick ih =>
      rcases ih with ⟨before, after, hbefore, htick', hafter, hdiscards⟩ | ⟨hwatching, hlistening⟩
      · exact .inl ⟨before, after, hbefore, htick', hafter.tick htick, hdiscards⟩
      · rcases (hrun.reachable ha).onward htick with hgrows | ⟨u, hdiscards⟩
        · exact .inr ⟨hwatching.trans (hgrows.watching v), hlistening.trans (hgrows.listening v)⟩
        · by_cases hself : v = u
          · exact .inl ⟨b, c, hrun, htick, .here _, hself ▸ hdiscards⟩
          · rw [hdiscards.view_eq, if_neg hself]
            exact .inr ⟨hwatching, hlistening⟩
  | step s _ ih =>
      rcases ih with ⟨before, after, hbefore, htick, hafter, hdiscards⟩ | hholds
      · exact .inl ⟨before, after, hbefore, htick, hafter.step s, hdiscards⟩
      · exact .inr hholds

/-! ## Listeners that are gone -/

/-- Listeners that are on no node, and that no node will get. -/
def World.Unheard (es : List (NodeId × ListenerId)) (w : World) : Prop :=
  ∀ e ∈ es, e.2 < w.document.nextListener ∧ ∀ n, ∀ l ∈ (w.document.node n).listeners, l.id ≠ e.2

theorem Lasting.unheard (es : List (NodeId × ListenerId)) :
    Lasting (Unheard es) (fun l => ∀ e ∈ es, l.id ≠ e.2) where
  next h honward e he := by
    obtain ⟨hbelow, hnowhere⟩ := h e he
    refine ⟨Nat.lt_of_lt_of_le hbelow honward.document.nextListener, fun n l hl => ?_⟩
    rcases honward.document.listeners hl with hold | hnew
    · exact hnowhere n l hold
    · exact Nat.ne_of_gt (Nat.lt_of_lt_of_le hbelow hnew)
  listens h hl e he := (h e he).2 _ _ hl

/-! ## What is taken away -/

/-- Watchers are taken out of all lists and listeners off all nodes; the
others keep their places. -/
structure World.Loses (xs : List WatcherId) (es : List (NodeId × ListenerId)) (w w' : World) :
    Prop where
  subscribers : ∀ d, w'.graph.subscribersOf d =
    (w.graph.subscribersOf d).filter fun s => ∀ x ∈ xs, s ≠ .watcher x
  listeners : ∀ n, (w'.document.node n).listeners =
    (w.document.node n).listeners.filter fun l => l.id ∉ es.map (·.2)

/-- No subscriber and no listener has come or gone. -/
structure World.SameLists (w w' : World) : Prop where
  subscribers : ∀ d, w'.graph.subscribersOf d = w.graph.subscribersOf d
  listeners : ∀ n, (w'.document.node n).listeners = (w.document.node n).listeners

/-- The same is left of the same lists. -/
theorem World.Loses.sameLists {xs : List WatcherId} {es : List (NodeId × ListenerId)}
    {w w' u u' : World} (h : u.Loses xs es w) (h' : u'.Loses xs es w') (hsame : u.SameLists u') :
    w.SameLists w' where
  subscribers d := by rw [h'.subscribers, h.subscribers, hsame.subscribers]
  listeners n := by rw [h'.listeners, h.listeners, hsame.listeners]

/-- Watchers are in no list and do not react, and listeners are not run by
a dispatch that starts here. -/
structure Config.Silent (xs : List WatcherId) (es : List (NodeId × ListenerId))
    (c : Config Reply) : Prop where
  subscribers : ∀ x ∈ xs, ∀ d, SubscriberId.watcher x ∉ c.world.graph.subscribersOf d
  reacting : ∀ x ∈ xs, c.reacting ≠ some x
  dispatch : ∀ node event, Along
    (fun _ call => ∀ l occurred, call = .deliver l occurred → ∀ e ∈ es, l.id ≠ e.2)
    ⟨c.world, DataBinding.dispatch node event⟩

namespace World.Discards

variable {w w' : World}

theorem loses (h : w.Discards v w') (hw : w.Tracked) (hlisted : w.Listed)
    (hfree : ∀ x ∈ (w.view v).watchers, w.slot ≠ some (.watcher x)) :
    w.Loses (w.view v).watchers (w.view v).listeners w' where
  subscribers := h.subscribers hw hfree
  listeners n := by
    rw [h.listeners n]
    refine List.filter_congr fun l hl => decide_eq_decide.2 (not_congr
      ⟨fun hmem => List.mem_map_of_mem hmem, fun hmem => ?_⟩)
    obtain ⟨e, he, heq⟩ := List.mem_map.1 hmem
    obtain rfl := hlisted.place he hl heq.symm
    exact heq ▸ he

theorem unheard (h : w.Discards v w') (hlisted : w.Listed) : w'.Unheard (w.view v).listeners := by
  intro e he
  refine ⟨Nat.lt_of_lt_of_le (hlisted.below he) h.evolves.nextListener, fun n l hl heq => ?_⟩
  rw [h.listeners n, List.mem_filter, decide_eq_true_eq] at hl
  obtain rfl := hlisted.place he hl.1 heq
  exact hl.2 (heq ▸ he)

/-- Every watcher of the view ends. -/
theorem ends (h : w.Discards v w') (hledger : w.Ledger) (hslot : w.slot = none) {x : WatcherId}
    (hx : x ∈ (w.view v).watchers) : w.Ends w' x := by
  have hfree : ∀ y, w.slot ≠ some (.watcher y) := fun y => hslot ▸ nofun
  obtain ⟨index, hindex⟩ := List.getElem?_of_mem hx
  have hthere : x < w.watchers.length :=
    lt_of_handles (LedgerDiscipline.handles_of_viewed hledger hindex)
  refine .inr ⟨hthere, hfree x, ⟨v, hx, ?_⟩,
    h.gone hledger.toTracked (fun y _ => hfree y) hx hthere⟩
  rw [h.view_eq, if_pos rfl]
  exact List.not_mem_nil

end World.Discards

/-- Once a view is disposed of outside of evaluations, nothing is heard of
what it had. -/
theorem Config.Reachable.silent {later : Config Reply} (hb : b.Reachable) (htick : b.tick = some c)
    (hslot : b.world.slot = none) (hdiscards : b.world.Discards v c.world)
    (hlater : Proceeds c later) :
    later.Silent (b.world.view v).watchers (b.world.view v).listeners := by
  have hc : c.Reachable := ((Proceeds.here b).tick htick).reachable hb
  obtain ⟨s, hs⟩ := hb.follows
  obtain ⟨t, ht, hended⟩ := hs.tick_ends htick hc.world.ledger
  obtain ⟨u, hu, hkeeps⟩ := ht.proceeds hc hlater
  have hover : ∀ x ∈ (b.world.view v).watchers, u.retired x := fun x hx =>
    hkeeps x (hended x (.inr (hdiscards.ends hb.world.ledger hslot hx)))
  refine ⟨fun x hx => (hu.over (hover x hx)).2.2.1, fun x hx => (hu.over (hover x hx)).2.2.2,
    fun node event => ?_⟩
  have hkept := Lasting.unheard (b.world.view v).listeners
  exact hkept.dispatch (hkept.proceeds hc (hdiscards.unheard hb.world.listed) hlater) node event

/-! ## Compiling and disposing -/

section

variable {w w₁ w' : World} {root : NodeId} {context : Context} {convention : Convention}

/-- Disposing of the view right after its compilation takes away what the
view has, and so leaves what was there before the compilation. -/
theorem discards_after_compile (hw : w.Reachable) (hasks : w.OnlyAsks)
    (hroot : root < w.document.nodes.length)
    (h : Reaches ⟨w, compile root context convention⟩ ⟨w₁, .done (.ok v)⟩)
    (hdiscards : w₁.Discards v w') :
    w.SameLists w' ∧ w₁.Loses (w₁.view v).watchers (w₁.view v).listeners w' := by
  have hkind : (w.document.node root).kind ≠ .text := fun htext => by
    cases (Reaches.of_compile_text htext h).2
  have hlisted : w₁.Listed := Lasting.listed.compile hw.listed h
  obtain ⟨walk, u, hwalk, ⟨-, hok, rfl⟩ | ⟨e, -, he, -⟩⟩ := Reaches.of_compile hkind h
  · obtain rfl := Except.ok.inj hok
    have hwalked := walked hw.ledger hw.listed hw.linked hasks hroot hwalk
    exact ⟨⟨hwalked.subscribers hdiscards, hwalked.listeners hdiscards⟩,
      hdiscards.loses hwalked.ledger.toTracked hlisted hwalked.free⟩
  · cases he

/-- Without what its view has, the lists are those before a compilation. -/
theorem loses_of_compile (hw : w.Reachable) (hasks : w.OnlyAsks)
    (hroot : root < w.document.nodes.length)
    (h : Reaches ⟨w, compile root context convention⟩ ⟨w₁, .done (.ok v)⟩) :
    w₁.Loses (w₁.view v).watchers (w₁.view v).listeners w := by
  obtain ⟨hsame, hloses⟩ := discards_after_compile hw hasks hroot h (.disposeView w₁ v)
  refine ⟨fun d => ?_, fun n => ?_⟩
  · rw [← hsame.subscribers, hloses.subscribers]
  · rw [← hsame.listeners, hloses.listeners]

end

/-- Compiling and disposing are inverse on subscribers and listeners. The
view of a compilation has, when it is disposed of outside of evaluations,
at least what the compilation gave it, unless it was disposed of before.
The disposal takes just that away, whatever has happened in between, and
for good. A disposal right after the compilation leaves every list as it
was before, and so does one after a run that has changed neither the lists
nor the view, such as one that only gives the view its name. -/
theorem disposal_takes_compilation_back {w w₁ : World} {root : NodeId} {context : Context}
    {convention : Convention} {rest : Except Error ViewId → Proc Reply}
    (hstart : Config.Reachable ⟨w, compile root context convention >>= rest⟩)
    (hasks : w.OnlyAsks) (hroot : root < w.document.nodes.length)
    (hcompile : Reaches ⟨w, compile root context convention⟩ ⟨w₁, .done (.ok v)⟩)
    (hbetween : Proceeds ⟨w₁, rest (.ok v)⟩ b) (htick : b.tick = some c)
    (hslot : b.world.slot = none) (hdiscards : b.world.Discards v c.world) :
    (Config.Discards ⟨w₁, rest (.ok v)⟩ v b ∨
      (w₁.view v).watchers <+: (b.world.view v).watchers ∧
        (w₁.view v).listeners <+: (b.world.view v).listeners) ∧
    b.world.Loses (b.world.view v).watchers (b.world.view v).listeners c.world ∧
    (∀ later, Proceeds c later →
      later.Silent (b.world.view v).watchers (b.world.view v).listeners) ∧
    (∀ w', w₁.Discards v w' → w.SameLists w') ∧
    (w₁.SameLists b.world → b.world.view v = w₁.view v → w.SameLists c.world) := by
  have hcompiled : Config.Reachable ⟨w₁, rest (.ok v)⟩ :=
    ((Proceeds.here _).reaches (hcompile.bind_left rest)).reachable hstart
  have hb : b.Reachable := hbetween.reachable hcompiled
  have hloses : b.world.Loses (b.world.view v).watchers (b.world.view v).listeners c.world :=
    hdiscards.loses hb.world.ledger.toTracked hb.world.listed fun x _ => hslot ▸ nofun
  refine ⟨hbetween.holds hcompiled v, hloses, fun later hlater => ?_, fun w' hatonce => ?_,
    fun hsame hview => ?_⟩
  · exact hb.silent htick hslot hdiscards hlater
  · exact (discards_after_compile hstart.world hasks hroot hcompile hatonce).1
  · rw [hview] at hloses
    exact (loses_of_compile hstart.world hasks hroot hcompile).sameLists hloses hsame

/-! ### A form field -/

/-- A paragraph with a form value that is bound to the property `a`, and a
context for it. -/
def fieldWorld : World :=
  { World.start with
    graph := ⟨[⟨[("a", .data ⟨.string "x", some 0⟩)]⟩], [[]]⟩
    document := Document.plantAll 0 [.element "p" ⟨[("v-model", "a")]⟩ []]
      (Document.empty.add (.new .fragment))
    names := { Names.empty with
      objects := ⟨[("o", 0)]⟩, nodes := ⟨[("n", 0), ("p", 1)]⟩,
      contexts := ⟨[("c", ⟨0, .empty⟩)]⟩ } }

theorem rested_fieldWorld : fieldWorld.Rested := by
  have hrun : ∃ reports, runScript 100 .start
      [.newObject "o" [("a", .const (.string "x"))], .observe (.object "o"),
        .node (.fragment "n"), .node (.element "p" "p"), .node (.setAttribute "p" "v-model" "a"),
        .node (.append "n" "p"), .context "c" "o" []] = .finished reports fieldWorld := ⟨_, rfl⟩
  obtain ⟨reports, hrun⟩ := hrun
  exact World.Rested.start.runScript hrun

/-- A step that disposes of a view comes to the write that does. -/
theorem Reaches.disposeView {w : World} {name : String}
    (hname : w.names.views.find? name = some v) :
    Reaches ⟨w, (Step.binding (.disposeView name)).run .outside⟩
      ⟨w, .write (w.disposeView v) (.done .nothing)⟩ := by
  have hnamed : Passes ⟨w, named (·.views) name⟩ [] ⟨w, .done v⟩ := by
    refine .bind_nil .state ?_
    rw [hname]
    exact .here _
  exact (Passes.bind_nil hnamed (.read (.here _))).reaches

/-- What goes on when the field was compiled under the name `v`. -/
def namesCompiled (result : Except Error ViewId) : Proc Reply :=
  match result with
  | .error e => pure (.failure e)
  | .ok compiled => do
    Proc.modify (·.nameView "v" compiled)
    replyCompiled compiled 0

/-- The write of a content to `a`. -/
def writeField (content : String) : Step :=
  .set "o" "a" (.const (.string content))

/-- The field as it was compiled. -/
def compiledField : Config Reply :=
  ⟨(Config.advance 300 ⟨fieldWorld, compile 0 ⟨0, .empty⟩ .standard⟩).world, namesCompiled (.ok 0)⟩

/-- The field once its view has a name. -/
def namedField : World :=
  { compiledField.world.nameView "v" 0 with log := [] }

theorem proceeds_namedField : Proceeds compiledField
    ⟨namedField, .write (namedField.disposeView 0) (.done .nothing)⟩ :=
  have hnames : Reaches compiledField ⟨compiledField.world.nameView "v" 0, .done _⟩ :=
    (Passes.bind_nil (.modify _) (.ask _)).reaches
  ((((Proceeds.here _).reaches hnames).step (.binding (.disposeView "v")))).reaches
    (.disposeView (by decide +kernel))

theorem sameLists_namedField : compiledField.world.SameLists namedField ∧
    namedField.view 0 = compiledField.world.view 0 := by
  have hunnamed : compiledField.world.names.views.find? "v" = none := by decide +kernel
  have hnamed : compiledField.world.nameView "v" 0 = compiledField.world.onNames fun names =>
      { names with views := names.views.put "v" 0 } := by
    rw [World.nameView, hunnamed]
    rfl
  rw [namedField, hnamed]
  exact ⟨⟨fun _ => rfl, fun _ => rfl⟩, rfl⟩

/-- The field after `a` was written. -/
def writtenField : World :=
  { (Config.advance 100 ⟨{ (compiledField.advance 100).world with log := [] },
      (writeField "y").run .outside⟩).world with log := [] }

theorem proceeds_writtenField : Proceeds compiledField
    ⟨writtenField, .write (writtenField.disposeView 0) (.done .nothing)⟩ :=
  (((((Proceeds.here _).reaches (reaches_advance 100 _)).next (by decide +kernel)
    (writeField "y")).reaches (reaches_advance 100 _)).next (by decide +kernel)
    (.binding (.disposeView "v"))).reaches (.disposeView (by decide +kernel))

/-- The field is compiled, `a` is written, the view is disposed of, and `a`
is written once more, which the field does not show. A disposal before the
writes, at once or when the view has its name, leaves the lists as they
were. -/
theorem disposal_takes_compilation_back_of_field : (∃ c later : Config Reply,
    writtenField.graph.subscribersOf 0 = [.watcher 0] ∧
    (writtenField.document.node 1).listeners.map (·.id) = [0] ∧
    c.world.graph.subscribersOf 0 = [] ∧ (c.world.document.node 1).listeners = [] ∧
    Proceeds c later ∧ (later.world.document.node 1).value = "y" ∧ later.Silent [0] [(1, 0)]) ∧
    compiledField.world.graph.subscribersOf 0 = [.watcher 0] ∧
    (compiledField.world.document.node 1).listeners.map (·.id) = [0] ∧
    (compiledField.world.view 0).watchers = [0] ∧
    (compiledField.world.view 0).listeners = [(1, 0)] ∧
    fieldWorld.SameLists (compiledField.world.disposeView 0) ∧
    fieldWorld.SameLists (namedField.disposeView 0) := by
  have hstart : Config.Reachable ⟨fieldWorld, compile 0 ⟨0, .empty⟩ .standard >>= namesCompiled⟩ :=
    ⟨fieldWorld, .binding (.compile "v" "n" "c" .standard), rested_fieldWorld,
      reaches_advance 2 ⟨fieldWorld, (Step.binding (.compile "v" "n" "c" .standard)).run .outside⟩⟩
  have hcompile := @Config.reaches_of_view? 300
    ⟨fieldWorld, compile 0 ⟨0, .empty⟩ .standard⟩ 0 (by decide +kernel)
  have hasks : fieldWorld.OnlyAsks := Pure.onlyAsks (.of_allReactive rfl)
  have hunoccupied : namedField.slot = none := Option.isNone_iff_eq_none.1 (by decide +kernel)
  obtain ⟨-, -, -, hatonce, hnamed⟩ := @disposal_takes_compilation_back _
    ⟨namedField.disposeView 0, .done .nothing⟩ _ _ _ _ _ _ _ hstart hasks (by decide) hcompile
    proceeds_namedField rfl hunoccupied (.disposeView _ 0)
  refine ⟨?_, by decide +kernel, by decide +kernel, by decide +kernel, by decide +kernel,
    hatonce _ (.disposeView _ 0), hnamed sameLists_namedField.1 sameLists_namedField.2⟩
  let c : Config Reply := ⟨writtenField.disposeView 0, .done .nothing⟩
  have hslot : writtenField.slot = none := Option.isNone_iff_eq_none.1 (by decide +kernel)
  obtain ⟨-, hloses, hsilent, -⟩ := @disposal_takes_compilation_back _ c _ _ _ _ _ _ _ hstart
    hasks (by decide) hcompile proceeds_writtenField rfl hslot (.disposeView _ 0)
  have hwatchers : (writtenField.view 0).watchers = [0] := by decide +kernel
  have hlisteners : (writtenField.view 0).listeners = [(1, 0)] := by decide +kernel
  rw [hwatchers, hlisteners] at hloses hsilent
  have hsubscribed : writtenField.graph.subscribersOf 0 = [.watcher 0] := by decide +kernel
  have hlistening : (writtenField.document.node 1).listeners.map (·.id) = [0] := by decide +kernel
  have hlater : Proceeds c (Config.advance 100
      ⟨{ c.world with log := [] }, (writeField "z").run .outside⟩) :=
    ((Proceeds.here c).next rfl (writeField "z")).reaches (reaches_advance 100 _)
  refine ⟨c, _, hsubscribed, hlistening, ?_, ?_, hlater, by decide +kernel, hsilent _ hlater⟩
  · refine (hloses.subscribers 0).trans ?_
    rw [hsubscribed]
    decide
  · refine (hloses.listeners 1).trans (List.filter_eq_nil_iff.2 fun l hl hkept => ?_)
    have hid : l.id ∈ [0] := hlistening ▸ List.mem_map_of_mem hl
    exact of_decide_eq_true hkept hid

end DataBinding
