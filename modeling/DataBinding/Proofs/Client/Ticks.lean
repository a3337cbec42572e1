import DataBinding.Proofs.Client.Effects
import DataBinding.Proofs.Run.Reachable

/-!
# Ticks

What a run does, tick by tick. A tick of a script leaves the state as it
is or does one of the writes that are listed (`Config.Reachable.writes`),
so what the start has and every write keeps is an invariant of every run
(`Reachable.of_writes`).

To the document and to views each of them does what `Onward` says: those
of the tracking part leave both alone. A property of states that `Onward`
keeps holds along every run of the library, also of one that no script
has begun, and so does what it says of the listeners that are run
(`Lasting`). The document of every reachable state is linked, with the
listeners of views where the views say (`Reachable.linked`,
`Reachable.listed`).
-/

namespace DataBinding

open World

/-! ## Writes of the tracking part -/

/-- The document, the views and the names for nodes are left as they are. -/
structure World.SameScene (w w' : World) : Prop where
  document : w'.document = w.document
  views : w'.views = w.views
  nodes : w'.names.nodes = w.names.nodes

namespace World.SameScene

theorem track (w : World) (e : EvaluationId) (d : DependencyId) : SameScene w (w.track e d) := by
  simp only [World.track]
  split
  · exact ⟨rfl, rfl, rfl⟩
  · split
    · exact ⟨rfl, rfl, rfl⟩
    · exact ⟨rfl, rfl, rfl⟩

theorem retain (w : World) (s : SubscriberId) : SameScene w (w.retain s) := by
  cases s with
  | client id => exact ⟨rfl, rfl, rfl⟩
  | watcher id => exact ⟨rfl, rfl, rfl⟩

theorem release (w : World) (s : SubscriberId) : SameScene w (w.release s) := by
  cases s with
  | client id => exact ⟨rfl, rfl, rfl⟩
  | watcher id =>
      obtain ⟨-, -, -, hdocument, hviews, hnames⟩ := release_frame w id
      exact ⟨hdocument, hviews, congrArg Names.nodes hnames⟩

theorem trans {w w' w'' : World} (h : SameScene w w') (h' : SameScene w' w'') :
    SameScene w w'' :=
  ⟨h'.document.trans h.document, h'.views.trans h.views, h'.nodes.trans h.nodes⟩

/-- What a name for a watcher stood for is given up. -/
theorem giveUpWatcher (w : World) (watchers : Keyed WatcherId) (former : Option WatcherId) :
    SameScene w ((w.onNames fun names => { names with watchers }).giveUp former
      fun w x => w.release (.watcher x)) := by
  have hnames : SameScene w (w.onNames fun names => { names with watchers }) := ⟨rfl, rfl, rfl⟩
  cases former with
  | none => exact hnames
  | some x => exact hnames.trans (release _ (.watcher x))

theorem enter {w w' : World} {s : SubscriberId} {previous : List DependencyId}
    (h : w.enter s previous = .ok w') : SameScene w w' := by
  obtain ⟨-, rfl⟩ := enter_eq_ok h
  exact ⟨rfl, rfl, rfl⟩

theorem beginWatcher {w w' : World} {x : WatcherId} (h : w.beginWatcher x = .ok w') :
    SameScene w w' := by
  obtain ⟨entered, hentered, rfl⟩ := beginWatcher_eq_ok h
  exact (enter hentered).trans ⟨rfl, rfl, rfl⟩

theorem releaseEvaluation (w : World) (e : EvaluationId) :
    SameScene w (w.releaseEvaluation e) := by
  have hless : SameScene w (w.lessenEvaluation e) := ⟨rfl, rfl, rfl⟩
  exact releaseEvaluation_of_lessen hless fun _ _ => ⟨rfl, rfl, rfl⟩

/-- What a name for an evaluation stood for is given up. -/
theorem giveUpEvaluation (w : World) (evaluations : Keyed EvaluationId)
    (former : Option EvaluationId) :
    SameScene w ((w.onNames fun names => { names with evaluations }).giveUp former
      World.releaseEvaluation) := by
  have hnames : SameScene w (w.onNames fun names => { names with evaluations }) :=
    ⟨rfl, rfl, rfl⟩
  cases former with
  | none => exact hnames
  | some e => exact hnames.trans (releaseEvaluation _ e)

end World.SameScene

/-- What a write does to the document and to views. -/
inductive World.Shifts (sites : NodeId → Prop) (w : World) : World → Prop
  | untracked {w' : World} : w.Untracked sites w' → Shifts sites w w'
  | discards {view : ViewId} {w' : World} : w.Discards view w' → Shifts sites w w'
  | viewWatches (view : ViewId) (x : WatcherId) : Shifts sites w (w.viewWatches view x)
  | same {w' : World} : w.SameScene w' → Shifts sites w w'

variable {sites : NodeId → Prop}

theorem World.Routine.shifts {w w' : World} (h : w.Routine sites w') : w.Shifts sites w' := by
  cases h with
  | untracked h => exact .untracked h
  | discards h => exact .discards h
  | viewWatches view x => exact .viewWatches view x
  | track e d => exact .same (.track w e d)
  | retain s => exact .same (.retain w s)
  | release s => exact .same (.release w s)
  | nameWatcher into x => exact .same (.giveUpWatcher w _ _)
  | share into x => exact .same ((SameScene.retain w (.watcher x)).trans (.giveUpWatcher _ _ _))
  | dropWatcher name => exact .same (.giveUpWatcher w _ _)
  | enter into h =>
      have hentered : SameScene w _ := .enter h
      exact .same (hentered.trans (.giveUpEvaluation _ _ _))
  | @finish e _ _ _ =>
      have hfinished : SameScene w (w.finish e) := ⟨rfl, rfl, rfl⟩
      exact .same (hfinished.trans (.giveUpEvaluation _ _ _))
  | abandon name => exact .same (.giveUpEvaluation w _ _)
  | create | define | observe | newDependency | register | unregister | prune | dispose
  | retainEvaluation => exact .same ⟨rfl, rfl, rfl⟩

theorem World.Writes.shifts {w w' : World} (h : w.Writes sites w') : w.Shifts sites w' := by
  cases h with
  | store id key v => exact .same ⟨rfl, rfl, rfl⟩
  | maintains h =>
      cases h with
      | routine h => exact h.shifts
      | beginWatcher h => exact .same (.beginWatcher h)
      | releaseEvaluation e => exact .same (.releaseEvaluation w e)
      | addWatcher | endWatcher | remember => exact .same ⟨rfl, rfl, rfl⟩

/-- Every write goes onward. -/
theorem World.Writes.onward {w w' : World} (h : w.Writes sites w') : w.Onward w' := by
  cases h.shifts with
  | untracked h => exact .inl h.toGrows
  | discards h => exact .inr ⟨_, h⟩
  | viewWatches view x => exact .inl (.viewWatches w view x)
  | same h => exact .inl (.of_same h.document h.views)

/-- Every write does one operation to the document at most, at a site. -/
theorem World.Writes.edits {w w' : World} (h : w.Writes sites w') :
    w.document.Edits sites w'.document := by
  cases h.shifts with
  | untracked h => exact h.edits
  | discards h => exact h.document ▸ .dropListeners _ _
  | viewWatches view x => exact .refl _
  | same h => exact h.document ▸ .refl _

/-- Names for nodes are given to sites, and to a node that is new. -/
theorem World.Writes.named {w w' : World} (h : w.Writes sites w') {name : String} {n : NodeId}
    (hname : w'.names.nodes.find? name = some n) : w.names.nodes.find? name = some n ∨ sites n ∨
      n = w.document.nextNode ∧ n < w'.document.nodes.length := by
  cases h.shifts with
  | untracked h => exact h.named hname
  | discards h =>
      obtain ⟨views, modelNames, models, rfl⟩ := h
      exact .inl hname
  | viewWatches view x => exact .inl hname
  | same h => exact .inl (h.nodes ▸ hname)

/-! ## Nodes that are there -/

/-- Names, reactions and lists of children are about nodes of the
document. -/
structure World.Sited (w : World) : Prop where
  linked : w.document.Linked
  named : ∀ {name n}, w.names.nodes.find? name = some n → n < w.document.nodes.length
  reacts : ∀ {x n}, (w.watcher x).reaction.node? = some n → n < w.document.nodes.length

theorem World.Sited.start : World.start.Sited where
  linked := .empty
  named h := nomatch h
  reacts h := nomatch h

/-- Writes at nodes of the document leave it so. -/
theorem World.Sited.next {w w' : World} (hw : w.Sited)
    (h : w.Writes (· < w.document.nodes.length) w') : w'.Sited := by
  have hlength := h.edits.evolves.length
  refine ⟨h.edits.evolves.linked hw.linked, fun hname => ?_, fun hreacts => ?_⟩
  · rcases h.named hname with hold | hsite | ⟨-, hlt⟩
    · exact Nat.lt_of_lt_of_le (hw.named hold) hlength
    · exact Nat.lt_of_lt_of_le hsite hlength
    · exact hlt
  · rcases h.reactsAt _ _ hreacts with hold | hsite
    · exact Nat.lt_of_lt_of_le (hw.reacts hold) hlength
    · exact Nat.lt_of_lt_of_le hsite hlength

/-! ## Every tick -/

/-- A state with the one before the last write. -/
@[reducible] def ticking : Monitor where
  State := World × World
  world := Prod.snd
  next s w t := t = (s.2, w)
  world_next h := h ▸ rfl

/-- Every write is one of those that are listed, at nodes of the document,
and no evaluation is running when a watcher reacts. -/
@[reducible] def writingDiscipline : Discipline ticking where
  always s := s.1.Writes (· < s.1.document.nodes.length) s.2
  rest s := s.2.Sited
  rel s t := s.2.document.nodes.length ≤ t.2.document.nodes.length
  tracks _ _ := True
  sites n s := n < s.2.document.nodes.length
  reacts _ _ s := s.2.Sited ∧ s.2.slot = none
  accessorPre _ _ _ s := s.2.Sited
  accessorPost _ _ _ s _ t :=
    t.2.Sited ∧ s.2.document.nodes.length ≤ t.2.document.nodes.length

theorem stepwise_writing : writingDiscipline.Stepwise :=
  .of_writes (fun hs ht hw => ht ▸ ⟨hw, hs.next hw⟩) (fun hs hslot => ⟨hs, hslot⟩)
    (fun _ _ => trivial) (fun _ => trivial) (fun _ => Nat.le_refl _) Nat.le_trans
    (fun ht hw => ht ▸ hw.onward.document.length) (fun _ _ => trivial) Iff.rfl Iff.rfl
    ⟨fun hrel hn => Nat.lt_of_lt_of_le hn hrel, fun hs hn => hs.named hn,
      fun hs hn => hs.linked.lt hn, fun hs hn => hs.reacts hn⟩

theorem met_writing : writingDiscipline.contract.Met :=
  stepwise_writing.met And.left

/-- A tick leaves the state as it is, or does one of the writes that are
listed. -/
theorem writes_of_follows {α : Type} {s : ticking.State} {b c : Config α}
    (hb : writingDiscipline.Follows s b) (htick : b.tick = some c) :
    (∃ t, writingDiscipline.Follows t c) ∧ (c.world = b.world ∨
      b.world.Writes (· < b.world.document.nodes.length) c.world) := by
  rcases hb.tick_of_met met_writing htick with hsame | hnext
  · exact ⟨⟨s, hsame.2⟩, .inl hsame.1⟩
  · obtain ⟨hwrites, hc⟩ := hnext _ rfl
    exact ⟨⟨_, hc⟩, .inr (hb.world ▸ hwrites)⟩

namespace Discipline.Follows

variable {M : Monitor} {D : Discipline M} {α : Type}

/-- A run can be followed to wherever it comes, if every write can. -/
theorem reaches (hmet : D.contract.Met) (hnext : ∀ s w, ∃ t, M.next s w t) {s : M.State}
    {b c : Config α} (h : D.Follows s b) (hrun : Reaches b c) : ∃ t, D.Follows t c := by
  induction hrun with
  | here => exact ⟨s, h⟩
  | step _ htick ih =>
      obtain ⟨t, ht⟩ := ih
      rcases ht.tick_of_met hmet htick with hsame | hwritten
      · exact ⟨t, hsame.2⟩
      · obtain ⟨u, hu⟩ := hnext t _
        exact ⟨u, (hwritten u hu).2⟩

/-- Every state between two steps is at rest, if the start is. -/
theorem of_rested (hD : D.Stepwise) (hmet : D.contract.Met) (hnext : ∀ s w, ∃ t, M.next s w t)
    (hstart : ∃ s, M.world s = .start ∧ D.rest s) {w : World} (hw : w.Rested) :
    ∃ s, M.world s = w ∧ D.rest s := by
  induction hw with
  | start => exact hstart
  | step a _ hrun ih =>
      obtain ⟨s, rfl, hs⟩ := ih
      have hfollows := of_keeps hD.sound (hD.lawful.step .outside a) hs
      obtain ⟨t, hworld, hrest⟩ := hfollows.reaches hmet hnext hrun
      obtain rfl : M.world t = _ := hworld
      obtain ⟨u, hu⟩ := hnext t { M.world t with log := [] }
      exact ⟨u, M.world_next hu, (hD.sound.frame hrest hu (.clearLog _)).2.1⟩

/-- Every reachable configuration keeps the discipline, if the start is at
rest. -/
theorem of_reachable (hD : D.Stepwise) (hmet : D.contract.Met) (hnext : ∀ s w, ∃ t, M.next s w t)
    (hstart : ∃ s, M.world s = .start ∧ D.rest s) {c : Config Reply} (h : c.Reachable) :
    ∃ s, D.Follows s c := by
  obtain ⟨before, a, hbefore, hrun⟩ := h
  obtain ⟨s, rfl, hs⟩ := of_rested hD hmet hnext hstart hbefore
  exact (of_keeps hD.sound (hD.lawful.step .outside a) hs).reaches hmet hnext hrun

end Discipline.Follows

theorem Config.Reachable.follows_writing {c : Config Reply} (h : c.Reachable) :
    ∃ s, writingDiscipline.Follows s c :=
  Discipline.Follows.of_reachable stepwise_writing met_writing (fun _ _ => ⟨_, rfl⟩)
    ⟨(.start, .start), rfl, World.Sited.start⟩ h

/-- Every tick of a script leaves the state as it is, or does one of the
writes that are listed, at nodes of the document. -/
theorem Config.Reachable.writes {b c : Config Reply} (hb : b.Reachable)
    (htick : b.tick = some c) : c.world = b.world ∨
      b.world.Writes (· < b.world.document.nodes.length) c.world :=
  let ⟨_, hs⟩ := hb.follows_writing
  (writes_of_follows hs htick).2

/-- Every tick of a script goes onward. -/
theorem Config.Reachable.onward {b c : Config Reply} (hb : b.Reachable)
    (htick : b.tick = some c) : b.world.Onward c.world :=
  (hb.writes htick).elim (fun hsame => .inl (.of_same (by rw [hsame]) (by rw [hsame])))
    (·.onward)

/-- What the start has and every write keeps holds of every reachable
state. -/
theorem World.Reachable.of_writes {I : World → Prop} (hstart : I .start)
    (hwrites : ∀ {w w' : World}, I w → w.Writes (· < w.document.nodes.length) w' → I w')
    {w : World} (hw : w.Reachable) : I w := by
  have hstep : ∀ {before : World} {s : Step} {c : Config Reply}, before.Rested → I before →
      Reaches ⟨before, s.run .outside⟩ c → I c.world := by
    intro before s c hrested hbefore hrun
    induction hrun with
    | here => exact hbefore
    | step hrun htick ih =>
        rcases Config.Reachable.writes ⟨before, s, hrested, hrun⟩ htick with hsame | hnext
        · exact hsame ▸ ih
        · exact hwrites ih hnext
  have hrested : ∀ {before : World}, before.Rested → I before := by
    intro before hbefore
    induction hbefore with
    | start => exact hstart
    | step s hw hrun ih =>
        exact hwrites (hstep hw ih hrun) (Routine.writes (.untracked (.clearLog _)))
  obtain ⟨before, s, p, hbefore, hrun⟩ := hw
  exact hstep hbefore (hrested hbefore) hrun

/-! ## The discipline -/

/-- A property that writes keep, and what it says of listeners. -/
structure Lasting (I : World → Prop) (delivers : Listener → Prop) : Prop where
  next : ∀ {w w'}, I w → w.Onward w' → I w'
  listens : ∀ {w n l}, I w → l ∈ (w.document.node n).listeners → delivers l

/-- Every write goes onward, and what is kept holds after it. -/
@[reducible] def onwardDiscipline (I : World → Prop) (delivers : Listener → Prop) :
    Discipline ticking where
  always s := s.1.Onward s.2 ∧ I s.2
  rest s := I s.2
  rel _ _ := True
  tracks _ _ := True
  delivers
  accessorPre _ _ _ s := I s.2
  accessorPost _ _ _ _ _ t := I t.2

namespace OnwardDiscipline

variable {I : World → Prop} {delivers : Listener → Prop} {α : Type}

theorem stepwise (h : Lasting I delivers) : (onwardDiscipline I delivers).Stepwise :=
  .of_writes
    (fun hs ht hw => ht ▸ ⟨⟨hw.onward, h.next hs hw.onward⟩, h.next hs hw.onward⟩)
    (fun hs _ => hs) h.listens

theorem lawful (h : Lasting I delivers) : (onwardDiscipline I delivers).Lawful :=
  (stepwise h).lawful

theorem met (h : Lasting I delivers) : (onwardDiscipline I delivers).contract.Met :=
  (stepwise h).met fun hs => hs

/-! ## Along a run -/

/-- A configuration that keeps to the discipline. -/
def Follows (I : World → Prop) (delivers : Listener → Prop) (c : Config α) : Prop :=
  I c.world ∧ ∃ last, (onwardDiscipline I delivers).Follows (last, c.world) c

theorem follows_of_keeps {w : World} {p : Proc α} (h : Lasting I delivers)
    (hp : (onwardDiscipline I delivers).Keeps none p) (hw : I w) : Follows I delivers ⟨w, p⟩ :=
  ⟨hw, w, .of_keeps (stepwise h).sound hp hw⟩

theorem Follows.tick (h : Lasting I delivers) {b c : Config α} (hb : Follows I delivers b)
    (htick : b.tick = some c) : Follows I delivers c ∧ b.world.Onward c.world := by
  obtain ⟨hI, last, hfollows⟩ := hb
  rcases hfollows.tick_of_met (met h) htick with ⟨hworld, hsame⟩ | hnext
  · exact ⟨⟨hworld ▸ hI, last, hworld ▸ hsame⟩, hworld ▸ .inl (.refl _)⟩
  · obtain ⟨⟨honward, hnext⟩, hfollows'⟩ := hnext (b.world, c.world) rfl
    exact ⟨⟨hnext, b.world, hfollows'⟩, honward⟩

theorem Follows.reaches (h : Lasting I delivers) {b c : Config α} (hb : Follows I delivers b)
    (hrun : Reaches b c) : Follows I delivers c := by
  induction hrun with
  | here => exact hb
  | step _ htick ih => exact (ih.tick h htick).1

end OnwardDiscipline

open OnwardDiscipline

variable {I : World → Prop} {delivers : Listener → Prop}

/-- What is kept, and holds of the start, holds of every reachable state. -/
theorem Lasting.reachable (h : Lasting I delivers) (hstart : I .start) {w : World}
    (hw : w.Reachable) : I w :=
  hw.of_writes hstart fun hI hwrites => h.next hI hwrites.onward

/-- A dispatch runs only listeners of which that is said, however deep in
what they do. -/
theorem Lasting.dispatch (h : Lasting I delivers) {w : World} (hw : I w) (node : NodeId)
    (event : Event) :
    Along (fun _ call => ∀ l e, call = .deliver l e → delivers l)
      ⟨w, DataBinding.dispatch node event⟩ := by
  rintro u call next hrun l e rfl
  obtain ⟨-, last, hfollows⟩ :=
    (follows_of_keeps h ((lawful h).dispatch node event) hw).reaches h hrun
  exact hfollows.safe.1.2

/-- What is kept holds wherever a compilation comes to. -/
theorem Lasting.compile (h : Lasting I delivers) {w : World} (hw : I w) {root : NodeId}
    {context : Context} {convention : Convention} {c : Config (Except Error ViewId)}
    (hrun : Reaches ⟨w, DataBinding.compile root context convention⟩ c) : I c.world :=
  have hkeeps := ((lawful h).compile root context convention).keeps fun _ _ _ _ => trivial
  ((follows_of_keeps h hkeeps hw).reaches h hrun).1

/-! ## What every reachable state has -/

theorem Lasting.linked : Lasting (fun w => w.document.Linked) (fun _ => True) :=
  ⟨fun h honward => honward.document.linked h, fun _ _ => trivial⟩

theorem Lasting.listed : Lasting World.Listed (fun _ => True) :=
  ⟨fun h honward => honward.listed h, fun _ _ => trivial⟩

theorem World.Reachable.linked {w : World} (hw : w.Reachable) : w.document.Linked :=
  Lasting.linked.reachable .empty hw

theorem World.Reachable.listed {w : World} (hw : w.Reachable) : w.Listed :=
  Lasting.listed.reachable .start hw

end DataBinding
