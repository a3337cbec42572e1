import DataBinding.Proofs.Client.Ticks
import DataBinding.Proofs.Disposal.Final

/-!
# One evaluation at a time

The slot is shared by watchers that are made, updated and told of changes,
and by the evaluations that client code begins and ends as it likes. In
every state of every run it is taken exactly while the one evaluation
that is alive goes on. Whoever needs it meanwhile is turned away and has
changed nothing; whoever takes it gives it back, so that only client code
can leave it otherwise than it was found (`one_evaluation_at_a_time`).
-/

namespace DataBinding

open World

variable {α : Type} {b c : Config Reply} {w w' : World} {x : WatcherId}

/-! ## Along a run -/

theorem World.Reachable.occupied (hw : w.Reachable) : w.Occupied :=
  hw.of_writes nofun fun h hwrites => hwrites.carries.occupied h

theorem Config.Reachable.carries (hb : b.Reachable) (hrun : Reaches b c) :
    b.world.Carries c.world := by
  induction hrun with
  | here => exact .refl _
  | step hrun htick ih =>
      rcases (hb.of_reaches hrun).writes htick with hsame | hwrites
      · exact hsame ▸ ih
      · exact ih.trans hwrites.carries

theorem Config.Reachable.watchers (hb : b.Reachable) (hrun : Reaches b c) :
    b.world.watchers.length ≤ c.world.watchers.length := by
  induction hrun with
  | here => exact Nat.le_refl _
  | step hrun htick ih =>
      rcases (hb.of_reaches hrun).writes htick with hsame | hwrites
      · exact hsame ▸ ih
      · exact Nat.le_trans ih hwrites.watchers

/-- No evaluation is running when a watcher starts to react. -/
theorem Config.Reachable.slot_of_reacting (hc : c.Reachable) (h : c.reacting = some x) :
    c.world.slot = none := by
  obtain ⟨s, hworld, hsafe⟩ := hc.follows_writing
  obtain ⟨w, p⟩ := c
  simp only [Config.reacting] at h
  split at h
  · exact hworld ▸ hsafe.1.2
  · cases h

/-! ## While an evaluation is running -/

/-- No object, value, dependency set, subscriber list or evaluation has
changed. -/
structure World.Untouched (w w' : World) : Prop where
  graph : w'.graph = w.graph
  slot : w'.slot = w.slot
  evaluations : w'.evaluations = w.evaluations
  value : ∀ x, (w'.watcher x).value = (w.watcher x).value
  dependencies : ∀ x, (w'.watcher x).dependencies = (w.watcher x).dependencies

theorem passes_enterNamed (h : w.isEvaluating = true) (into : String) (client : Nat)
    (previous : List DependencyId) : Passes ⟨w, enterNamed into client previous⟩ []
      ⟨w, .done (.failure .reentrantEvaluation)⟩ := by
  refine .bind_nil .state ?_
  rw [enter_of_isEvaluating h]
  exact .here _

theorem passes_evaluateWatcher_busy (h : w.isEvaluating = true) (x : WatcherId) :
    Passes ⟨w, evaluateWatcher x⟩ [] ⟨w, .done (.error .reentrantEvaluation)⟩ := by
  refine .bind_nil .state ?_
  rw [beginWatcher_of_isEvaluating h]
  exact .here _

theorem passes_updateWatcher_busy (h : w.isEvaluating = true)
    (hx : (w.watcher x).disposed = false) :
    Passes ⟨w, updateWatcher x⟩ [] ⟨w, .done (.error .reentrantEvaluation)⟩ := by
  refine .bind_nil (.ask _) ?_
  rw [if_neg (by simp [hx])]
  exact .bind_nil (passes_evaluateWatcher_busy h x) (.here _)

/-- A watcher that cannot be evaluated is given up at once. -/
theorem passes_createWatcher_busy (h : w.isEvaluating = true) (data : ObjectId) (path : Path)
    (reaction : Reaction) : Passes ⟨w, createWatcher data path reaction⟩ []
      ⟨(w.addWatcher data path reaction).release (.watcher w.nextWatcher),
        .done (.error .reentrantEvaluation)⟩ := by
  have hbusy : (w.addWatcher data path reaction).isEvaluating = true := h
  exact .bind_nil (.ask _) <| .bind_nil (.modify _) <|
    .bind_nil (passes_evaluateWatcher_busy hbusy w.nextWatcher) <|
      .bind_nil (.modify _) (.here _)

/-- A watcher that is given up without having read anything leaves nothing
behind. -/
theorem untouched_giveUp (w : World) (data : ObjectId) (path : Path) (reaction : Reaction) :
    w.Untouched ((w.addWatcher data path reaction).release (.watcher w.nextWatcher)) := by
  let x := w.nextWatcher
  let added := w.addWatcher data path reaction
  have hself : added.watcher x = ⟨data, path, reaction, .undefined, [], false, 1⟩ := by
    rw [watcher_addWatcher, if_pos rfl]
  have hbefore : w.watcher x = _ := watcher_eq_default (Nat.le_refl _)
  have hothers : ∀ y, y ≠ x → added.watcher y = w.watcher y := fun y hy => by
    rw [watcher_addWatcher, if_neg hy]
  have hfields : ∀ y, (added.watcher y).value = (w.watcher y).value ∧
      (added.watcher y).dependencies = (w.watcher y).dependencies := fun y => by
    by_cases hy : y = x
    · rw [hy, hself, hbefore]
      exact ⟨rfl, rfl⟩
    · rw [hothers y hy]
      exact ⟨rfl, rfl⟩
  obtain ⟨hslot, hevaluations, -⟩ := release_frame added x
  have hgraph : (added.release (.watcher x)).graph = w.graph := graph_release (by rw [hself])
  refine ⟨hgraph, hslot, hevaluations, fun y => ?_, fun y => ?_⟩
  · rw [watcher_release]
    exact (hfields y).1
  · rw [watcher_release]
    refine Eq.trans ?_ (hfields y).2
    split
    · rename_i hall
      rw [hall.1, hself]
    · rfl

/-- A handle that is taken and given up again. -/
theorem World.release_retain (h : 0 < (w.watcher x).handles) :
    (w.retain (.watcher x)).release (.watcher x) = w := by
  have hhandles : ((w.retain (.watcher x)).watcher x).handles = (w.watcher x).handles + 1 := by
    rw [World.retain, watcher_onWatcher_self (lt_of_handles h)]
  simp only [World.release, hhandles]
  rw [if_neg (by omega)]
  simp only [World.retain, onWatcher, List.modify_modify_eq]
  exact congrArg (fun watchers => { w with watchers }) (List.modify_id x w.watchers)

/-- A notification passes a watcher by. -/
theorem passes_notifySubscriber_busy (h : w.isEvaluating = true) (x : WatcherId) :
    Passes ⟨w, notifySubscriber (.watcher x)⟩ [] ⟨w, .done ()⟩ := by
  refine .bind_nil (.ask _) ?_
  split
  · rename_i halive
    have hx : 0 < (w.watcher x).handles := by simpa [World.alive] using halive
    have hbusy : (w.retain (.watcher x)).isEvaluating = true := h
    have hpasses : Passes ⟨w.retain (.watcher x), invalidate (.watcher x)⟩ []
        ⟨w.retain (.watcher x), .done ()⟩ := by
      refine .bind_nil (.ask _) ?_
      rw [if_pos hbusy]
      exact .here _
    have hback := Passes.modify (w := w.retain (.watcher x)) (·.release (.watcher x))
    rw [release_retain hx] at hback
    exact .bind_nil (.modify _) (.bind_nil hpasses hback)
  · exact .here _

/-! ## The slot is left as it was found -/

/-- A watcher is made, updated or told of a change, or all subscribers of a
dependency are told. -/
inductive Renewal : {α : Type} → Proc α → Prop
  | construct (data : ObjectId) (path : Path) (reaction : Reaction) :
      Renewal (createWatcher data path reaction)
  | update (x : WatcherId) : Renewal (updateWatcher x)
  | tell (s : SubscriberId) : Renewal (notifySubscriber s)
  | notify (d : DependencyId) : Renewal (notify d)

theorem Renewal.keeps {p : Proc α} (h : Renewal p) : disposalDiscipline.Keeps none p := by
  cases h with
  | construct data path reaction =>
      exact (DisposalDiscipline.stepwise.createWatcher data path reaction).keeps
        fun _ _ _ _ => trivial
  | update x => exact DisposalDiscipline.stepwise.update x
  | tell s => exact DisposalDiscipline.stepwise.notifyOne s
  | notify d => exact DisposalDiscipline.stepwise.notify d

/-- Client code has neither begun nor ended an evaluation of its own. -/
structure World.Undisturbed (w w' : World) : Prop where
  begun : ∀ {e client}, w.evaluations.length ≤ e → e < w'.evaluations.length →
    (w'.evaluation e).parent ≠ .client client
  ended : ∀ {e client}, (w.evaluation e).alive = true →
    (w.evaluation e).parent = .client client → (w'.evaluation e).alive = true

/-- Whatever keeps to the discipline of disposal leaves every watcher as
much in its own evaluation as it was. -/
theorem DisposalDiscipline.slot_of_reaches {p : Proc α} {a : α}
    (hp : disposalDiscipline.Keeps none p)
    (hledger : ∀ {d : Config α}, Reaches ⟨w, p⟩ d → Ledger d.world)
    (hrun : Reaches ⟨w, p⟩ ⟨w', .done a⟩) (x : WatcherId) :
    w.slot = some (.watcher x) ↔ w'.slot = some (.watcher x) := by
  let s : Retiring := ⟨w, fun _ => False⟩
  have hs : s.Settled := ⟨hledger (.here _), nofun, nofun, nofun⟩
  obtain ⟨t, ht, hfollowed⟩ := Monitor.run_of_reaches (M := retiringWithLedger) (s := s)
    (fun u d hd => ⟨⟨d.world, fun x => u.retired x ∨ u.world.Ends d.world x⟩,
      ⟨rfl, fun _ => Iff.rfl⟩, hledger hd⟩) hrun
  obtain rfl : t.world = w' := ht
  obtain ⟨-, honward⟩ := (hp s hs trivial).run DisposalDiscipline.met hfollowed
  exact honward.slot x

/-- Whoever takes the slot gives it back: only client code can leave it
otherwise than it was found. -/
theorem Renewal.slot_eq {p : Proc α} {rest : α → Proc Reply} {a : α} (hp : Renewal p)
    (hc : Config.Reachable ⟨w, p >>= rest⟩) (hrun : Reaches ⟨w, p⟩ ⟨w', .done a⟩)
    (hclient : w.Undisturbed w') : w'.slot = w.slot := by
  have hwatchers := DisposalDiscipline.slot_of_reaches hp.keeps
    (fun hd => (hc.part hd).world.ledger) hrun
  have hcarries := hc.carries (hrun.bind_left rest)
  have hafter := hc.part hrun
  have hledger := hafter.world.ledger
  have hoccupied : w'.Occupied := hafter.world.occupied
  cases hslot : w.slot with
  | none =>
      -- nobody has it afterwards: no watcher, and no evaluation that client code has begun
      cases hslot' : w'.slot with
      | none => rfl
      | some s =>
          exfalso
          cases s with
          | watcher x =>
              rw [(hwatchers x).2 hslot'] at hslot
              cases hslot
          | client client =>
              obtain ⟨e, halive, hparent⟩ := hoccupied _ hslot'
              rcases Nat.lt_or_ge e w.evaluations.length with hold | hnew
              · exact hc.world.ledger.not_alive hslot e (hcarries.alive hold halive)
              · exact hclient.begun hnew (lt_of_alive halive) hparent
  | some s =>
      cases s with
      | watcher x => exact (hwatchers x).1 hslot
      | client client =>
          -- the evaluation of client code that had it is still alive
          obtain ⟨e, halive, hparent⟩ := hc.world.occupied _ hslot
          rw [hledger.slot_of_alive (hclient.ended halive hparent),
            hcarries.parent (lt_of_alive halive)]
          exact congrArg some hparent

/-! ## One evaluation at a time -/

/-- What there is to say of the slot where a run has come to. -/
structure Config.Exclusive (c : Config Reply) : Prop where
  /-- At most one evaluation is alive. -/
  single : ∀ {e e'}, (c.world.evaluation e).alive = true → (c.world.evaluation e').alive = true →
    e = e'
  /-- The slot is taken exactly while one is. -/
  taken : c.world.isEvaluating = true ↔ ∃ e, (c.world.evaluation e).alive = true
  /-- It is free when a watcher starts to react. -/
  reacts : ∀ x, c.reacting = some x → c.world.isEvaluating = false
  /-- While it is taken, no evaluation of client code begins. -/
  enter : c.world.isEvaluating = true → ∀ s previous,
    c.world.enter s previous = .error .reentrantEvaluation
  enterNamed : c.world.isEvaluating = true → ∀ into client previous,
    Passes ⟨c.world, enterNamed into client previous⟩ []
      ⟨c.world, .done (.failure .reentrantEvaluation)⟩
  /-- No watcher is made. -/
  construct : c.world.isEvaluating = true → ∀ data path reaction, ∃ w',
    Passes ⟨c.world, createWatcher data path reaction⟩ []
      ⟨w', .done (.error .reentrantEvaluation)⟩ ∧ c.world.Untouched w'
  /-- No watcher is updated. -/
  update : c.world.isEvaluating = true → ∀ x, (c.world.watcher x).disposed = false →
    Passes ⟨c.world, updateWatcher x⟩ [] ⟨c.world, .done (.error .reentrantEvaluation)⟩
  /-- Notifications pass watchers by. -/
  tell : c.world.isEvaluating = true → ∀ x,
    Passes ⟨c.world, notifySubscriber (.watcher x)⟩ [] ⟨c.world, .done ()⟩
  /-- It is left as it was found, unless client code begins or ends an
  evaluation. -/
  keeps : ∀ {α : Type} {p : Proc α} {rest : α → Proc Reply} {a : α} {w' : World}, Renewal p →
    c.proc = (p >>= rest) → Reaches ⟨c.world, p⟩ ⟨w', .done a⟩ → c.world.Undisturbed w' →
    w'.slot = c.world.slot

/-- In every state of every run: at most one evaluation is alive, and the
slot is taken exactly while one is; watchers react with the slot free;
while it is taken, evaluations, new watchers and updates are turned away
and notifications ignored, with nothing changed; and it is left as it was
found by all that client code does not do itself. -/
theorem one_evaluation_at_a_time {c : Config Reply} (hc : c.Reachable) : c.Exclusive where
  single := hc.world.ledger.alive_unique
  taken := by
    rw [isEvaluating, Option.isSome_iff_exists]
    constructor
    · rintro ⟨s, hs⟩
      obtain ⟨e, halive, -⟩ := hc.world.occupied s hs
      exact ⟨e, halive⟩
    · rintro ⟨e, he⟩
      exact ⟨_, hc.world.ledger.slot_of_alive he⟩
  reacts x hx := by
    rw [isEvaluating, hc.slot_of_reacting hx]
    rfl
  enter h := enter_of_isEvaluating h
  enterNamed h := passes_enterNamed h
  construct h data path reaction :=
    ⟨_, passes_createWatcher_busy h data path reaction, untouched_giveUp _ _ _ _⟩
  update h _ hx := passes_updateWatcher_busy h hx
  tell h x := passes_notifySubscriber_busy h x
  keeps hp hproc hrun hclient := by
    obtain ⟨w, p⟩ := c
    obtain rfl := hproc
    exact hp.slot_eq hc hrun hclient

/-- Client code has an evaluation open while a watcher is to be updated. -/
theorem one_evaluation_at_a_time_of_open : ∃ c : Config Reply, c.Reachable ∧
    c.world.slot = some (.client 0) ∧ (c.world.watcher 0).dependencies = [0] ∧ c.Exclusive ∧
    Passes ⟨c.world, updateWatcher 0⟩ [] ⟨c.world, .done (.error .reentrantEvaluation)⟩ := by
  have hrun : ∃ reports last, runScript 100 .start
      [.newObject "o" [("a", .const (.bool true))], .observe (.object "o"),
        .watch "w" "o" "a" [], .subscriber "s" [], .tracking (.enter "e" "s" none)] =
          .finished reports last ∧ last.slot = some (.client 0) ∧
        (last.watcher 0).dependencies = [0] ∧ (last.watcher 0).disposed = false :=
    ⟨_, _, rfl, rfl, rfl, rfl⟩
  obtain ⟨reports, last, hrun, hslot, hdependencies, hdisposed⟩ := hrun
  let c : Config Reply := ⟨last, (Step.note "").run .outside⟩
  have hc : c.Reachable := ⟨last, .note "", World.Rested.start.runScript hrun, .here _⟩
  have hexclusive := one_evaluation_at_a_time hc
  have hbusy : c.world.isEvaluating = true := by
    rw [isEvaluating]
    exact congrArg Option.isSome hslot
  exact ⟨c, hc, hslot, hdependencies, hexclusive, hexclusive.update hbusy 0 hdisposed⟩

end DataBinding
