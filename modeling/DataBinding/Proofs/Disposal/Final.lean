import DataBinding.Proofs.Disposal.Discipline

/-!
# Disposal is final

A watcher that is disposed of outside its own evaluation is subscribed to
nothing from then on and never reacts again, whatever client code does
later (`disposal_is_final`). Inside its own evaluation this fails: the
evaluation goes on, subscribes the watcher to what it has read, and the
update that began it reacts (`disposal_in_evaluation`).
-/

namespace DataBinding

open World

variable {b c : Config Reply}

/-! ## The retired along a run -/

/-- A configuration that keeps to the discipline of disposal. -/
structure Retiring.Follows (s : Retiring) (c : Config Reply) : Prop
    extends disposalDiscipline.Follows s c where
  settled : s.Settled

variable {s : Retiring}

/-- A step keeps to the discipline, whoever was retired before it. -/
theorem Retiring.Settled.follows_step (h : s.Settled) (a : Step) :
    s.Follows ⟨s.world, a.run .outside⟩ :=
  ⟨.of_keeps DisposalDiscipline.lawful.toSound (DisposalDiscipline.lawful.step .outside a) h, h⟩

/-- A tick keeps to the discipline, and whom it ends is retired. -/
theorem Retiring.Follows.tick_ends (h : s.Follows b) (htick : b.tick = some c)
    (hledger : Ledger c.world) : ∃ t : Retiring, t.Follows c ∧
      ∀ x, s.retired x ∨ b.world.Ends c.world x → t.retired x := by
  have hworld : s.world = b.world := h.world
  rcases h.tick_of_met DisposalDiscipline.met htick with ⟨hsame, hc⟩ | hnext
  · refine ⟨s, ⟨hc, h.settled⟩, fun x hx => hx.resolve_right ?_⟩
    rw [hsame]
    exact Ends.not_self _ x
  · let t : Retiring := ⟨c.world, fun x => s.retired x ∨ s.world.Ends c.world x⟩
    obtain ⟨ht, hc⟩ := hnext t ⟨⟨rfl, fun _ => Iff.rfl⟩, hledger⟩
    refine ⟨t, ⟨hc, ht⟩, fun x hx => ?_⟩
    rwa [← hworld] at hx

/-- A tick keeps to the discipline, and whom it disposes of is retired. -/
theorem Retiring.Follows.tick (h : s.Follows b) (htick : b.tick = some c)
    (hledger : Ledger c.world) : ∃ t : Retiring, t.Follows c ∧
      ∀ x, s.retired x ∨ b.world.Retires c.world x → t.retired x := by
  obtain ⟨t, ht, hends⟩ := h.tick_ends htick hledger
  exact ⟨t, ht, fun x hx => hends x (hx.imp_right .inl)⟩

/-- Whoever is retired stays retired along a run. -/
theorem Retiring.Follows.proceeds (hb : b.Reachable) (h : s.Follows b) (hbc : Proceeds b c) :
    ∃ t : Retiring, t.Follows c ∧ ∀ x, s.retired x → t.retired x := by
  induction hbc with
  | here => exact ⟨s, h, fun _ hx => hx⟩
  | tick hrun htick ih =>
      obtain ⟨t, ht, hkeeps⟩ := ih
      have hreachable := (hrun.tick htick).reachable hb
      obtain ⟨u, hu, hkeeps'⟩ := ht.tick htick hreachable.world.ledger
      exact ⟨u, hu, fun x hx => hkeeps' x (.inl (hkeeps x hx))⟩
  | step a _ ih =>
      obtain ⟨t, ⟨⟨rfl, -⟩, ht⟩, hkeeps⟩ := ih
      -- between two steps only the log is cleared
      have hnext : Retiring.Settled ⟨{ t.world with log := [] }, t.retired⟩ :=
        ⟨(ht.ledger.frame (.clearLog _)).ledger, ht.there, ht.gone, ht.free⟩
      exact ⟨_, hnext.follows_step a, hkeeps⟩

/-- Every reachable configuration keeps to the discipline. -/
theorem Config.Reachable.follows (h : c.Reachable) : ∃ s : Retiring, s.Follows c := by
  obtain ⟨before, a, hbefore, hrun⟩ := h
  let s : Retiring := ⟨before, fun _ => False⟩
  have hs : s.Settled := ⟨hbefore.reachable.ledger, nofun, nofun, nofun⟩
  obtain ⟨t, ht, -⟩ :=
    (hs.follows_step a).proceeds ⟨before, a, hbefore, .here _⟩ ((Proceeds.here _).reaches hrun)
  exact ⟨t, ht⟩

/-! ## The end of a watcher -/

/-- Who is retired is disposed of and in no list, and does not react. -/
theorem Retiring.Follows.over (h : s.Follows c) {x : WatcherId} (hx : s.retired x) :
    (c.world.watcher x).disposed = true ∧ (c.world.watcher x).dependencies = [] ∧
      (∀ d, SubscriberId.watcher x ∉ c.world.graph.subscribersOf d) ∧ c.reacting ≠ some x := by
  obtain ⟨⟨hworld, hsafe⟩, hsettled⟩ := h
  rw [← hworld]
  obtain ⟨hdisposed, hnone⟩ := hsettled.gone hx
  refine ⟨hdisposed, hnone, fun d => ?_, fun hreacting => ?_⟩
  · have hentries := hsettled.ledger.entries_eq (hsettled.free hx) d
    rw [hnone, if_neg List.not_mem_nil] at hentries
    exact List.count_eq_zero.1 hentries
  · obtain ⟨w, p⟩ := c
    simp only [Config.reacting] at hreacting
    split at hreacting
    · obtain rfl := Option.some.inj hreacting
      exact hsafe.1.2 hx
    · cases hreacting

/-- A watcher that a tick disposes of outside its own evaluation is from
then on, wherever the run comes to, disposed of, without dependencies and
in no subscriber list, and its reaction never starts. -/
theorem disposal_is_final {b c later : Config Reply} {x : WatcherId} (hb : b.Reachable)
    (htick : b.tick = some c) (hretires : b.world.Retires c.world x)
    (hlater : Proceeds c later) :
    (later.world.watcher x).disposed = true ∧ (later.world.watcher x).dependencies = [] ∧
      (∀ d, SubscriberId.watcher x ∉ later.world.graph.subscribersOf d) ∧
      later.reacting ≠ some x := by
  obtain ⟨s, hs⟩ := hb.follows
  have hc : c.Reachable := ((Proceeds.here b).tick htick).reachable hb
  obtain ⟨t, ht, hretired⟩ := hs.tick htick hc.world.ledger
  obtain ⟨u, hu, hkeeps⟩ := ht.proceeds hc hlater
  exact hu.over (hkeeps x (hretired x (.inr hretires)))

/-- A reactive property and its watcher `w`. -/
def watchedProperty : World :=
  { World.start with
    graph := ⟨[⟨[("a", .data ⟨.bool true, some 0⟩)]⟩], [[.watcher 0]]⟩
    evaluations := [⟨.watcher 0, [], [0], false, 1⟩]
    watchers := [⟨0, ⟨"a", ["a"]⟩, .client "w" [], .bool true, [0], false, 1⟩]
    names := { Names.empty with objects := ⟨[("o", 0)]⟩, watchers := ⟨[("w", 0)]⟩ } }

theorem rested_watchedProperty : watchedProperty.Rested := by
  have hrun : ∃ reports, runScript 100 .start
      [.newObject "o" [("a", .const (.bool true))], .observe (.object "o"),
        .watch "w" "o" "a" []] = .finished reports watchedProperty := ⟨_, rfl⟩
  obtain ⟨reports, hrun⟩ := hrun
  exact World.Rested.start.runScript hrun

/-- A watcher that is disposed of before the property that it depends on is
written. -/
theorem disposal_is_final_of_write : ∃ b c later : Config Reply, b.Reachable ∧
    (b.world.watcher 0).dependencies = [0] ∧ b.tick = some c ∧ b.world.Retires c.world 0 ∧
    Proceeds c later ∧ later.world.graph.slot? 0 "a" = some (.data ⟨.bool false, some 0⟩) ∧
    SubscriberId.watcher 0 ∉ later.world.graph.subscribersOf 0 := by
  let disposing : Step := .watcher (.dispose "w")
  let b : Config Reply := ⟨watchedProperty, .write (watchedProperty.dispose 0) (.done .nothing)⟩
  let c : Config Reply := ⟨watchedProperty.dispose 0, .done .nothing⟩
  have hb : b.Reachable := ⟨watchedProperty, disposing, rested_watchedProperty,
    reaches_advance 2 ⟨watchedProperty, disposing.run .outside⟩⟩
  have hretires : b.world.Retires c.world 0 :=
    retires_dispose nofun fun h => Bool.noConfusion h.1
  have hlater := ((Proceeds.here c).step (.set "o" "a" (.const (.bool false)))).reaches
    (reaches_advance 100 _)
  obtain ⟨-, -, hnone, -⟩ := disposal_is_final hb rfl hretires hlater
  exact ⟨b, c, _, hb, rfl, rfl, hretires, hlater, rfl, hnone 0⟩

/-- A computed property that, once `a` is true, disposes of the watcher `w`. -/
def disposingChoice : Expr :=
  .choose (.get "a") (.after [.watcher (.dispose "w")] (.get "b")) (.const (.bool false))

/-- The computed property, next to the two that it reads. -/
def unwatchedChoice : World :=
  { World.start with
    graph := ⟨[⟨[("a", .data ⟨.bool false, some 0⟩), ("b", .data ⟨.bool true, some 1⟩),
      ("c", .computed disposingChoice)]⟩], [[], []]⟩
    names := { Names.empty with objects := ⟨[("o", 0)]⟩ } }

/-- The watcher `w` of a computed property that will dispose of it. -/
def watchedChoice : World :=
  { World.start with
    graph := ⟨[⟨[("a", .data ⟨.bool false, some 0⟩), ("b", .data ⟨.bool true, some 1⟩),
      ("c", .computed disposingChoice)]⟩], [[.watcher 0], []]⟩
    evaluations := [⟨.watcher 0, [], [0], false, 1⟩]
    watchers := [⟨0, ⟨"c", ["c"]⟩, .client "w" [], .bool false, [0], false, 1⟩]
    names := { Names.empty with objects := ⟨[("o", 0)]⟩, watchers := ⟨[("w", 0)]⟩ } }

theorem rested_watchedChoice : watchedChoice.Rested := by
  have hdefined : ∃ reports, runScript 100 .start
      [.newObject "o" [("a", .const (.bool false)), ("b", .const (.bool true))],
        .observe (.object "o"), .define "o" "c" disposingChoice] =
          .finished reports unwatchedChoice := ⟨_, rfl⟩
  have hwatched : ∃ reports, runScript 100 unwatchedChoice [.watch "w" "o" "c" []] =
      .finished reports watchedChoice := ⟨_, rfl⟩
  obtain ⟨_, hdefined⟩ := hdefined
  obtain ⟨_, hwatched⟩ := hwatched
  exact (World.Rested.start.runScript hdefined).runScript hwatched

/-- A computed property disposes of the watcher that is evaluating it. The
reaction starts nevertheless, with no evaluation in progress, and the
watcher is subscribed again to all that the evaluation has read. -/
theorem disposal_in_evaluation : ∃ b c later : Config Reply, b.Reachable ∧
    b.tick = some c ∧ (b.world.watcher 0).disposed = false ∧
    (c.world.watcher 0).disposed = true ∧ Proceeds c later ∧ later.world.slot = none ∧
    (later.world.watcher 0).dependencies = [0, 1] ∧
    SubscriberId.watcher 0 ∈ later.world.graph.subscribersOf 1 ∧ later.reacting = some 0 := by
  let raise := Step.set "o" "a" (.const (.bool true))
  -- the twenty-fifth tick disposes, and the reaction starts ten ticks later
  let b := Config.advance 24 ⟨watchedChoice, raise.run .outside⟩
  have hb : b.Reachable := ⟨_, raise, rested_watchedChoice, reaches_advance 24 _⟩
  have htick : b.tick = some (b.advance 1) := Config.tick_eq_advance (by decide +kernel)
  have hlater : Proceeds (b.advance 1) ((b.advance 1).advance 10) :=
    (Proceeds.here _).reaches (reaches_advance 10 _)
  exact ⟨b, b.advance 1, _, hb, htick, by decide +kernel, by decide +kernel, hlater,
    by decide +kernel, by decide +kernel, by decide +kernel, by decide +kernel⟩

end DataBinding
