import DataBinding.Proofs.Freshness.Discipline

/-!
# No lost update

Between two steps of a script no watcher is stale (`Session.fresh`), and
so its value agrees with what its path resolves to: the headline theorem
`no_lost_update`.

Whether a session is orderly can be computed as long as there are no
accessors and no property holds an object (`orderly_of_plain`).
-/

namespace DataBinding

open World

/-- Between two steps of a script no watcher is stale. -/
theorem Session.fresh {s : Observing} (h : Session s) :
    freshDiscipline.rest s ∧ ∀ x, ¬ s.world.Stale x := by
  induction h with
  | start => exact ⟨⟨.start, rfl⟩, fun x hx => Nat.lt_irrefl 0 hx.1⟩
  | @step s t reply action hs hrun ih =>
      have haccounted : accounted.Run s (action.run .outside) t (.done reply) :=
        hrun.assume fun u _ hu => hs.rested.ledger.reaches hu.reaches
      have hsafe := (FreshDiscipline.lawful.step .outside action s ih.1 rfl).run
        FreshDiscipline.met haccounted
      obtain ⟨⟨hfair, hslot⟩, hrel⟩ := hsafe
      exact ⟨⟨⟨(hfair.ledger.frame (.clearLog _)).ledger, hfair.pure, hfair.closed, hfair.rooted,
        hfair.reactive⟩, hslot⟩, fun x hx => ih.2 x (hrel x hx)⟩

/-- Whenever an outermost operation is over, the value of every live
watcher that is not disposed of agrees with what its path resolves to; so
if that is no NaN, an update finds no other value. -/
theorem no_lost_update {s : Observing} (h : Session s) {x : WatcherId}
    (hlive : s.world.alive (.watcher x) = true)
    (hdisposed : (s.world.watcher x).disposed = false) :
    ∃ v calls, Silent calls ∧
      Passes ⟨s.world, (s.world.watcher x).path.resolve (s.world.watcher x).data none⟩ calls
        ⟨s.world, .done v⟩ ∧
      (s.world.watcher x).value.Agrees v ∧
      (v.isNaN = false → ∃ w' calls', Silent calls' ∧
        Passes ⟨s.world, updateWatcher x⟩ calls' ⟨w', .done (.ok false)⟩) := by
  obtain ⟨⟨hfair, hslot⟩, hfresh⟩ := h.fresh
  have hpos : 0 < (s.world.watcher x).handles := by simpa [World.alive] using hlive
  obtain ⟨v, ⟨cells, hyields, -⟩, hagrees⟩ : s.world.UpToDate x :=
    Classical.byContradiction fun hstale => hfresh x ⟨hpos, hdisposed, hstale⟩
  obtain ⟨u, hu, calls, hsilent, hpasses⟩ := hyields.comes none fun _ => rfl
  cases hu
  refine ⟨v, calls, hsilent, hpasses, hagrees, fun hnumber => ?_⟩
  obtain ⟨calls', hsilent', hupdate⟩ := passes_updateWatcher_same hslot (lt_of_handles hpos)
    hdisposed hyields (hagrees.same hnumber)
  exact ⟨_, calls', hsilent', hupdate⟩

/-! ## Plain sessions -/

/-- No accessors, no property that holds an object, no open evaluation of client code, and watchers
that begin at the first object. -/
def World.plain (w : World) : Bool :=
  w.graph.objects.all (fun slots => slots.entries.all fun entry =>
    match entry.2 with
    | .data property => property.value.object?.isNone
    | .computed _ => false) &&
  (match w.slot with
    | some (.client _) => false
    | _ => true) &&
  w.watchers.all (·.data == 0)

theorem World.slot?_of_plain {w : World} (h : w.plain = true) {id : ObjectId} {key : String}
    {slot : Slot} (hslot : w.graph.slot? id key = some slot) :
    ∃ property, slot = .data property ∧ property.value.object? = none := by
  simp only [World.plain, Bool.and_eq_true] at h
  have hid := Graph.lt_of_slot? hslot
  have hmem : w.graph.slots id ∈ w.graph.objects := by
    simp [Graph.slots, List.getD_eq_getElem?_getD, hid]
  have hentry := List.all_eq_true.1 (List.all_eq_true.1 h.1.1 _ hmem) _
    (Graph.mem_of_findEntry hslot)
  cases slot with
  | data property => exact ⟨property, rfl, by simpa using hentry⟩
  | computed accessor => simp at hentry

theorem World.closed_of_plain {w : World} (h : w.plain = true) (among : ObjectId → Prop) :
    w.graph.Closed among := by
  intro id key j _ hc
  obtain ⟨property, hslot, hvalue⟩ := Graph.slot?_of_content hc
  obtain ⟨property, hdata, hnone⟩ := World.slot?_of_plain h hslot
  cases hdata
  rw [hvalue] at hnone
  cases hnone

theorem orderly_of_plain {s t : Observing} (h : t.world.plain = true)
    (hrooted : t.world.watchers = [] ∨ t.observed 0)
    (hkeys : ∀ id, s.observed id → t.world.graph.keys id = s.world.graph.keys id) :
    Orderly s t := by
  refine ⟨?_, ?_, ?_, ?_, ?_⟩
  · intro id key accessor hslot
    obtain ⟨property, hdata, -⟩ := World.slot?_of_plain h hslot
    cases hdata
  · intro client hslot
    simp [World.plain, hslot] at h
  · intro x hx
    rcases hrooted with hnone | hzero
    · simp [hnone] at hx
    · simp only [World.plain, Bool.and_eq_true] at h
      have hdata := List.all_eq_true.1 h.2 (t.world.watcher x) (by
        simp [World.watcher, List.getD_eq_getElem?_getD, hx])
      exact (beq_iff_eq.1 hdata).symm ▸ hzero
  · intro id key property hid hslot hnone
    have hout := Keyed.find?_eq_none.1 hnone
    rw [← Graph.keys, ← hkeys id hid, Graph.keys, ← Keyed.find?_eq_none] at hout
    exact absurd (hout.symm.trans hslot) (by simp)
  · intro _ id key accessor _ hslot
    obtain ⟨property, hdata, -⟩ := World.slot?_of_plain h hslot
    cases hdata

/-- A run during which nothing further is observed. -/
theorem run_of_plain {among : ObjectId → Prop} {good : World → Bool} (c : Config Reply)
    (hgood : ∀ w w', good w = true → good w' = true → w'.plain = true ∧
      (w'.watchers = [] ∨ among 0) ∧ ∀ id, among id → w'.graph.keys id = w.graph.keys id)
    (fuel : Nat) (hcheck : (c.worlds fuel).all good = true) :
    orderly.Run ⟨c.world, among⟩ c.proc ⟨(c.advance fuel).world, among⟩
      (c.advance fuel).proc := by
  refine Monitor.run_of_worlds (M := orderly) (f := fun w => ⟨w, among⟩) (fun _ => rfl)
    (fun w w' hw hw' => ?_) fuel c hcheck
  obtain ⟨hplain, hrooted, hkeys⟩ := hgood w w' hw hw'
  exact ⟨⟨rfl, .inl fun j => ⟨.base, fun hj => hj.of_closed (World.closed_of_plain hplain _)⟩⟩,
    orderly_of_plain hplain hrooted hkeys⟩

/-- The state that a step leaves. -/
theorem Session.step_of_advance {w w' after : World} {among : ObjectId → Prop} (action : Step)
    {reply : Reply} {fuel : Nat} (hs : Session ⟨w, among⟩)
    (hrun : orderly.Run ⟨w, among⟩ (action.run .outside)
      ⟨((⟨w, action.run .outside⟩ : Config Reply).advance fuel).world, among⟩
      ((⟨w, action.run .outside⟩ : Config Reply).advance fuel).proc)
    (hlast : (⟨w, action.run .outside⟩ : Config Reply).advance fuel = ⟨after, .done reply⟩)
    (hnext : w' = { after with log := [] }) : Session ⟨w', among⟩ := by
  rw [hlast] at hrun
  subst hnext
  exact .step action hs hrun

/-! ### A write -/

/-- An object with one property, not observed. -/
def newFlag : World :=
  { World.start with
    graph := ⟨[⟨[("a", .data ⟨.bool true, none⟩)]⟩], []⟩
    names := { Names.empty with objects := ⟨[("o", 0)]⟩ } }

/-- It is observed. -/
def observedFlag : World :=
  { newFlag with graph := ⟨[⟨[("a", .data ⟨.bool true, some 0⟩)]⟩], [[]]⟩ }

/-- It has a watcher. -/
def watchedFlag : World :=
  { newFlag with
    graph := ⟨[⟨[("a", .data ⟨.bool true, some 0⟩)]⟩], [[.watcher 0]]⟩
    evaluations := [⟨.watcher 0, [], [0], false, 1⟩]
    watchers := [⟨0, Path.parse "a", .client "w" [], .bool true, [0], false, 1⟩]
    names := { newFlag.names with watchers := ⟨[("w", 0)]⟩ } }

/-- The property has been written. -/
def writtenFlag : World :=
  { watchedFlag with
    graph := ⟨[⟨[("a", .data ⟨.bool false, some 0⟩)]⟩], [[.watcher 0]]⟩
    evaluations := [⟨.watcher 0, [], [0], false, 1⟩, ⟨.watcher 0, [0], [0], false, 1⟩]
    watchers := [⟨0, Path.parse "a", .client "w" [], .bool false, [0], false, 1⟩] }

/-- Before the observation no object is observed, and there is no watcher. -/
theorem run_before_observation (c : Config Reply) (fuel : Nat)
    (hcheck : ((c.worlds fuel).all fun w => w.plain && w.watchers.isEmpty) = true) :
    orderly.Run ⟨c.world, fun _ => False⟩ c.proc ⟨(c.advance fuel).world, fun _ => False⟩
      (c.advance fuel).proc := by
  refine run_of_plain c (fun w w' _ hw' => ?_) fuel hcheck
  simp only [Bool.and_eq_true, List.isEmpty_iff] at hw'
  exact ⟨hw'.1, .inl hw'.2, fun _ h => h.elim⟩

/-- Afterwards the one object is, and keeps its one key. -/
theorem run_after_observation (c : Config Reply) (fuel : Nat)
    (hcheck : ((c.worlds fuel).all fun w => w.plain && w.graph.keys 0 == ["a"]) = true) :
    orderly.Run ⟨c.world, fun j => j = 0⟩ c.proc ⟨(c.advance fuel).world, fun j => j = 0⟩
      (c.advance fuel).proc := by
  refine run_of_plain c (fun w w' hw hw' => ?_) fuel hcheck
  simp only [Bool.and_eq_true, beq_iff_eq] at hw hw'
  exact ⟨hw'.1, .inr rfl, fun id hid => by rw [hid, hw.2, hw'.2]⟩

theorem session_observedFlag : Session ⟨observedFlag, fun j => j = 0⟩ := by
  have hmade : Session ⟨newFlag, fun _ => False⟩ :=
    .step_of_advance (.newObject "o" [("a", .const (.bool true))]) .start
      (run_before_observation ⟨_, _⟩ 100 (by decide +kernel)) rfl rfl
  have hnext : orderly.next ⟨newFlag, fun _ => False⟩ observedFlag
      ⟨observedFlag, fun j => j = 0⟩ := by
    refine ⟨⟨rfl, .inr ⟨.object 0, rfl, fun j => ⟨fun hj => .base (.inr (by rw [hj])), ?_⟩⟩⟩,
      orderly_of_plain rfl (.inr rfl) fun _ h => h.elim⟩
    exact fun hj => hj.least (World.closed_of_plain rfl _) fun i hi => by simpa [eq_comm] using hi
  have hrun := run_before_observation ⟨newFlag, (Step.observe (.object "o")).run .outside⟩ 2
    (by decide +kernel)
  exact .step (t := ⟨observedFlag, fun j => j = 0⟩) (.observe (.object "o")) hmade
    (.write hrun hnext)

theorem session_writtenFlag : Session ⟨writtenFlag, fun j => j = 0⟩ := by
  have hwatched : Session ⟨watchedFlag, fun j => j = 0⟩ :=
    .step_of_advance (.watch "w" "o" "a" []) session_observedFlag
      (run_after_observation ⟨_, _⟩ 100 (by decide +kernel)) rfl rfl
  exact .step_of_advance (.set "o" "a" (.const (.bool false))) hwatched
    (run_after_observation ⟨_, _⟩ 100 (by decide +kernel)) rfl rfl

theorem Value.eq_false_of_agrees {v : Value} (h : (Value.bool false).Agrees v) : v = .bool false := by
  cases v with
  | bool b =>
      cases b with
      | false => rfl
      | true => simp [Value.Agrees, Value.same, Value.isNaN] at h
  | _ => simp [Value.Agrees, Value.same, Value.isNaN] at h

/-- A watcher of a property that is written. -/
theorem no_lost_update_of_write : ∃ s : Observing, Session s ∧
    s.world.alive (.watcher 0) = true ∧ (s.world.watcher 0).disposed = false ∧
    (s.world.watcher 0).value = .bool false ∧
    ∃ calls, Silent calls ∧ Passes ⟨s.world, (s.world.watcher 0).path.resolve 0 none⟩ calls
      ⟨s.world, .done (.bool false)⟩ := by
  have hlive : writtenFlag.alive (.watcher 0) = true := rfl
  have hdisposed : (writtenFlag.watcher 0).disposed = false := rfl
  obtain ⟨v, calls, hsilent, hpasses, hagrees, -⟩ :=
    no_lost_update session_writtenFlag hlive hdisposed
  obtain rfl := Value.eq_false_of_agrees hagrees
  exact ⟨_, session_writtenFlag, hlive, hdisposed, rfl, calls, hsilent, hpasses⟩

end DataBinding
