import DataBinding.Proofs.Resolution.Asking
import DataBinding.Proofs.Run.Returning
import DataBinding.Proofs.Subscription.Moves

/-!
# An evaluation reconciles subscriptions

An evaluation begins with what its subscriber is registered with, and ends
with the subscriber registered with what was read. Between the two it reads
reactive properties, in any order and any number of times, and other things
may be done that leave it alone and neither register nor unregister its
subscriber (`TrackedRun`).

What carries the proof is that the subscriber has one entry in the lists of
what it was registered with before and of what was read already, and none in
any other (`Reading`). Since a read appends to the list of a dependency that
is in neither, it appends once; since the end removes from lists of what was
not read, it removes what there was.
-/

namespace DataBinding

open World

variable {s : SubscriberId} {e : EvaluationId} {former ds : List DependencyId} {w u v : World}
  {d : DependencyId}

/-! ## Tracking one dependency -/

namespace World

theorem evaluation_track (he : e < w.evaluations.length) (d : DependencyId) :
    (w.track e d).evaluation e =
      if d ∈ (w.evaluation e).current then w.evaluation e else (w.evaluation e).read d := by
  have hread : (w.onEvaluation e (·.read d)).evaluation e = (w.evaluation e).read d := by
    rw [evaluation_onEvaluation, if_pos ⟨rfl, he⟩]
  by_cases hcurrent : d ∈ (w.evaluation e).current
  · rw [track_of_read hcurrent, if_pos hcurrent]
  · rw [if_neg hcurrent]
    by_cases hprevious : d ∈ (w.evaluation e).previous
    · rw [track_of_previous hcurrent hprevious, hread]
    · rw [track_of_new hcurrent hprevious]
      exact hread

theorem evaluations_track (w : World) (e : EvaluationId) (d : DependencyId) :
    (w.track e d).evaluations.length = w.evaluations.length := by
  by_cases hcurrent : d ∈ (w.evaluation e).current <;>
    by_cases hprevious : d ∈ (w.evaluation e).previous <;>
      simp [track, hcurrent, hprevious, onEvaluation, onGraph]

theorem length_subscribers_track (w : World) (e : EvaluationId) (d : DependencyId) :
    (w.track e d).graph.subscribers.length = w.graph.subscribers.length := by
  by_cases hcurrent : d ∈ (w.evaluation e).current <;>
    by_cases hprevious : d ∈ (w.evaluation e).previous <;>
      simp [track, hcurrent, hprevious, onEvaluation, onGraph, Graph.register]

/-- Only the first read of what there was no entry for makes one, at the
end of the list. -/
theorem subscribersOf_track (hd : d < w.graph.subscribers.length) (e : EvaluationId)
    (other : DependencyId) :
    (w.track e d).graph.subscribersOf other =
      if other = d ∧ d ∉ (w.evaluation e).previous ∧ d ∉ (w.evaluation e).current then
        w.graph.subscribersOf other ++ [(w.evaluation e).parent]
      else w.graph.subscribersOf other := by
  by_cases hcurrent : d ∈ (w.evaluation e).current
  · rw [track_of_read hcurrent, if_neg fun h => h.2.2 hcurrent]
  · by_cases hprevious : d ∈ (w.evaluation e).previous
    · rw [track_of_previous hcurrent hprevious, if_neg fun h => h.2.1 hprevious]
      rfl
    · rw [track_of_new hcurrent hprevious]
      refine (Graph.subscribersOf_register w.graph hd other _).trans ?_
      by_cases hother : other = d
      · rw [if_pos hother, if_pos ⟨hother, hprevious, hcurrent⟩, hother]
      · rw [if_neg hother, if_neg fun h => hother h.1]

end World

/-! ## Runs of an evaluation -/

/-- What is done between the beginning and the end of an evaluation: it reads
a reactive property, or it is something else. -/
structure Happening where
  before : World
  read? : Option DependencyId
  after : World

/-- The dependencies that were read, in order. -/
def readsOf (trace : List Happening) : List DependencyId :=
  trace.filterMap Happening.read?

/-- Something is done that leaves an evaluation alone and neither registers
nor unregisters a subscriber. -/
structure Meanwhile (s : SubscriberId) (e : EvaluationId) (w w' : World) : Prop where
  there : w.evaluations.length ≤ w'.evaluations.length
  parent : (w'.evaluation e).parent = (w.evaluation e).parent
  previous : (w'.evaluation e).previous = (w.evaluation e).previous
  current : (w'.evaluation e).current = (w.evaluation e).current
  entries : ∀ d, (w'.graph.subscribersOf d).count s = (w.graph.subscribersOf d).count s

/-- What an evaluation of a subscriber comes to before it ends, with all that
has happened. -/
inductive TrackedRun (s : SubscriberId) (e : EvaluationId) (w : World) :
    List Happening → World → Prop
  | here : TrackedRun s e w [] w
  | read {u v : World} {trace : List Happening} {id : ObjectId} {key : String}
      {d : DependencyId} {value : Value} (htracked : TrackedRun s e w trace u)
      (hd : u.graph.dependency? id key = some d) (hthere : d < u.graph.subscribers.length)
      (hrun : Reaches ⟨u, readProperty id key (some e)⟩ ⟨v, .done value⟩) :
      TrackedRun s e w (trace ++ [⟨u, some d, v⟩]) v
  | meanwhile {u v : World} {trace : List Happening} (htracked : TrackedRun s e w trace u)
      (h : Meanwhile s e u v) : TrackedRun s e w (trace ++ [⟨u, none, v⟩]) v

theorem content_of_dependency? {id : ObjectId} {key : String}
    (hd : w.graph.dependency? id key = some d) :
    ∃ value, w.graph.content (id, key) = some (.inl value) := by
  obtain ⟨value, hslot⟩ := Graph.dependency?_eq_some.1 hd
  exact ⟨value, by simp [Graph.content, hslot]⟩

/-- Reading a reactive property is tracking its dependency. -/
theorem passes_readProperty_reactive {id : ObjectId} {key : String}
    (hd : w.graph.dependency? id key = some d) (e : EvaluationId) :
    ∃ value, Passes ⟨w, readProperty id key (some e)⟩ [] ⟨w.track e d, .done value⟩ := by
  obtain ⟨value, hcontent⟩ := content_of_dependency? hd
  have hpasses : Passes ⟨w, readProperty id key (some e)⟩ []
      ⟨w.trackCells (some e) [(id, key)], .done value⟩ := passes_readProperty_data hcontent
  rw [trackCells_of_reactive hd] at hpasses
  exact ⟨value, hpasses⟩

theorem eq_track_of_reaches {id : ObjectId} {key : String} {value : Value}
    (hd : u.graph.dependency? id key = some d)
    (hrun : Reaches ⟨u, readProperty id key (some e)⟩ ⟨v, .done value⟩) : v = u.track e d := by
  obtain ⟨_, hpasses⟩ := passes_readProperty_reactive hd e
  exact (Reaches.result hpasses hrun).1

/-- Resolving a path, through accessors that only ask, reads reactive
properties one after the other. -/
theorem TrackedRun.resolve {trace : List Happening} {path : Path} {root : ObjectId} {value : Value}
    (htracked : TrackedRun s e w trace u) (hasks : u.OnlyAsks) (howned : u.graph.Owned)
    (hrun : Reaches ⟨u, path.resolve root (some e)⟩ ⟨v, .done value⟩) :
    ∃ trace', TrackedRun s e w (trace ++ trace') v ∧ ∀ step ∈ trace', step.read?.isSome := by
  obtain ⟨cells, -, rfl⟩ := given_of_reaches hasks hrun
  clear hrun hasks
  have hbounded : ∀ {id key d}, u.graph.dependency? id key = some d →
      d < u.graph.subscribers.length := howned.bounded
  clear howned
  induction cells generalizing u trace with
  | nil =>
      rw [trackCells_nil]
      exact ⟨[], by rwa [List.append_nil], fun _ hstep => absurd hstep List.not_mem_nil⟩
  | cons cell cells ih =>
      rw [trackCells_cons]
      cases hd : u.graph.dependency? cell.1 cell.2 with
      | none =>
          rw [trackCells_of_plain hd]
          exact ih htracked hbounded
      | some d =>
          rw [trackCells_of_reactive hd]
          obtain ⟨value, hpasses⟩ := passes_readProperty_reactive hd e
          have hread := htracked.read hd (hbounded hd) hpasses.reaches
          obtain ⟨trace', hrest, hreads⟩ := ih hread fun {id key d'} hd' => by
            rw [Graph.dependency?, slot?_eq (objects_track u e d)] at hd'
            rw [length_subscribers_track]
            exact hbounded hd'
          refine ⟨⟨u, some d, u.track e d⟩ :: trace', ?_, List.forall_mem_cons.2 ⟨rfl, hreads⟩⟩
          rwa [List.append_assoc] at hrest

/-! ## While it goes on -/

/-- An evaluation of `s` that was registered with `former` and has read
`ds` so far. -/
structure Reading (s : SubscriberId) (e : EvaluationId) (former ds : List DependencyId)
    (w : World) : Prop where
  there : e < w.evaluations.length
  parent : (w.evaluation e).parent = s
  previous : (w.evaluation e).previous = former
  nodup : (w.evaluation e).current.Nodup
  current : ∀ d, d ∈ (w.evaluation e).current ↔ d ∈ ds
  entries : ∀ d, (w.graph.subscribersOf d).count s = if d ∈ former ∨ d ∈ ds then 1 else 0

namespace Reading

theorem of_enter {begun : World} (h : w.enter s former = .ok begun)
    (hformer : ∀ d, (w.graph.subscribersOf d).count s = if d ∈ former then 1 else 0) :
    Reading s w.nextEvaluation former [] begun := by
  obtain ⟨-, rfl⟩ := enter_eq_ok h
  have hevaluation : ∀ slot, ({ w with
      slot, evaluations := w.evaluations ++ [⟨s, former, [], true, 1⟩] } : World).evaluation
        w.nextEvaluation = ⟨s, former, [], true, 1⟩ := fun slot => by
    rw [evaluation_append, if_pos rfl]
  constructor
  · simp [nextEvaluation]
  · rw [hevaluation]
  · rw [hevaluation]
  · rw [hevaluation]
    exact List.nodup_nil
  · intro d
    rw [hevaluation]
  · intro d
    simpa using hformer d

theorem meanwhile (h : Reading s e former ds u) (hother : Meanwhile s e u v) :
    Reading s e former ds v where
  there := Nat.lt_of_lt_of_le h.there hother.there
  parent := hother.parent.trans h.parent
  previous := hother.previous.trans h.previous
  nodup := hother.current ▸ h.nodup
  current := hother.current ▸ h.current
  entries d := (hother.entries d).trans (h.entries d)

/-- The list of a dependency after a read. -/
theorem subscribersOf_track (h : Reading s e former ds u)
    (hd : d < u.graph.subscribers.length) (other : DependencyId) :
    (u.track e d).graph.subscribersOf other =
      if other = d ∧ d ∉ former ∧ d ∉ ds then u.graph.subscribersOf other ++ [s]
      else u.graph.subscribersOf other := by
  rw [World.subscribersOf_track hd, h.previous, h.parent]
  simp only [h.current]

theorem track (h : Reading s e former ds u) (hd : d < u.graph.subscribers.length) :
    Reading s e former (ds ++ [d]) (u.track e d) := by
  have hevaluation := evaluation_track h.there d
  constructor
  · rw [evaluations_track]
    exact h.there
  · rw [hevaluation, ← h.parent]
    split <;> rfl
  · rw [hevaluation, ← h.previous]
    split <;> rfl
  · rw [hevaluation]
    split
    · exact h.nodup
    · rename_i hnew
      exact List.nodup_append.2 ⟨h.nodup, List.pairwise_singleton _ d,
        fun a ha b hb => by rintro rfl; exact hnew (List.mem_singleton.1 hb ▸ ha)⟩
  · intro other
    rw [hevaluation, List.mem_append, List.mem_singleton, ← h.current]
    split
    · rename_i hold
      exact ⟨.inl, fun hother => hother.elim id fun heq => heq ▸ hold⟩
    · exact List.mem_append.trans (or_congr_right List.mem_singleton)
  · intro other
    have hentries := h.entries other
    rw [h.subscribersOf_track hd]
    by_cases hnew : other = d ∧ d ∉ former ∧ d ∉ ds
    · obtain ⟨rfl, hformer, hds⟩ := hnew
      rw [if_pos ⟨rfl, hformer, hds⟩, List.count_append, hentries]
      simp [hformer, hds]
    · rw [if_neg hnew, hentries]
      have hiff : other ∈ former ∨ other ∈ ds ↔ other ∈ former ∨ other ∈ ds ++ [d] := by
        rw [List.mem_append, List.mem_singleton]
        by_cases heq : other = d
        · subst heq
          by_cases hformer : other ∈ former <;> by_cases hds : other ∈ ds <;> simp_all
        · simp [heq]
      simp only [hiff]

end Reading

namespace TrackedRun

variable {begun last : World} {trace : List Happening}

theorem reading (htracked : TrackedRun s e begun trace last)
    (hbegun : Reading s e former [] begun) :
    Reading s e former (readsOf trace) last := by
  induction htracked with
  | here => exact hbegun
  | read htracked hd hthere hrun ih =>
      obtain rfl := eq_track_of_reaches hd hrun
      simp only [readsOf, List.filterMap_append] at ih ⊢
      exact ih.track hthere
  | meanwhile htracked h ih =>
      simp only [readsOf, List.filterMap_append] at ih ⊢
      rw [show List.filterMap Happening.read? [⟨_, none, _⟩] = [] from rfl, List.append_nil]
      exact ih.meanwhile h

/-- What a read does to the lists depends on what was read before. -/
theorem subscribersOf_read (htracked : TrackedRun s e begun trace last)
    (hbegun : Reading s e former [] begun) {earlier later : List Happening} {step : Happening}
    (htrace : trace = earlier ++ step :: later) (hstep : step.read? = some d)
    (other : DependencyId) :
    step.after.graph.subscribersOf other =
      if other = d ∧ d ∉ former ∧ d ∉ readsOf earlier then
        step.before.graph.subscribersOf other ++ [s]
      else step.before.graph.subscribersOf other := by
  induction htracked generalizing later with
  | here => exact absurd htrace.symm (by simp)
  | read htracked hd hthere hrun ih =>
      rcases List.eq_nil_or_concat later with rfl | ⟨front, final, rfl⟩
      · obtain ⟨rfl, hlast⟩ := List.append_inj' htrace rfl
        obtain rfl := (List.cons.inj hlast).1
        obtain rfl := Option.some.inj hstep
        obtain rfl := eq_track_of_reaches hd hrun
        exact (htracked.reading hbegun).subscribersOf_track hthere other
      · rw [List.concat_eq_append, ← List.cons_append, ← List.append_assoc] at htrace
        exact ih (List.append_inj' htrace rfl).1
  | meanwhile htracked h ih =>
      rcases List.eq_nil_or_concat later with rfl | ⟨front, final, rfl⟩
      · obtain ⟨rfl, hlast⟩ := List.append_inj' htrace rfl
        obtain rfl := (List.cons.inj hlast).1
        cases hstep
      · rw [List.concat_eq_append, ← List.cons_append, ← List.append_assoc] at htrace
        exact ih (List.append_inj' htrace rfl).1

/-- A list that nothing else has changed. -/
theorem subscribersOf_alone (htracked : TrackedRun s e begun trace last)
    (hbegun : Reading s e former [] begun) (d : DependencyId)
    (halone : ∀ step ∈ trace, step.read? = none →
      step.after.graph.subscribersOf d = step.before.graph.subscribersOf d) :
    last.graph.subscribersOf d =
      if d ∈ readsOf trace ∧ d ∉ former then begun.graph.subscribersOf d ++ [s]
      else begun.graph.subscribersOf d := by
  induction htracked with
  | here => simp [readsOf]
  | @read u v trace id key d' value htracked hd hthere hrun ih =>
      obtain ⟨hbefore, -⟩ := List.forall_mem_append.1 halone
      have hreads : readsOf (trace ++ [⟨u, some d', v⟩]) = readsOf trace ++ [d'] := by
        simp [readsOf]
      obtain rfl := eq_track_of_reaches hd hrun
      rw [(htracked.reading hbegun).subscribersOf_track hthere, ih hbefore, hreads]
      by_cases heq : d = d'
      · subst heq
        by_cases hformer : d ∈ former
        · simp [hformer]
        · by_cases hread : d ∈ readsOf trace <;> simp [hformer, hread]
      · simp [heq]
  | @meanwhile u v trace htracked h ih =>
      obtain ⟨hbefore, hlast⟩ := List.forall_mem_append.1 halone
      have hreads : readsOf (trace ++ [⟨u, none, v⟩]) = readsOf trace := by
        simp [readsOf]
      rw [hlast _ List.mem_cons_self rfl, ih hbefore, hreads]

end TrackedRun

/-! ## When it has ended -/

/-- The end takes the subscriber out of the lists of what was registered
before and not read. -/
theorem Reading.subscribersOf_finish (h : Reading s e former ds w) (d : DependencyId) :
    (w.finish e).graph.subscribersOf d =
      if d ∈ former ∧ d ∉ ds then (w.graph.subscribersOf d).filter (· ≠ s)
      else w.graph.subscribersOf d := by
  have hstale : d ∈ w.stale e ↔ d ∈ former ∧ d ∉ ds := by
    simp [stale, List.mem_filter, h.previous, h.current]
  rw [World.finish]
  refine (Graph.subscribersOf_unregisterAll w.graph (w.stale e) _ d).trans ?_
  rw [h.parent]
  simp only [hstale]

theorem Reading.count_finish (h : Reading s e former ds w) (d : DependencyId) :
    ((w.finish e).graph.subscribersOf d).count s = if d ∈ ds then 1 else 0 := by
  rw [h.subscribersOf_finish]
  by_cases hds : d ∈ ds
  · rw [if_neg fun hstale => hstale.2 hds, h.entries, if_pos (.inr hds), if_pos hds]
  · by_cases hformer : d ∈ former
    · rw [if_pos ⟨hformer, hds⟩, if_neg hds, List.count_eq_zero]
      simp
    · rw [if_neg fun hstale => hformer hstale.1, h.entries, if_neg hds,
        if_neg fun hor => hor.elim hformer hds]

/-- What there is to say of an evaluation of `s` that was begun in `w`, with
what `s` was registered with, and is ended in `last`. -/
structure Reconciled (s : SubscriberId) (former : List DependencyId) (w begun : World)
    (trace : List Happening) (last : World) : Prop where
  /-- The result is the set of the dependencies that were read. -/
  result : ∀ d, d ∈ (last.evaluation w.nextEvaluation).current ↔ d ∈ readsOf trace
  nodup : (last.evaluation w.nextEvaluation).current.Nodup
  /-- The subscriber has one entry for each of them, and no other. -/
  subscribed : ∀ d, ((last.finish w.nextEvaluation).graph.subscribersOf d).count s =
    if d ∈ readsOf trace then 1 else 0
  /-- The beginning leaves all lists as they are. -/
  begins : begun.graph = w.graph
  /-- So does a read, but that the first one of what was not registered
  appends to the list. -/
  reads : ∀ {earlier step later d}, trace = earlier ++ step :: later → step.read? = some d →
    ∀ other, step.after.graph.subscribersOf other =
      if other = d ∧ d ∉ former ∧ d ∉ readsOf earlier then
        step.before.graph.subscribersOf other ++ [s]
      else step.before.graph.subscribersOf other
  /-- So does the end, but that the subscriber is taken out of what was not
  read. -/
  ends : ∀ d, (last.finish w.nextEvaluation).graph.subscribersOf d =
    if d ∈ former ∧ d ∉ readsOf trace then (last.graph.subscribersOf d).filter (· ≠ s)
    else last.graph.subscribersOf d
  /-- Neither changes the entries of others. -/
  others : (∀ step ∈ trace, step.read?.isSome → ∀ d,
      (step.after.graph.subscribersOf d).filter (· ≠ s) =
        (step.before.graph.subscribersOf d).filter (· ≠ s)) ∧
    ∀ d, ((last.finish w.nextEvaluation).graph.subscribersOf d).filter (· ≠ s) =
      (last.graph.subscribersOf d).filter (· ≠ s)
  /-- A list that nothing else has changed is what it was, with the subscriber
  in its place, appended or taken out. -/
  alone : ∀ d, (∀ step ∈ trace, step.read? = none →
      step.after.graph.subscribersOf d = step.before.graph.subscribersOf d) →
    (last.finish w.nextEvaluation).graph.subscribersOf d =
      if d ∈ readsOf trace then
        if d ∈ former then w.graph.subscribersOf d else w.graph.subscribersOf d ++ [s]
      else (w.graph.subscribersOf d).filter (· ≠ s)

/-- An evaluation that begins with exactly what its subscriber is registered
with, once each, ends with the subscriber registered once with exactly what
was read. Entries that stay keep their place, new ones are appended at the
first read, and the entries of all others stay as they are. -/
theorem evaluation_reconciles {w begun last : World} {trace : List Happening}
    (hformer : ∀ d, (w.graph.subscribersOf d).count s = if d ∈ former then 1 else 0)
    (hbegun : w.enter s former = .ok begun)
    (htracked : TrackedRun s w.nextEvaluation begun trace last) :
    Reconciled s former w begun trace last := by
  have hbegins : begun.graph = w.graph := by
    obtain ⟨-, rfl⟩ := enter_eq_ok hbegun
    rfl
  have hbegan := Reading.of_enter hbegun hformer
  have hlast := htracked.reading hbegan
  refine ⟨hlast.current, hlast.nodup, hlast.count_finish, hbegins,
    htracked.subscribersOf_read hbegan, hlast.subscribersOf_finish, ⟨?_, fun d => ?_⟩,
    fun d halone => ?_⟩
  · intro step hstep hread d
    obtain ⟨earlier, later, htrace⟩ := List.append_of_mem hstep
    obtain ⟨d', hd'⟩ := Option.isSome_iff_exists.1 hread
    rw [htracked.subscribersOf_read hbegan htrace hd']
    split <;> simp
  · rw [hlast.subscribersOf_finish]
    split <;> simp
  rw [hlast.subscribersOf_finish, htracked.subscribersOf_alone hbegan d halone, hbegins]
  by_cases hread : d ∈ readsOf trace
  · by_cases hd : d ∈ former <;> simp [hread, hd]
  · rw [if_neg fun h : d ∈ readsOf trace ∧ _ => hread h.1, if_neg hread]
    by_cases hd : d ∈ former
    · rw [if_pos ⟨hd, hread⟩]
    · have hnever := hformer d
      rw [if_neg hd, List.count_eq_zero] at hnever
      rw [if_neg fun h => hd h.1, List.filter_eq_self.2 fun other hother => by
        simpa using fun heq : other = s => hnever (heq ▸ hother)]

/-- Three reactive properties, the outer two of which the first subscriber has
read before. -/
def threeProperties : World :=
  { World.start with
    graph := ⟨[⟨[("a", .data ⟨.null, some 0⟩), ("b", .data ⟨.null, some 1⟩),
      ("c", .data ⟨.null, some 2⟩)]⟩],
      [[.client 0, .client 1], [.client 1], [.client 1, .client 0]]⟩
    clients := [⟨"s", [], 1⟩, ⟨"t", [], 1⟩] }

/-- The first subscriber evaluates. -/
def threeBegun : World :=
  { threeProperties with
    slot := some (.client 0)
    evaluations := [⟨.client 0, [0, 2], [], true, 1⟩] }

/-- It has read the middle property, and the other subscriber has registered. -/
def threeJoined : World :=
  (threeBegun.track 0 1).onGraph (·.register 1 (.client 1))

/-- The middle property is read twice, and the first one between the two. The
other subscriber registers meanwhile. -/
theorem evaluation_reconciles_of_three : ∃ begun trace last,
    (∀ d, (threeProperties.graph.subscribersOf d).count (.client 0) =
      if d ∈ [0, 2] then 1 else 0) ∧
    threeProperties.enter (.client 0) [0, 2] = .ok begun ∧
    TrackedRun (.client 0) 0 begun trace last ∧ readsOf trace = [1, 0, 1] ∧
    Reconciled (.client 0) [0, 2] threeProperties begun trace last ∧
    (last.finish 0).graph.subscribers =
      [[.client 0, .client 1], [.client 1, .client 0, .client 1], [.client 1]] := by
  have hformer : ∀ d, (threeProperties.graph.subscribersOf d).count (.client 0) =
      if d ∈ [0, 2] then 1 else 0
    | 0 | 1 | 2 | _ + 3 => rfl
  have hmeanwhile : Meanwhile (.client 0) 0 (threeBegun.track 0 1) threeJoined :=
    ⟨Nat.le_refl _, rfl, rfl, rfl, fun d => Graph.count_register_of_ne _ 1 d (by decide)⟩
  have hb : threeBegun.graph.dependency? 0 "b" = some 1 := rfl
  have ha : threeJoined.graph.dependency? 0 "a" = some 0 := rfl
  have hagain : (threeJoined.track 0 0).graph.dependency? 0 "b" = some 1 := rfl
  obtain ⟨_, hfirst⟩ := passes_readProperty_reactive hb 0
  obtain ⟨_, hsecond⟩ := passes_readProperty_reactive ha 0
  obtain ⟨_, hthird⟩ := passes_readProperty_reactive hagain 0
  have hbefore := (TrackedRun.here.read hb (by decide) hfirst.reaches).meanwhile hmeanwhile
  have htracked := (hbefore.read ha (by decide) hsecond.reaches).read hagain (by decide)
    hthird.reaches
  exact ⟨threeBegun, _, _, hformer, rfl, htracked, rfl,
    evaluation_reconciles hformer rfl htracked, rfl⟩

end DataBinding
