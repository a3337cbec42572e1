import DataBinding.Proofs.Client.Ticks
import DataBinding.Proofs.Store.Reachability

/-!
# Observed trees stay reactive

A root that was observed once leads to reactive properties only, whatever
is written later: into a reactive property that the root leads to, a value
may be written that nobody has observed, and with it a whole graph of
objects comes in; it is observed in the same write, before any subscriber
is told. What is not reactive the root does not lead to. Only a new key
can break this, so what is asked of a run is that none comes in at an
object that the root leads to (`Graph.KeepsKeys`).

That the root was observed is history, and a monitor keeps it beside the
state (`attaching`); the discipline is about the states since then. Between
the two halves of a write it says of the second one what it does, and
`Config.Completes` that nothing else happens before.
-/

namespace DataBinding

open World

variable {root : ObjectId} {a b c : Config Reply}

/-! ## The discipline -/

/-- A state, and whether a root was observed before. -/
structure Rooted where
  world : World
  observed : Prop

/-- A root that was observed stays observed as long as no key comes in at
what it leads to. The state before the last write is at hand. -/
@[reducible] def attaching (root : ObjectId) : Monitor where
  State := Rooted × Rooted
  world s := s.2.world
  next s w t := t.1 = s.2 ∧ t.2.world = w ∧ (t.2.observed →
    w = s.2.world.onGraph (·.observe (.object root)) ∨
      s.2.observed ∧ s.2.world.graph.KeepsKeys root w.graph)
  world_next h := h.2.1

/-- What an observed root leads to is reactive. If it is not, after the
store of a value, the next write observes the value. -/
@[reducible] def attachingDiscipline (root : ObjectId) : Discipline (attaching root) where
  always s := s.1.observed → s.1.world.graph.ReactiveFrom root ∨ ∃ v,
    s.2.world = s.1.world.onGraph (·.observe v) ∧ s.2.world.graph.ReactiveFrom root
  rest s := s.2.observed → s.2.world.graph.ReactiveFrom root
  rel _ _ := True
  tracks _ _ := True
  accessorPre _ _ _ s := s.2.observed → s.2.world.graph.ReactiveFrom root
  accessorPost _ _ _ _ _ t := t.2.observed → t.2.world.graph.ReactiveFrom root

/-- Making objects, installing accessors and observing. -/
theorem Graph.Shapes.reactiveFrom {g g' : Graph} (h : g.Shapes g') (hg : g.ReactiveFrom root)
    (hkeys : g.KeepsKeys root g') : g'.ReactiveFrom root := by
  cases h with
  | create properties => exact hg.of_extends (Graph.extends_create g properties) hkeys
  | define id entries => exact hg.of_extends (Graph.extends_defineAll g id entries) hkeys
  | observe v => exact hg.observe v

/-- Every write but the store of a value. -/
theorem World.Maintains.reactiveFrom {sites : NodeId → Prop} {w w' : World}
    (h : w.Maintains sites w') (hw : w.graph.ReactiveFrom root)
    (hkeys : w.graph.KeepsKeys root w'.graph) :
    w'.graph.ReactiveFrom root := by
  rcases h.effect with htracks | ⟨g, rfl, hshapes⟩ | ⟨watchers, rfl, -⟩
  · exact hw.of_objects htracks.objects
  · exact hshapes.reactiveFrom hw hkeys
  · exact hw

namespace AttachingDiscipline

variable {s t : Rooted × Rooted} {w : World}

/-- A write that leaves what the root leads to reactive, if it was observed
before. -/
theorem next (hs : (attachingDiscipline root).rest s) (ht : (attaching root).next s w t)
    (hw : s.2.world.graph.ReactiveFrom root → s.2.world.graph.KeepsKeys root w.graph →
      w.graph.ReactiveFrom root) :
    (attachingDiscipline root).always t ∧ (attachingDiscipline root).rest t := by
  obtain ⟨hbefore, rfl, hobserved⟩ := ht
  refine ⟨fun h => .inl ?_, fun h => ?_⟩
  · rw [hbefore] at h ⊢
    exact hs h
  · rcases hobserved h with hroot | ⟨hold, hkeys⟩
    · rw [hroot]
      exact Graph.reactiveFrom_observe _ root
    · exact hw (hs hold) hkeys

theorem stepwise (root : ObjectId) : (attachingDiscipline root).Stepwise :=
  .of_steps
    (fun hs ht hw => next hs ht hw.reactiveFrom)
    (fun hs hfree ht => next hs ht fun h hkeys => h.store hfree hkeys)
    (fun {s t id key v property d} hs hslot hdependency ht => by
      have hattached : t.2.observed → (t.2.world.graph.observe v).ReactiveFrom root := by
        intro h
        rw [ht.2.1]
        rcases ht.2.2 h with hroot | ⟨hold, -⟩
        · rw [hroot]
          exact (Graph.reactiveFrom_observe _ root).observe v
        · exact (hs hold).attach hslot hdependency v
      refine ⟨fun h => .inl ?_, trivial, fun u hu => ⟨fun h => .inr ⟨v, ?_, ?_⟩, fun h => ?_⟩⟩
      · rw [ht.1] at h ⊢
        exact hs h
      · rw [hu.1, hu.2.1]
      · rw [hu.1] at h
        rw [hu.2.1]
        exact hattached h
      · rw [hu.2.1]
        rcases hu.2.2 h with hroot | ⟨hold, -⟩
        · rw [hroot]
          exact Graph.reactiveFrom_observe _ root
        · exact hattached hold)
    (fun hs _ => hs) fun _ _ => trivial

theorem met (root : ObjectId) : (attachingDiscipline root).contract.Met :=
  (stepwise root).met fun hs => hs

end AttachingDiscipline

/-! ## Between the halves of a write -/

/-- A value is about to be observed, before any call and before the end,
after which all that the root leads to is reactive. -/
inductive Config.Completes (root : ObjectId) : Config Reply → Prop
  | observes {w : World} {v : Value} {next : Proc Reply} :
      (w.graph.observe v).ReactiveFrom root →
      Completes root ⟨w, .write (w.onGraph (·.observe v)) next⟩
  | reads {w : World} {next : World → Proc Reply} :
      Completes root ⟨w, next w⟩ → Completes root ⟨w, .read next⟩

theorem Config.Completes.of_read {w : World} {next : World → Proc Reply}
    (h : Config.Completes root ⟨w, .read next⟩) : Config.Completes root ⟨w, next w⟩ := by
  cases h with
  | reads h => exact h

theorem Config.Completes.of_write {w w' : World} {next : Proc Reply}
    (h : Config.Completes root ⟨w, .write w' next⟩) : ∃ v, w' = w.onGraph (·.observe v) := by
  cases h with
  | observes => exact ⟨_, rfl⟩

variable {s : Rooted × Rooted}

/-- If the root leads to what is not reactive, a write is only half done. -/
theorem completes_of_follows (h : (attachingDiscipline root).Follows s c) (hs : s.2.observed)
    (hnot : ¬ c.world.graph.ReactiveFrom root) : c.Completes root := by
  obtain ⟨hworld, hsafe⟩ := h
  obtain ⟨w, p⟩ := c
  obtain rfl : s.2.world = w := hworld
  induction p with
  | done reply => exact absurd (hsafe hs) hnot
  | halt fault => exact absurd (hsafe hs) hnot
  | read next ih => exact .reads (ih _ hnot hsafe.2)
  | call call next =>
      have hrest : (attachingDiscipline root).rest s := by
        cases call with
        | deliver listener event => exact hsafe.1.1
        | _ => exact hsafe.1
      exact absurd (hrest hs) hnot
  | write w' next =>
      obtain ⟨halways, -⟩ := hsafe (s.2, ⟨w', False⟩) ⟨rfl, rfl, False.elim⟩
      obtain ⟨v, hobserves, hreactive⟩ := (halways hs).resolve_left hnot
      replace hobserves : w' = s.2.world.onGraph (·.observe v) := hobserves
      subst hobserves
      exact .observes hreactive

/-- The root stays observed along a run. -/
theorem follows_proceeds (h : (attachingDiscipline root).Follows s b) (hs : s.2.observed)
    (hrun : ProceedsWithin (fun w w' => w.graph.KeepsKeys root w'.graph) b c) :
    ∃ t, (attachingDiscipline root).Follows t c ∧ t.2.observed := by
  induction hrun with
  | here => exact ⟨s, h, hs⟩
  | tick _ htick hkeys ih =>
      obtain ⟨t, hfollows, ht⟩ := ih
      rcases hfollows.tick_of_met (AttachingDiscipline.met root) htick with ⟨-, hsame⟩ | hnext
      · exact ⟨t, hsame, ht⟩
      · rw [← hfollows.world] at hkeys
        exact ⟨_, (hnext (t.2, ⟨_, True⟩) ⟨rfl, rfl, fun _ => .inr ⟨ht, hkeys⟩⟩).2, trivial⟩
  | step a _ ih =>
      obtain ⟨t, hfollows, ht⟩ := ih
      have hcleared : (attaching root).next t { t.2.world with log := [] }
          (t.2, ⟨{ t.2.world with log := [] }, True⟩) := by
        refine ⟨rfl, rfl, fun _ => .inr ⟨ht, fun {j key property} _ hslot hnone => ?_⟩⟩
        exact nomatch hslot.symm.trans hnone
      obtain ⟨hworld, hsafe⟩ := hfollows
      obtain rfl : t.2.world = _ := hworld
      exact ⟨_, Discipline.Follows.step (AttachingDiscipline.stepwise root).lawful
        ⟨rfl, hsafe⟩ a hcleared, trivial⟩

/-! ## Observed trees stay reactive -/

/-- A handle on a live subscriber makes a difference outside the graph. -/
theorem World.retain_ne_onGraph {w : World} {subscriber : SubscriberId}
    (halive : w.alive subscriber = true) (change : Graph → Graph) :
    w.retain subscriber ≠ w.onGraph change := by
  intro heq
  cases subscriber with
  | watcher x =>
      have hhandles : 0 < (w.watcher x).handles := of_decide_eq_true halive
      have hsame : ((w.retain (.watcher x)).watcher x).handles = (w.watcher x).handles := by
        rw [heq]
        rfl
      rw [retain, watcher_onWatcher_self (lt_of_handles hhandles)] at hsame
      exact Nat.succ_ne_self _ hsame
  | client id =>
      have hhandles : 0 < (w.client id).handles := of_decide_eq_true halive
      have hsame : ((w.retain (.client id)).client id).handles = (w.client id).handles := by
        rw [heq]
        rfl
      have hid : id < w.clients.length := by
        refine Nat.lt_of_not_le fun hout => ?_
        simp [client, List.getD_eq_getElem?_getD, hout] at hhandles
      simp [retain, client, onClient, List.getD_eq_getElem?_getD, hid] at hsame

/-- Whoever tells a live subscriber is not about to observe a value. -/
theorem Config.Completes.not_notifies {w : World} {subscriber : SubscriberId}
    {rest : Unit → Proc Reply} (halive : w.alive subscriber = true) :
    ¬ Config.Completes root ⟨w, notifySubscriber subscriber >>= rest⟩ := by
  intro h
  have hread : Config.Completes root ⟨w, (if w.alive subscriber = true then do
      Proc.modify (·.retain subscriber)
      invalidate subscriber
      Proc.modify (·.release subscriber) else pure ()) >>= rest⟩ := h.of_read
  rw [if_pos halive] at hread
  obtain ⟨v, hretains⟩ := hread.of_read.of_write
  exact World.retain_ne_onGraph halive _ hretains

/-- After a root was observed, and as long as no key comes in at an object
that it leads to, every data property that it leads to is reactive, unless
a value was just stored and is about to be observed. So it is whenever a
call starts, when a step has ended, and when a subscriber is told of a
change. -/
theorem observed_tree_stays_reactive {w : World} {next : Proc Reply}
    (hobserve : Config.Reachable ⟨w, .write (w.onGraph (·.observe (.object root))) next⟩)
    (hrun : ProceedsWithin (fun w w' => w.graph.KeepsKeys root w'.graph)
      ⟨w.onGraph (·.observe (.object root)), next⟩ c) :
    (c.world.graph.ReactiveFrom root ∨ c.Completes root) ∧
    (c.calls ≠ [] ∨ c.tick = none → c.world.graph.ReactiveFrom root) ∧
    ∀ {subscriber rest}, c.proc = (notifySubscriber subscriber >>= rest) →
      c.world.alive subscriber = true → c.world.graph.ReactiveFrom root := by
  obtain ⟨s, hs⟩ := Discipline.Follows.of_reachable (AttachingDiscipline.stepwise root)
    (AttachingDiscipline.met root) (fun s w => ⟨(s.2, ⟨w, False⟩), rfl, rfl, False.elim⟩)
    ⟨(⟨.start, False⟩, ⟨.start, False⟩), rfl, False.elim⟩ hobserve
  obtain rfl : s.2.world = w := hs.world
  let observed : Rooted × Rooted := (s.2, ⟨s.2.world.onGraph (·.observe (.object root)), True⟩)
  have hobserved : (attachingDiscipline root).Follows observed
      ⟨s.2.world.onGraph (·.observe (.object root)), next⟩ :=
    ⟨rfl, (hs.safe observed ⟨rfl, rfl, fun _ => .inl rfl⟩).2⟩
  obtain ⟨t, ht, hthere⟩ := follows_proceeds hobserved trivial hrun
  have hcompletes : ¬ c.world.graph.ReactiveFrom root → c.Completes root :=
    completes_of_follows ht hthere
  refine ⟨(Classical.em _).imp_right hcompletes, fun hrest => ?_,
    fun {subscriber rest} hproc halive => ?_⟩
  · refine Classical.byContradiction fun hnot => ?_
    cases hcompletes hnot with
    | observes => simp [Config.calls, Config.tick] at hrest
    | reads => simp [Config.calls, Config.tick] at hrest
  · refine Classical.byContradiction fun hnot => ?_
    obtain ⟨w, proc⟩ := c
    obtain rfl : proc = _ := hproc
    exact Config.Completes.not_notifies halive (hcompletes hnot)

/-! ### A cycle -/

/-- Two objects of one property each, and the dependencies there are. -/
def twoObjects (a b : Property) (subscribers : List (List SubscriberId)) : World :=
  { World.start with
    graph := ⟨[⟨[("a", .data a)]⟩, ⟨[("b", .data b)]⟩], subscribers⟩
    names := { Names.empty with objects := ⟨[("o", 0), ("p", 1)]⟩ } }

/-- Neither of them is observed. -/
def unobservedPair : World := twoObjects ⟨.bool true, none⟩ ⟨.bool true, none⟩ []

/-- The first one is. -/
def observedPair : World := twoObjects ⟨.bool true, some 0⟩ ⟨.bool true, none⟩ [[]]

/-- The second one is in the first one. -/
def attachedPair : World := twoObjects ⟨.object 1, some 0⟩ ⟨.bool true, some 1⟩ [[], []]

/-- Each is in the other. -/
def closedPair : World := twoObjects ⟨.object 1, some 0⟩ ⟨.object 0, some 1⟩ [[], []]

theorem observe_unobservedPair :
    unobservedPair.onGraph (·.observe (.object 0)) = observedPair := rfl

theorem reachable_observe_unobservedPair : Config.Reachable
    ⟨unobservedPair, .write (unobservedPair.onGraph (·.observe (.object 0))) (.done .nothing)⟩ := by
  have hrun : ∃ reports, runScript 100 .start [.newObject "o" [("a", .const (.bool true))],
      .newObject "p" [("b", .const (.bool true))]] = .finished reports unobservedPair := ⟨_, rfl⟩
  obtain ⟨reports, hrun⟩ := hrun
  exact ⟨unobservedPair, .observe (.object "o"), World.Rested.start.runScript hrun,
    reaches_advance 2 _⟩

/-- The objects have the one key each. -/
def World.twoKeys (w : World) : Bool :=
  w.graph.objects.map Keyed.keys == [["a"], ["b"]]

theorem keepsKeys_of_twoKeys {w w' : World} (hw : w.twoKeys = true) (hw' : w'.twoKeys = true) :
    w.graph.KeepsKeys 0 w'.graph :=
  Graph.keepsKeys_of_map ((beq_iff_eq.1 hw').trans (beq_iff_eq.1 hw).symm)

/-- An object that nobody has observed is written into an observed one, and
then the observed one into it. -/
theorem observed_tree_stays_reactive_of_cycle : ∃ (w : World) (next : Proc Reply)
    (c : Config Reply), Config.Reachable ⟨w, .write (w.onGraph (·.observe (.object 0))) next⟩ ∧
    ProceedsWithin (fun w w' => w.graph.KeepsKeys 0 w'.graph)
      ⟨w.onGraph (·.observe (.object 0)), next⟩ c ∧
    w.graph.dependency? 1 "b" = none ∧ c.world.graph.content (0, "a") = some (.inl (.object 1)) ∧
    c.world.graph.content (1, "b") = some (.inl (.object 0)) ∧ c.world.graph.Reactive 1 := by
  let attach : Config Reply := ⟨observedPair, (Step.set "o" "a" (.object "p")).run .outside⟩
  let close : Config Reply := ⟨attachedPair, (Step.set "p" "b" (.object "o")).run .outside⟩
  have hattached : attach.advance 100 = ⟨attachedPair, .done .nothing⟩ := rfl
  have hclosed : close.advance 100 = ⟨closedPair, .done .nothing⟩ := rfl
  have hattaches : (attach.worlds 100).all World.twoKeys = true := by decide +kernel +zetaReduce
  have hcloses : (close.worlds 100).all World.twoKeys = true := by decide +kernel +zetaReduce
  have hfirst : ProceedsWithin (fun w w' => w.graph.KeepsKeys 0 w'.graph)
      ⟨observedPair, .done .nothing⟩ attach :=
    .step (.set "o" "a" (.object "p")) (.here _)
  have hattach := hfirst.advance keepsKeys_of_twoKeys 100 hattaches
  rw [hattached] at hattach
  have hsecond : ProceedsWithin (fun w w' => w.graph.KeepsKeys 0 w'.graph)
      ⟨observedPair, .done .nothing⟩ close :=
    .step (.set "p" "b" (.object "o")) hattach
  have hclose := hsecond.advance keepsKeys_of_twoKeys 100 hcloses
  rw [hclosed, ← observe_unobservedPair] at hclose
  have hheld : closedPair.graph.content (0, "a") = some (.inl (.object 1)) := rfl
  have hobserve := reachable_observe_unobservedPair
  have hreactive := (observed_tree_stays_reactive hobserve hclose).2.1 (.inr rfl)
  exact ⟨unobservedPair, _, _, hobserve, hclose, rfl, hheld, rfl,
    hreactive 1 (.step (.base rfl) hheld)⟩

end DataBinding
