import DataBinding.Proofs.Disposal.Steady

/-!
# Disposal as a discipline

A write *retires* a watcher when it disposes of it outside its own
evaluation, and it *ends* a watcher when it retires it or takes it, gone
as it is, out of a view. That a watcher was ended is history, so a monitor
keeps it beside the state (`retiring`). The discipline says that the retired stay
gone and that nobody who is retired reacts: only an evaluation could
bring a watcher back, an update of one that is disposed of does not begin
any, and who is being evaluated is not retired meanwhile. So the update
that goes on after an evaluation reacts for a watcher that is not retired
(`update`).
-/

namespace DataBinding

open World

/-- A write disposes of a watcher outside its own evaluation: of one that
was not disposed of, or of one that still had dependencies and loses them. -/
structure World.Retires (w w' : World) (x : WatcherId) : Prop where
  outside : w.slot ≠ some (.watcher x)
  disposed : (w'.watcher x).disposed = true
  effective : (w.watcher x).disposed = false ∨
    (w.watcher x).dependencies ≠ [] ∧ (w'.watcher x).dependencies = []

theorem World.Retires.not_gone {w w' : World} {x : WatcherId} (h : w.Retires w' x) :
    ¬ w.Gone x := fun hgone =>
  h.effective.elim (fun hopen => Bool.noConfusion (hopen.symm.trans hgone.1))
    fun hlost => hlost.1 hgone.2

/-- Disposing of a watcher outside its own evaluation retires it, unless it
is gone already. -/
theorem World.retires_dispose {w : World} {x : WatcherId} (hslot : w.slot ≠ some (.watcher x))
    (hx : ¬ w.Gone x) : w.Retires (w.dispose x) x where
  outside := hslot
  disposed := (gone_dispose w x).1
  effective := by
    cases hdisposed : (w.watcher x).disposed with
    | false => exact .inl rfl
    | true => exact .inr ⟨fun hnone => hx ⟨hdisposed, hnone⟩, (gone_dispose w x).2⟩

theorem World.not_retires_self (w : World) (x : WatcherId) : ¬ w.Retires w x := fun h =>
  h.effective.elim (fun hopen => Bool.noConfusion (hopen.symm.trans h.disposed))
    fun hlost => hlost.1 hlost.2

theorem World.Retires.gone {w w' : World} {x : WatcherId} (h : w.Retires w' x)
    (hw : Steady w w') : w'.Gone x :=
  h.effective.elim (fun hopen => hw.disposed hopen h.disposed) fun hlost => ⟨h.disposed, hlost.2⟩

/-- A write takes a watcher out of a view, outside its own evaluation, and
it is gone then. -/
structure World.Unbinds (w w' : World) (x : WatcherId) : Prop where
  there : x < w.watchers.length
  outside : w.slot ≠ some (.watcher x)
  bound : ∃ view, x ∈ (w.view view).watchers ∧ x ∉ (w'.view view).watchers
  gone : w'.Gone x

theorem World.not_unbinds {w w' : World} (hviews : w'.views = w.views) (x : WatcherId) :
    ¬ w.Unbinds w' x := by
  rintro ⟨-, -, ⟨view, hbound, hfree⟩, -⟩
  rw [World.view, hviews] at hfree
  exact hfree hbound

/-- A write is the end of a watcher. -/
def World.Ends (w w' : World) (x : WatcherId) : Prop :=
  w.Retires w' x ∨ w.Unbinds w' x

namespace World.Ends

variable {w w' : World} {x : WatcherId}

theorem there (h : w.Ends w' x) : x < w.watchers.length :=
  h.elim (fun hretires => lt_of_not_gone hretires.not_gone) (·.there)

theorem outside (h : w.Ends w' x) : w.slot ≠ some (.watcher x) :=
  h.elim (·.outside) (·.outside)

theorem gone (h : w.Ends w' x) (hw : Steady w w') : w'.Gone x :=
  h.elim (·.gone hw) (·.gone)

/-- Where no view changes, watchers end by being disposed of. -/
theorem retires (h : w.Ends w' x) (hviews : w'.views = w.views) : w.Retires w' x :=
  h.resolve_right (not_unbinds hviews x)

theorem not_self (w : World) (x : WatcherId) : ¬ w.Ends w x := fun h =>
  not_retires_self w x (h.retires rfl)

end World.Ends

/-- A state, and the watchers that were retired. -/
structure Retiring where
  world : World
  retired : WatcherId → Prop

/-- Whom a write ends is retired from then on. -/
@[reducible] def retiring : Monitor where
  State := Retiring
  world := Retiring.world
  next s w t := t.world = w ∧ ∀ x, t.retired x ↔ s.retired x ∨ s.world.Ends w x
  world_next h := h.1

/-- The same, with the ledger at hand. -/
@[reducible] def retiringWithLedger : Monitor :=
  retiring.restrict fun _ t => Ledger t.world

/-- Who is retired is there, is gone, and is not being evaluated. -/
structure Retiring.Settled (s : Retiring) : Prop where
  ledger : Ledger s.world
  there : ∀ {x}, s.retired x → x < s.world.watchers.length
  gone : ∀ {x}, s.retired x → s.world.Gone x
  free : ∀ {x}, s.retired x → s.world.slot ≠ some (.watcher x)

/-- Nobody's evaluation has begun or ended, and who is being evaluated was
not retired. -/
structure Retiring.Onward (s t : Retiring) : Prop extends Abides s.world t.world where
  retired : ∀ {x}, s.world.slot = some (.watcher x) → t.retired x → s.retired x

/-- Who is retired stays gone and does not react. -/
@[reducible] def disposalDiscipline : Discipline retiringWithLedger where
  always := Retiring.Settled
  rest := Retiring.Settled
  rel := Retiring.Onward
  tracks _ _ := True
  reacts x _ s := s.Settled ∧ ¬ s.retired x
  accessorPre _ _ _ s := s.Settled
  accessorPost _ _ _ s _ t := t.Settled ∧ s.Onward t

namespace DisposalDiscipline

variable {α β : Type} {e : Option EvaluationId} {s t u : Retiring} {x : WatcherId} {w : World}

theorem onward_refl (s : Retiring) : s.Onward s :=
  ⟨.refl _, fun _ h => h⟩

theorem onward_trans (h : s.Onward t) (h' : t.Onward u) : s.Onward u where
  toAbides := h.toAbides.trans h'.toAbides
  retired hx hu := h.retired hx (h'.retired ((h.slot _).1 hx) hu)

/-- A steady write keeps the retired gone. -/
theorem next (hs : s.Settled) (hw : Steady s.world w) (ht : retiringWithLedger.next s w t) :
    t.Settled ∧ s.Onward t := by
  obtain ⟨⟨rfl, hretired⟩, hledger⟩ := ht
  refine ⟨⟨hledger, fun {x} hx => ?_, fun {x} hx => ?_, fun {x} hx => ?_⟩,
    ⟨hw.toAbides, fun {x} hslot hx => ?_⟩⟩
  all_goals rcases (hretired x).1 hx with hold | hnew
  · exact Nat.lt_of_lt_of_le (hs.there hold) hw.watchers
  · exact Nat.lt_of_lt_of_le hnew.there hw.watchers
  · exact hw.gone (hs.there hold) (hs.gone hold)
  · exact hnew.gone hw
  · exact fun h => hs.free hold ((hw.slot x).2 h)
  · exact fun h => hnew.outside ((hw.slot x).2 h)
  · exact hold
  · exact absurd hslot hnew.outside

/-! ## Updates -/

/-- A write about one watcher, which is not retired by it and was not
before, and which alone may be evaluated afterwards. -/
theorem next_of_one (hs : s.Settled) (ht : retiringWithLedger.next s w t)
    (hx : ¬ s.retired x) (hnot : ¬ s.world.Retires w x)
    (hviews : w.views = s.world.views)
    (hwatchers : w.watchers.length = s.world.watchers.length)
    (hothers : ∀ y, y ≠ x → w.watcher y = s.world.watcher y)
    (hslot : ∀ y, w.slot = some (.watcher y) → y = x) :
    t.Settled ∧ ∀ y, t.retired y ↔ s.retired y := by
  obtain ⟨⟨rfl, hretired⟩, hledger⟩ := ht
  have hsame : ∀ y, t.retired y ↔ s.retired y := by
    refine fun y => (hretired y).trans (or_iff_left fun hends => ?_)
    have hnew := hends.retires hviews
    by_cases hy : y = x
    · exact hnot (hy ▸ hnew)
    · rcases hnew.effective with hopen | ⟨hsome, hnone⟩
      · rw [← hothers y hy, hnew.disposed] at hopen
        cases hopen
      · exact hsome (hothers y hy ▸ hnone)
  have hother : ∀ {y}, t.retired y → y ≠ x := fun {y} hy heq => hx ((hsame x).1 (heq ▸ hy))
  refine ⟨⟨hledger, fun {y} hy => ?_, fun {y} hy => ?_, fun {y} hy h => ?_⟩, hsame⟩
  · exact hwatchers ▸ hs.there ((hsame y).1 hy)
  · exact (hs.gone ((hsame y).1 hy)).of_watcher (hothers y (hother hy))
  · exact hother hy (hslot y h)

theorem not_retired (hs : s.Settled) (hx : (s.world.watcher x).disposed = false) :
    ¬ s.retired x := fun h => by
  have hdisposed := (hs.gone h).1
  rw [hx] at hdisposed
  cases hdisposed

/-- An evaluation of a watcher that is not disposed of: it is not retired
meanwhile. -/
theorem evaluates (hs : s.Settled) (hx : (s.world.watcher x).disposed = false) :
    disposalDiscipline.Evaluates x s
      (fun _ t => t.Settled ∧ s.Onward t ∧ ¬ t.retired x) where
  looks := trivial
  refused _ := ⟨hs, onward_refl _, not_retired hs hx⟩
  begun {begun u} hbegun hu := by
    change s.world.beginWatcher x = .ok begun at hbegun
    have hstart := begun_of_beginWatcher hbegun
    have hdisposed : (begun.watcher x).disposed = (s.world.watcher x).disposed := by
      rw [hstart.watcher]
    have hnot : ¬ s.world.Retires begun x := fun h => by
      have hflag := h.disposed
      rw [hdisposed, hx] at hflag
      cases hflag
    obtain ⟨hsettled, hsame⟩ := next_of_one hs hu (not_retired hs hx) hnot
      hstart.views hstart.watchers (fun y hy => hstart.others hy) fun y hy =>
        SubscriberId.watcher.inj (Option.some.inj (hy.symm.trans hstart.slot))
    obtain rfl : u.world = begun := hu.1.1
    refine ⟨hsettled, hsettled, fun {last final} hlast honward hfinal => ?_⟩
    -- the watcher is still in its evaluation
    have hlastSlot := (honward.slot x).1 hstart.slot
    have hlastUnretired : ¬ last.retired x := fun h =>
      not_retired hs hx ((hsame x).1 (honward.retired hstart.slot h))
    have hover := ended_endWatcher last.world x s.world.nextEvaluation
    have hend := next_of_one hlast hfinal hlastUnretired (fun h => h.outside hlastSlot)
      hover.views hover.watchers (fun y hy => hover.others hy) fun y hy => by
        rw [hover.slot] at hy
        cases hy
    have hworld : final.world = last.world.endWatcher x s.world.nextEvaluation := hfinal.1.1
    refine ⟨hend.1, fun _ => ⟨hend.1, ⟨?_, fun {y} hy => ?_⟩,
      fun h => hlastUnretired ((hend.2 x).1 h)⟩⟩
    · rw [hworld]
      exact honward.toAbides.evaluation hbegun _
    · rw [hstart.free] at hy
      cases hy

/-- What a watcher remembers is no matter of its disposal. -/
theorem remember (hs : s.Settled) (hx : ¬ s.retired x) {v : Value}
    (ht : retiringWithLedger.next s (s.world.remember x v) t) :
    t.Settled ∧ s.Onward t ∧ ¬ t.retired x := by
  have hsteady : Steady s.world (s.world.remember x v) := .onField _ x rfl id
  obtain ⟨hsettled, honward⟩ := next hs hsteady ht
  refine ⟨hsettled, honward, fun h => ?_⟩
  obtain ⟨-, hdisposed, heffective⟩ := (((ht.1.2 x).1 h).resolve_left hx).retires rfl
  rw [World.remember, field_onWatcher _ x x Watcher.disposed rfl] at hdisposed
  rw [World.remember, field_onWatcher _ x x Watcher.dependencies rfl] at heffective
  rcases heffective with hopen | ⟨hsome, hnone⟩
  · exact Bool.noConfusion (hopen.symm.trans hdisposed)
  · exact hsome hnone

/-! ## Every run -/

theorem stepwise : disposalDiscipline.Stepwise where
  refl _ := onward_refl _
  trans := onward_trans
  tracks _ _ := trivial
  accessors := Iff.rfl
  answers := Iff.rfl
  looks _ := trivial
  listens _ _ := trivial
  routine hs ht hw := ⟨(next hs (hw.steady hs.ledger) ht).1, next hs (hw.steady hs.ledger) ht⟩
  release hr hname hs hrel ht :=
    have hsteady := Steady.releaseNamed hr.ledger hs.ledger hname hrel.parent
    ⟨(next hs hsteady ht).1, next hs hsteady ht⟩
  store hs _ ht := ⟨(next hs (.onGraph _ _) ht).1, next hs (.onGraph _ _) ht⟩
  attach hs _ _ ht :=
    have hstored := next hs (.onGraph _ _) ht
    ⟨hstored.1, trivial, fun _ hu =>
      have hobserved := next hstored.1 (.onGraph _ _) hu
      ⟨hobserved.1, hobserved.1, onward_trans hstored.2 hobserved.2⟩⟩
  constructs {s t data path reaction} hs _ ht := by
    obtain ⟨hsettled, honward⟩ := next hs (.addWatcher _ data path reaction) ht
    have hnew : (t.world.watcher s.world.nextWatcher).disposed = false := by
      rw [ht.1.1, watcher_addWatcher, if_pos rfl]
    refine ⟨hsettled, (evaluates hsettled hnew).mono fun result u hu => ?_⟩
    have hsince := onward_trans honward hu.2.1
    cases result with
    | error error =>
        refine ⟨trivial, fun v hv => ?_⟩
        obtain ⟨hlast, hreleased⟩ := next hu.1 (.release _ _) hv
        exact ⟨hlast, hlast, onward_trans hsince hreleased⟩
    | ok value =>
        refine ⟨trivial, fun v hv => ?_⟩
        obtain ⟨hlast, hremembered, -⟩ := remember hu.1 hu.2.2 hv
        exact ⟨hlast, hlast, onward_trans hsince hremembered⟩
  updates hs hx := (evaluates hs hx).mono fun result t ht => by
    cases result with
    | error error => exact ⟨ht.1, ht.2.1⟩
    | ok value =>
        refine ⟨⟨ht.1, ht.2.1⟩, fun _ u hu => ?_⟩
        obtain ⟨hlast, hremembered, hunretired⟩ := remember ht.1 ht.2.2 hu
        exact ⟨hlast, ⟨hlast, hunretired⟩, onward_trans ht.2.1 hremembered⟩

theorem lawful : disposalDiscipline.Lawful :=
  stepwise.lawful

theorem met : disposalDiscipline.contract.Met :=
  stepwise.met fun h => h.1

end DisposalDiscipline

end DataBinding
