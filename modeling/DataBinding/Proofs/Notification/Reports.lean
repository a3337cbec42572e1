import DataBinding.Proofs.Evaluation.Exclusive
import DataBinding.Proofs.Notification.Reporting

/-!
# What a watcher reports

A watcher may be updated again while it reacts, and several times in one
notification; updates may be turned away, and evaluations may fail. All
the same it reports changes only: the value that it was made with and
those that it has reacted to since, in the order in which the reactions
started, are such that no two in a row are the same, and the last of them
is the one that it remembers; and an update answers that there was a
change exactly when the watcher has reacted (`reports_are_changes`).

The value is remembered before the reaction starts, so the statement is
about the values as they are once the next call has started.
-/

namespace DataBinding

open World

variable {b c : Config Reply} {w w' : World} {x y : WatcherId} {v : Value} {calls : List Call}

/-! ## Evaluations -/

/-- Resolves the path of a watcher in the evaluation that is about to
begin. -/
def World.resolving (w : World) (x : WatcherId) : Proc Value :=
  (w.watcher x).path.resolve (w.watcher x).data (some w.nextEvaluation)

theorem passes_begin {begun : World} (hbegin : w.beginWatcher x = .ok begun) :
    Passes ⟨w, evaluateWatcher x⟩ [] ⟨begun, do
      let value ← w.resolving x
      Proc.modify (·.endWatcher x w.nextEvaluation)
      pure (.ok value)⟩ := by
  refine .bind_nil .state ?_
  rw [hbegin]
  exact .bind_nil (.modify _) (.here _)

/-- An evaluation was refused, or it was gone through. -/
theorem Passes.of_evaluateWatcher {result : Except Error Value}
    (h : Passes ⟨w, evaluateWatcher x⟩ calls ⟨w', .done result⟩) :
    (∃ error, result = .error error ∧ calls = []) ∨
      ∃ begun last v, result = .ok v ∧ w.beginWatcher x = .ok begun ∧
        Passes ⟨begun, w.resolving x⟩ calls ⟨last, .done v⟩ ∧
        w' = last.endWatcher x w.nextEvaluation := by
  cases hbegin : w.beginWatcher x with
  | error error =>
      have hrefused : Passes ⟨w, evaluateWatcher x⟩ [] ⟨w, .done (.error error)⟩ := by
        refine .bind_nil .state ?_
        rw [hbegin]
        exact .here _
      obtain ⟨hend, rfl⟩ := h.unique hrefused rfl rfl
      cases hend
      exact .inl ⟨error, rfl, rfl⟩
  | ok begun =>
      obtain ⟨calls, rfl, hrest⟩ := (passes_begin hbegin).rest h rfl
      obtain ⟨v, last, calls, calls', rfl, hresolved, hended⟩ := hrest.of_bind
      obtain ⟨hend, rfl⟩ := hended.unique (.bind_nil (.modify _) (.here _)) rfl rfl
      cases hend
      rw [List.append_nil]
      exact .inr ⟨begun, last, v, rfl, rfl, hresolved, rfl⟩

/-- From its beginning to its end the slot belongs to an evaluation. -/
theorem slot_of_evaluating {begun last : World} {rest : Value → Proc Reply}
    (hbegin : w.beginWatcher x = .ok begun)
    (hc : Config.Reachable ⟨begun, w.resolving x >>= rest⟩) {d : Config Value}
    (hd : Reaches ⟨begun, w.resolving x⟩ d) (hend : Reaches d ⟨last, .done v⟩) :
    d.world.slot = some (.watcher x) := by
  have hbegun := begun_of_beginWatcher hbegin
  have hevaluation := hbegun.evaluation
  have hledger : Ledger begun := hc.world.ledger
  -- the evaluation that was begun has not ended when the value has been found
  have halive : (last.evaluation w.nextEvaluation).alive = true := by
    have hkeeps := Discipline.Keeps.resolve (e := w.nextEvaluation) LedgerDiscipline.sound
      (w.watcher x).path (w.watcher x).data begun hledger hbegun.mayTrack
    obtain ⟨-, hkept⟩ := hkeeps.run LedgerDiscipline.met (Monitor.plain_run (hd.trans hend))
    rw [hkept.alive (congrArg Evaluation.parent hevaluation), hevaluation]
  have hcarries := hc.carries (hd.bind_left rest)
  have hold := hbegun.lt
  have hthere := hc.part hd
  have hmeanwhile := (hthere.carries (hend.bind_left rest)).alive
    (Nat.lt_of_lt_of_le hold hcarries.length) halive
  rw [hthere.world.ledger.slot_of_alive hmeanwhile, hcarries.parent hold, hevaluation]

theorem Config.reacting_bind {α : Type} {c : Config α} (h : .react y v ∈ c.calls)
    (rest : α → Proc Reply) : Config.reacting ⟨c.world, c.proc >>= rest⟩ = some y := by
  obtain ⟨w, p⟩ := c
  cases p with
  | call call next =>
      obtain rfl := List.mem_singleton.1 h
      rfl
  | _ => cases h

/-- The process that goes on from a beginning evaluation. -/
theorem Config.Reachable.resolving {begun : World} {rest : Except Error Value → Proc Reply}
    (hc : Config.Reachable ⟨w, evaluateWatcher x >>= rest⟩)
    (hbegin : w.beginWatcher x = .ok begun) :
    Config.Reachable ⟨begun, w.resolving x >>= fun value =>
      Proc.modify (·.endWatcher x w.nextEvaluation) >>= fun _ => rest (.ok value)⟩ := by
  have hpart := hc.part (passes_begin hbegin).reaches
  simpa only [bind_assoc, pure_bind] using hpart

/-- No watcher reacts while one is being evaluated. -/
theorem reactions_evaluateWatcher {rest : Except Error Value → Proc Reply}
    {result : Except Error Value} (hc : Config.Reachable ⟨w, evaluateWatcher x >>= rest⟩)
    (h : Passes ⟨w, evaluateWatcher x⟩ calls ⟨w', .done result⟩) : reactions calls = [] := by
  rcases h.of_evaluateWatcher with ⟨-, -, rfl⟩ | ⟨begun, last, v, -, hbegin, hresolved, -⟩
  · rfl
  · have hresolving := hc.resolving hbegin
    refine List.filterMap_eq_nil_iff.2 fun call hmem => ?_
    cases call with
    | react y v =>
        obtain ⟨d, hd, hend, hcall⟩ := hresolved.reaches_of_mem hmem
        have hfree := (hresolving.part hd).slot_of_reacting (Config.reacting_bind hcall _)
        exact nomatch hfree.symm.trans (slot_of_evaluating hbegin hresolving hd hend)
    | _ => rfl

/-! ## Along a run -/

variable {s : Told × Told}

/-- What a configuration follows has values up to the next call. -/
theorem genuine_of_follows (hc : c.Reachable) (h : (reportingDiscipline x).Follows s c)
    (hs : s.2.values ≠ []) :
    Genuine (s.2.values ++ reports x c.calls) (c.world.watcher x).value := by
  obtain ⟨hworld, hsafe⟩ := h
  obtain ⟨w, p⟩ := c
  obtain rfl : s.2.world = w := hworld
  have hquiet : ∀ {values : List Value}, values = [] → s.2.Known x →
      Genuine (s.2.values ++ values) (s.2.world.watcher x).value := by
    rintro values rfl hknown
    rw [List.append_nil]
    exact hknown.genuine hs
  cases p with
  | done result => exact hquiet rfl hsafe.toKnown
  | halt fault => exact hquiet rfl hsafe.toKnown
  | read next => exact hquiet rfl hsafe.1
  | write w' next =>
      have hledger : Ledger w' := (hc.of_reaches (.step (.here _) rfl)).world.ledger
      exact hquiet rfl (hsafe _ ⟨rfl, hledger⟩).1
  | call call next =>
      cases call with
      | react y v =>
          have hheard := hsafe.1.1.genuine (by simpa [Told.values_hear_iff] using hs)
          rw [Told.hear, if_neg hs] at hheard
          exact hheard
      | deliver listener event => exact hquiet rfl hsafe.1.1.toKnown
      | _ => exact hquiet rfl hsafe.1.toKnown

/-- The watcher has values when it starts to react. -/
theorem quiet_of_follows (h : (reportingDiscipline x).Follows s c) (hs : s.2.values = []) :
    reports x c.calls = [] := by
  obtain ⟨-, hsafe⟩ := h
  obtain ⟨w, p⟩ := c
  cases p with
  | call call next =>
      cases call with
      | react y v =>
          show reports x [.react y v] = []
          rw [reports_react, if_neg fun hy => hsafe.1.2 hy hs]
      | _ => rfl
  | _ => rfl

/-- A tick goes on with the values. -/
theorem follows_tick (hb : b.Reachable) (h : (reportingDiscipline x).Follows s b)
    (htick : b.tick = some c) : ∃ t, (reportingDiscipline x).Follows t c ∧
      (s.2.values ≠ [] → t.2.values = s.2.values ++ reports x b.calls) ∧
      (t.2.values = [] → s.2.values = []) ∧
      (¬ Told.Begins x b.world c.world → s.2.values = [] → t.2.values = []) := by
  rcases h.tick (ReportingDiscipline.met x) (fun _ _ => Told.world_hear ..) htick with
    ⟨-, hc⟩ | ⟨hcalls, hnext⟩
  · refine ⟨_, hc, fun hs => ?_, fun ht => ?_, fun _ hs => ?_⟩
    · rw [ReportingDiscipline.values_heard, if_neg hs]
    · rw [ReportingDiscipline.values_heard] at ht
      split at ht
      · rename_i hs
        exact hs
      · exact (List.append_eq_nil_iff.1 ht).1
    · rw [ReportingDiscipline.values_heard, if_pos hs]
  · have hledger : Ledger c.world := (hb.of_reaches (.step (.here _) htick)).world.ledger
    refine ⟨_, (hnext _ ⟨rfl, hledger⟩).2, fun hs => ?_, fun ht => ?_, fun hbegins hs => ?_⟩
    · rw [hcalls, reports_nil, List.append_nil, Told.next_of_kept hs]
    · exact Classical.byContradiction fun hs => Told.values_next_ne hs ht
    · rw [← h.world] at hbegins
      rw [Told.next_of_not hbegins, hs]

/-- A trace goes on with the values, or comes to where there are none yet. -/
theorem follows_traces (hb : b.Reachable) (h : (reportingDiscipline x).Follows s b)
    (hrun : Traces b calls c) : ∃ t, (reportingDiscipline x).Follows t c ∧
      (s.2.values ≠ [] → t.2.values = s.2.values ++ reports x calls) ∧
      (t.2.values = [] → s.2.values = [] ∧ reports x calls = []) := by
  induction hrun with
  | here => exact ⟨s, h, fun _ => by simp, fun hs => ⟨hs, rfl⟩⟩
  | tick hrun htick ih =>
      obtain ⟨t, ht, hvalues, hnone⟩ := ih
      have hreachable := hrun.proceeds.reachable hb
      obtain ⟨u, hu, hvalues', hnone', -⟩ := follows_tick hreachable ht htick
      refine ⟨u, hu, fun hs => ?_, fun h => ?_⟩
      · have hkept : t.2.values ≠ [] := by simp [hvalues hs, hs]
        rw [hvalues' hkept, hvalues hs, reports_append, List.append_assoc]
      · have ht' := hnone' h
        rw [reports_append, (hnone ht').2, quiet_of_follows ht ht']
        exact ⟨(hnone ht').1, rfl⟩
  | step a hrun ih =>
      obtain ⟨t, ht, hvalues, hnone⟩ := ih
      have hledger := ((hrun.proceeds.step a).reachable hb).world.ledger
      refine ⟨_, ht.step (ReportingDiscipline.stepwise x).lawful a ⟨rfl, hledger⟩, fun hs => ?_,
        fun h => hnone (Classical.byContradiction fun hs => Told.values_next_ne hs h)⟩
      have hkept : t.2.values ≠ [] := by simp [hvalues hs, hs]
      rw [Told.next_of_kept hkept]
      exact hvalues hs

/-! ## A watcher is made -/

/-- The values do not begin while the watcher is being evaluated. -/
theorem follows_resolving {begun last : World} {rest : Value → Proc Reply}
    (hbegin : w.beginWatcher x = .ok begun)
    (hc : Config.Reachable ⟨begun, w.resolving x >>= rest⟩)
    (h : (reportingDiscipline x).Follows s ⟨begun, w.resolving x >>= rest⟩)
    (hs : s.2.values = []) {d : Config Value} (hd : Reaches ⟨begun, w.resolving x⟩ d)
    (hend : Reaches d ⟨last, .done v⟩) : ∃ t, t.2.values = [] ∧
      (reportingDiscipline x).Follows t ⟨d.world, d.proc >>= rest⟩ := by
  induction hd with
  | here => exact ⟨s, hs, h⟩
  | @step b c hrun htick ih =>
      have hrest : Reaches b ⟨last, .done v⟩ := (Reaches.step (.here _) htick).trans hend
      obtain ⟨t, ht, hfollows⟩ := ih hrest
      have hslot := slot_of_evaluating hbegin hc hrun hrest
      obtain ⟨hbind, -⟩ := Passes.tick_bind rest htick
      obtain ⟨u, hu, -, -, hnone⟩ := follows_tick (hc.part hrun) hfollows hbind
      exact ⟨u, hnone (fun hbegins => hbegins.2.1 hslot) ht, hu⟩

/-- A write with which the values do not begin. -/
theorem follows_modify {α : Type} {f : World → World} {k : Unit → Proc α}
    (h : (reportingDiscipline x).Follows s ⟨w, Proc.modify f >>= k⟩) (hs : s.2.values = [])
    (hledger : Ledger (f w)) (hbegins : ¬ Told.Begins x w (f w)) :
    ∃ t, t.2.values = [] ∧ (reportingDiscipline x).Follows t ⟨f w, k ()⟩ := by
  obtain rfl : s.2.world = w := h.world
  refine ⟨_, ?_, h.modify ⟨rfl, hledger⟩⟩
  rw [Told.next_of_not hbegins, hs]

/-- An evaluation that has come to a value, up to what is done about it. -/
theorem follows_evaluateWatcher {rest : Except Error Value → Proc Reply}
    (hc : Config.Reachable ⟨w, evaluateWatcher x >>= rest⟩)
    (h : (reportingDiscipline x).Follows s ⟨w, evaluateWatcher x >>= rest⟩)
    (hs : s.2.values = [])
    (hevaluated : Passes ⟨w, evaluateWatcher x⟩ calls ⟨w', .done (.ok v)⟩) :
    w'.slot = none ∧ ∃ t, t.2.values = [] ∧
      (reportingDiscipline x).Follows t ⟨w', rest (.ok v)⟩ := by
  rcases hevaluated.of_evaluateWatcher with ⟨error, hrefused, -⟩ |
    ⟨begun, last, v, hv, hbegin, hresolved, rfl⟩
  · cases hrefused
  · cases hv
    refine ⟨rfl, ?_⟩
    have hresolving := hc.resolving hbegin
    have hslot := (begun_of_beginWatcher hbegin).slot
    have hlast := slot_of_evaluating hbegin hresolving hresolved.reaches (.here _)
    have hended := (hc.part hevaluated.reaches).world.ledger
    have hbegun : (reportingDiscipline x).Follows s ⟨w, Proc.modify (fun _ => begun) >>= fun _ =>
        w.resolving x >>= fun value =>
          Proc.modify (·.endWatcher x w.nextEvaluation) >>= fun _ => rest (.ok value)⟩ := by
      have hread := Discipline.Follows.read h
      simp only [Proc.bind, hbegin, ← Proc.bind_eq, bind_assoc, pure_bind] at hread
      exact hread
    obtain ⟨t, ht, hbegun⟩ := follows_modify hbegun hs hresolving.world.ledger
      fun hbegins => Option.some_ne_none _ (hslot.symm.trans hbegins.2.2)
    obtain ⟨u, hu, hend⟩ := follows_resolving hbegin hresolving hbegun ht hresolved.reaches (.here _)
    exact follows_modify hend hu hended fun hbegins => hbegins.2.1 hlast

/-- A watcher that can be evaluated is made. -/
theorem passes_createWatcher {data : ObjectId} {path : Path} {reaction : Reaction}
    (hevaluated : Passes ⟨w.addWatcher data path reaction, evaluateWatcher w.nextWatcher⟩ calls
      ⟨w', .done (.ok v)⟩) :
    Passes ⟨w, createWatcher data path reaction⟩ calls
      ⟨w'.remember w.nextWatcher v, .done (.ok w.nextWatcher)⟩ := by
  have hremembering : Passes ⟨w', rememberValue w.nextWatcher v⟩ []
      ⟨w'.remember w.nextWatcher v, .done ()⟩ := .modify _
  refine .bind_nil (.ask _) (.bind_nil (.modify _) ?_)
  rw [← List.append_nil calls]
  exact hevaluated.bind (hremembering.bind_nil (.here _))

/-- A watcher that was made has been evaluated. -/
theorem Passes.of_createWatcher {data : ObjectId} {path : Path} {reaction : Reaction}
    (h : Passes ⟨w, createWatcher data path reaction⟩ calls ⟨w', .done (.ok x)⟩) :
    x = w.nextWatcher ∧ ∃ u v,
      Passes ⟨w.addWatcher data path reaction, evaluateWatcher x⟩ calls ⟨u, .done (.ok v)⟩ ∧
      w' = u.remember x v := by
  have hbegin : Passes ⟨w, DataBinding.createWatcher data path reaction⟩ [] _ :=
    .bind_nil (.ask _) (.bind_nil (.modify _) (.here _))
  obtain ⟨calls, rfl, hrest⟩ := hbegin.rest h rfl
  obtain ⟨found, u, evaluating, answering, rfl, hfound, hanswer⟩ := hrest.of_bind
  cases found with
  | error error =>
      obtain ⟨hend, -⟩ := hanswer.unique (.bind_nil (.modify _) (.here _)) rfl rfl
      cases hend
  | ok v =>
      obtain ⟨hend, rfl⟩ := hanswer.unique (.read (.write (.here _))) rfl rfl
      cases hend
      refine ⟨rfl, u, v, ?_, rfl⟩
      rw [List.append_nil]
      exact hfound

/-- A watcher that is made had no values, and has that of its first
evaluation then, during which nothing reacts. -/
theorem follows_createWatcher {data : ObjectId} {path : Path} {reaction : Reaction}
    {rest : Except Error WatcherId → Proc Reply}
    (hc : Config.Reachable ⟨w, createWatcher data path reaction >>= rest⟩)
    (h : (reportingDiscipline w.nextWatcher).Follows s
      ⟨w, createWatcher data path reaction >>= rest⟩)
    (hevaluated : Passes ⟨w.addWatcher data path reaction, evaluateWatcher w.nextWatcher⟩ calls
      ⟨w', .done (.ok v)⟩) :
    Config.Reachable ⟨w'.remember w.nextWatcher v, rest (.ok w.nextWatcher)⟩ ∧
      s.2.values = [] ∧ reactions calls = [] ∧ ∃ t, t.2.values = [v] ∧
        (reportingDiscipline w.nextWatcher).Follows t
          ⟨w'.remember w.nextWatcher v, rest (.ok w.nextWatcher)⟩ := by
  have hworld : s.2.world = w := h.world
  have hnew : ¬ w.nextWatcher < w.watchers.length := Nat.lt_irrefl _
  have hs : s.2.values = [] := Classical.byContradiction fun hs =>
    hnew (hworld ▸ h.safe.1.there hs)
  have hread := h.read
  simp only [Proc.bind, ← Proc.bind_eq, bind_assoc] at hread
  have hevaluating := hc.part (.bind_nil (.ask _) (.bind_nil (.modify _) (.here _)) :
    Passes ⟨w, createWatcher data path reaction⟩ [] ⟨w.addWatcher data path reaction, _⟩).reaches
  simp only [bind_assoc] at hevaluating
  obtain ⟨t, ht, hadded⟩ := follows_modify hread hs hevaluating.world.ledger
    fun hbegins => hnew hbegins.1
  obtain ⟨hfree, u, hu, hend⟩ := follows_evaluateWatcher hevaluating hadded ht hevaluated
  have hended := hevaluating.part hevaluated.reaches
  simp only [bind_assoc, pure_bind] at hend hended
  have hlength := hevaluating.watchers (hevaluated.reaches.bind_left _)
  have hthere : w.nextWatcher < w'.watchers.length := by
    have hadded : (w.addWatcher data path reaction).watchers.length = w.nextWatcher + 1 := by
      simp [World.addWatcher, nextWatcher]
    exact Nat.lt_of_lt_of_le (hadded ▸ Nat.lt_succ_self _) hlength
  have hremembered : Config.Reachable
      ⟨w'.remember w.nextWatcher v, rest (.ok w.nextWatcher)⟩ :=
    hended.of_reaches (Passes.reaches (.read (.write (.here _))))
  refine ⟨hremembered, hs, reactions_evaluateWatcher hevaluating hevaluated, _, ?_,
    hend.modify ⟨rfl, hremembered.world.ledger⟩⟩
  obtain rfl : u.2.world = w' := hend.world
  have hbegins : Told.Begins w.nextWatcher u.2.world (u.2.world.remember w.nextWatcher v) :=
    ⟨hthere, (fun hslot => Option.some_ne_none _ (hslot.symm.trans hfree)), hfree⟩
  rw [Told.next, if_pos ⟨hu, hbegins⟩]
  exact congrArg (fun value => [value]) (value_remember v hthere)

/-! ## Updates -/

/-- An update answers that there was a change exactly when the watcher has
reacted. -/
theorem updateWatcher_ok_true_iff {rest : Except Error Bool → Proc Reply}
    {result : Except Error Bool} (hc : Config.Reachable ⟨w, updateWatcher x >>= rest⟩)
    (h : Passes ⟨w, updateWatcher x⟩ calls ⟨w', .done result⟩) :
    result = .ok true ↔ ∃ v, .react x v ∈ calls := by
  have hnone : ∀ {calls : List Call}, reactions calls = [] → ¬ ∃ v, .react x v ∈ calls := by
    rintro calls hquiet ⟨v, hmem⟩
    have hreports : v ∈ reports x calls := mem_reports.2 hmem
    rw [reports, hquiet] at hreports
    cases hreports
  cases hdisposed : (w.watcher x).disposed with
  | true =>
      have hrefused : Passes ⟨w, updateWatcher x⟩ [] ⟨w, .done (.ok false)⟩ := by
        refine .bind_nil (.ask _) ?_
        rw [if_pos hdisposed]
        exact .here _
      obtain ⟨hend, rfl⟩ := h.unique hrefused rfl rfl
      cases hend
      exact iff_of_false (by simp) (hnone rfl)
  | false =>
      obtain ⟨next, hbegin, herror, hok⟩ := passes_evaluating hdisposed
      obtain ⟨calls, rfl, hrest⟩ := hbegin.rest h rfl
      obtain ⟨found, u, evaluating, answering, rfl, hfound, hanswer⟩ := hrest.of_bind
      have hevaluating := hc.part hbegin.reaches
      simp only [bind_assoc] at hevaluating
      have hquiet := reactions_evaluateWatcher hevaluating hfound
      cases found with
      | error error =>
          rw [herror] at hanswer
          obtain ⟨hend, rfl⟩ := hanswer.unique (.here _) rfl rfl
          cases hend
          exact iff_of_false (by simp) (hnone (by simpa using hquiet))
      | ok value =>
          rw [hok] at hanswer
          cases hsame : (u.watcher x).value.same value with
          | true =>
              obtain ⟨hend, rfl⟩ := hanswer.unique (passes_answerUpdate_same hsame) rfl rfl
              cases hend
              exact iff_of_false (by simp) (hnone (by simpa using hquiet))
          | false =>
              obtain ⟨answering, rfl, hreact⟩ :=
                (passes_answerUpdate_changed hsame).rest hanswer rfl
              obtain ⟨_, _, reacting, rest', rfl, hreacting, hdone⟩ := hreact.of_bind
              obtain ⟨hend, rfl⟩ := hdone.unique (.here _) rfl rfl
              cases hend
              refine iff_of_true rfl ⟨value, ?_⟩
              simp [hreacting.mem_perform]

/-! ## Reports are changes -/

/-- A run of a script from its beginning, with its calls, in which the
watcher `x` is made with the value `first`: it is added, evaluated for the
first time, and remembers the value. -/
inductive Lives (x : WatcherId) (first : Value) : List Call → Config Reply → Prop
  | made {s : Step} {data : ObjectId} {path : Path} {reaction : Reaction}
      {rest : Except Error WatcherId → Proc Reply} {w w' : World}
      {before evaluating after : List Call} {c : Config Reply} :
      Traces ⟨.start, s.run .outside⟩ before ⟨w, createWatcher data path reaction >>= rest⟩ →
      w.nextWatcher = x →
      Passes ⟨w.addWatcher data path reaction, evaluateWatcher x⟩ evaluating
        ⟨w', .done (.ok first)⟩ →
      Traces ⟨w'.remember x first, rest (.ok x)⟩ after c →
      Lives x first (before ++ evaluating ++ after) c

namespace Lives

variable {first : Value}

/-- Any watcher that a run makes lives from there on. -/
theorem of_createWatcher {s : Step} {data : ObjectId} {path : Path} {reaction : Reaction}
    {rest : Except Error WatcherId → Proc Reply} {before making after : List Call}
    (hbefore : Traces ⟨.start, s.run .outside⟩ before ⟨w, createWatcher data path reaction >>= rest⟩)
    (hmade : Passes ⟨w, createWatcher data path reaction⟩ making ⟨w', .done (.ok x)⟩)
    (hafter : Traces ⟨w', rest (.ok x)⟩ after c) :
    ∃ first, Lives x first (before ++ making ++ after) c := by
  obtain ⟨rfl, u, first, hevaluated, rfl⟩ := hmade.of_createWatcher
  exact ⟨first, hbefore, rfl, hevaluated, hafter⟩

/-- It is a run, in which the calls are made. -/
theorem traces (h : Lives x first calls c) :
    ∃ s : Step, Traces ⟨.start, s.run .outside⟩ calls c := by
  obtain ⟨hbefore, rfl, hevaluated, hafter⟩ := h
  exact ⟨_, (hbefore.passes ((passes_createWatcher hevaluated).bind_left _)).trans hafter⟩

end Lives

/-- Two values in a row that a watcher has had are never the same, where
reactions may write and update, and updates may fail or be turned away. The
last one is its value, at any time, and an update answers that there was a
change exactly when the watcher has reacted. -/
theorem reports_are_changes {first : Value} (h : Lives x first calls c) :
    Genuine (first :: reports x (calls ++ c.calls)) (c.world.watcher x).value ∧
    ∀ {y : WatcherId} {rest : Except Error Bool → Proc Reply} {result : Except Error Bool}
      {updating : List Call} {w' : World}, c.proc = updateWatcher y >>= rest →
      Passes ⟨c.world, updateWatcher y⟩ updating ⟨w', .done result⟩ →
      (result = .ok true ↔ ∃ v, .react y v ∈ updating) := by
  obtain ⟨hbefore, rfl, hevaluated, hafter⟩ := h
  rename_i s data path reaction rest w w' before evaluating after
  have hstart : Config.Reachable ⟨.start, s.run .outside⟩ := ⟨_, s, .start, .here _⟩
  have hmaking := hbefore.proceeds.reachable hstart
  -- nothing is told of the watcher before it is made
  let untold : Told × Told := (⟨.start, []⟩, ⟨.start, []⟩)
  have hnothing : (reportingDiscipline w.nextWatcher).Follows untold ⟨.start, s.run .outside⟩ :=
    .of_keeps (ReportingDiscipline.stepwise _).sound
      ((ReportingDiscipline.stepwise _).lawful.step .outside s)
      ⟨⟨.start, fun h => absurd rfl h, fun h => absurd rfl h⟩, nofun⟩
  obtain ⟨t, ht, -, hnone⟩ := follows_traces hstart hnothing hbefore
  obtain ⟨hmade, hvalues, hreactions, u, hu, hfollows⟩ :=
    follows_createWatcher hmaking ht hevaluated
  have hquiet : reports w.nextWatcher (before ++ evaluating) = [] := by
    rw [reports_append, (hnone hvalues).2, reports, hreactions]
    rfl
  obtain ⟨v, hv, hgrown, -⟩ := follows_traces hmade hfollows hafter
  have hlives := hafter.proceeds.reachable hmade
  have hsome : u.2.values ≠ [] := by simp [hu]
  have hsaid := hgrown hsome
  refine ⟨?_, fun {y rest result updating w'} hproc hupdate => ?_⟩
  · have hgenuine := genuine_of_follows hlives hv (by simp [hsaid, hu])
    rw [hsaid, hu] at hgenuine
    rw [List.append_assoc, reports_append, hquiet, reports_append]
    exact hgenuine
  · obtain ⟨world, proc⟩ := c
    obtain rfl : proc = _ := hproc
    exact updateWatcher_ok_true_iff hlives hupdate

/-- What a step that makes a watcher does with it. -/
def replyMade (into : String) : Except Error WatcherId → Proc Reply
  | .error e => pure (.failure e)
  | .ok watcher => do
    Proc.modify (·.nameWatcher into watcher)
    replyWatcher watcher

/-- A step that writes the property back. -/
def restoring : Step := .set "o" "a" (.const (.bool true))

/-- The property, observed. -/
def unwatchedFlag : World :=
  { World.start with
    graph := ⟨[⟨[("a", .data ⟨.bool true, some 0⟩)]⟩], [[]]⟩
    names := { Names.empty with objects := ⟨[("o", 0)]⟩ } }

/-- Its watcher is there, without a value. -/
def addedFlag : World :=
  unwatchedFlag.addWatcher 0 (Path.parse "a") (.client "w" [restoring])

/-- The path has been evaluated. -/
def evaluatedFlag : World :=
  (Config.advance 100 ⟨addedFlag, evaluateWatcher 0⟩).world

theorem traces_addedFlag : Traces
    ⟨.start, (Step.newObject "o" [("a", .const (.bool true))]).run .outside⟩ []
    ⟨unwatchedFlag, createWatcher 0 (Path.parse "a") (.client "w" [restoring]) >>=
      replyMade "w"⟩ :=
  (((((Traces.here _).passes (passes_advance 100 _)).next rfl
    (.observe (.object "o"))).passes (passes_advance 100 _)).next rfl
    (.watch "w" "o" "a" [restoring])).passes (passes_advance 1 _)

/-- A reaction that takes the change back that it is told of, by a write
during which the watcher is updated again. -/
theorem reports_are_changes_of_write : ∃ (calls : List Call) (c : Config Reply),
    Lives 0 (.bool true) calls c ∧ reports 0 (calls ++ c.calls) = [.bool false, .bool true] ∧
    Genuine [.bool true, .bool false, .bool true] (c.world.watcher 0).value := by
  have hevaluated : Passes ⟨addedFlag, evaluateWatcher 0⟩ []
      ⟨evaluatedFlag, .done (.ok (.bool true))⟩ := passes_advance 100 _
  let made : Config Reply := ⟨evaluatedFlag.remember 0 (.bool true), replyMade "w" (.ok 0)⟩
  let written : Config Reply := ⟨{ (made.advance 100).world with log := [] },
    (Step.set "o" "a" (.const (.bool false))).run .outside⟩
  have hafter : Traces made (made.callsWithin 100 ++ written.callsWithin 100)
      (written.advance 100) :=
    (((Traces.here made).passes (passes_advance 100 _)).next rfl _).passes (passes_advance 100 _)
  have hlives : Lives 0 _ _ _ := .made traces_addedFlag rfl hevaluated hafter
  rw [List.append_nil, List.nil_append] at hlives
  have hreports : reports 0 (made.callsWithin 100 ++ written.callsWithin 100 ++
      (written.advance 100).calls) = [.bool false, .bool true] := by decide +kernel +zetaReduce
  have hgenuine := (reports_are_changes hlives).1
  rw [hreports] at hgenuine
  exact ⟨_, _, hlives, hreports, hgenuine⟩

end DataBinding
