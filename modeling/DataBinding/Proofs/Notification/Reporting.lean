import DataBinding.Proofs.Client.Effects
import DataBinding.Proofs.Disposal.Steady
import DataBinding.Proofs.Notification.Calm
import Mathlib.Data.List.Chain

/-!
# Reporting as a discipline

The values that a watcher has had are followed beside the run: they begin
when the watcher has been made, and grow when one of its reactions starts.
The discipline says that no two of them in a row are the same and that the
last of them is what the watcher remembers (`Told.Known`).

That the watcher is being made cannot be seen in a single state. It is
seen in that its evaluation has just ended: during that evaluation the
slot is taken, and nothing that client code does meanwhile frees it
(`Told.Onward`). So once the slot is free the next write makes the
watcher, and from then on there are values whenever the slot is free
(`Told.Settled`). An update needs the slot, and finds the values there.
-/

namespace DataBinding

open World

variable {w w' : World} {x : WatcherId} {v : Value} {values : List Value} {calls : List Call}

/-- The values that a watcher has reacted to, in the order in which the
reactions started. -/
def reports (x : WatcherId) (calls : List Call) : List Value :=
  (reactions calls).filterMap fun report => if report.1 = x then some report.2 else none

@[simp] theorem reports_nil (x : WatcherId) : reports x [] = [] := rfl

@[simp] theorem reports_append (x : WatcherId) (calls calls' : List Call) :
    reports x (calls ++ calls') = reports x calls ++ reports x calls' := by
  simp [reports]

theorem reports_react (x y : WatcherId) (v : Value) :
    reports x [.react y v] = if y = x then [v] else [] := by
  by_cases h : y = x <;> simp [reports, reactions, h]

/-- Nothing else is a report. -/
theorem reports_of_ne {c : Call} (h : ∀ y v, c ≠ .react y v) : reports x [c] = [] := by
  cases c with
  | react y v => exact absurd rfl (h y v)
  | _ => rfl

theorem mem_reports : v ∈ reports x calls ↔ .react x v ∈ calls := by
  simp only [reports, reactions, List.mem_filterMap]
  constructor
  · rintro ⟨⟨y, u⟩, ⟨c, hc, hreport⟩, hsame⟩
    split at hreport
    · cases hreport
      split at hsame
      · rename_i hy
        cases hsame
        exact hy ▸ hc
      · cases hsame
    · cases hreport
  · exact fun hmem => ⟨(x, v), ⟨_, hmem, rfl⟩, by simp⟩

/-! ## Changes -/

/-- No two values in a row are the same, and the last one is the current
one. -/
structure Genuine (values : List Value) (current : Value) : Prop where
  changes : values.IsChain fun u v => u.same v = false
  last : values.getLast? = some current

theorem Genuine.single (v : Value) : Genuine [v] v :=
  ⟨.singleton v, rfl⟩

theorem Genuine.append {current : Value} (h : Genuine values current)
    (hchanged : current.same v = false) : Genuine (values ++ [v]) v where
  changes := by
    refine List.isChain_append.2 ⟨h.changes, .singleton v, fun u hu u' hu' => ?_⟩
    obtain rfl : current = u := Option.some.inj (h.last.symm.trans hu)
    obtain rfl : v = u' := Option.some.inj hu'
    exact hchanged
  last := by simp

/-! ## Following what a watcher reports -/

/-- A state with the values of a watcher. There are none before the watcher
has been made. -/
structure Told where
  world : World
  values : List Value

namespace Told

/-- A report is heard when the call starts. -/
def hear (x : WatcherId) (s : Told) (c : Call) : Told :=
  if s.values = [] then s else { s with values := s.values ++ reports x [c] }

theorem hear_of_quiet {s : Told} {c : Call} (h : reports x [c] = []) : s.hear x c = s := by
  unfold hear
  split
  · rfl
  · rw [h, List.append_nil]

@[simp] theorem world_hear (x : WatcherId) (s : Told) (c : Call) :
    (s.hear x c).world = s.world := by
  unfold hear
  split <;> rfl

theorem values_hear_iff (x : WatcherId) (s : Told) (c : Call) :
    (s.hear x c).values = [] ↔ s.values = [] := by
  unfold hear
  split
  · rfl
  · rename_i h
    simp [h]

/-- The values begin with the first write after which the slot is free and
with which no evaluation of the watcher ends. -/
def Begins (x : WatcherId) (w w' : World) : Prop :=
  x < w.watchers.length ∧ w.slot ≠ some (.watcher x) ∧ w'.slot = none

instance (x : WatcherId) (w w' : World) : Decidable (Begins x w w') :=
  inferInstanceAs (Decidable (_ ∧ _))

/-- What is told after a write. -/
def next (x : WatcherId) (s : Told) (w : World) : Told :=
  if s.values = [] ∧ Begins x s.world w then ⟨w, [(w.watcher x).value]⟩ else ⟨w, s.values⟩

/-- Once there are values, the last one is current. -/
structure Known (x : WatcherId) (s : Told) : Prop where
  ledger : Ledger s.world
  there : s.values ≠ [] → x < s.world.watchers.length
  genuine : s.values ≠ [] → Genuine s.values (s.world.watcher x).value

/-- The watcher has values, or is being made. -/
structure Settled (x : WatcherId) (s : Told) : Prop extends Known x s where
  made : x < s.world.watchers.length → s.world.slot = none → s.values ≠ []

/-- What client code may have done: the values have not begun while the
watcher was being evaluated. -/
structure Onward (x : WatcherId) (s t : Told) : Prop extends Abides s.world t.world where
  watchers : s.world.watchers.length ≤ t.world.watchers.length
  kept : s.values ≠ [] → t.values ≠ []
  begun : s.world.slot = some (.watcher x) → t.values ≠ [] → s.values ≠ []

variable {s t u : Told}

theorem Onward.refl (s : Told) : s.Onward x s :=
  ⟨.refl _, Nat.le_refl _, id, fun _ => id⟩

theorem Onward.trans (h : s.Onward x t) (h' : t.Onward x u) : s.Onward x u where
  toAbides := h.toAbides.trans h'.toAbides
  watchers := Nat.le_trans h.watchers h'.watchers
  kept := h'.kept ∘ h.kept
  begun hslot := h.begun hslot ∘ h'.begun ((h.slot x).1 hslot)

theorem Onward.of_hear {c : Call} (h : (s.hear x c).Onward x t) : s.Onward x t := by
  have hworld := world_hear x s c
  have hvalues := not_congr (values_hear_iff x s c)
  exact ⟨hworld ▸ h.toAbides, hworld ▸ h.watchers, fun hs => h.kept (hvalues.2 hs),
    fun hslot ht => hvalues.1 (h.begun (hworld.symm ▸ hslot) ht)⟩

@[simp] theorem world_next (x : WatcherId) (s : Told) (w : World) : (s.next x w).world = w := by
  unfold next
  split <;> rfl

theorem next_of_not (h : ¬ Begins x s.world w) : s.next x w = ⟨w, s.values⟩ :=
  if_neg fun hbegins => h hbegins.2

theorem next_of_kept (h : s.values ≠ []) : s.next x w = ⟨w, s.values⟩ :=
  if_neg fun hbegins => h hbegins.1

theorem values_next_ne (h : s.values ≠ []) : (s.next x w).values ≠ [] := by
  rwa [next_of_kept h]

/-- A write after which the watcher has the same value. -/
theorem Known.next (hs : s.Known x) (hledger : Ledger w)
    (hwatchers : s.world.watchers.length ≤ w.watchers.length)
    (hvalue : x < s.world.watchers.length → (w.watcher x).value = (s.world.watcher x).value) :
    (s.next x w).Known x := by
  unfold Told.next
  split
  · rename_i hbegins
    exact ⟨hledger, fun _ => Nat.lt_of_lt_of_le hbegins.2.1 hwatchers, fun _ => .single _⟩
  · refine ⟨hledger, fun h => Nat.lt_of_lt_of_le (hs.there h) hwatchers, fun h => ?_⟩
    rw [hvalue (hs.there h)]
    exact hs.genuine h

/-- Unless the watcher is made with it, the write has made no difference to
whether it was. -/
theorem Settled.next (hs : s.Settled x) (hledger : Ledger w)
    (hwatchers : s.world.watchers.length ≤ w.watchers.length)
    (hvalue : x < s.world.watchers.length → (w.watcher x).value = (s.world.watcher x).value)
    (hnew : x < w.watchers.length → x < s.world.watchers.length)
    (hslot : s.world.slot = some (.watcher x) → w.slot ≠ none) : (s.next x w).Settled x := by
  refine ⟨hs.toKnown.next hledger hwatchers hvalue, fun hx hfree => ?_⟩
  rw [world_next] at hx hfree
  unfold Told.next
  split
  · exact List.cons_ne_nil _ _
  · rename_i hno
    intro hnone
    exact hno ⟨hnone, hnew hx, fun h => hslot h hfree, hfree⟩

theorem Onward.next (hw : Abides s.world w)
    (hwatchers : s.world.watchers.length ≤ w.watchers.length) : s.Onward x (s.next x w) where
  toAbides := by rwa [world_next]
  watchers := by rwa [world_next]
  kept := values_next_ne
  begun hslot hvalues hnone := by
    rw [next_of_not fun hbegins => hbegins.2.1 hslot] at hvalues
    exact hvalues hnone

/-- A write that is none of the watcher's business. -/
theorem Settled.steady (hs : s.Settled x) (hledger : Ledger w) (hw : Steady s.world w)
    (hwatchers : w.watchers.length = s.world.watchers.length)
    (hvalue : x < s.world.watchers.length → (w.watcher x).value = (s.world.watcher x).value) :
    (s.next x w).Settled x ∧ s.Onward x (s.next x w) := by
  refine ⟨hs.next hledger hw.watchers hvalue (fun hx => hwatchers ▸ hx) fun hslot hfree => ?_,
    .next hw.toAbides hw.watchers⟩
  rw [(hw.slot x).1 hslot] at hfree
  cases hfree

end Told

/-- What is told of a watcher, with what was told before the last write, and
the ledger at hand. -/
@[reducible] def reporting (x : WatcherId) : Monitor where
  State := Told × Told
  world s := s.2.world
  next s w t := t = (s.2, s.2.next x w) ∧ Ledger w
  world_next h := h.1 ▸ Told.world_next ..

/-- The current value of a watcher is the last one, also when a reaction is
about to start. -/
@[reducible] def reportingDiscipline (x : WatcherId) : Discipline (reporting x) where
  always s := s.1.Known x
  looks s := s.2.Known x
  rest s := s.2.Settled x
  rel s t := s.2.Onward x t.2
  tracks _ _ := True
  reacts y v s := (s.2.hear x (.react y v)).Settled x ∧ (y = x → s.2.values ≠ [])
  accessorPre _ _ _ s := s.2.Settled x
  accessorPost _ _ _ s _ t := t.2.Settled x ∧ s.2.Onward x t.2

namespace ReportingDiscipline

variable {s t : Told × Told} {y : WatcherId}

/-- A write that is none of the watcher's business. -/
theorem steady (hs : s.2.Settled x) (hw : Steady s.2.world w)
    (hwatchers : w.watchers.length = s.2.world.watchers.length)
    (hvalue : x < s.2.world.watchers.length → (w.watcher x).value = (s.2.world.watcher x).value)
    (ht : (reporting x).next s w t) : t.1.Known x ∧ t.2.Settled x ∧ s.2.Onward x t.2 := by
  obtain ⟨rfl, hledger⟩ := ht
  exact ⟨hs.toKnown, hs.steady hledger hw hwatchers hvalue⟩

theorem onGraph (hs : s.2.Settled x) {change : Graph → Graph}
    (ht : (reporting x).next s (s.2.world.onGraph change) t) :
    t.1.Known x ∧ t.2.Settled x ∧ s.2.Onward x t.2 :=
  steady hs (.onGraph _ _) rfl (fun _ => rfl) ht

theorem routine (hs : s.2.Settled x) (hw : s.2.world.Routine (fun _ => True) w)
    (ht : (reporting x).next s w t) : t.1.Known x ∧ t.2.Settled x ∧ s.2.Onward x t.2 :=
  steady hs (hw.steady hs.ledger) hw.remembers.watchers (fun _ => hw.remembers.value x) ht

/-! ### Evaluations -/

/-- What an evaluation of a watcher has left. -/
structure Evaluated (x y : WatcherId) (s : Told) (result : Except Error Value) (t : Told) :
    Prop where
  known : t.Known x
  onward : s.Onward x t
  slot : t.world.slot = s.world.slot
  free : t.world.slot = none ↔ ∃ v, result = .ok v
  settled : y ≠ x → t.Settled x
  unmade : y = x → t.values ≠ [] → s.values ≠ []

/-- The values of a watcher do not begin during its own evaluation. -/
theorem evaluates (hs : s.2.Known x) (hother : y ≠ x → s.2.Settled x) :
    (reportingDiscipline x).Evaluates y s fun result t => Evaluated x y s.2 result t.2 where
  looks := hs
  refused {error} hrefused := by
    have hbusy : s.2.world.slot ≠ none := slot_ne_of_beginWatcher hrefused
    exact ⟨hs, .refl _, rfl, ⟨fun h => absurd h hbusy, nofun⟩, hother, fun _ => id⟩
  begun {begun t} hbegun ht := by
    obtain ⟨rfl, hledger⟩ := ht
    change s.2.world.beginWatcher y = .ok begun at hbegun
    obtain ⟨hfree, hslot, -, -, -, hwatchers, -⟩ := begun_of_beginWatcher hbegun
    have hremembers := (Tracks.beginWatcher hbegun).toRemembers
    have hsame : s.2.next x begun = ⟨begun, s.2.values⟩ := Told.next_of_not fun hbegins =>
      nomatch hslot.symm.trans hbegins.2.2
    have hknown : (s.2.next x begun).Known x :=
      hs.next hledger (Nat.le_of_eq hwatchers.symm) fun _ => hremembers.value x
    rw [hsame] at hknown ⊢
    refine ⟨hs, ⟨hknown, fun _ h => nomatch hslot.symm.trans h⟩,
      fun {u v} hu honward hv => ?_⟩
    obtain ⟨rfl, hledger'⟩ := hv
    refine ⟨hu.toKnown, fun value => ?_⟩
    -- the watcher is still in its evaluation
    have hslot' : u.2.world.slot = some (.watcher y) := (honward.slot y).1 hslot
    have htracks := Tracks.endWatcher u.2.world y s.2.world.nextEvaluation
    have hcount : (u.2.world.endWatcher y s.2.world.nextEvaluation).watchers.length =
        u.2.world.watchers.length := htracks.watchers
    refine ⟨hu.toKnown.next hledger' (Nat.le_of_eq hcount.symm) fun _ => htracks.value x,
      ⟨?_, ?_, fun h => ?_, fun h => ?_⟩, ?_, ?_, fun hy => ?_, fun hy hvalues => ?_⟩
    · rw [Told.world_next]
      exact honward.toAbides.evaluation hbegun _
    · rw [Told.world_next]
      exact Nat.le_trans (Nat.le_of_eq hwatchers.symm)
        (Nat.le_trans honward.watchers (Nat.le_of_eq hcount.symm))
    · exact Told.values_next_ne (honward.kept h)
    · exact nomatch hfree.symm.trans h
    · rw [Told.world_next, hfree]
      rfl
    · rw [Told.world_next]
      exact ⟨fun _ => ⟨value, rfl⟩, fun _ => rfl⟩
    · refine hu.next hledger' (Nat.le_of_eq hcount.symm) (fun _ => htracks.value x)
        (fun hx => hcount ▸ hx) fun h => ?_
      exact absurd (SubscriberId.watcher.inj (Option.some.inj (hslot'.symm.trans h))) hy
    · subst hy
      rw [Told.next_of_not fun hbegins => hbegins.2.1 hslot'] at hvalues
      exact honward.begun hslot hvalues

/-- An evaluation that was refused leaves the watcher to whoever is making
it. -/
theorem Evaluated.refused {s t : Told} {error : Error}
    (h : Evaluated x y s (.error error) t) : t.Settled x :=
  ⟨h.known, fun _ hfree => nomatch h.free.1 hfree⟩

/-! ### What is done about a value -/

/-- A watcher remembers the value that it is made with. -/
theorem construct {s₀ : Told} {v : Value} (hs : Evaluated x y s₀ (.ok v) s.2)
    (hthere : y < s₀.world.watchers.length) (hunmade : y = x → s₀.values = [])
    (ht : (reporting x).next s (s.2.world.remember y v) t) :
    t.1.Known x ∧ t.2.Settled x ∧ s.2.Onward x t.2 := by
  have hsteady : Steady s.2.world (s.2.world.remember y v) := .onField _ y rfl id
  by_cases hy : y = x
  · subst hy
    obtain ⟨rfl, hledger⟩ := ht
    have hnone : s.2.values = [] := Classical.byContradiction fun h => hs.unmade rfl h (hunmade rfl)
    have hlength : y < s.2.world.watchers.length :=
      Nat.lt_of_lt_of_le hthere hs.onward.watchers
    have hfree := hs.free.2 ⟨v, rfl⟩
    have hbegins : Told.Begins y s.2.world (s.2.world.remember y v) :=
      ⟨hlength, (fun h => nomatch hfree.symm.trans h), hfree⟩
    have honward := Told.Onward.next (x := y) hsteady.toAbides hsteady.watchers
    rw [Told.next, if_pos ⟨hnone, hbegins⟩] at honward ⊢
    exact ⟨hs.known, ⟨⟨hledger, fun _ => by simpa using hlength, fun _ => .single _⟩,
      fun _ _ => List.cons_ne_nil _ _⟩, honward⟩
  · exact steady (hs.settled hy) hsteady (length_remember ..)
      (fun _ => by rw [watcher_remember_of_ne v (Ne.symm hy)]) ht

/-- A watcher remembers a new value and is about to react to it. -/
theorem report (hs : s.2.Settled x) (hmade : y = x → s.2.values ≠ []) {v : Value}
    (hchanged : (s.2.world.watcher y).value.same v = false)
    (ht : (reporting x).next s (s.2.world.remember y v) t) :
    t.1.Known x ∧ (reportingDiscipline x).reacts y v t ∧ s.2.Onward x t.2 := by
  have hsteady : Steady s.2.world (s.2.world.remember y v) := .onField _ y rfl id
  by_cases hy : y = x
  · subst hy
    obtain ⟨rfl, hledger⟩ := ht
    have hvalues := hmade rfl
    have hlength := hs.there hvalues
    have honward := Told.Onward.next (x := y) hsteady.toAbides hsteady.watchers
    have hreports : reports y [.react y v] = [v] := by rw [reports_react, if_pos rfl]
    rw [Told.next_of_kept hvalues] at honward ⊢
    refine ⟨hs.toKnown, ⟨?_, fun _ => hvalues⟩, honward⟩
    rw [Told.hear, if_neg hvalues, hreports]
    refine ⟨⟨hledger, fun _ => by simpa using hlength, fun _ => ?_⟩, fun _ _ => by simp⟩
    rw [value_remember v hlength]
    exact (hs.genuine hvalues).append hchanged
  · obtain ⟨hknown, hsettled, honward⟩ := steady hs hsteady (length_remember ..)
      (fun _ => by rw [watcher_remember_of_ne v (Ne.symm hy)]) ht
    have hquiet : reports x [.react y v] = [] := by rw [reports_react, if_neg hy]
    exact ⟨hknown, ⟨by rwa [Told.hear_of_quiet hquiet], fun h => absurd h hy⟩, honward⟩

/-! ### Every run -/

theorem stepwise (x : WatcherId) : (reportingDiscipline x).Stepwise where
  refl _ := .refl _
  trans := .trans
  tracks _ _ := trivial
  accessors := Iff.rfl
  answers := Iff.rfl
  looks hs := hs.toKnown
  listens _ _ := trivial
  routine hs ht hw := routine hs hw ht
  release hr hname hs hrel ht :=
    steady hs (Steady.releaseNamed hr.ledger hs.ledger hname hrel.parent)
      (Tracks.releaseEvaluation _ _).watchers (fun _ => (Tracks.releaseEvaluation _ _).value x) ht
  store hs _ ht := onGraph hs ht
  attach hs _ _ ht :=
    have hstored := onGraph hs ht
    ⟨hstored.1, hstored.2.1.toKnown, fun _ hu =>
      have hobserved := onGraph hstored.2.1 hu
      ⟨hobserved.1, hobserved.2.1, hstored.2.2.trans hobserved.2.2⟩⟩
  constructs {s t data path reaction} hs _ ht := by
    obtain ⟨rfl, hledger⟩ := ht
    let added := s.2.world.addWatcher data path reaction
    have hsteady : Steady s.2.world added := .addWatcher _ data path reaction
    have hcount : added.watchers.length = s.2.world.watchers.length + 1 := by
      simp [added, World.addWatcher]
    have hvalue : x < s.2.world.watchers.length →
        (added.watcher x).value = (s.2.world.watcher x).value := fun hx => by
      have hold : x ≠ s.2.world.nextWatcher := Nat.ne_of_lt hx
      rw [watcher_addWatcher, if_neg hold]
    have honward := Told.Onward.next (x := x) hsteady.toAbides hsteady.watchers
    have hknown := hs.toKnown.next hledger hsteady.watchers hvalue
    have hother : s.2.world.nextWatcher ≠ x → (s.2.next x added).Settled x := fun hy =>
      hs.next hledger hsteady.watchers hvalue (fun hx => by
        have hlt : x < s.2.world.watchers.length + 1 := hcount ▸ hx
        exact Nat.lt_of_le_of_ne (Nat.le_of_lt_succ hlt) (Ne.symm hy))
        fun h hfree => Option.some_ne_none _ (h.symm.trans hfree)
    have hunmade : s.2.world.nextWatcher = x → (s.2.next x added).values = [] := fun hy => by
      have hnew : ¬ x < s.2.world.watchers.length := by
        rw [← hy]
        exact Nat.lt_irrefl _
      rw [Told.next_of_not fun hbegins => hnew hbegins.1]
      exact Classical.byContradiction fun h => hnew (hs.there h)
    refine ⟨hs.toKnown, (evaluates hknown hother).mono fun result u hu => ?_⟩
    have hsince := honward.trans hu.onward
    cases result with
    | error error =>
        refine ⟨hu.known, fun v hv => ?_⟩
        obtain ⟨hlooks, hsettled, hreleased⟩ := routine hu.refused (.release _) hv
        exact ⟨hlooks, hsettled, hsince.trans hreleased⟩
    | ok value =>
        refine ⟨hu.known, fun v hv => ?_⟩
        have hthere : s.2.world.nextWatcher < (s.2.next x added).world.watchers.length := by
          rw [Told.world_next, hcount]
          exact Nat.lt_succ_self _
        obtain ⟨hlooks, hsettled, hremembered⟩ := construct hu hthere hunmade hv
        exact ⟨hlooks, hsettled, hsince.trans hremembered⟩
  updates {s y} hs hy := (evaluates hs.toKnown fun _ => hs).mono fun result t ht => by
    cases result with
    | error error => exact ⟨ht.refused, ht.onward⟩
    | ok value =>
        have hmade : y = x → t.2.values ≠ [] := fun heq => by
          have hfree : s.2.world.slot = none := ht.slot ▸ ht.free.2 ⟨value, rfl⟩
          exact ht.onward.kept (hs.made (heq ▸ lt_of_not_disposed hy) hfree)
        have hsettled : t.2.Settled x := by
          by_cases heq : y = x
          · exact ⟨ht.known, fun _ _ => hmade heq⟩
          · exact ht.settled heq
        refine ⟨⟨hsettled, ht.onward⟩, fun hchanged u hu => ?_⟩
        obtain ⟨hlooks, hreacts, hremembered⟩ := report hsettled hmade hchanged hu
        exact ⟨hlooks, hreacts, ht.onward.trans hremembered⟩

theorem met (x : WatcherId) :
    (reportingDiscipline x).contract.MetBy fun s c => (s.1, s.2.hear x c) := by
  refine (stepwise x).metBy (fun {s _} hc hs => ?_) (fun {s t} c h => ?_) fun hs => hs.1
  · rwa [Told.hear_of_quiet (reports_of_ne hc)]
  · exact h.of_hear

theorem values_heard (s : Told × Told) (calls : List Call) :
    (calls.foldl (fun s c => (s.1, s.2.hear x c)) s).2.values =
      if s.2.values = [] then [] else s.2.values ++ reports x calls := by
  induction calls generalizing s with
  | nil =>
      split
      · assumption
      · rw [reports_nil, List.append_nil]
        rfl
  | cons c calls ih =>
      rw [List.foldl_cons, ih]
      simp only [Told.values_hear_iff]
      split
      · rfl
      · rename_i hs
        rw [Told.hear, if_neg hs, List.append_assoc, ← reports_append]
        rfl

end ReportingDiscipline

end DataBinding
