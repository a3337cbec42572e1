import DataBinding.Proofs.Freshness.Evaluation

/-!
# What the path of a watcher resolves to

`Resolves` is about the process: resolving the path of a watcher, without
tracking, comes to a value. With accessors that are functions of what
they read this is what the object graph yields (`resolves_iff`), so it
can be compared from one state to another.
-/

namespace DataBinding

/-! ## Equal values -/

theorem Number.same_congr {a b : Number} (h : a.same b = true) (c : Number) :
    a.same c = b.same c := by
  rcases same_iff_eq_or_zeros.1 h with ⟨rfl, -⟩ | ⟨ha, hb⟩
  · rfl
  · have hzero : ∀ {n : Number}, n.isZero = true → (n.same c = true ↔ c.isZero = true) := by
      intro n hn
      rw [same_iff_eq_or_zeros]
      refine ⟨?_, fun hc => .inr ⟨hn, hc⟩⟩
      rintro (⟨rfl, -⟩ | ⟨-, hc⟩)
      · exact hn
      · exact hc
    rw [Bool.eq_iff_iff, hzero ha, hzero hb]

theorem Value.eq_or_numbers {a b : Value} (h : a.same b = true) :
    a = b ∨ ∃ n m, a = .number n ∧ b = .number m ∧ n.same m = true := by
  cases a <;> cases b <;> simp_all [same]

/-- Equal values are equal to the same values. -/
theorem Value.same_congr {a b : Value} (h : a.same b = true) (c : Value) :
    a.same c = b.same c := by
  rcases eq_or_numbers h with rfl | ⟨n, m, rfl, rfl, hnumbers⟩
  · rfl
  · cases c with
    | number k => exact Number.same_congr hnumbers k
    | _ => rfl

/-! ## Resolving -/

namespace World

/-- Every accessor is a function of what it reads. -/
def Pure (w : World) : Prop :=
  ∀ id key accessor, w.graph.slot? id key = some (.computed accessor) → accessor.Pure

theorem Pure.of_allReactive {w : World} (h : w.graph.allReactive = true) : w.Pure := by
  intro id key accessor hslot
  obtain ⟨property, hdata, -⟩ := Graph.data_of_allReactive h hslot
  cases hdata

/-- Resolving the path of a watcher comes to a value. -/
def Resolves (w : World) (x : WatcherId) (v : Value) : Prop :=
  ∃ w' calls, Passes ⟨w, (w.watcher x).path.resolve (w.watcher x).data none⟩ calls
    ⟨w', .done v⟩

/-- Readings among pure accessors. -/
@[reducible] def readings : Contract .plain where
  always _ := True
  pre c w := match c with
    | .accessor _ _ body => w.Pure ∧ body.Pure
    | _ => False
  post c w a w' := match c, a with
    | .accessor data tracker body, v =>
        Answered (M := .plain) Pure (.value data body) tracker w [v] w'
    | _, _ => True

theorem reads_readings : Reads readings Pure where
  track {w t e d} hw ht := by
    obtain rfl : t = w.track e d := ht
    refine ⟨trivial, fun id key accessor hslot => hw id key accessor ?_⟩
    rwa [slot?_eq (objects_track w e d)] at hslot
  pure hw hslot := hw _ _ _ hslot
  pre hw hpure := ⟨hw, hpure⟩
  post ht := ht

theorem met_readings : readings.Met := by
  intro c w hpre
  cases c with
  | accessor data tracker body => exact reads_readings.eval data body hpre.1 hpre.2
  | _ => exact hpre.elim

variable {w : World} {x : WatcherId} {v : Value}

theorem resolves_of_yields {cells : List Cell}
    (h : w.graph.Yields (w.watcher x).query [v] cells) : w.Resolves x v := by
  obtain ⟨u, hu, calls, -, hpasses⟩ := h.comes none fun _ => rfl
  cases hu
  exact ⟨_, calls, hpasses⟩

/-- What a path resolves to is what the object graph yields. -/
theorem resolves_iff (hw : w.Pure) :
    w.Resolves x v ↔ ∃ cells, w.graph.Yields (w.watcher x).query [v] cells := by
  constructor
  · rintro ⟨w', calls, hpasses⟩
    have hsafe : ((w.watcher x).path.resolve (w.watcher x).data none).Safe readings _ w :=
      reads_readings.resolve hw _ _
    obtain ⟨-, cells, hyields, -⟩ := hsafe.run met_readings (Monitor.plain_run hpasses.reaches)
    exact ⟨cells, hyields⟩
  · rintro ⟨cells, hyields⟩
    exact resolves_of_yields hyields

theorem Resolves.unique {u : Value} (hw : w.Pure) (h : w.Resolves x v) (h' : w.Resolves x u) :
    v = u := by
  obtain ⟨cells, hv⟩ := (resolves_iff hw).1 h
  obtain ⟨cells', hu⟩ := (resolves_iff hw).1 h'
  exact List.singleton_inj.1 (hv.unique hu).1

end World

end DataBinding
