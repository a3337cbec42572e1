import DataBinding.Proofs.Run.Contract
import DataBinding.Proofs.Run.Returning

/-!
# Reachable states

The states that scripts come to. A state is *rested* when it is the start
or what a step of a script has left, its log cleared; it is *reachable*
when a step that runs from a rested state comes through it, however deep
in calls that is. Every state that `runScript` goes on from is rested.

`Proceeds` relates what client code comes to over several steps, and
`Traces` does so with the calls that are made.
-/

namespace DataBinding

/-- A state between two steps of a script. -/
inductive World.Rested : World → Prop
  | start : Rested .start
  | step {w after : World} {reply : Reply} (s : Step) :
      Rested w → Reaches ⟨w, s.run .outside⟩ ⟨after, .done reply⟩ → Rested { after with log := [] }

/-- A state that a step of a script comes through. -/
def World.Reachable (w : World) : Prop :=
  ∃ (before : World) (s : Step) (p : Proc Reply),
    before.Rested ∧ Reaches ⟨before, s.run .outside⟩ ⟨w, p⟩

theorem World.Rested.reachable {w : World} (h : w.Rested) : w.Reachable :=
  ⟨w, .note "", _, h, .here _⟩

/-- A run that has finished has come to its result. -/
theorem Config.reaches_of_run {α : Type} {fuel : Nat} {c : Config α} {result : α} {w : World}
    (h : c.run fuel = .finished result w) : Reaches c ⟨w, .done result⟩ := by
  have hreaches := reaches_advance fuel c
  unfold Config.run at h
  generalize c.advance fuel = last at h hreaches
  obtain ⟨world, proc⟩ := last
  cases proc with
  | done a =>
      simp only [Ending.finished.injEq] at h
      obtain ⟨rfl, rfl⟩ := h
      exact hreaches
  | halt fault => simp at h
  | read next => simp at h
  | write w next => simp at h
  | call c next => simp at h

theorem World.Rested.runScript {fuel : Nat} {steps : List Step} :
    ∀ {w last : World} {reports : List StepReport}, w.Rested →
      runScript fuel w steps = .finished reports last → last.Rested := by
  induction steps with
  | nil =>
      intro w last reports hw h
      simp only [DataBinding.runScript, Ending.finished.injEq] at h
      exact h.2 ▸ hw
  | cons s steps ih =>
      intro w last reports hw h
      simp only [DataBinding.runScript] at h
      split at h
      · cases h
      · cases h
      · rename_i reply after hrun
        split at h
        · rename_i later final hlater
          cases h
          exact ih (.step s hw (Config.reaches_of_run hrun)) hlater
        · cases h
        · cases h

/-! ## Runs over several steps -/

/-- The configurations that client code comes to, tick by tick, and from
the end of one step to the beginning of the next. -/
inductive Proceeds : Config Reply → Config Reply → Prop
  | here (c : Config Reply) : Proceeds c c
  | tick {a b c : Config Reply} : Proceeds a b → b.tick = some c → Proceeds a c
  | step {a : Config Reply} {w : World} {reply : Reply} (s : Step) :
      Proceeds a ⟨w, .done reply⟩ → Proceeds a ⟨{ w with log := [] }, s.run .outside⟩

theorem Proceeds.reaches {a b c : Config Reply} (h : Proceeds a b) (hbc : Reaches b c) :
    Proceeds a c := by
  induction hbc with
  | here => exact h
  | step _ htick ih => exact .tick ih htick

/-- The same, where every tick is one that is allowed. -/
inductive ProceedsWithin (allowed : World → World → Prop) : Config Reply → Config Reply → Prop
  | here (c : Config Reply) : ProceedsWithin allowed c c
  | tick {a b c : Config Reply} : ProceedsWithin allowed a b → b.tick = some c →
      allowed b.world c.world → ProceedsWithin allowed a c
  | step {a : Config Reply} {w : World} {reply : Reply} (s : Step) :
      ProceedsWithin allowed a ⟨w, .done reply⟩ →
      ProceedsWithin allowed a ⟨{ w with log := [] }, s.run .outside⟩

theorem ProceedsWithin.proceeds {allowed : World → World → Prop} {a b : Config Reply}
    (h : ProceedsWithin allowed a b) : Proceeds a b := by
  induction h with
  | here => exact .here _
  | tick _ htick _ ih => exact .tick ih htick
  | step s _ ih => exact .step s ih

/-- A run all of whose states pass a check, if ticks between such states are
allowed. -/
theorem ProceedsWithin.advance {allowed : World → World → Prop} {good : World → Bool}
    (hgood : ∀ {w w'}, good w = true → good w' = true → allowed w w') {a b : Config Reply}
    (h : ProceedsWithin allowed a b) (fuel : Nat) (hworlds : (b.worlds fuel).all good = true) :
    ProceedsWithin allowed a (b.advance fuel) := by
  induction fuel generalizing b with
  | zero => exact h
  | succ fuel ih =>
      cases htick : b.tick with
      | none =>
          simp only [Config.advance, htick]
          exact h
      | some c =>
          simp only [Config.worlds, htick, List.all_cons, Bool.and_eq_true] at hworlds
          simp only [Config.advance, htick]
          have hallowed := hgood hworlds.1 (Monitor.good_of_worlds hworlds.2)
          exact ih (.tick h htick hallowed) hworlds.2

/-- The same, with the calls that were made. -/
inductive Traces : Config Reply → List Call → Config Reply → Prop
  | here (c : Config Reply) : Traces c [] c
  | tick {a b c : Config Reply} {calls : List Call} :
      Traces a calls b → b.tick = some c → Traces a (calls ++ b.calls) c
  | step {a : Config Reply} {calls : List Call} {w : World} {reply : Reply} (s : Step) :
      Traces a calls ⟨w, .done reply⟩ → Traces a calls ⟨{ w with log := [] }, s.run .outside⟩

theorem Traces.proceeds {a b : Config Reply} {calls : List Call} (h : Traces a calls b) :
    Proceeds a b := by
  induction h with
  | here => exact .here _
  | tick _ htick ih => exact .tick ih htick
  | step s _ ih => exact .step s ih

theorem Traces.passes {a b c : Config Reply} {calls calls' : List Call} (h : Traces a calls b)
    (hbc : Passes b calls' c) : Traces a (calls ++ calls') c := by
  induction hbc generalizing calls with
  | here =>
      rw [List.append_nil]
      exact h
  | step htick _ ih =>
      rw [← List.append_assoc]
      exact ih (.tick h htick)

theorem Traces.trans {a b c : Config Reply} {calls calls' : List Call} (h : Traces a calls b)
    (h' : Traces b calls' c) : Traces a (calls ++ calls') c := by
  induction h' with
  | here =>
      rw [List.append_nil]
      exact h
  | tick _ htick ih =>
      rw [← List.append_assoc]
      exact .tick ih htick
  | step s _ ih => exact .step s ih

/-- The watcher whose reaction starts here. -/
def Config.reacting (c : Config Reply) : Option WatcherId :=
  match c.proc with
  | .call (.react x _) _ => some x
  | _ => none

theorem Config.tick_eq_advance {c : Config Reply} (h : c.tick.isSome) :
    c.tick = some (c.advance 1) := by
  obtain ⟨next, hnext⟩ := Option.isSome_iff_exists.1 h
  rw [advance, hnext]
  rfl

/-- A configuration that a step of a script comes through. -/
def Config.Reachable (c : Config Reply) : Prop :=
  ∃ (before : World) (s : Step), before.Rested ∧ Reaches ⟨before, s.run .outside⟩ c

variable {a b c : Config Reply}

theorem Config.Reachable.world (h : c.Reachable) : c.world.Reachable :=
  let ⟨before, s, hbefore, hrun⟩ := h
  ⟨before, s, c.proc, hbefore, hrun⟩

/-- What a run comes to from a reachable configuration is reachable. -/
theorem Proceeds.reachable (h : Proceeds b c) (hb : b.Reachable) : c.Reachable := by
  induction h with
  | here => exact hb
  | tick _ htick ih =>
      obtain ⟨before, s, hbefore, hrun⟩ := ih
      exact ⟨before, s, hbefore, .step hrun htick⟩
  | step s _ ih =>
      obtain ⟨before, s', hbefore, hrun⟩ := ih
      exact ⟨_, s, .step s' hbefore hrun, .here _⟩

theorem Config.Reachable.of_reaches (hb : b.Reachable) (h : Reaches b c) : c.Reachable :=
  ((Proceeds.here b).reaches h).reachable hb

/-- What the first part of a reachable process comes to. -/
theorem Config.Reachable.part {α : Type} {w : World} {p : Proc α} {rest : α → Proc Reply}
    (hb : Config.Reachable ⟨w, p >>= rest⟩) {d : Config α} (h : Reaches ⟨w, p⟩ d) :
    Config.Reachable ⟨d.world, d.proc >>= rest⟩ :=
  hb.of_reaches (h.bind_left rest)

/-- A step that has ended is followed by another one. -/
theorem Proceeds.next (h : Proceeds a b) (hend : b.returned?.isSome) (s : Step) :
    Proceeds a ⟨{ b.world with log := [] }, s.run .outside⟩ := by
  obtain ⟨w, p⟩ := b
  cases p with
  | done reply => exact .step s h
  | _ => cases hend

theorem ProceedsWithin.next {allowed : World → World → Prop} (h : ProceedsWithin allowed a b)
    (hend : b.returned?.isSome) (s : Step) :
    ProceedsWithin allowed a ⟨{ b.world with log := [] }, s.run .outside⟩ := by
  obtain ⟨w, p⟩ := b
  cases p with
  | done reply => exact .step s h
  | _ => cases hend

theorem Traces.next {calls : List Call} (h : Traces a calls b) (hend : b.returned?.isSome)
    (s : Step) : Traces a calls ⟨{ b.world with log := [] }, s.run .outside⟩ := by
  obtain ⟨w, p⟩ := b
  cases p with
  | done reply => exact .step s h
  | _ => cases hend

end DataBinding
