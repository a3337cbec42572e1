import DataBinding.Machine

/-!
# Outcomes

What a process comes to and which calls it makes on the way, nested ones
included, in the order in which they are made. `Passes` is `Reaches` with
that record; it is composed along `bind`, and the end of a run is
determined by its beginning (`Passes.unique`).
-/

namespace DataBinding

variable {α β : Type}

/-- The call that a configuration makes in its next tick. -/
def Config.calls (c : Config α) : List Call :=
  match c.proc with
  | .call call _ => [call]
  | _ => []

/-- The configurations that a run comes through, with the calls that were
made. -/
inductive Passes : Config α → List Call → Config α → Prop
  | here (c : Config α) : Passes c [] c
  | step {a b c : Config α} {calls : List Call} :
      a.tick = some b → Passes b calls c → Passes a (a.calls ++ calls) c

namespace Passes

theorem reaches {a b : Config α} {calls : List Call} (h : Passes a calls b) : Reaches a b := by
  induction h with
  | here c => exact .here c
  | step htick _ ih => exact (Reaches.step (.here _) htick).trans ih

theorem trans {a b c : Config α} {calls calls' : List Call} (h : Passes a calls b)
    (h' : Passes b calls' c) : Passes a (calls ++ calls') c := by
  induction h with
  | here => exact h'
  | step htick _ ih =>
      rw [List.append_assoc]
      exact .step htick (ih h')

/-- Every call of a run is made somewhere on the way. -/
theorem reaches_of_mem {a b : Config α} {calls : List Call} {c : Call} (h : Passes a calls b)
    (hc : c ∈ calls) : ∃ d, Reaches a d ∧ Reaches d b ∧ c ∈ d.calls := by
  induction h with
  | here => cases hc
  | step htick hrest ih =>
      rcases List.mem_append.1 hc with hfirst | hlater
      · exact ⟨_, .here _, (Passes.step htick hrest).reaches, hfirst⟩
      · obtain ⟨d, hd, hend, hcall⟩ := ih hlater
        exact ⟨d, (Reaches.step (.here _) htick).trans hd, hend, hcall⟩

/-! ### Steps -/

variable {w w' : World} {calls : List Call} {b : Config α}

theorem read {k : World → Proc α} (h : Passes ⟨w, k w⟩ calls b) :
    Passes ⟨w, .read k⟩ calls b :=
  .step rfl h

theorem write {p : Proc α} (h : Passes ⟨w', p⟩ calls b) : Passes ⟨w, .write w' p⟩ calls b :=
  .step rfl h

theorem call {c : Call} {k : c.Answer → Proc α} (h : Passes ⟨w, c.body.bind k⟩ calls b) :
    Passes ⟨w, .call c k⟩ (c :: calls) b :=
  .step rfl h

/-- A tick of the first part of a process is one of the whole. -/
theorem tick_bind {p q : Proc α} (f : α → Proc β)
    (h : (⟨w, p⟩ : Config α).tick = some ⟨w', q⟩) :
    (⟨w, p.bind f⟩ : Config β).tick = some ⟨w', q.bind f⟩ ∧
      (⟨w, p.bind f⟩ : Config β).calls = (⟨w, p⟩ : Config α).calls := by
  cases p with
  | done a => simp [Config.tick] at h
  | halt fault => simp [Config.tick] at h
  | read k =>
      cases h
      exact ⟨rfl, rfl⟩
  | write u k =>
      cases h
      exact ⟨rfl, rfl⟩
  | call c k =>
      cases h
      exact ⟨congrArg (fun r => some (Config.mk w r)) (Proc.bind_assoc _ _ _).symm, rfl⟩

theorem bind_left {c d : Config α} (f : α → Proc β) (h : Passes c calls d) :
    Passes ⟨c.world, c.proc.bind f⟩ calls ⟨d.world, d.proc.bind f⟩ := by
  induction h with
  | here => exact .here _
  | @step a b _ _ htick _ ih =>
      obtain ⟨hbind, hcalls⟩ := tick_bind f (w := a.world) (p := a.proc) (q := b.proc) htick
      refine hcalls ▸ .step hbind ih

/-- A process goes on with the result of its first part. -/
theorem bind {p : Proc α} {f : α → Proc β} {a : α} {c : Config β} {calls' : List Call}
    (h : Passes ⟨w, p⟩ calls ⟨w', .done a⟩) (hf : Passes ⟨w', f a⟩ calls' c) :
    Passes ⟨w, p >>= f⟩ (calls ++ calls') c :=
  (bind_left f h).trans hf

theorem bind_nil {p : Proc α} {f : α → Proc β} {a : α} {c : Config β} {calls' : List Call}
    (h : Passes ⟨w, p⟩ [] ⟨w', .done a⟩) (hf : Passes ⟨w', f a⟩ calls' c) :
    Passes ⟨w, p >>= f⟩ calls' c :=
  bind h hf

theorem modify (f : World → World) : Passes ⟨w, Proc.modify f⟩ [] ⟨f w, .done ()⟩ :=
  .read (.write (.here _))

theorem ask (f : World → α) : Passes ⟨w, Proc.ask f⟩ [] ⟨w, .done (f w)⟩ :=
  .read (.here _)

theorem state : Passes ⟨w, Proc.state⟩ [] ⟨w, .done w⟩ :=
  .read (.here _)

/-- A call that comes to an answer. -/
theorem perform {c : Call} {answer : c.Answer}
    (h : Passes ⟨w, c.body⟩ calls ⟨w', .done answer⟩) :
    Passes ⟨w, Proc.perform c⟩ (c :: calls) ⟨w', .done answer⟩ := by
  refine .call ?_
  rw [Proc.bind_done]
  exact h

/-! ### The end of a run -/

/-- Two runs from one configuration that have both come to an end have
come to the same. -/
theorem unique {a c d : Config α} {calls' : List Call} (h : Passes a calls c)
    (h' : Passes a calls' d) (hc : c.tick = none) (hd : d.tick = none) :
    c = d ∧ calls = calls' := by
  induction h generalizing calls' with
  | here c =>
      cases h' with
      | here => exact ⟨rfl, rfl⟩
      | step htick => rw [hc] at htick; cases htick
  | step htick _ ih =>
      cases h' with
      | here => rw [hd] at htick; cases htick
      | step htick' hrest =>
          rw [htick] at htick'
          cases htick'
          obtain ⟨rfl, rfl⟩ := ih hrest hc
          exact ⟨rfl, rfl⟩

end Passes

theorem Reaches.passes {c d : Config α} (h : Reaches c d) : ∃ calls, Passes c calls d := by
  induction h with
  | here => exact ⟨[], .here _⟩
  | step _ htick ih =>
      obtain ⟨calls, hcalls⟩ := ih
      exact ⟨_, hcalls.trans (.step htick (.here _))⟩

/-- The calls of so many ticks. -/
def Config.callsWithin : Nat → Config α → List Call
  | 0, _ => []
  | fuel + 1, c =>
    match c.tick with
    | none => []
    | some next => c.calls ++ next.callsWithin fuel

theorem passes_advance (fuel : Nat) (c : Config α) :
    Passes c (c.callsWithin fuel) (c.advance fuel) := by
  induction fuel generalizing c with
  | zero => exact .here c
  | succ fuel ih =>
      cases htick : c.tick with
      | none =>
          simp only [Config.callsWithin, Config.advance, htick]
          exact .here c
      | some next =>
          simp only [Config.callsWithin, Config.advance, htick]
          exact .step htick (ih next)

end DataBinding
