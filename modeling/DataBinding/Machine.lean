import DataBinding.Script.Run.Steps

/-!
# The machine

What a call stands for, and the steps of a process: `tick` reads, writes, or puts the body of a
call in its place, and `Reaches` relates the configurations that follow from one another. A script
is run step by step; every step shows its reply and what was logged meanwhile.
-/

namespace DataBinding

/-! ## Calls -/

/-- The log entry of a call of client code for an event. -/
def World.noteEvent (w : World) (event : Event)
    (entry : (kind : String) → (target : Option String) → (value : String) → LogEntry) : World :=
  let target := w.document.node event.target
  w.note (entry event.kind target.tag? target.value)

/-- What a call stands for. Client code is logged before it runs. -/
def Call.body : (c : Call) → Proc c.Answer
  | .accessor data tracker body => body.eval (.accessor data tracker)
  | .react watcher value => do
    let reaction ← Proc.ask fun w => (w.watcher watcher).reaction
    reaction.run value
  | .deliver listener event => listener.handler.run event
  | .callback name value body => do
    Proc.modify fun w => w.note (.callback name (w.showValue value) w.isEvaluating)
    Step.runAll (.callback value) body
  | .invalidated name body => do
    Proc.modify (·.note (.invalidated name))
    Step.runAll .outside body
  | .method context called event => do
    Proc.modify (·.noteEvent event (.method called.label))
    Step.runAll (.method context event) called.body
  | .handler name event body => do
    Proc.modify (·.noteEvent event (.handler name))
    Step.runAll (.handler event) body
  | .descend node context convention view => compileChildren node context convention view

/-! ## Steps of a process -/

/-- A state with the process that goes on from it. -/
structure Config (α : Type) where
  world : World
  proc : Proc α

variable {α : Type}

/-- The next configuration; there is none for a process that is done or has halted. -/
def Config.tick (c : Config α) : Option (Config α) :=
  match c.proc with
  | .done _ => none
  | .read next => some ⟨c.world, next c.world⟩
  | .write w next => some ⟨w, next⟩
  | .call call next => some ⟨c.world, call.body.bind next⟩
  | .halt _ => none

/-- The configurations that a run comes through. -/
inductive Reaches : Config α → Config α → Prop
  | here (c : Config α) : Reaches c c
  | step {a b c : Config α} : Reaches a b → b.tick = some c → Reaches a c

/-- The configuration after at most `fuel` ticks. -/
def Config.advance : (fuel : Nat) → Config α → Config α
  | 0, c => c
  | fuel + 1, c =>
    match c.tick with
    | none => c
    | some next => next.advance fuel

theorem Reaches.trans {a b c : Config α} (hab : Reaches a b) (hbc : Reaches b c) : Reaches a c := by
  induction hbc with
  | here => exact hab
  | step _ hstep ih => exact .step ih hstep

theorem reaches_advance (fuel : Nat) (c : Config α) : Reaches c (c.advance fuel) := by
  induction fuel generalizing c with
  | zero => exact .here c
  | succ fuel ih =>
    unfold Config.advance
    split
    · exact .here c
    · rename_i next hnext
      exact (Reaches.step (.here c) hnext).trans (ih next)

/-- How a run ends. -/
inductive Ending (α : Type)
  | finished (result : α) (w : World)
  | halted (fault : Fault)
  /-- The fuel was used up. -/
  | unfinished

/-- Runs a process to its end, with at most `fuel` ticks. -/
def Config.run (fuel : Nat) (c : Config α) : Ending α :=
  let last := c.advance fuel
  match last.proc with
  | .done result => .finished result last.world
  | .halt fault => .halted fault
  | _ => .unfinished

/-! ## Scripts -/

/-- What a step of a script shows. -/
structure StepReport where
  reply : Reply
  log : List LogEntry

/-- Runs the steps of a script from a state, each with the same fuel and from an empty log. -/
def runScript (fuel : Nat) : (w : World) → (steps : List Step) → Ending (List StepReport)
  | w, [] => .finished [] w
  | w, step :: steps =>
    match Config.run fuel ⟨w, step.run .outside⟩ with
    | .halted fault => .halted fault
    | .unfinished => .unfinished
    | .finished reply after =>
      match runScript fuel { after with log := [] } steps with
      | .finished reports last => .finished (⟨reply, after.log⟩ :: reports) last
      | .halted fault => .halted fault
      | .unfinished => .unfinished

end DataBinding
