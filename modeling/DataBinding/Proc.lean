import DataBinding.World.Basic

/-!
# Processes

A process reads and writes the state, and hands over to client code. Client code, what watchers and
listeners do, and the descent of a compilation appear in it as calls: what a call stands for is put
in when it is reached, and everything between two calls ends by its shape. So a process shows when
each of them starts and with what. A process halts when client code asks for something that is not
there.
-/

namespace DataBinding

/-- Why a run stops before its end. -/
inductive Fault
  /-- A template was to be read under an empty opening delimiter. -/
  | emptyOpening
  /-- A name that stands for nothing. -/
  | unknownName (name : String)
  /-- An evaluation that was to be finished while a reading belongs to it. -/
  | inUse (name : String)
  /-- An expression outside the client code that it belongs to. -/
  | misplaced

/-- A hand-over. -/
inductive Call
  /-- The accessor of a computed property. -/
  | accessor (data : ObjectId) (tracker : Option EvaluationId) (body : Expr)
  /-- The reaction of a watcher to a new value. -/
  | react (watcher : WatcherId) (value : Value)
  /-- A listener that is delivered an event. -/
  | deliver (listener : Listener) (event : Event)
  /-- The callback of a watcher. -/
  | callback (name : String) (value : Value) (body : List Step)
  /-- A subscriber of client code that is told of a change. -/
  | invalidated (name : String) (body : List Step)
  /-- A method. -/
  | method (context : Context) (method : Method) (event : Event)
  /-- An event handler of client code. -/
  | handler (name : String) (event : Event) (body : List Step)
  /-- The compilation of the children of a node. -/
  | descend (node : NodeId) (context : Context) (convention : Convention) (view : ViewId)

/-- What comes back from a call. -/
abbrev Call.Answer : Call → Type
  | accessor .. => Value
  | descend .. => Except Error Unit
  | _ => Unit

/-- A process with a result. -/
inductive Proc (α : Type) : Type
  | done (result : α)
  | read (next : World → Proc α)
  | write (w : World) (next : Proc α)
  | call (c : Call) (next : c.Answer → Proc α)
  | halt (fault : Fault)

namespace Proc

variable {α β γ : Type}

/-- Goes on with the result of a process. -/
def bind : Proc α → (α → Proc β) → Proc β
  | done result, f => f result
  | read next, f => read fun w => (next w).bind f
  | write w next, f => write w (next.bind f)
  | call c next, f => call c fun answer => (next answer).bind f
  | halt fault, _ => halt fault

instance : Monad Proc where
  pure := done
  bind := bind

theorem bind_done (p : Proc α) : p.bind done = p := by
  induction p with
  | done result => rfl
  | read next ih => simp only [bind, ih]
  | write w next ih => simp only [bind, ih]
  | call c next ih => simp only [bind, ih]
  | halt fault => rfl

theorem bind_assoc (p : Proc α) (f : α → Proc β) (g : β → Proc γ) :
    (p.bind f).bind g = p.bind fun a => (f a).bind g := by
  induction p with
  | done result => rfl
  | read next ih => simp only [bind, ih]
  | write w next ih => simp only [bind, ih]
  | call c next ih => simp only [bind, ih]
  | halt fault => rfl

instance : LawfulMonad Proc :=
  LawfulMonad.mk' Proc
    (fun p => bind_done p)
    (fun _ _ => rfl)
    (fun p f g => bind_assoc p f g)

@[simp] theorem pure_eq (result : α) : (pure result : Proc α) = done result := rfl

@[simp] theorem bind_eq (p : Proc α) (f : α → Proc β) : p >>= f = p.bind f := rfl

/-- The state. -/
def state : Proc World :=
  read done

/-- Something about the state. -/
def ask (f : World → α) : Proc α :=
  read fun w => done (f w)

/-- Changes the state. -/
def modify (f : World → World) : Proc Unit :=
  read fun w => write (f w) (done ())

/-- Hands over to a call. -/
def perform (c : Call) : Proc c.Answer :=
  call c done

/-- A result that must be there. -/
def need (fault : Fault) : Option α → Proc α
  | some a => done a
  | none => halt fault

/-- Runs a process for each item, in order. -/
def each (f : α → Proc Unit) : List α → Proc Unit
  | [] => done ()
  | item :: items => (f item).bind fun _ => each f items

/-- Runs a process for each item, in order, up to the first error. -/
def tryEach (f : α → Proc (Except Error Unit)) : List α → Proc (Except Error Unit)
  | [] => done (.ok ())
  | item :: items => (f item).bind fun
    | .ok () => tryEach f items
    | .error e => done (.error e)

end Proc

end DataBinding
