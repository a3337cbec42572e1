import DataBinding.Proofs.Resolution.Reading
import DataBinding.Proofs.Run.Returning

/-!
# Client code without effect

Telling subscribers runs client code: the reactions of watchers, and
subscribers of its own. It is *inert* when it comes back, has run no
reaction on the way, and has left the graph, the watchers and the slot as
they were; a run is *calm* when all client code that it tells of a change
is inert.
-/

namespace DataBinding

variable {α : Type}

/-- The reactions that were run, each with its watcher and the new
value. -/
def reactions (calls : List Call) : List (WatcherId × Value) :=
  calls.filterMap fun
    | .react x v => some (x, v)
    | _ => none

@[simp] theorem reactions_nil : reactions [] = [] := rfl

@[simp] theorem reactions_append (calls calls' : List Call) :
    reactions (calls ++ calls') = reactions calls ++ reactions calls' :=
  List.filterMap_append

/-- Accessors react to nothing. -/
theorem Silent.reactions {calls : List Call} (h : Silent calls) : reactions calls = [] := by
  refine List.filterMap_eq_nil_iff.2 fun c hc => ?_
  obtain ⟨data, tracker, body, rfl⟩ := h c hc
  rfl

/-! ## Updates -/

/-- What an update does about the value that it has found. -/
def answerUpdate (x : WatcherId) (v : Value) : Proc (Except Error Bool) := do
  let watcher ← Proc.ask (·.watcher x)
  if watcher.value.same v then pure (.ok false)
  else do
    rememberValue x v
    Proc.perform (.react x v)
    pure (.ok true)

/-- An update of a watcher that is not disposed of evaluates it first. -/
theorem passes_evaluating {w : World} {x : WatcherId} (h : (w.watcher x).disposed = false) :
    ∃ next : Except Error Value → Proc (Except Error Bool),
      Passes ⟨w, updateWatcher x⟩ [] ⟨w, evaluateWatcher x >>= next⟩ ∧
        (∀ error, next (.error error) = pure (.error error)) ∧
        ∀ v, next (.ok v) = answerUpdate x v := by
  refine ⟨?next, .bind_nil (.ask _) ?passes, ?error, ?answer⟩
  case passes =>
    rw [if_neg (by simp [h])]
    exact .here _
  case error => exact fun _ => rfl
  case answer => exact fun _ => rfl

theorem passes_answerUpdate_same {w : World} {x : WatcherId} {v : Value}
    (h : (w.watcher x).value.same v = true) :
    Passes ⟨w, answerUpdate x v⟩ [] ⟨w, .done (.ok false)⟩ := by
  refine .bind_nil (.ask _) ?_
  rw [if_pos h]
  exact .here _

theorem passes_answerUpdate_changed {w : World} {x : WatcherId} {v : Value}
    (h : (w.watcher x).value.same v = false) : Passes ⟨w, answerUpdate x v⟩ []
      ⟨w.onWatcher x fun watcher => { watcher with value := v },
        Proc.perform (.react x v) >>= fun _ => pure (.ok true)⟩ := by
  refine .bind_nil (.ask _) ?_
  rw [if_neg (by simp [h])]
  exact .bind_nil (.modify _) (.here _)

/-- Whether a call tells client code of a change. -/
def Call.tells : Call → Bool
  | .react .. | .invalidated .. => true
  | _ => false

/-- The call comes back, and has had no effect that matters here. -/
def Inert (w : World) (c : Call) : Prop :=
  ∃ w' calls answer, Passes ⟨w, c.body⟩ calls ⟨w', .done answer⟩ ∧ reactions calls = [] ∧
    w'.graph = w.graph ∧ w'.watchers = w.watchers ∧ w'.slot = w.slot

/-- All client code that a run tells of a change is inert. -/
def Calm (c : Config α) : Prop :=
  Along (fun w call => call.tells = true → Inert w call) c

/-- A callback that does nothing. -/
theorem inert_of_client_nil {w : World} {x : WatcherId} {name : String} (v : Value)
    (h : (w.watcher x).reaction = .client name []) : Inert w (.react x v) := by
  refine ⟨w.note (.callback name (w.showValue v) w.isEvaluating), [.callback name v []] ++ [], (),
    .bind_nil (.ask _) ?_, rfl, rfl, rfl, rfl⟩
  rw [h]
  exact .perform (.bind_nil (.modify _) (.here _))

end DataBinding
