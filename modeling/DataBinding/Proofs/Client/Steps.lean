import DataBinding.Proofs.Client.Script
import DataBinding.Proofs.Run.Outcome
import DataBinding.Proofs.Subscription.Moves

/-!
# The writes of a run

Every single write of the library is one of those that `Writes` lists.
Most of them are routine: what is peculiar is the store of a property,
after which the value that was stored may have to be observed, and that a
watcher remembers a value, after which it may have to react.

A discipline is *stepwise* when it is kept by single writes, except that
an evaluation of a watcher is looked at as a whole, with its beginning and
its end, and with what is done about its result. `Stepwise.lawful` goes
through the library once for all such disciplines. If nothing is said of
how states are related, what is left to show is about single writes only
(`Stepwise.of_steps`, `Stepwise.of_writes`).
-/

namespace DataBinding

namespace World

/-! ## The writes -/

/-- A write after which nothing has to follow. `sites` are the nodes that
something may be put under. -/
inductive Routine (sites : NodeId → Prop) (w : World) : World → Prop
  /-- A write outside the tracking part. -/
  | untracked {w' : World} : w.Untracked sites w' → Routine sites w w'
  /-- A view is disposed of. -/
  | discards {view : ViewId} {w' : World} : w.Discards view w' → Routine sites w w'
  /-- A view takes over a watcher. -/
  | viewWatches (view : ViewId) (x : WatcherId) : Routine sites w (w.viewWatches view x)
  /-- An object is made. -/
  | create (properties : List (String × Value)) :
      Routine sites w (w.onGraph fun g => properties.foldl
        (fun g entry => g.fill w.graph.nextObject entry) g.addObject)
  /-- Accessors are installed. -/
  | define (id : ObjectId) (entries : List (String × Expr)) :
      Routine sites w (w.onGraph fun g =>
        entries.foldl (fun g entry => g.define id entry.1 entry.2) g)
  /-- A value is observed. -/
  | observe (v : Value) : Routine sites w (w.onGraph (·.observe v))
  /-- A dependency of client code is made. -/
  | newDependency (into : String) (d : DependencyId) :
      Routine sites w ((w.onGraph (·.addDependency)).nameDependency into d)
  /-- A subscriber of client code is put into a list. -/
  | register (d : DependencyId) (client : Nat) :
      Routine sites w (w.onGraph (·.register d (.client client)))
  /-- A subscriber of client code is taken out of a list. -/
  | unregister (d : DependencyId) (client : Nat) :
      Routine sites w (w.onGraph (·.unregister d (.client client)))
  /-- The dead are taken out of a list. -/
  | prune (d : DependencyId) : Routine sites w (w.onGraph (·.prune d w.alive))
  /-- An evaluation reads a dependency. -/
  | track (e : EvaluationId) (d : DependencyId) : Routine sites w (w.track e d)
  /-- A handle on a subscriber is taken. -/
  | retain (s : SubscriberId) : Routine sites w (w.retain s)
  /-- A handle on a subscriber is given up. -/
  | release (s : SubscriberId) : Routine sites w (w.release s)
  /-- A handle on a watcher is handed over to a name. -/
  | nameWatcher (into : String) (x : WatcherId) : Routine sites w (w.nameWatcher into x)
  /-- A handle on a watcher is taken for a name. -/
  | share (into : String) (x : WatcherId) :
      Routine sites w ((w.retain (.watcher x)).nameWatcher into x)
  /-- A name for a watcher is given up. -/
  | dropWatcher (name : String) : Routine sites w (w.dropWatcher name)
  /-- A watcher is disposed of. -/
  | dispose (x : WatcherId) : Routine sites w (w.dispose x)
  /-- A handle on an evaluation is taken. -/
  | retainEvaluation (e : EvaluationId) : Routine sites w (w.retainEvaluation e)
  /-- An evaluation of client code begins. -/
  | enter {client : Nat} {previous : List DependencyId} {entered : World} (into : String) :
      w.enter (.client client) previous = .ok entered →
      Routine sites w (entered.nameEvaluation into w.nextEvaluation)
  /-- An evaluation of client code ends. -/
  | finish {e : EvaluationId} {name : String} : w.names.evaluations.find? name = some e →
      (w.evaluation e).handles ≤ 1 → Routine sites w ((w.finish e).dropEvaluation name)
  /-- An evaluation of client code is abandoned. -/
  | abandon (name : String) : Routine sites w (w.dropEvaluation name)

/-- A watcher has a value to remember. -/
def remember (w : World) (x : WatcherId) (v : Value) : World :=
  w.onWatcher x fun watcher => { watcher with value := v }

@[simp] theorem length_remember (w : World) (x : WatcherId) (v : Value) :
    (w.remember x v).watchers.length = w.watchers.length :=
  List.length_modify ..

theorem watcher_remember_of_ne {w : World} {x y : WatcherId} (v : Value) (h : y ≠ x) :
    (w.remember x v).watcher y = w.watcher y :=
  watcher_of_ne h w _

theorem value_remember {w : World} {x : WatcherId} (v : Value) (hx : x < w.watchers.length) :
    ((w.remember x v).watcher x).value = v := by
  rw [remember, watcher_onWatcher_self hx]

/-- A write other than the store of a value. -/
inductive Maintains (sites : NodeId → Prop) (w : World) : World → Prop
  | routine {w' : World} : w.Routine sites w' → Maintains sites w w'
  /-- A watcher is made. -/
  | addWatcher (data : ObjectId) (path : Path) (reaction : Reaction) :
      (∀ n, reaction.node? = some n → sites n) →
      Maintains sites w (w.addWatcher data path reaction)
  /-- The evaluation of a watcher begins. -/
  | beginWatcher {x : WatcherId} {w' : World} : w.beginWatcher x = .ok w' → Maintains sites w w'
  /-- The evaluation of a watcher ends. -/
  | endWatcher (x : WatcherId) (e : EvaluationId) : Maintains sites w (w.endWatcher x e)
  /-- A watcher remembers a value. -/
  | remember (x : WatcherId) (v : Value) : Maintains sites w (w.remember x v)
  /-- A handle on an evaluation is given up. -/
  | releaseEvaluation (e : EvaluationId) : Maintains sites w (w.releaseEvaluation e)

/-- A write of the library. -/
inductive Writes (sites : NodeId → Prop) (w : World) : World → Prop
  | maintains {w' : World} : w.Maintains sites w' → Writes sites w w'
  | store (id : ObjectId) (key : String) (v : Value) :
      Writes sites w (w.onGraph (·.store id key v))

variable {sites : NodeId → Prop} {w w' : World}

theorem Routine.writes (h : w.Routine sites w') : w.Writes sites w' :=
  .maintains (.routine h)

theorem GivesUp.routine (h : w.GivesUp w') : w.Routine sites w' :=
  h.elim (fun h => .untracked (h.mono fun _ => False.elim))
    fun ⟨_, hdiscards⟩ => .discards hdiscards

end World

open World

variable {M : Monitor} {D : Discipline M} {α β : Type} {e : Option EvaluationId}

/-! ## Stepwise disciplines -/

namespace Discipline

/-- What makes an evaluation of a watcher end as `Q` says. It may be
refused; if not, it begins and ends with a write, and what is done between
them keeps the discipline. -/
structure Evaluates (D : Discipline M) (x : WatcherId) (s : M.State)
    (Q : Except Error Value → M.State → Prop) : Prop where
  looks : D.looks s
  refused : ∀ {error}, (M.world s).beginWatcher x = .error error → Q (.error error) s
  begun : ∀ {w t}, (M.world s).beginWatcher x = .ok w → M.next s w t → D.always t ∧ D.rest t ∧
    ∀ {u v}, D.rest u → D.rel t u →
      M.next u ((M.world u).endWatcher x (M.world s).nextEvaluation) v →
      D.always v ∧ ∀ value, Q (.ok value) v

theorem Evaluates.mono {x : WatcherId} {s : M.State} {Q Q' : Except Error Value → M.State → Prop}
    (h : D.Evaluates x s Q) (hQ : ∀ result t, Q result t → Q' result t) : D.Evaluates x s Q' where
  looks := h.looks
  refused hrefused := hQ _ _ (h.refused hrefused)
  begun hbegun ht :=
    have hnext := h.begun hbegun ht
    ⟨hnext.1, hnext.2.1, fun hu hrel hv =>
      have hend := hnext.2.2 hu hrel hv
      ⟨hend.1, fun value => hQ _ _ (hend.2 value)⟩⟩

/-- What is done about the first evaluation of a watcher, which was made in
the state `s`: it remembers the value, or is given up. -/
@[reducible] def Constructs (D : Discipline M) (s : M.State) (x : WatcherId) :
    Except Error Value → M.State → Prop
  | .error _, t => D.looks t ∧ ∀ u, M.next t ((M.world t).release (.watcher x)) u →
      D.always u ∧ D.rest u ∧ D.rel s u
  | .ok value, t => D.looks t ∧ ∀ u, M.next t ((M.world t).remember x value) u →
      D.always u ∧ D.rest u ∧ D.rel s u

/-- What is done about an evaluation of a watcher that is updated in the
state `s`: it remembers a new value and reacts to it. -/
@[reducible] def Updates (D : Discipline M) (s : M.State) (x : WatcherId) :
    Except Error Value → M.State → Prop
  | .error _, t => D.rest t ∧ D.rel s t
  | .ok value, t => (D.rest t ∧ D.rel s t) ∧ (((M.world t).watcher x).value.same value = false →
      ∀ u, M.next t ((M.world t).remember x value) u →
        D.always u ∧ D.reacts x value u ∧ D.rel s u)

/-- A discipline that is kept by single writes and by the evaluations of
watchers. What is written into a reactive property is observed next; who
has been evaluated remembers the value next, and reacts to it, except when
it was evaluated for the first time. -/
structure Stepwise (D : Discipline M) : Prop where
  refl : ∀ {s}, D.rest s → D.rel s s
  trans : ∀ {s t u}, D.rel s t → D.rel t u → D.rel s u
  tracks : ∀ e s, D.tracks e s
  accessors : ∀ {data tracker body s}, D.accessorPre data tracker body s ↔ D.rest s
  answers : ∀ {data tracker body s v t}, D.accessorPost data tracker body s v t ↔
    D.rest t ∧ D.rel s t
  looks : ∀ {s}, D.rest s → D.looks s
  listens : ∀ {s n l}, D.rest s → l ∈ ((M.world s).document.node n).listeners → D.delivers l
  surveys : D.Surveys := by
    constructor <;> intros <;> trivial
  routine : ∀ {s w t}, D.rest s → M.next s w t → (M.world s).Routine (D.sites · s) w →
    D.always t ∧ D.rest t ∧ D.rel s t
  release : ∀ {r s t name e}, D.rest r → (M.world r).names.evaluations.find? name = some e →
    D.rest s → D.rel r s → M.next s ((M.world s).releaseEvaluation e) t →
    D.always t ∧ D.rest t ∧ D.rel s t
  store : ∀ {s t id key v}, D.rest s → (M.world s).graph.dependency? id key = none →
    M.next s ((M.world s).onGraph (·.store id key v)) t → D.always t ∧ D.rest t ∧ D.rel s t
  attach : ∀ {s t id key v property d}, D.rest s →
    (M.world s).graph.slot? id key = some (.data property) → property.dependency = some d →
    M.next s ((M.world s).onGraph (·.store id key v)) t → D.always t ∧ D.looks t ∧
      ∀ u, M.next t ((M.world t).onGraph (·.observe v)) u → D.always u ∧ D.rest u ∧ D.rel s u
  constructs : ∀ {s t data path} {reaction : Reaction}, D.rest s →
    (∀ n, reaction.node? = some n → D.sites n s) →
    M.next s ((M.world s).addWatcher data path reaction) t → D.always t ∧
      D.Evaluates (M.world s).nextWatcher t (D.Constructs s (M.world s).nextWatcher)
  updates : ∀ {s x}, D.rest s → ((M.world s).watcher x).disposed = false →
    D.Evaluates x s (D.Updates s x)

/-- An evaluation of a watcher. -/
theorem Evaluates.evaluate (hD : D.Sound) (htracks : ∀ e s, D.tracks e s) {x : WatcherId}
    {s : M.State} {Q : Except Error Value → M.State → Prop} (h : D.Evaluates x s Q) :
    (evaluateWatcher x).Safe D.contract Q s := by
  refine Proc.Safe.bind (Q := fun w t => w = M.world s ∧ t = s)
    (Proc.Safe.state ⟨rfl, rfl⟩ h.looks) ?_
  rintro w t ⟨rfl, rfl⟩
  split
  · rename_i error hrefused
    exact Proc.Safe.pure (h.refused hrefused)
  · rename_i begun hbegun
    refine Proc.Safe.bind (Q := fun _ u => D.rest u ∧ ∀ {v last}, D.rest v → D.rel u v →
        M.next v ((M.world v).endWatcher x (M.world t).nextEvaluation) last →
        D.always last ∧ ∀ value, Q (.ok value) last)
      (Proc.Safe.modify (fun u hu => h.begun hbegun hu) h.looks) fun _ u hu => ?_
    refine (Keeps.resolve hD _ _ u hu.1 (htracks _ _)).bind fun value v hv => ?_
    exact Proc.Safe.bind (Q := fun _ last => ∀ value, Q (.ok value) last)
      (Proc.Safe.modify (fun last hlast => hu.2 hv.1 hv.2 hlast) (hD.looks hv.1))
      fun _ _ hlast => Proc.Safe.pure (hlast value)

namespace Stepwise

/-- A routine write, whatever the sites are. -/
theorem modify (h : D.Stepwise) {f : World → World}
    (hf : ∀ sites (w : World), w.Routine sites (f w)) : D.Keeps e (Proc.modify f) := fun _ hs _ =>
  Proc.Safe.modify (fun _ ht => h.routine hs ht (hf _ _)) (h.looks hs)

/-- A routine write in a state that is known. -/
theorem modify_bind (h : D.Stepwise) {s : M.State} {f : World → World} (hs : D.rest s)
    (hf : (M.world s).Routine (D.sites · s) (f (M.world s))) {p : Unit → Proc α}
    (hp : ∀ u, D.Keeps none (p u)) :
    (Proc.modify f >>= p).Safe D.contract (fun _ t => D.rest t ∧ D.rel s t) s := by
  refine Proc.Safe.bind (Q := fun _ t => D.rest t ∧ D.rel s t)
    (Proc.Safe.modify (fun t ht => h.routine hs ht hf) (h.looks hs)) fun u t ht => ?_
  exact (hp u t ht.1 (h.tracks _ _)).mono fun _ _ hlast => ⟨hlast.1, h.trans ht.2 hlast.2⟩

theorem noteRead (h : D.Stepwise) (property : Property) :
    D.Keeps e (DataBinding.noteRead e property) := by
  unfold DataBinding.noteRead
  split
  · exact h.modify fun _ _ => .track _ _
  · exact fun s hs _ => Proc.Safe.pure ⟨hs, h.refl hs⟩

theorem sound (h : D.Stepwise) : D.Sound where
  looks := h.looks
  refl := h.refl
  trans := h.trans
  tracks_none _ := h.tracks _ _
  tracks_rel _ _ := h.tracks _ _
  frame hs ht hw := h.routine hs ht (.untracked hw)
  listens := h.listens
  surveys := h.surveys
  read e id key s hs he := by
    refine Proc.Safe.bind (Q := fun _ t => t = s) (Proc.Safe.ask rfl (h.looks hs)) ?_
    rintro found t rfl
    split
    · exact Proc.Safe.pure ⟨hs, h.refl hs⟩
    · rename_i property
      exact (noteRead h property t hs he).bind fun _ _ ht => Proc.Safe.pure ht
    · exact Proc.Safe.perform (h.accessors.2 hs) fun _ _ ht => h.answers.1 ht

/-! ### Watchers -/

theorem createWatcher (h : D.Stepwise) (data : ObjectId) (path : Path) (reaction : Reaction) :
    D.KeepsAt reaction.node? (createWatcher data path reaction) := by
  intro s hs hsite
  refine Proc.Safe.bind (Q := fun x t => x = (M.world s).nextWatcher ∧ t = s)
    (Proc.Safe.ask ⟨rfl, rfl⟩ (h.looks hs)) ?_
  rintro x t ⟨rfl, rfl⟩
  refine Proc.Safe.bind (Q := fun _ u => D.Evaluates (M.world t).nextWatcher u
    (D.Constructs t (M.world t).nextWatcher))
    (Proc.Safe.modify (fun _ hu => h.constructs hs hsite hu) (h.looks hs)) fun _ u hu => ?_
  refine (Evaluates.evaluate h.sound h.tracks hu).bind fun result last hlast => ?_
  cases result with
  | error error =>
      exact Proc.Safe.bind (Q := fun _ final => D.rest final ∧ D.rel t final)
        (Proc.Safe.modify hlast.2 hlast.1) fun _ _ hfinal => Proc.Safe.pure hfinal
  | ok value =>
      exact Proc.Safe.bind (Q := fun _ final => D.rest final ∧ D.rel t final)
        (Proc.Safe.modify hlast.2 hlast.1) fun _ _ hfinal => Proc.Safe.pure hfinal

theorem update (h : D.Stepwise) (x : WatcherId) : D.Keeps none (updateWatcher x) := by
  intro s hs _
  refine Proc.Safe.bind (Q := fun found t => found = (M.world s).watcher x ∧ t = s)
    (Proc.Safe.ask ⟨rfl, rfl⟩ (h.looks hs)) ?_
  rintro found t ⟨rfl, rfl⟩
  split
  · exact Proc.Safe.pure ⟨hs, h.refl hs⟩
  · rename_i hdisposed
    have hevaluates := h.updates hs (by simpa using hdisposed)
    refine (Evaluates.evaluate h.sound h.tracks hevaluates).bind fun result u hu => ?_
    cases result with
    | error error => exact Proc.Safe.pure hu
    | ok value =>
        refine Proc.Safe.bind (Q := fun found last => found = (M.world u).watcher x ∧ last = u)
          (Proc.Safe.ask ⟨rfl, rfl⟩ (h.looks hu.1.1)) ?_
        rintro found last ⟨rfl, rfl⟩
        split
        · exact Proc.Safe.pure hu.1
        · rename_i hchanged
          refine Proc.Safe.bind (Q := fun _ next => D.reacts x value next ∧ D.rel t next)
            (Proc.Safe.modify (hu.2 (by simpa using hchanged)) (h.looks hu.1.1))
            fun _ next hnext => ?_
          exact Proc.Safe.bind (Proc.Safe.perform hnext.1 fun _ _ hdone => hdone)
            fun _ _ hdone => Proc.Safe.pure ⟨hdone.1, h.trans hnext.2 hdone.2⟩

/-! ### Notifications and writes -/

theorem notifyOne (h : D.Stepwise) (s : SubscriberId) : D.Keeps none (notifySubscriber s) := by
  refine .bind h.sound (.ask h.sound _) fun alive => ?_
  split
  · refine .bind h.sound (h.modify fun _ _ => .retain s) fun _ => .bind h.sound ?_ fun _ =>
      h.modify fun _ _ => .release s
    cases s with
    | client id => exact .bind h.sound (.ask h.sound _) fun _ => .invalidated _ _
    | watcher x =>
        refine .bind h.sound (.ask h.sound _) fun evaluating => ?_
        split
        · exact .pure h.sound _
        · exact .bind h.sound (h.update x) fun _ => .pure h.sound _
  · exact .pure h.sound _

theorem notify (h : D.Stepwise) (d : DependencyId) : D.Keeps none (notify d) :=
  .bind h.sound (h.modify fun _ _ => .prune d) fun _ =>
    .bind h.sound (.ask h.sound _) fun _ => .each h.sound h.notifyOne _

theorem write (h : D.Stepwise) (id : ObjectId) (key : String) (v : Value) :
    D.Keeps none (setProperty id key v) := by
  intro s hs _
  refine Proc.Safe.bind (Q := fun found t => found = (M.world s).graph.slot? id key ∧ t = s)
    (Proc.Safe.ask ⟨rfl, rfl⟩ (h.looks hs)) ?_
  rintro found t ⟨hfound, rfl⟩
  split
  · exact Proc.Safe.pure ⟨hs, h.refl hs⟩
  · refine Proc.Safe.modify (fun u hu => h.store hs ?_ hu) (h.looks hs)
    simp [Graph.dependency?, ← hfound]
  · rename_i property
    split
    · exact Proc.Safe.pure ⟨hs, h.refl hs⟩
    · cases hdependency : property.dependency with
      | none =>
          refine Proc.Safe.bind (Q := fun _ u => D.rest u ∧ D.rel t u) (Proc.Safe.modify
            (fun u hu => h.store hs ?_ hu) (h.looks hs)) fun _ _ hu => Proc.Safe.pure hu
          simp [Graph.dependency?, ← hfound, hdependency]
      | some d =>
          refine Proc.Safe.bind (Q := fun _ u => D.looks u ∧ ∀ last,
              M.next u ((M.world u).onGraph (·.observe v)) last →
              D.always last ∧ D.rest last ∧ D.rel t last)
            (Proc.Safe.modify (fun u hu => h.attach hs hfound.symm hdependency hu) (h.looks hs))
            fun _ u hu => ?_
          refine Proc.Safe.bind (Q := fun _ last => D.rest last ∧ D.rel t last)
            (Proc.Safe.modify hu.2 hu.1) fun _ last hlast => ?_
          exact (h.notify d last hlast.1 (h.tracks _ _)).mono fun _ _ hfinal =>
            ⟨hfinal.1, h.trans hlast.2 hfinal.2⟩

/-! ### Evaluations of client code -/

theorem tracked (h : D.Stepwise) (name : Option String) (body : Option EvaluationId → Proc α)
    (hbody : ∀ e, D.Keeps e (body e)) : D.Keeps none (withTracker name body) := by
  cases name with
  | none => exact hbody none
  | some name =>
      refine .named_bind h.sound fun s x hs hx => ?_
      refine Proc.Safe.bind (Q := fun _ t => D.rest t ∧ D.rel s t) (Proc.Safe.modify
        (fun _ ht => h.routine hs ht (.retainEvaluation x)) (h.looks hs)) fun _ t ht => ?_
      refine (hbody (some x) t ht.1 (h.tracks _ _)).bind fun a u hu => ?_
      have hsince := h.trans ht.2 hu.2
      exact Proc.Safe.bind (Q := fun _ last => D.rest last ∧ D.rel u last)
        (Proc.Safe.modify (fun _ hlast => h.release hs hx hu.1 hsince hlast) (h.looks hu.1))
        fun _ _ hlast => Proc.Safe.pure ⟨hlast.1, h.trans hsince hlast.2⟩

theorem enter (h : D.Stepwise) (into subscriber : String) (previous : Option String) :
    D.Keeps none (runTrackingAction (.enter into subscriber previous)) := by
  refine .bind h.sound (.named h.sound _ _) fun client => .bind h.sound (.ask h.sound _)
    fun set => .state_bind h.sound fun s hs => ?_
  split
  · exact Proc.Safe.pure ⟨hs, h.refl hs⟩
  · rename_i entered hentered
    exact h.modify_bind hs (.enter into hentered) fun _ => .pure h.sound _

theorem finish (h : D.Stepwise) (evaluation : String) (into : Option String) :
    D.Keeps none (runTrackingAction (.finish evaluation into)) := by
  refine .named_bind h.sound fun s x hs hx => ?_
  refine Proc.Safe.bind (Q := fun found t => found = (M.world s).evaluation x ∧ t = s)
    (Proc.Safe.ask ⟨rfl, rfl⟩ (h.looks hs)) ?_
  rintro found t ⟨rfl, rfl⟩
  split
  · exact hs
  · rename_i hunused
    refine h.modify_bind hs (.finish hx (Nat.le_of_not_lt hunused)) fun _ => ?_
    cases into with
    | none => exact .pure h.sound _
    | some set =>
        exact .bind h.sound (.frame h.sound fun w => .onNames w rfl rfl rfl) fun _ =>
          .pure h.sound _

/-! ### The library -/

theorem viewWatcher (h : D.Stepwise) (into view : String) (index : Nat) :
    D.Keeps none (runBindingAction (.viewWatcher into view index)) := by
  refine .bind h.sound (.named h.sound _ _) fun _ =>
    .bind h.sound (.ask h.sound _) fun found => ?_
  split
  · exact .pure h.sound _
  · exact .bind h.sound (h.modify fun _ _ => .share into _) fun _ => .ask h.sound _

theorem create (h : D.Stepwise) (properties : List (String × Value)) :
    D.Keeps none (createObject properties) := by
  intro s hs _
  refine Proc.Safe.bind (Q := fun id t => id = (M.world s).graph.nextObject ∧ t = s)
    (Proc.Safe.ask ⟨rfl, rfl⟩ (h.looks hs)) ?_
  rintro id t ⟨rfl, rfl⟩
  exact h.modify_bind hs (.create properties) fun _ => .pure h.sound _

theorem lawful (h : D.Stepwise) : D.Lawful where
  toSound := h.sound
  create := h.create
  write := h.write
  observe v := h.modify fun _ _ => .observe v
  define id entries := h.modify fun _ _ => .define id entries
  newDependency into := .bind h.sound (.ask h.sound _) fun d =>
    .bind h.sound (h.modify fun _ _ => .newDependency into d) fun _ => .pure h.sound _
  register _ _ := .bind h.sound (.named h.sound _ _) fun _ =>
    .bind h.sound (.named h.sound _ _) fun _ =>
      .bind h.sound (h.modify fun _ _ => .register _ _) fun _ => .ask h.sound _
  unregister _ _ := .bind h.sound (.named h.sound _ _) fun _ =>
    .bind h.sound (.named h.sound _ _) fun _ =>
      .bind h.sound (h.modify fun _ _ => .unregister _ _) fun _ => .ask h.sound _
  notify := h.notify
  tracked := h.tracked
  enter := h.enter
  finish := h.finish
  abandon evaluation := .bind h.sound (.named h.sound _ _) fun _ =>
    .bind h.sound (h.modify fun _ _ => .abandon evaluation) fun _ => .pure h.sound _
  watch into _ _ _ := .bind h.sound (.named h.sound _ _) fun _ =>
    .bind h.sound ((h.createWatcher _ _ _).keeps fun _ _ _ hnone => nomatch hnone) fun
      | .error _ => .pure h.sound _
      | .ok x => .bind h.sound (h.modify fun _ _ => .nameWatcher into x) fun _ => .ask h.sound _
  update _ := .bind h.sound (.named h.sound _ _) fun x =>
    .bind h.sound (h.modify fun _ _ => .retain _) fun _ =>
      .bind h.sound (h.update x) fun result =>
        .bind h.sound (h.modify fun _ _ => .release _) fun _ => by
          cases result with
          | ok _ => exact .pure h.sound _
          | error _ => exact .pure h.sound _
  dispose _ := .bind h.sound (.named h.sound _ _) fun x =>
    .bind h.sound (h.modify fun _ _ => .dispose x) fun _ => .pure h.sound _
  drop name := .bind h.sound (.named h.sound _ _) fun _ =>
    .bind h.sound (h.modify fun _ _ => .dropWatcher name) fun _ => .pure h.sound _
  share into _ := .bind h.sound (.named h.sound _ _) fun x =>
    .bind h.sound (h.modify fun _ _ => .share into x) fun _ => .pure h.sound _
  viewWatcher := h.viewWatcher
  bind _ _ reaction view := .bind h.sound (h.createWatcher _ _ _) fun
    | .error _ => .of_keeps h.sound (.pure h.sound _)
    | .ok x => .bind h.sound (.of_keeps h.sound (.ask h.sound _)) fun _ =>
        .bind h.sound (.reaction h.sound reaction _) fun _ => .of_keeps h.sound
          (.bind h.sound (h.modify fun _ _ => .viewWatches view x) fun _ => .pure h.sound _)
  placeholder node template data view _ :=
    .bind h.sound (h.createWatcher _ _ (.template node template data)) fun
    | .error _ => .of_keeps h.sound (.pure h.sound _)
    | .ok x => .of_keeps h.sound
        (.bind h.sound (h.modify fun _ _ => .viewWatches view x) fun _ => .pure h.sound _)
  tearDown hs ht hw := h.routine hs ht hw.routine

/-- The bodies of all calls meet the contract of a stepwise discipline. -/
theorem metBy (h : D.Stepwise) {hear : M.State → Call → M.State}
    (hhear : ∀ {s : M.State} {c}, (∀ x v, c ≠ .react x v) → D.rest s → D.rest (hear s c))
    (hrel : ∀ {s t : M.State} c, D.rel (hear s c) t → D.rel s t)
    (hreacts : ∀ {x v s}, D.reacts x v s → D.rest (hear s (.react x v))) :
    D.contract.MetBy hear :=
  Discipline.metBy h.lawful
    ⟨fun hc hs => ⟨hhear hc hs, fun _ => hrel _⟩, fun hs => ⟨hreacts hs, fun _ => hrel _⟩⟩
    fun data tracker body _ hs =>
      have hheard := hhear (c := .accessor data tracker body) nofun (h.accessors.1 hs)
      (h.lawful.eval (.accessor data tracker) body _ hheard (h.tracks _ _)).mono
        fun _ _ ht => h.answers.2 ⟨ht.1, hrel _ ht.2⟩

theorem met (h : D.Stepwise) (hreacts : ∀ {x v s}, D.reacts x v s → D.rest s) :
    D.contract.Met :=
  h.metBy (fun _ hs => hs) (fun _ h => h) hreacts

/-! ### Nothing but writes -/

/-- Single writes keep the discipline during an evaluation, and after one
that has come to a value the slot is free. -/
theorem evaluates_of_steps
    (hmaintains : ∀ {s w t}, D.rest s → M.next s w t → (M.world s).Maintains (D.sites · s) w →
      D.always t ∧ D.rest t ∧ D.rel s t)
    (hlooks : ∀ {s}, D.rest s → D.looks s) (hrefl : ∀ s, D.rel s s)
    (htrans : ∀ {s t u}, D.rel s t → D.rel t u → D.rel s u) (x : WatcherId)
    {s : M.State} (hs : D.rest s) :
    D.Evaluates x s fun result t =>
      (D.rest t ∧ D.rel s t) ∧ ∀ v, result = .ok v → (M.world t).slot = none where
  looks := hlooks hs
  refused _ := ⟨⟨hs, hrefl s⟩, nofun⟩
  begun hbegun ht := by
    have hnext := hmaintains hs ht (.beginWatcher hbegun)
    refine ⟨hnext.1, hnext.2.1, fun hu hrel hv => ?_⟩
    have hend := hmaintains hu hv (.endWatcher _ _)
    have hsince := htrans hnext.2.2 (htrans hrel hend.2.2)
    refine ⟨hend.1, fun _ => ⟨⟨hend.2.1, hsince⟩, fun _ _ => ?_⟩⟩
    rw [M.world_next hv]
    rfl

/-- A discipline that relates states by what single writes do is kept if it
is kept by single writes, with what follows the store of a value. -/
theorem of_steps
    (hmaintains : ∀ {s w t}, D.rest s → M.next s w t → (M.world s).Maintains (D.sites · s) w →
      D.always t ∧ D.rest t)
    (hstore : ∀ {s t id key v}, D.rest s → (M.world s).graph.dependency? id key = none →
      M.next s ((M.world s).onGraph (·.store id key v)) t → D.always t ∧ D.rest t)
    (hattach : ∀ {s t id key v property d}, D.rest s →
      (M.world s).graph.slot? id key = some (.data property) → property.dependency = some d →
      M.next s ((M.world s).onGraph (·.store id key v)) t → D.always t ∧ D.looks t ∧
        ∀ u, M.next t ((M.world t).onGraph (·.observe v)) u → D.always u ∧ D.rest u)
    (hreacts : ∀ {x v s}, D.rest s → (M.world s).slot = none → D.reacts x v s)
    (hlistens : ∀ {s n l}, D.rest s → l ∈ ((M.world s).document.node n).listeners →
      D.delivers l)
    (hlooks : ∀ {s}, D.rest s → D.looks s := by exact fun _ => trivial)
    (hrefl : ∀ s, D.rel s s := by exact fun _ => trivial)
    (htrans : ∀ {s t u}, D.rel s t → D.rel t u → D.rel s u := by exact fun _ _ => trivial)
    (hrel : ∀ {s w t}, M.next s w t → (M.world s).Writes (D.sites · s) w → D.rel s t := by
      exact fun _ _ => trivial)
    (htracks : ∀ e s, D.tracks e s := by exact fun _ _ => trivial)
    (haccessors : ∀ {data tracker body s}, D.accessorPre data tracker body s ↔ D.rest s := by
      exact Iff.rfl)
    (hanswers : ∀ {data tracker body s v t}, D.accessorPost data tracker body s v t ↔
      D.rest t ∧ D.rel s t := by exact (and_iff_left trivial).symm)
    (hsurveys : D.Surveys := by constructor <;> intros <;> trivial) : D.Stepwise := by
  have hkept : ∀ {s w t}, D.rest s → M.next s w t → (M.world s).Maintains (D.sites · s) w →
      D.always t ∧ D.rest t ∧ D.rel s t := fun hs ht hw =>
    have hnext := hmaintains hs ht hw
    ⟨hnext.1, hnext.2, hrel ht (.maintains hw)⟩
  exact {
    refl := fun {s} _ => hrefl s
    trans := htrans
    tracks := htracks
    accessors := haccessors
    answers := hanswers
    looks := hlooks
    listens := hlistens
    surveys := hsurveys
    routine := fun hs ht hw => hkept hs ht (.routine hw)
    release := fun _ _ hs _ ht => hkept hs ht (.releaseEvaluation _)
    store := fun hs hfree ht =>
      have hnext := hstore hs hfree ht
      ⟨hnext.1, hnext.2, hrel ht (.store ..)⟩
    attach := fun hs hslot hdependency ht =>
      have hnext := hattach hs hslot hdependency ht
      ⟨hnext.1, hnext.2.1, fun u hu => ⟨(hnext.2.2 u hu).1, (hnext.2.2 u hu).2,
        htrans (hrel ht (.store ..)) (hrel hu (Routine.writes (.observe _)))⟩⟩
    constructs := fun hs hsite ht => by
      have hnext := hkept hs ht (.addWatcher _ _ _ hsite)
      refine ⟨hnext.1, (evaluates_of_steps hkept hlooks hrefl htrans _ hnext.2.1).mono
        fun result u hu => ?_⟩
      have hsince := htrans hnext.2.2 hu.1.2
      cases result with
      | error error =>
          refine ⟨hlooks hu.1.1, fun v hv => ?_⟩
          have hreleased := hkept hu.1.1 hv (.routine (.release _))
          exact ⟨hreleased.1, hreleased.2.1, htrans hsince hreleased.2.2⟩
      | ok value =>
          refine ⟨hlooks hu.1.1, fun v hv => ?_⟩
          have hremembered := hkept hu.1.1 hv (.remember ..)
          exact ⟨hremembered.1, hremembered.2.1, htrans hsince hremembered.2.2⟩
    updates := fun hs _ => (evaluates_of_steps hkept hlooks hrefl htrans _ hs).mono
      fun result t ht => by
        cases result with
        | error error => exact ht.1
        | ok value =>
            refine ⟨ht.1, fun _ u hu => ?_⟩
            have hremembered := hkept ht.1.1 hu (.remember ..)
            refine ⟨hremembered.1, hreacts hremembered.2.1 ?_, htrans ht.1.2 hremembered.2.2⟩
            rw [M.world_next hu]
            exact ht.2 value rfl }

/-- The same if nothing matters but that it is a write. -/
theorem of_writes
    (hwrites : ∀ {s w t}, D.rest s → M.next s w t → (M.world s).Writes (D.sites · s) w →
      D.always t ∧ D.rest t)
    (hreacts : ∀ {x v s}, D.rest s → (M.world s).slot = none → D.reacts x v s)
    (hlistens : ∀ {s n l}, D.rest s → l ∈ ((M.world s).document.node n).listeners →
      D.delivers l)
    (hlooks : ∀ {s}, D.rest s → D.looks s := by exact fun _ => trivial)
    (hrefl : ∀ s, D.rel s s := by exact fun _ => trivial)
    (htrans : ∀ {s t u}, D.rel s t → D.rel t u → D.rel s u := by exact fun _ _ => trivial)
    (hrel : ∀ {s w t}, M.next s w t → (M.world s).Writes (D.sites · s) w → D.rel s t := by
      exact fun _ _ => trivial)
    (htracks : ∀ e s, D.tracks e s := by exact fun _ _ => trivial)
    (haccessors : ∀ {data tracker body s}, D.accessorPre data tracker body s ↔ D.rest s := by
      exact Iff.rfl)
    (hanswers : ∀ {data tracker body s v t}, D.accessorPost data tracker body s v t ↔
      D.rest t ∧ D.rel s t := by exact (and_iff_left trivial).symm)
    (hsurveys : D.Surveys := by constructor <;> intros <;> trivial) : D.Stepwise :=
  of_steps (fun hs ht hw => hwrites hs ht (.maintains hw))
    (fun hs _ ht => hwrites hs ht (.store ..))
    (fun hs _ _ ht =>
      have hstored := hwrites hs ht (.store ..)
      ⟨hstored.1, hlooks hstored.2,
        fun _ hu => hwrites hstored.2 hu (Routine.writes (.observe _))⟩)
    hreacts hlistens hlooks hrefl htrans hrel htracks haccessors hanswers hsurveys

end Stepwise

/-! ## Along a run -/

/-- A configuration from which a discipline is kept, in a state that is
followed. -/
structure Follows (D : Discipline M) (s : M.State) (c : Config α) : Prop where
  world : M.world s = c.world
  safe : c.proc.Safe D.contract (fun _ t => D.rest t) s

namespace Follows

variable {s : M.State} {b c : Config α}

theorem of_keeps {p : Proc α} (hD : D.Sound) (hp : D.Keeps none p) (hs : D.rest s) :
    D.Follows s ⟨M.world s, p⟩ :=
  ⟨rfl, (hp s hs (hD.tracks_none hs)).mono fun _ _ ht => ht.1⟩

/-- A tick either writes, or leaves the state as it is and may start a
call. -/
theorem tick {hear : M.State → Call → M.State} (hmet : D.contract.MetBy hear)
    (hheard : ∀ s call, M.world (hear s call) = M.world s) (h : D.Follows s b)
    (htick : b.tick = some c) :
    (c.world = b.world ∧ D.Follows (b.calls.foldl hear s) c) ∨
      (b.calls = [] ∧ ∀ t, M.next s c.world t → D.always t ∧ D.Follows t c) := by
  obtain ⟨hworld, hsafe⟩ := h
  obtain ⟨w, p⟩ := b
  obtain rfl : M.world s = w := hworld
  cases p with
  | done result => cases htick
  | halt fault => cases htick
  | read next =>
      obtain rfl := Option.some.inj htick
      exact .inl ⟨rfl, rfl, hsafe.2⟩
  | call call next =>
      obtain rfl := Option.some.inj htick
      exact .inl ⟨rfl, hheard s call, (hmet _ _ hsafe.1).bind hsafe.2⟩
  | write w' next =>
      obtain rfl := Option.some.inj htick
      exact .inr ⟨rfl, fun t ht => ⟨(hsafe t ht).1, M.world_next ht, (hsafe t ht).2⟩⟩

/-- The same if nothing is made of a call. -/
theorem tick_of_met (hmet : D.contract.Met) (h : D.Follows s b) (htick : b.tick = some c) :
    (c.world = b.world ∧ D.Follows s c) ∨
      ∀ t, M.next s c.world t → D.always t ∧ D.Follows t c := by
  have hsame : b.calls.foldl (fun s _ => s) s = s := by
    induction b.calls with
    | nil => rfl
    | cons call calls ih => exact ih
  exact (h.tick hmet (fun _ _ => rfl) htick).imp (fun hread => ⟨hread.1, hsame ▸ hread.2⟩) (·.2)

theorem read {w : World} {k : World → Proc α} (h : D.Follows s ⟨w, .read k⟩) :
    D.Follows s ⟨w, k w⟩ := by
  obtain ⟨rfl, hsafe⟩ := h
  exact ⟨rfl, hsafe.2⟩

theorem modify {w : World} {f : World → World} {k : Unit → Proc α} {t : M.State}
    (h : D.Follows s ⟨w, Proc.modify f >>= k⟩) (ht : M.next s (f w) t) :
    D.Follows t ⟨f w, k ()⟩ := by
  obtain ⟨rfl, hsafe⟩ := h
  exact ⟨M.world_next ht, (hsafe.2 t ht).2⟩

/-- When a step of a script has ended, the next one begins with an empty
log. -/
theorem step {w : World} {reply : Reply} (hD : D.Lawful)
    (h : D.Follows s ⟨w, .done reply⟩) (a : Step) {t : M.State}
    (ht : M.next s { w with log := [] } t) :
    D.Follows t ⟨{ w with log := [] }, a.run .outside⟩ := by
  obtain ⟨hworld, hrest⟩ := h
  obtain rfl : M.world s = w := hworld
  have hnext := hD.frame hrest ht (.clearLog _)
  rw [← M.world_next ht]
  exact of_keeps hD.toSound (hD.step .outside a) hnext.2.1

end Follows

end Discipline

end DataBinding
