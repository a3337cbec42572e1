import DataBinding.Proofs.Client.Effects
import DataBinding.Proofs.Resolution.Asking
import DataBinding.Proofs.Run.Returning

/-!
# Telling without writing

A notification writes no object by itself. It evaluates watchers, which
tracks what is read and calls accessors, and it calls subscribers. So it
keeps whatever these keep (`Sparing.keeps`), and comes to an end if they
come back (`Sparing.returns`); `Sparing` composes along `bind`.

Where accessors only ask and subscribers do not write (`ReadOnly`), the
properties are what they were (`Sparing.passive`).
-/

namespace DataBinding

open World

variable {α β : Type} {w w' : World}

/-! ## Client code on the way -/

/-- Whether a call hands over to a subscriber: to the callback of a
watcher, or to a subscriber of client code. -/
def Call.isSubscriber : Call → Bool
  | .callback .. | .invalidated .. => true
  | _ => false

/-- Whether a call hands over to a subscriber or to an accessor. -/
def Call.isClient : Call → Bool
  | .accessor .. | .callback .. | .invalidated .. => true
  | _ => false

/-- The subscribers that a run calls do not write: when one has come back,
every property is as it was. -/
def ReadOnly (c : Config α) : Prop :=
  Along (fun w call => call.isSubscriber = true → ∀ answer w',
    Reaches ⟨w, call.body⟩ ⟨w', .done answer⟩ →
      ∀ cell, w'.graph.content cell = w.graph.content cell) c

/-- The client code that a run calls comes back. -/
def ComesBack (c : Config α) : Prop :=
  Along (fun w call => call.isClient = true → call.body.Returns w fun _ _ => True) c

theorem Call.isClient_of_isSubscriber {c : Call} (h : c.isSubscriber = true) :
    c.isClient = true := by
  cases c <;> first | rfl | cases h

theorem World.OnlyAsks.of_content (hw : w.OnlyAsks)
    (h : ∀ cell, w'.graph.content cell = w.graph.content cell) : w'.OnlyAsks := by
  intro id key accessor hslot
  have hheld : w'.graph.content (id, key) = some (.inr accessor) := by
    simp [Graph.content, hslot]
  exact hw id key accessor (Graph.slot?_of_content_inr ((h _).symm.trans hheld))

/-- A call of client code: of a subscriber, or of an accessor that an object
holds. -/
def Call.HandsOver (w : World) (c : Call) : Prop :=
  c.isSubscriber = true ∨ ∃ id key tracker accessor, c = .accessor id tracker accessor ∧
    w.graph.slot? id key = some (.computed accessor)

theorem Call.HandsOver.isClient {c : Call} (h : c.HandsOver w) : c.isClient = true := by
  rcases h with h | ⟨id, key, tracker, accessor, rfl, -⟩
  · exact c.isClient_of_isSubscriber h
  · rfl

/-! ## Processes that spare the objects -/

/-- A process that writes no object by itself, and that comes to its end as
far as it is up to itself. -/
inductive Proc.Sparing : {α : Type} → Proc α → World → Prop
  | done {α : Type} {w : World} (a : α) : Sparing (.done a) w
  | read {α : Type} {w : World} {k : World → Proc α} : Sparing (k w) w → Sparing (.read k) w
  | write {α : Type} {w w' : World} {p : Proc α} :
      w'.graph.objects = w.graph.objects → Sparing p w' → Sparing (.write w' p) w
  | own {α : Type} {w : World} {c : Call} {k : c.Answer → Proc α} :
      Sparing c.body w → (∀ answer u, Sparing (k answer) u) → Sparing (.call c k) w
  | client {α : Type} {w : World} {c : Call} {k : c.Answer → Proc α} :
      c.HandsOver w → (∀ answer u, Sparing (k answer) u) → Sparing (.call c k) w

namespace Proc.Sparing

variable {p : Proc α} {f : α → Proc β}

theorem modify {change : World → World}
    (h : (change w).graph.objects = w.graph.objects) : (Proc.modify change).Sparing w :=
  .read (.write h (.done ()))

/-- A question and what follows it. -/
theorem ask {question : World → β} {k : β → Proc α} (h : (k (question w)).Sparing w) :
    (Proc.ask question >>= k).Sparing w :=
  .read h

theorem state {k : World → Proc α} (h : (k w).Sparing w) : (Proc.state >>= k).Sparing w :=
  .read h

theorem bind (hp : p.Sparing w) (hf : ∀ a u, (f a).Sparing u) : (p >>= f).Sparing w := by
  show (p.bind f).Sparing w
  induction hp with
  | done a => exact hf a _
  | read _ ih => exact .read (ih hf)
  | write hobjects _ ih => exact .write hobjects (ih hf)
  | own hbody _ _ ih => exact .own hbody fun answer u => ih answer u hf
  | client hc _ ih => exact .client hc fun answer u => ih answer u hf

theorem each {f : α → Proc Unit} (hf : ∀ item u, (f item).Sparing u) :
    ∀ (items : List α) {w : World}, (Proc.each f items).Sparing w
  | [], _ => .done ()
  | item :: items, _ => bind (hf item _) fun _ _ => each hf items

/-- A call of the library's own. -/
theorem perform {c : Call} (h : c.body.Sparing w) : (Proc.perform c).Sparing w :=
  .own h fun answer _ => .done answer

theorem of_handsOver {c : Call} (h : c.HandsOver w) : (Proc.perform c).Sparing w :=
  .client h fun answer _ => .done answer

/-- What client code keeps is kept, if it is kept where no object is
written. -/
theorem keeps {R : World → World → Prop}
    (hobjects : ∀ {w w' : World}, w'.graph.objects = w.graph.objects → R w w')
    (htrans : ∀ {w u w' : World}, R w u → R u w' → R w w') (h : p.Sparing w)
    (hcalls : Along (fun w call => call.HandsOver w → ∀ answer w',
      Reaches ⟨w, call.body⟩ ⟨w', .done answer⟩ → R w w') ⟨w, p⟩) {a : α}
    (hrun : Reaches ⟨w, p⟩ ⟨w', .done a⟩) : R w w' := by
  induction h generalizing w' with
  | done =>
      obtain ⟨rfl, -⟩ := Reaches.done_inj hrun
      exact hobjects rfl
  | @read _ w k _ ih =>
      have hfirst : Passes ⟨w, .read k⟩ [] ⟨w, k w⟩ := .read (.here _)
      exact ih (hcalls.of_reaches hfirst.reaches) (Reaches.through hfirst hrun rfl)
  | @write _ w u p hsame _ ih =>
      have hfirst : Passes ⟨w, .write u p⟩ [] ⟨u, p⟩ := .write (.here _)
      exact htrans (hobjects hsame)
        (ih (hcalls.of_reaches hfirst.reaches) (Reaches.through hfirst hrun rfl))
  | @own _ w c k _ _ ihbody ih =>
      have hcall : Proc.call c k = Proc.perform c >>= k := rfl
      rw [hcall] at hrun hcalls
      obtain ⟨answer, u, hfirst, hrest⟩ := Reaches.of_bind hrun
      exact htrans (ihbody (Along.body (Along.left hcalls)) (Reaches.of_perform hfirst))
        (ih answer u (Along.right hcalls hfirst) hrest)
  | @client _ w c k hc _ ih =>
      have hcall : Proc.call c k = Proc.perform c >>= k := rfl
      rw [hcall] at hrun hcalls
      obtain ⟨answer, u, hfirst, hrest⟩ := Reaches.of_bind hrun
      exact htrans (Along.perform (Along.left hcalls) hc answer u (Reaches.of_perform hfirst))
        (ih answer u (Along.right hcalls hfirst) hrest)

theorem returns (h : p.Sparing w) (hback : ComesBack ⟨w, p⟩) :
    p.Returns w fun _ _ => True := by
  induction h with
  | done => exact .pure trivial
  | @read _ w k _ ih =>
      have hfirst : Passes ⟨w, .read k⟩ [] ⟨w, k w⟩ := .read (.here _)
      obtain ⟨a, u, hrest, -⟩ := ih (Along.of_reaches hback hfirst.reaches)
      exact ⟨a, u, hfirst.reaches.trans hrest, trivial⟩
  | @write _ w u p _ _ ih =>
      have hfirst : Passes ⟨w, .write u p⟩ [] ⟨u, p⟩ := .write (.here _)
      obtain ⟨a, u, hrest, -⟩ := ih (Along.of_reaches hback hfirst.reaches)
      exact ⟨a, u, hfirst.reaches.trans hrest, trivial⟩
  | @own _ w c k _ _ ihbody ih =>
      have hcall : Proc.call c k = Proc.perform c >>= k := rfl
      rw [hcall] at hback ⊢
      obtain ⟨answer, u, hfirst, -⟩ := Proc.Returns.perform (ihbody (Along.body (Along.left hback)))
      obtain ⟨a, w', hrest, -⟩ := ih answer u (Along.right hback hfirst)
      exact ⟨a, w', (hfirst.bind_left k).trans hrest, trivial⟩
  | @client _ w c k hc _ ih =>
      have hcall : Proc.call c k = Proc.perform c >>= k := rfl
      rw [hcall] at hback ⊢
      obtain ⟨answer, u, hfirst, -⟩ :=
        Proc.Returns.perform (Along.perform (Along.left hback) hc.isClient)
      obtain ⟨a, w', hrest, -⟩ := ih answer u (Along.right hback hfirst)
      exact ⟨a, w', (hfirst.bind_left k).trans hrest, trivial⟩

end Proc.Sparing

/-! ## Passive processes -/

/-- Where subscribers do not write, a process leaves every property as it
is; and where client code comes back, it comes to its end. -/
structure Proc.Passive (p : Proc α) (w : World) : Prop where
  content : w.OnlyAsks → ReadOnly ⟨w, p⟩ → ∀ a w', Reaches ⟨w, p⟩ ⟨w', .done a⟩ →
    ∀ cell, w'.graph.content cell = w.graph.content cell
  returns : ComesBack ⟨w, p⟩ → p.Returns w fun _ _ => True

/-- An accessor that only asks leaves every property as it is. -/
theorem World.OnlyAsks.content_of_accessor (hw : w.OnlyAsks) {id : ObjectId} {key : String}
    {tracker : Option EvaluationId} {accessor : Expr} {v : Value}
    (hslot : w.graph.slot? id key = some (.computed accessor))
    (hrun : Reaches ⟨w, (Call.accessor id tracker accessor).body⟩ ⟨w', .done v⟩) (cell : Cell) :
    w'.graph.content cell = w.graph.content cell := by
  have hsafe : (accessor.eval (.accessor id tracker)).Safe consulting _ w :=
    consults_consulting.eval id hw (hw id key accessor hslot)
  obtain ⟨_, -, -, cells, -, rfl⟩ := hsafe.run met_consulting (Monitor.plain_run hrun)
  exact content_eq (objects_trackCells w tracker cells) cell

theorem Proc.Sparing.passive {p : Proc α} (h : p.Sparing w) : p.Passive w where
  content hw hreadOnly a w' hrun := by
    refine h.keeps (R := fun w w' => w.OnlyAsks → ∀ cell,
      w'.graph.content cell = w.graph.content cell) (fun hobjects _ => content_eq hobjects)
      (fun hfirst hrest hw cell => ?_) (fun u call next hcall hclient answer u' hbody hu => ?_)
      hrun hw
    · exact (hrest (hw.of_content (hfirst hw)) cell).trans (hfirst hw cell)
    · rcases hclient with hsubscriber | ⟨id, key, tracker, accessor, rfl, hslot⟩
      · exact hreadOnly u call next hcall hsubscriber answer u' hbody
      · exact hu.content_of_accessor hslot hbody
  returns hback := h.returns hback

namespace ComesBack

/-- A run that comes to an end can be gone through, and the bodies of its
calls too. -/
theorem of_run (fuel : Nat) {c : Config α} (hend : (c.advance fuel).tick.isNone)
    (h : ∀ n < fuel, (c.advance n).calls.all fun call =>
      !call.isClient ||
        ((⟨(c.advance n).world, call.body⟩ : Config call.Answer).advance fuel).returned?.isSome) :
    ComesBack c := by
  refine Along.of_run fuel (Option.isNone_iff_eq_none.1 hend) fun n hn call hcall hclient => ?_
  have hbody := List.all_eq_true.1 (h n hn) call hcall
  rw [hclient] at hbody
  obtain ⟨a, ha⟩ := Option.isSome_iff_exists.1 hbody
  exact ⟨a, _, Config.reaches_of_returned fuel ha, trivial⟩

end ComesBack

/-- Whether a call is of client code that does nothing: of a subscriber
without a body, or of an accessor with a fixed value. -/
def Call.isIdle : Call → Bool
  | .callback _ _ body | .invalidated _ body => body.isEmpty
  | .accessor _ _ (.const _) => true
  | _ => false

theorem Call.graph_of_isIdle : ∀ {c : Call} {answer : c.Answer}, c.isIdle = true →
    Reaches ⟨w, c.body⟩ ⟨w', .done answer⟩ → w'.graph = w.graph
  | .callback _ _ [], _, _, h | .invalidated _ [], _, _, h => by
      obtain ⟨rfl, -⟩ := Reaches.result (.bind_nil (.modify _) (.here _)) h
      rfl
  | .accessor _ _ (.const _), _, _, h => by
      obtain ⟨rfl, -⟩ := Reaches.done_inj h
      rfl

/-- A run that comes to an end can be gone through. Subscribers that do
nothing do not write. -/
theorem ReadOnly.of_run (fuel : Nat) {c : Config α} (hend : (c.advance fuel).tick.isNone)
    (h : ∀ n < fuel, (c.advance n).calls.all fun call => !call.isSubscriber || call.isIdle) :
    ReadOnly c := by
  refine Along.of_run fuel (Option.isNone_iff_eq_none.1 hend)
    fun n hn call hcall hsubscriber answer w' hrun => ?_
  have hidle := List.all_eq_true.1 (h n hn) call hcall
  rw [hsubscriber] at hidle
  exact content_eq (congrArg Graph.objects (Call.graph_of_isIdle hidle hrun))

/-! ## Reading -/

section

variable {tracker : Option EvaluationId}

theorem sparing_noteRead (tracker : Option EvaluationId) (property : Property) :
    (noteRead tracker property).Sparing w := by
  obtain ⟨value, dependency⟩ := property
  cases tracker with
  | none => exact .done ()
  | some e =>
      cases dependency with
      | none => exact .done ()
      | some d => exact .modify (objects_track w e d)

theorem sparing_readProperty (id : ObjectId) (key : String) (tracker : Option EvaluationId) :
    (readProperty id key tracker).Sparing w := by
  refine .ask ?_
  cases hslot : w.graph.slot? id key with
  | none => exact .done _
  | some slot =>
      cases slot with
      | data property => exact (sparing_noteRead tracker property).bind fun _ _ => .done _
      | computed accessor => exact .of_handsOver (.inr ⟨id, key, tracker, accessor, rfl, hslot⟩)

theorem sparing_walk : ∀ (keys : List String) (v : Value) {w : World},
    (walk tracker v keys).Sparing w
  | [], _, _ => .done _
  | key :: keys, .object id, _ =>
      (sparing_readProperty id key tracker).bind fun v _ => sparing_walk keys v
  | _ :: _, .undefined, _ | _ :: _, .null, _ | _ :: _, .bool _, _
  | _ :: _, .number _, _ | _ :: _, .string _, _ => .done _

/-- Resolving a path tracks, and does nothing else. -/
theorem sparing_resolve (path : Path) (root : ObjectId) (tracker : Option EvaluationId) :
    (path.resolve root tracker).Sparing w :=
  sparing_walk _ _

theorem sparing_renderSegments (root : ObjectId) (tracker : Option EvaluationId) :
    ∀ (segments : List Segment) {w : World}, (renderSegments root tracker segments).Sparing w
  | [], _ => .done _
  | .literal _ :: segments, _ =>
      (sparing_renderSegments root tracker segments).bind fun _ _ => .done _
  | .placeholder path :: segments, _ =>
      (sparing_resolve path root tracker).bind fun _ _ =>
        (sparing_renderSegments root tracker segments).bind fun _ _ => .done _

end

/-! ## Watchers -/

theorem sparing_react (x : WatcherId) (v : Value) : (Call.react x v).body.Sparing w := by
  refine .ask ?_
  cases (w.watcher x).reaction with
  | client name body => exact .of_handsOver (.inl rfl)
  | text node | markup node | formValue node => exact .modify rfl
  | template node parsed data =>
      exact (sparing_renderSegments data none parsed.segments).bind fun _ _ => .modify rfl

theorem sparing_evaluateWatcher (x : WatcherId) : (evaluateWatcher x).Sparing w := by
  refine .state ?_
  cases hbegin : w.beginWatcher x with
  | error e => exact .done _
  | ok begun =>
      refine (Proc.Sparing.modify (Tracks.beginWatcher hbegin).objects).bind fun _ _ => ?_
      refine (sparing_resolve _ _ _).bind fun v u => ?_
      exact (Proc.Sparing.modify (Tracks.endWatcher u x _).objects).bind fun _ _ => .done _

theorem sparing_updateWatcher (x : WatcherId) : (updateWatcher x).Sparing w := by
  refine .ask ?_
  split
  · exact .done _
  · refine (sparing_evaluateWatcher x).bind fun found u => ?_
    cases found with
    | error e => exact .done _
    | ok v =>
        refine .ask ?_
        split
        · exact .done _
        · refine (Proc.Sparing.modify rfl).bind fun _ _ => ?_
          exact (Proc.Sparing.perform (sparing_react x v)).bind fun _ _ => .done _

theorem sparing_invalidate (s : SubscriberId) : (invalidate s).Sparing w := by
  cases s with
  | watcher x =>
      refine .ask ?_
      split
      · exact .done _
      · exact (sparing_updateWatcher x).bind fun _ _ => .done _
  | client c => exact .ask (.of_handsOver (.inl rfl))

/-! ## Notifications -/

theorem sparing_notifySubscriber (s : SubscriberId) : (notifySubscriber s).Sparing w := by
  refine .ask ?_
  split
  · refine (Proc.Sparing.modify (Tracks.retain w s).objects).bind fun _ _ => ?_
    exact (sparing_invalidate s).bind fun _ u => .modify (Tracks.release u s).objects
  · exact .done _

/-- A notification writes no object. -/
theorem sparing_notify (d : DependencyId) : (notify d).Sparing w := by
  refine (Proc.Sparing.modify (Graph.objects_prune _ _ _)).bind fun _ _ => .ask ?_
  exact .each (fun s _ => sparing_notifySubscriber s) _

end DataBinding
