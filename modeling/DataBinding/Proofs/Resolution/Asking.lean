import DataBinding.Proofs.Resolution.Reading
import Mathlib.Tactic.Choose

/-!
# Accessors that only ask

An accessor that reads nothing but what its scope gives it (`Expr.Gets`)
asks for the values at paths, one after the other and each in view of the
answers so far, and comes to a value (`Asking`). It may hand out an object
of its own, where `Expr.Pure` allows none. `Expr.Asks` says that an
accessor runs as such questions and nothing else.

`Gives` is what a reading gives among these accessors, and which cells it
looks at. A reading that is over has given its value and has tracked those
cells (`given_of_reaches`), and what is given is what the reading comes to,
with an evaluation and without one (`Graph.Gives.passes`).
-/

namespace DataBinding

variable {α β : Type}

/-! ## Questions -/

namespace Asking

/-- Goes on with other questions. -/
def bind (f : α → Asking β) : Asking α → Asking β
  | answer a => f a
  | get path next => get path fun v => (next v).bind f

theorem run_bind (f : α → Asking β) (data : ObjectId) (tracker : Option EvaluationId)
    (a : Asking α) : (a.bind f).run data tracker =
      a.run data tracker >>= fun x => (f x).run data tracker := by
  induction a with
  | answer a => rfl
  | get path next ih =>
      simp only [bind, run, bind_assoc]
      exact congrArg _ (funext ih)

end Asking

/-- A process that asks its scope for values, and does nothing else. -/
def AsksOnly (p : ObjectId → Option EvaluationId → Proc α) : Prop :=
  ∀ data, ∃ a : Asking α, ∀ tracker, p data tracker = a.run data tracker

/-- An accessor that does nothing else. -/
def Expr.Asks (e : Expr) : Prop :=
  AsksOnly fun data tracker => e.eval (.accessor data tracker)

namespace AsksOnly

theorem pure (f : ObjectId → α) : AsksOnly fun data _ => (Pure.pure (f data) : Proc α) :=
  fun data => ⟨.answer (f data), fun _ => rfl⟩

theorem bind {p : ObjectId → Option EvaluationId → Proc α}
    {f : α → ObjectId → Option EvaluationId → Proc β} (hp : AsksOnly p)
    (hf : ∀ x, AsksOnly (f x)) :
    AsksOnly fun data tracker => p data tracker >>= fun x => f x data tracker := by
  intro data
  obtain ⟨a, ha⟩ := hp data
  choose b hb using fun x => hf x data
  refine ⟨a.bind b, fun tracker => ?_⟩
  rw [Asking.run_bind, ← ha tracker]
  exact congrArg _ (funext fun x => hb x tracker)

end AsksOnly

namespace Expr

theorem asks_const (v : Value) : (const v).Asks :=
  .pure fun _ => v

theorem asks_data : Expr.data.Asks :=
  .pure fun id => Value.object id

theorem asks_get (path : String) : (get path).Asks := fun data =>
  ⟨.get path .answer, fun tracker => (bind_pure ((Path.parse path).resolve data tracker)).symm⟩

theorem asks_asking (questions : ObjectId → Asking Value) : (asking questions).Asks := fun data =>
  ⟨questions data, fun _ => rfl⟩

variable {a b c : Expr} {es : List Expr}

theorem asksOnly_evalAll (h : ∀ e ∈ es, e.Asks) :
    AsksOnly fun data tracker => evalAll (.accessor data tracker) es := by
  induction es with
  | nil => exact .pure fun _ => []
  | cons e es ih =>
      refine (h e List.mem_cons_self).bind fun v => ?_
      refine (ih fun e he => h e (List.mem_cons_of_mem _ he)).bind fun vs => ?_
      exact .pure fun _ => v :: vs

theorem Asks.concat (h : ∀ e ∈ es, e.Asks) : (Expr.concat es).Asks :=
  (asksOnly_evalAll h).bind fun _ => .pure fun _ => _

theorem Asks.sum (h : ∀ e ∈ es, e.Asks) : (Expr.sum es).Asks :=
  (asksOnly_evalAll h).bind fun _ => .pure fun _ => _

theorem Asks.same (ha : a.Asks) (hb : b.Asks) : (Expr.same a b).Asks :=
  ha.bind fun _ => hb.bind fun _ => .pure fun _ => _

theorem Asks.less (ha : a.Asks) (hb : b.Asks) : (Expr.less a b).Asks :=
  ha.bind fun _ => hb.bind fun _ => .pure fun _ => _

theorem Asks.choose (hc : c.Asks) (ha : a.Asks) (hb : b.Asks) : (Expr.choose c a b).Asks :=
  hc.bind fun v => by
    by_cases hv : v = .bool true
    · simp only [if_pos hv]
      exact ha
    · simp only [if_neg hv]
      exact hb

/-- Accessors that read nothing but what their scope gives them, and do
nothing else. -/
inductive Gets : Expr → Prop
  | const (v : Value) : Gets (.const v)
  | data : Gets .data
  | get (path : String) : Gets (.get path)
  | asking (questions : ObjectId → Asking Value) : Gets (.asking questions)
  | concat {parts : List Expr} : (∀ e ∈ parts, Gets e) → Gets (.concat parts)
  | sum {parts : List Expr} : (∀ e ∈ parts, Gets e) → Gets (.sum parts)
  | same {a b : Expr} : Gets a → Gets b → Gets (.same a b)
  | less {a b : Expr} : Gets a → Gets b → Gets (.less a b)
  | choose {condition yes no : Expr} :
      Gets condition → Gets yes → Gets no → Gets (.choose condition yes no)

theorem Pure.gets (h : a.Pure) : a.Gets := by
  induction h with
  | const => exact .const _
  | data => exact .data
  | get path => exact .get path
  | asking => exact .asking _
  | concat _ ih => exact .concat ih
  | sum _ ih => exact .sum ih
  | same _ _ iha ihb => exact .same iha ihb
  | less _ _ iha ihb => exact .less iha ihb
  | choose _ _ _ ihc iha ihb => exact .choose ihc iha ihb

theorem Gets.asks (h : a.Gets) : a.Asks := by
  induction h with
  | const v => exact asks_const v
  | data => exact asks_data
  | get path => exact asks_get path
  | asking questions => exact asks_asking questions
  | concat _ ih => exact .concat ih
  | sum _ ih => exact .sum ih
  | same _ _ iha ihb => exact .same iha ihb
  | less _ _ iha ihb => exact .less iha ihb
  | choose _ _ _ ihc iha ihb => exact .choose ihc iha ihb

end Expr

/-- Every accessor reads through its scope alone. -/
def World.OnlyGets (w : World) : Prop :=
  ∀ id key accessor, w.graph.slot? id key = some (.computed accessor) → accessor.Gets

/-- Every accessor only asks. -/
def World.OnlyAsks (w : World) : Prop :=
  ∀ id key accessor, w.graph.slot? id key = some (.computed accessor) → accessor.Asks

theorem World.OnlyGets.onlyAsks {w : World} (hw : w.OnlyGets) : w.OnlyAsks :=
  fun id key accessor hslot => (hw id key accessor hslot).asks

/-! ## What is given -/

/-- What can be asked of a graph whose accessors only ask. -/
inductive Inquiry
  | property (id : ObjectId) (key : String)
  | walk (from_ : Value) (keys : List String)
  | asking (data : ObjectId) (a : Asking Value)

/-- The process that answers. -/
def Inquiry.proc (tracker : Option EvaluationId) : Inquiry → Proc Value
  | property id key => readProperty id key tracker
  | walk from_ keys => DataBinding.walk tracker from_ keys
  | asking data a => a.run data tracker

/-- The value that is given, and the cells that are looked at. -/
inductive Graph.Gives (g : Graph) : Inquiry → Value → List Cell → Prop
  | missing {id : ObjectId} {key : String} :
      g.content (id, key) = none → Gives g (.property id key) .undefined [(id, key)]
  | data {id : ObjectId} {key : String} {v : Value} :
      g.content (id, key) = some (.inl v) → Gives g (.property id key) v [(id, key)]
  | computed {id : ObjectId} {key : String} {accessor : Expr} {a : Asking Value} {v : Value}
      {cells : List Cell} :
      g.content (id, key) = some (.inr accessor) →
      (∀ tracker, accessor.eval (.accessor id tracker) = a.run id tracker) →
      Gives g (.asking id a) v cells → Gives g (.property id key) v ((id, key) :: cells)
  | stop {v : Value} : Gives g (.walk v []) v []
  | step {id : ObjectId} {key : String} {keys : List String} {u v : Value}
      {cells cells' : List Cell} :
      Gives g (.property id key) u cells → Gives g (.walk u keys) v cells' →
      Gives g (.walk (.object id) (key :: keys)) v (cells ++ cells')
  | leave {v : Value} {key : String} {keys : List String} :
      v.object? = none → Gives g (.walk v (key :: keys)) .undefined []
  | answer {data : ObjectId} {v : Value} : Gives g (.asking data (.answer v)) v []
  | get {data : ObjectId} {path : String} {next : Value → Asking Value} {u v : Value}
      {cells cells' : List Cell} :
      Gives g (.walk (.object data) (Path.parse path).segments) u cells →
      Gives g (.asking data (next u)) v cells' →
      Gives g (.asking data (.get path next)) v (cells ++ cells')

namespace Graph.Gives

variable {g g' : Graph} {q : Inquiry} {v : Value} {cells : List Cell}

/-- Only the cells that were looked at matter. -/
theorem congr (h : g.Gives q v cells) (hsame : ∀ c ∈ cells, g'.content c = g.content c) :
    g'.Gives q v cells := by
  induction h with
  | missing hc => exact .missing ((hsame _ List.mem_cons_self).trans hc)
  | data hc => exact .data ((hsame _ List.mem_cons_self).trans hc)
  | computed hc ha _ ih =>
      obtain ⟨hfirst, hrest⟩ := List.forall_mem_cons.1 hsame
      exact .computed (hfirst.trans hc) ha (ih hrest)
  | stop => exact .stop
  | step _ _ ihp ihw =>
      obtain ⟨hproperty, hwalk⟩ := List.forall_mem_append.1 hsame
      exact .step (ihp hproperty) (ihw hwalk)
  | leave hv => exact .leave hv
  | answer => exact .answer
  | get _ _ ihw iha =>
      obtain ⟨hwalk, hrest⟩ := List.forall_mem_append.1 hsame
      exact .get (ihw hwalk) (iha hrest)

theorem of_objects (h : g.Gives q v cells) (hobjects : g'.objects = g.objects) :
    g'.Gives q v cells :=
  h.congr fun c _ => World.content_eq hobjects c

/-- What is given is what the process comes to, in every state with such a
graph; on the way it tracks the cells, and calls nothing but accessors. -/
theorem passes_silent (h : g.Gives q v cells) (tracker : Option EvaluationId) {w : World}
    (hw : ∀ c, w.graph.content c = g.content c) :
    ∃ calls, Silent calls ∧
      Passes ⟨w, q.proc tracker⟩ calls ⟨w.trackCells tracker cells, .done v⟩ := by
  have htracked : ∀ {w : World} {cells : List Cell}, (∀ c, w.graph.content c = g.content c) →
      ∀ c, (w.trackCells tracker cells).graph.content c = g.content c := fun hw c => by
    rw [World.content_eq (World.objects_trackCells _ _ _), hw]
  induction h generalizing w with
  | missing hc => exact ⟨[], .nil, passes_readProperty_missing ((hw _).trans hc)⟩
  | data hc => exact ⟨[], .nil, passes_readProperty_data ((hw _).trans hc)⟩
  | computed hc ha _ ih =>
      obtain ⟨calls, hsilent, hpasses⟩ := ih hw
      rw [Inquiry.proc, ← ha] at hpasses
      exact ⟨_, hsilent.cons, passes_readProperty_computed ((hw _).trans hc) hpasses⟩
  | stop =>
      rw [World.trackCells_nil]
      exact silently_done w _
  | step _ _ ihp ihw =>
      rw [World.trackCells_append]
      exact silently_bind (ihp hw) (ihw (htracked hw))
  | leave hv =>
      rw [World.trackCells_nil]
      exact ⟨[], .nil, passes_walk_leave hv⟩
  | answer =>
      rw [World.trackCells_nil]
      exact silently_done w _
  | get _ _ ihw iha =>
      rw [World.trackCells_append]
      exact silently_bind (ihw hw) (iha (htracked hw))

theorem passes (h : g.Gives q v cells) (tracker : Option EvaluationId) {w : World}
    (hw : ∀ c, w.graph.content c = g.content c) :
    ∃ calls, Passes ⟨w, q.proc tracker⟩ calls ⟨w.trackCells tracker cells, .done v⟩ := by
  obtain ⟨calls, -, hpasses⟩ := h.passes_silent tracker hw
  exact ⟨calls, hpasses⟩

/-- An inquiry gives one value. -/
theorem unique {u : Value} {cells' : List Cell} (h : g.Gives q v cells)
    (h' : g.Gives q u cells') : v = u := by
  let w : World := { World.start with graph := g }
  obtain ⟨calls, hpasses⟩ := h.passes none (w := w) fun _ => rfl
  obtain ⟨calls', hpasses'⟩ := h'.passes none (w := w) fun _ => rfl
  cases (hpasses.unique hpasses' rfl rfl).1
  rfl

end Graph.Gives

/-! ## What a reading has given -/

namespace World

/-- The value was given, and nothing but tracking was done for it. -/
def Given (q : Inquiry) (tracker : Option EvaluationId) (w : World) (v : Value) (w' : World) :
    Prop :=
  w'.OnlyAsks ∧ ∃ cells, w.graph.Gives q v cells ∧ w' = w.trackCells tracker cells

/-- An accessor has asked for what it was given. -/
def Asked (body : Expr) (data : ObjectId) (tracker : Option EvaluationId) (w : World) (v : Value)
    (w' : World) : Prop :=
  ∃ a : Asking Value, (∀ tracker, body.eval (.accessor data tracker) = a.run data tracker) ∧
    Given (.asking data a) tracker w v w'

variable {w w' w'' : World} {tracker : Option EvaluationId} {u v : Value}

/-- One reading after another. -/
theorem given_append {q q' : Inquiry} (h : Given q tracker w u w')
    (h' : Given q' tracker w' v w'') :
    w''.OnlyAsks ∧ ∃ cells cells', w.graph.Gives q u cells ∧ w.graph.Gives q' v cells' ∧
      w'' = w.trackCells tracker (cells ++ cells') := by
  obtain ⟨-, cells, hgives, rfl⟩ := h
  obtain ⟨hw, cells', hgives', rfl⟩ := h'
  refine ⟨hw, cells, cells', hgives, hgives'.congr fun c _ => ?_, ?_⟩
  · rw [content_eq (objects_trackCells _ _ _)]
  · rw [trackCells_append]

end World

open World

/-- A contract under which readings are free, where accessors only ask. -/
structure Consults (C : Contract .plain) : Prop extends Tracks C World.OnlyAsks where
  pre : ∀ {w data tracker body}, w.OnlyAsks → body.Asks → C.pre (.accessor data tracker body) w
  post : ∀ {w data tracker body v w'}, C.post (.accessor data tracker body) w v w' →
    Asked body data tracker w v w'

namespace Consults

variable {C : Contract .plain} {w : World} {tracker : Option EvaluationId}

theorem property (h : Consults C) (hw : w.OnlyAsks) (id : ObjectId) (key : String) :
    (readProperty id key tracker).Safe C (Given (.property id key) tracker w) w := by
  refine h.toTracks.readProperty hw (fun hc => ?_)
    (fun hc hw' hworld => ⟨hw', _, .data hc, hworld⟩) fun {accessor} hc => ?_
  · exact ⟨hw, [(id, key)], .missing hc, (trackCells_of_missing hc).symm⟩
  · refine ⟨h.pre hw (hw _ _ _ (Graph.slot?_of_content_inr hc)), fun v t ht => ?_⟩
    obtain ⟨a, ha, hw', cells, hgives, rfl⟩ := h.post ht
    refine ⟨hw', (id, key) :: cells, .computed hc ha hgives, ?_⟩
    exact (congrArg (·.trackCells tracker cells) (trackCells_of_computed hc).symm).trans
      (trackCells_cons w tracker _ cells).symm

theorem walk (h : Consults C) : ∀ (keys : List String) (v : Value) {w : World}, w.OnlyAsks →
    (walk tracker v keys).Safe C (Given (.walk v keys) tracker w) w
  | [], v, w, hw => Proc.Safe.pure ⟨hw, [], .stop, (trackCells_nil _ _).symm⟩
  | key :: keys, .object id, w, hw =>
      (h.property hw id key).bind fun u t ht => (walk h keys u ht.1).mono fun v t' ht' => by
        obtain ⟨hw', cells, cells', hproperty, hwalk, hworld⟩ := given_append ht ht'
        exact ⟨hw', _, .step hproperty hwalk, hworld⟩
  | _ :: _, .undefined, _, hw | _ :: _, .null, _, hw | _ :: _, .bool _, _, hw
  | _ :: _, .number _, _, hw | _ :: _, .string _, _, hw =>
      Proc.Safe.pure ⟨hw, [], .leave rfl, (trackCells_nil _ _).symm⟩

theorem resolve (h : Consults C) (hw : w.OnlyAsks) (path : Path) (root : ObjectId) :
    (path.resolve root tracker).Safe C
      (Given (.walk (.object root) path.segments) tracker w) w :=
  h.walk _ _ hw

theorem asking (h : Consults C) (data : ObjectId) (a : Asking Value) {w : World}
    (hw : w.OnlyAsks) : (a.run data tracker).Safe C (Given (.asking data a) tracker w) w := by
  induction a generalizing w with
  | answer v => exact Proc.Safe.pure ⟨hw, [], .answer, (trackCells_nil _ _).symm⟩
  | get path next ih =>
      refine (h.resolve hw _ _).bind fun u t ht => (ih u ht.1).mono fun v t' ht' => ?_
      obtain ⟨hw', cells, cells', hwalk, hasking, hworld⟩ := given_append ht ht'
      exact ⟨hw', _, .get hwalk hasking, hworld⟩

/-- Evaluating an accessor that only asks. -/
theorem eval (h : Consults C) (data : ObjectId) {body : Expr} (hw : w.OnlyAsks)
    (hbody : body.Asks) :
    (body.eval (.accessor data tracker)).Safe C (Asked body data tracker w) w := by
  obtain ⟨a, ha⟩ : ∃ a : Asking Value, ∀ tracker,
    body.eval (.accessor data tracker) = a.run data tracker := hbody data
  rw [ha]
  exact (h.asking data a hw).mono fun v t ht => ⟨a, ha, ht⟩

end Consults

namespace World

/-- Readings among accessors that only ask. -/
@[reducible] def consulting : Contract .plain where
  always _ := True
  pre c w := match c with
    | .accessor _ _ body => w.OnlyAsks ∧ body.Asks
    | _ => False
  post c w v w' := match c, v with
    | .accessor data tracker body, v => Asked body data tracker w v w'
    | _, _ => True

variable {w w' : World}

theorem OnlyAsks.of_objects (hw : w.OnlyAsks) (h : w'.graph.objects = w.graph.objects) :
    w'.OnlyAsks :=
  fun id key accessor hslot => hw id key accessor ((slot?_eq h id key) ▸ hslot)

theorem consults_consulting : Consults consulting where
  track {w t e d} hw ht := by
    obtain rfl : t = w.track e d := ht
    exact ⟨trivial, hw.of_objects (objects_track w e d)⟩
  pre hw hbody := ⟨hw, hbody⟩
  post ht := ht

theorem met_consulting : consulting.Met := by
  intro c w hpre
  cases c with
  | accessor data tracker body => exact consults_consulting.eval data hpre.1 hpre.2
  | _ => exact hpre.elim

/-- A resolution that is over has given its value, and has tracked the cells
that it looked at. -/
theorem given_of_reaches {path : Path} {root : ObjectId} {tracker : Option EvaluationId}
    {v : Value} (hw : w.OnlyAsks)
    (h : Reaches ⟨w, path.resolve root tracker⟩ ⟨w', .done v⟩) :
    ∃ cells, w.graph.Gives (.walk (.object root) path.segments) v cells ∧
      w' = w.trackCells tracker cells := by
  have hsafe : (path.resolve root tracker).Safe consulting _ w :=
    consults_consulting.resolve hw path root
  exact (hsafe.run met_consulting (Monitor.plain_run h)).2

end World

end DataBinding
