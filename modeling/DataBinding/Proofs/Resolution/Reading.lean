import DataBinding.Proofs.Resolution.Yields
import DataBinding.Proofs.Run.Contract
import DataBinding.Proofs.Run.Outcome
import DataBinding.Proofs.Tracking.Lookup

/-!
# Readings that are run

The processes that read, against `Yields`. In one direction, a reading
that is over has yielded its result and has done nothing but track the
dependencies of the cells that it has looked at (`Reads.walk` and its
kin, under any contract that lets it). In the other, what is yielded is
what the process comes to (`Graph.Yields.passes`).
-/

namespace DataBinding

/-! ## What a reading does -/

namespace World

/-- The dependencies of some cells. -/
def dependenciesOf (w : World) (cells : List Cell) : List DependencyId :=
  cells.filterMap fun c => w.graph.dependency? c.1 c.2

/-- The state after an evaluation has looked at some cells. Without an
evaluation it is the same. -/
def trackCells (w : World) (tracker : Option EvaluationId) (cells : List Cell) : World :=
  match tracker with
  | none => w
  | some e => (w.dependenciesOf cells).foldl (fun w d => w.track e d) w

variable {w w' : World} {tracker : Option EvaluationId} {cells cells' : List Cell}

theorem objects_track (w : World) (e : EvaluationId) (d : DependencyId) :
    (w.track e d).graph.objects = w.graph.objects := by
  by_cases hcurrent : d ∈ (w.evaluation e).current <;>
    by_cases hprevious : d ∈ (w.evaluation e).previous <;>
      simp [track, hcurrent, hprevious, onEvaluation, onGraph]

theorem objects_foldl_track (e : EvaluationId) (ds : List DependencyId) (w : World) :
    (ds.foldl (fun w d => w.track e d) w).graph.objects = w.graph.objects := by
  induction ds generalizing w with
  | nil => rfl
  | cons d ds ih => exact (ih _).trans (objects_track w e d)

theorem objects_trackCells (w : World) (tracker : Option EvaluationId) (cells : List Cell) :
    (w.trackCells tracker cells).graph.objects = w.graph.objects := by
  cases tracker with
  | none => rfl
  | some e => exact objects_foldl_track e _ w

theorem slot?_eq {g g' : Graph} (h : g'.objects = g.objects) (id : ObjectId) (key : String) :
    g'.slot? id key = g.slot? id key := by
  rw [Graph.slot?, Graph.slot?, Graph.slots, Graph.slots, h]

theorem content_eq {g g' : Graph} (h : g'.objects = g.objects) (c : Cell) :
    g'.content c = g.content c := by
  rw [Graph.content, Graph.content, slot?_eq h]

theorem dependenciesOf_eq (h : w'.graph.objects = w.graph.objects) (cells : List Cell) :
    w'.dependenciesOf cells = w.dependenciesOf cells := by
  simp only [dependenciesOf, Graph.dependency?, slot?_eq h]

@[simp] theorem trackCells_nil (w : World) (tracker : Option EvaluationId) :
    w.trackCells tracker [] = w := by
  cases tracker <;> rfl

theorem trackCells_append (w : World) (tracker : Option EvaluationId) (cells cells' : List Cell) :
    w.trackCells tracker (cells ++ cells') =
      (w.trackCells tracker cells).trackCells tracker cells' := by
  cases tracker with
  | none => rfl
  | some e =>
      simp only [trackCells]
      rw [dependenciesOf_eq (objects_foldl_track e _ w)]
      simp only [dependenciesOf, List.filterMap_append, List.foldl_append]

theorem trackCells_cons (w : World) (tracker : Option EvaluationId) (c : Cell)
    (cells : List Cell) : w.trackCells tracker (c :: cells) =
      (w.trackCells tracker [c]).trackCells tracker cells :=
  trackCells_append w tracker [c] cells

/-- A cell that holds no reactive property is not tracked. -/
theorem trackCells_of_plain {c : Cell} (h : w.graph.dependency? c.1 c.2 = none) :
    w.trackCells tracker [c] = w := by
  cases tracker with
  | none => rfl
  | some e => simp [trackCells, dependenciesOf, h]

theorem trackCells_of_missing {c : Cell} (h : w.graph.content c = none) :
    w.trackCells tracker [c] = w :=
  trackCells_of_plain (by rw [Graph.dependency?, Graph.slot?_of_content_none h])

theorem trackCells_of_computed {c : Cell} {accessor : Expr}
    (h : w.graph.content c = some (.inr accessor)) : w.trackCells tracker [c] = w :=
  trackCells_of_plain (by rw [Graph.dependency?, Graph.slot?_of_content_inr h])

theorem trackCells_of_reactive {c : Cell} {d : DependencyId} {e : EvaluationId}
    (h : w.graph.dependency? c.1 c.2 = some d) : w.trackCells (some e) [c] = w.track e d := by
  simp [trackCells, dependenciesOf, h]

end World

/-- What is yielded depends on the objects alone. -/
theorem Graph.Yields.of_objects {g g' : Graph} {q : Query} {vs : List Value} {cells : List Cell}
    (h : g.Yields q vs cells) (hobjects : g'.objects = g.objects) : g'.Yields q vs cells :=
  h.congr fun c _ => World.content_eq hobjects c

/-! ## Readings keep to a contract -/

variable {M : Monitor} {C : Contract M} {I : M.State → Prop}

/-- A query was answered, and nothing but tracking was done for it. -/
def Answered (I : M.State → Prop) (q : Query) (tracker : Option EvaluationId) (s : M.State)
    (vs : List Value) (t : M.State) : Prop :=
  I t ∧ ∃ cells, (M.world s).graph.Yields q vs cells ∧
    M.world t = (M.world s).trackCells tracker cells

/-- A contract under which tracking is free, where `I` holds. -/
structure Tracks (C : Contract M) (I : M.State → Prop) : Prop where
  looks : ∀ {s}, I s → C.looks s := by
    intros; trivial
  track : ∀ {s t e d}, I s → M.next s ((M.world s).track e d) t → C.always t ∧ I t

/-- A contract under which readings are free, where `I` holds. -/
structure Reads (C : Contract M) (I : M.State → Prop) : Prop extends Tracks C I where
  pure : ∀ {s id key accessor}, I s →
    (M.world s).graph.slot? id key = some (.computed accessor) → accessor.Pure
  pre : ∀ {s data tracker body}, I s → body.Pure → C.pre (.accessor data tracker body) s
  post : ∀ {s data tracker body v t}, C.post (.accessor data tracker body) s v t →
    Answered I (.value data body) tracker s [v] t

variable {s : M.State} {tracker : Option EvaluationId}

/-- Noting a reading of a data property tracks its cell. -/
theorem Tracks.noteRead (h : Tracks C I) (hs : I s) {id : ObjectId} {key : String}
    {property : Property}
    (hslot : (M.world s).graph.slot? id key = some (.data property)) :
    (noteRead tracker property).Safe C
      (fun _ t => I t ∧ M.world t = (M.world s).trackCells tracker [(id, key)]) s := by
  have hdependency : (M.world s).graph.dependency? id key = property.dependency := by
    simp [Graph.dependency?, hslot]
  cases tracker with
  | none => exact Proc.Safe.pure ⟨hs, rfl⟩
  | some e =>
      unfold DataBinding.noteRead
      cases hd : property.dependency with
      | none =>
          exact Proc.Safe.pure ⟨hs, (World.trackCells_of_plain (hdependency.trans hd)).symm⟩
      | some d =>
          refine Proc.Safe.modify (fun t ht => ?_) (h.looks hs)
          obtain ⟨halways, hI⟩ := h.track hs ht
          refine ⟨halways, hI, ?_⟩
          rw [M.world_next ht, World.trackCells_of_reactive (hdependency.trans hd)]

/-- Reading a property: it is not there, it is a data property, which is
tracked, or its accessor is called. -/
theorem Tracks.readProperty (h : Tracks C I) (hs : I s) {id : ObjectId} {key : String}
    {Q : Value → M.State → Prop}
    (hmissing : (M.world s).graph.content (id, key) = none → Q .undefined s)
    (hdata : ∀ {v t}, (M.world s).graph.content (id, key) = some (.inl v) → I t →
      M.world t = (M.world s).trackCells tracker [(id, key)] → Q v t)
    (hcomputed : ∀ {accessor}, (M.world s).graph.content (id, key) = some (.inr accessor) →
      C.pre (.accessor id tracker accessor) s ∧
        ∀ v t, C.post (.accessor id tracker accessor) s v t → Q v t) :
    (readProperty id key tracker).Safe C Q s := by
  refine Proc.Safe.bind (Q := fun found t => found = (M.world s).graph.slot? id key ∧ t = s)
    (Proc.Safe.ask ⟨rfl, rfl⟩ (h.looks hs)) ?_
  rintro found t ⟨hfound, rfl⟩
  split
  · exact Proc.Safe.pure (hmissing (by simp [Graph.content, ← hfound]))
  · rename_i property
    refine (h.noteRead hs hfound.symm).bind fun _ u hu => Proc.Safe.pure (hdata ?_ hu.1 hu.2)
    simp [Graph.content, ← hfound]
  · rename_i accessor
    have hcontent : (M.world t).graph.content (id, key) = some (.inr accessor) := by
      simp [Graph.content, ← hfound]
    obtain ⟨hpre, hpost⟩ := hcomputed hcontent
    exact Proc.Safe.perform hpre hpost

namespace Reads

/-- Reading a property. -/
theorem property (h : Reads C I) (hs : I s) (id : ObjectId) (key : String) :
    (readProperty id key tracker).Safe C
      (fun v t => Answered I (.property id key) tracker s [v] t) s := by
  refine h.toTracks.readProperty hs (fun hc => ?_)
    (fun hc hI hworld => ⟨hI, _, .data hc, hworld⟩) fun {accessor} hc => ?_
  · exact ⟨hs, [(id, key)], .missing hc, (World.trackCells_of_missing hc).symm⟩
  · refine ⟨h.pre hs (h.pure hs (Graph.slot?_of_content_inr hc)), fun v t ht => ?_⟩
    obtain ⟨hI, cells, hyields, hworld⟩ := h.post ht
    refine ⟨hI, (id, key) :: cells, .computed hc hyields, ?_⟩
    rw [hworld, World.trackCells_cons, World.trackCells_of_computed hc]

/-- One reading after another. -/
theorem answered_append {q q' : Query} {vs vs' : List Value} {t u : M.State}
    (h : Answered I q tracker s vs t) (h' : Answered I q' tracker t vs' u) :
    I u ∧ ∃ cells cells', (M.world s).graph.Yields q vs cells ∧
      (M.world s).graph.Yields q' vs' cells' ∧
      M.world u = (M.world s).trackCells tracker (cells ++ cells') := by
  obtain ⟨-, cells, hyields, hworld⟩ := h
  obtain ⟨hI, cells', hyields', hworld'⟩ := h'
  refine ⟨hI, cells, cells', hyields, hyields'.congr fun c _ => ?_, ?_⟩
  · rw [hworld, World.content_eq (World.objects_trackCells _ _ _)]
  · rw [hworld', hworld, World.trackCells_append]

/-- Walking a path. -/
theorem walk (h : Reads C I) : ∀ (keys : List String) (v : Value) {s : M.State}, I s →
    (walk tracker v keys).Safe C (fun u t => Answered I (.walk v keys) tracker s [u] t) s
  | [], v, s, hs => Proc.Safe.pure ⟨hs, [], .stop, (World.trackCells_nil _ _).symm⟩
  | key :: keys, .object id, s, hs =>
      (h.property hs id key).bind fun u t ht => (walk h keys u ht.1).mono fun v t' ht' => by
        obtain ⟨hI, cells, cells', hproperty, hwalk, hworld⟩ := answered_append ht ht'
        exact ⟨hI, _, .step hproperty hwalk, hworld⟩
  | _ :: _, .undefined, _, hs | _ :: _, .null, _, hs | _ :: _, .bool _, _, hs
  | _ :: _, .number _, _, hs | _ :: _, .string _, _, hs =>
      Proc.Safe.pure ⟨hs, [], .leave rfl, (World.trackCells_nil _ _).symm⟩

theorem resolve (h : Reads C I) (hs : I s) (path : Path) (root : ObjectId) :
    (path.resolve root tracker).Safe C
      (fun v t => Answered I (.walk (.object root) path.segments) tracker s [v] t) s :=
  h.walk _ _ hs

/-- Asking questions. -/
theorem asking (h : Reads C I) (data : ObjectId) (a : Asking Value) {known : List Value}
    {s : M.State} (hs : I s) (hfaithful : a.Faithful known) :
    (a.run data tracker).Safe C
      (fun v t => Answered I (.asking data known a) tracker s [v] t) s := by
  induction a generalizing known s with
  | answer v =>
      cases hfaithful with
      | answer hv => exact Proc.Safe.pure ⟨hs, [], .answer hv, (World.trackCells_nil _ _).symm⟩
  | get path next ih =>
      cases hfaithful with
      | get hnext =>
          refine (h.resolve hs (Path.parse path) data).bind fun u t ht => ?_
          refine (ih u ht.1 (hnext u)).mono fun v t' ht' => ?_
          obtain ⟨hI, cells, cells', hwalk, hasking, hworld⟩ := answered_append ht ht'
          exact ⟨hI, _, .question hwalk hasking, hworld⟩

mutual

/-- Evaluating a pure accessor. -/
theorem eval (h : Reads C I) (data : ObjectId) : ∀ (e : Expr) {s : M.State}, I s → e.Pure →
    (e.eval (.accessor data tracker)).Safe C
      (fun v t => Answered I (.value data e) tracker s [v] t) s
  | .const v, s, hs, hpure => by
      cases hpure with
      | const hv => exact Proc.Safe.pure ⟨hs, [], .const hv, (World.trackCells_nil _ _).symm⟩
  | .get path, s, hs, _ =>
      (h.resolve hs (Path.parse path) data).mono fun v t ht => by
        obtain ⟨hI, cells, hyields, hworld⟩ := ht
        exact ⟨hI, cells, .get hyields, hworld⟩
  | .concat parts, s, hs, hpure =>
      (evalAll h data parts hs (by cases hpure; assumption)).bind fun vs t ht => by
        obtain ⟨hI, cells, hyields, hworld⟩ := ht
        exact Proc.Safe.pure ⟨hI, cells, .concat hyields, hworld⟩
  | .sum parts, s, hs, hpure =>
      (evalAll h data parts hs (by cases hpure; assumption)).bind fun vs t ht => by
        obtain ⟨hI, cells, hyields, hworld⟩ := ht
        exact Proc.Safe.pure ⟨hI, cells, .sum hyields, hworld⟩
  | .same a b, s, hs, hpure =>
      (eval h data a hs (by cases hpure; assumption)).bind fun x t ht =>
        (eval h data b ht.1 (by cases hpure; assumption)).bind fun y u hu => by
          obtain ⟨hI, cells, cells', ha, hb, hworld⟩ := answered_append ht hu
          exact Proc.Safe.pure ⟨hI, _, .same ha hb, hworld⟩
  | .less a b, s, hs, hpure =>
      (eval h data a hs (by cases hpure; assumption)).bind fun x t ht =>
        (eval h data b ht.1 (by cases hpure; assumption)).bind fun y u hu => by
          obtain ⟨hI, cells, cells', ha, hb, hworld⟩ := answered_append ht hu
          exact Proc.Safe.pure ⟨hI, _, .less ha hb, hworld⟩
  | .choose condition yes no, s, hs, hpure =>
      (eval h data condition hs (by cases hpure; assumption)).bind fun c t ht => by
        by_cases hc : c = .bool true
        · rw [if_pos hc]
          refine (eval h data yes ht.1 (by cases hpure; assumption)).mono fun v u hu => ?_
          obtain ⟨hI, cells, cells', hcondition, hyes, hworld⟩ := answered_append ht hu
          exact ⟨hI, _, .choose hcondition (by rwa [if_pos hc]), hworld⟩
        · rw [if_neg hc]
          refine (eval h data no ht.1 (by cases hpure; assumption)).mono fun v u hu => ?_
          obtain ⟨hI, cells, cells', hcondition, hno, hworld⟩ := answered_append ht hu
          exact ⟨hI, _, .choose hcondition (by rwa [if_neg hc]), hworld⟩
  | .object name, _, _, hpure => by cases hpure
  | .fresh properties name, _, _, hpure => by cases hpure
  | .lookup object path, _, _, hpure => by cases hpure
  | .data, s, hs, _ => Proc.Safe.pure ⟨hs, [], .self, (World.trackCells_nil _ _).symm⟩
  | .asking questions, s, hs, hpure => by
      cases hpure with
      | asking hfaithful =>
          refine (h.asking data (questions data) hs (hfaithful data)).mono fun v t ht => ?_
          obtain ⟨hI, cells, hyields, hworld⟩ := ht
          exact ⟨hI, cells, .asking hyields, hworld⟩
  | .after steps result, _, _, hpure => by cases hpure
  | .given, _, _, hpure => by cases hpure
termination_by structural e => e

theorem evalAll (h : Reads C I) (data : ObjectId) : ∀ (es : List Expr) {s : M.State}, I s →
    (∀ e ∈ es, e.Pure) → (Expr.evalAll (.accessor data tracker) es).Safe C
      (fun vs t => Answered I (.values data es) tracker s vs t) s
  | [], s, hs, _ => Proc.Safe.pure ⟨hs, [], .nil, (World.trackCells_nil _ _).symm⟩
  | e :: es, s, hs, hpure =>
      (eval h data e hs (hpure e List.mem_cons_self)).bind fun v t ht =>
        (evalAll h data es ht.1 fun e he => hpure e (List.mem_cons_of_mem _ he)).bind
          fun vs u hu => by
            obtain ⟨hI, cells, cells', hv, hvs, hworld⟩ := answered_append ht hu
            exact Proc.Safe.pure ⟨hI, _, .cons hv hvs, hworld⟩
termination_by structural es => es

end

end Reads

/-! ## What is yielded is what a reading comes to -/

/-- Nothing but accessors was called. -/
def Silent (calls : List Call) : Prop :=
  ∀ c ∈ calls, ∃ data tracker body, c = .accessor data tracker body

theorem Silent.nil : Silent [] := fun _ h => absurd h List.not_mem_nil

theorem Silent.cons {calls : List Call} {data : ObjectId} {tracker : Option EvaluationId}
    {body : Expr} (h : Silent calls) : Silent (.accessor data tracker body :: calls) :=
  List.forall_mem_cons.2 ⟨⟨data, tracker, body, rfl⟩, h⟩

theorem Silent.append {calls calls' : List Call} (h : Silent calls) (h' : Silent calls') :
    Silent (calls ++ calls') := fun c hc =>
  (List.mem_append.1 hc).elim (h c) (h' c)

/-- A process that is over calls nothing. -/
theorem silently_done {α : Type} (w : World) (a : α) :
    ∃ calls, Silent calls ∧ Passes ⟨w, .done a⟩ calls ⟨w, .done a⟩ :=
  ⟨[], .nil, .here _⟩

/-- One process after another, both of which call nothing but accessors. -/
theorem silently_bind {α β : Type} {w w' w'' : World} {p : Proc α} {k : α → Proc β} {a : α} {b : β}
    (hp : ∃ calls, Silent calls ∧ Passes ⟨w, p⟩ calls ⟨w', .done a⟩)
    (hk : ∃ calls, Silent calls ∧ Passes ⟨w', k a⟩ calls ⟨w'', .done b⟩) :
    ∃ calls, Silent calls ∧ Passes ⟨w, p >>= k⟩ calls ⟨w'', .done b⟩ := by
  obtain ⟨calls, hsilent, hpasses⟩ := hp
  obtain ⟨calls', hsilent', hpasses'⟩ := hk
  exact ⟨calls ++ calls', hsilent.append hsilent', .bind hpasses hpasses'⟩

/-- The process of a query comes to some values. -/
def Query.Comes (tracker : Option EvaluationId) (w w' : World) : Query → List Value → Prop
  | .property id key, vs => ∃ v, vs = [v] ∧ ∃ calls, Silent calls ∧
      Passes ⟨w, readProperty id key tracker⟩ calls ⟨w', .done v⟩
  | .walk from_ keys, vs => ∃ v, vs = [v] ∧ ∃ calls, Silent calls ∧
      Passes ⟨w, DataBinding.walk tracker from_ keys⟩ calls ⟨w', .done v⟩
  | .value data e, vs => ∃ v, vs = [v] ∧ ∃ calls, Silent calls ∧
      Passes ⟨w, e.eval (.accessor data tracker)⟩ calls ⟨w', .done v⟩
  | .values data es, vs => ∃ calls, Silent calls ∧
      Passes ⟨w, Expr.evalAll (.accessor data tracker) es⟩ calls ⟨w', .done vs⟩
  | .asking data _ a, vs => ∃ v, vs = [v] ∧ ∃ calls, Silent calls ∧
      Passes ⟨w, a.run data tracker⟩ calls ⟨w', .done v⟩

/-- Noting a reading of a data property. -/
theorem passes_noteRead {w : World} (tracker : Option EvaluationId) {id : ObjectId}
    {key : String} {property : Property}
    (hslot : w.graph.slot? id key = some (.data property)) :
    Passes ⟨w, noteRead tracker property⟩ []
      ⟨w.trackCells tracker [(id, key)], .done ()⟩ := by
  have hdependency : w.graph.dependency? id key = property.dependency := by
    simp [Graph.dependency?, hslot]
  cases tracker with
  | none => exact .here _
  | some e =>
      unfold noteRead
      cases hd : property.dependency with
      | none =>
          rw [World.trackCells_of_plain (hdependency.trans hd)]
          exact .here _
      | some d =>
          rw [World.trackCells_of_reactive (hdependency.trans hd)]
          exact .modify _

section

variable {w w' : World} {tracker : Option EvaluationId} {id : ObjectId} {key : String}

/-- Reading a property that is not there. -/
theorem passes_readProperty_missing (h : w.graph.content (id, key) = none) :
    Passes ⟨w, readProperty id key tracker⟩ []
      ⟨w.trackCells tracker [(id, key)], .done .undefined⟩ := by
  rw [World.trackCells_of_missing h]
  refine .bind_nil (.ask _) ?_
  rw [Graph.slot?_of_content_none h]
  exact .here _

/-- Reading a data property. -/
theorem passes_readProperty_data {v : Value} (h : w.graph.content (id, key) = some (.inl v)) :
    Passes ⟨w, readProperty id key tracker⟩ [] ⟨w.trackCells tracker [(id, key)], .done v⟩ := by
  obtain ⟨property, hslot, rfl⟩ := Graph.slot?_of_content h
  refine .bind_nil (.ask _) ?_
  rw [hslot]
  exact .bind_nil (passes_noteRead tracker hslot) (.here _)

/-- Reading a computed property calls its accessor. -/
theorem passes_readProperty_computed {accessor : Expr} {v : Value} {cells : List Cell}
    {calls : List Call} (h : w.graph.content (id, key) = some (.inr accessor))
    (hpasses : Passes ⟨w, accessor.eval (.accessor id tracker)⟩ calls
      ⟨w.trackCells tracker cells, .done v⟩) :
    Passes ⟨w, readProperty id key tracker⟩ (.accessor id tracker accessor :: calls)
      ⟨w.trackCells tracker ((id, key) :: cells), .done v⟩ := by
  rw [World.trackCells_cons, World.trackCells_of_computed h]
  refine .bind_nil (.ask _) ?_
  rw [Graph.slot?_of_content_inr h]
  exact .perform hpasses

/-- A walk leaves the objects. -/
theorem passes_walk_leave {v : Value} {keys : List String} (h : v.object? = none) :
    Passes ⟨w, walk tracker v (key :: keys)⟩ [] ⟨w, .done .undefined⟩ := by
  cases v with
  | object id => simp [Value.object?] at h
  | _ => exact .here _

end

/-- What a query yields is what its process comes to, in every state with
such a graph; on the way it tracks the cells. -/
theorem Graph.Yields.comes {g : Graph} {q : Query} {vs : List Value} {cells : List Cell}
    (h : g.Yields q vs cells) (tracker : Option EvaluationId) {w : World}
    (hw : ∀ c, w.graph.content c = g.content c) :
    q.Comes tracker w (w.trackCells tracker cells) vs := by
  have htracked : ∀ {w : World} {cells : List Cell}, (∀ c, w.graph.content c = g.content c) →
      ∀ c, (w.trackCells tracker cells).graph.content c = g.content c := fun hw c => by
    rw [World.content_eq (World.objects_trackCells _ _ _), hw]
  induction h generalizing w with
  | missing hc => exact ⟨_, rfl, [], .nil, passes_readProperty_missing ((hw _).trans hc)⟩
  | data hc => exact ⟨_, rfl, [], .nil, passes_readProperty_data ((hw _).trans hc)⟩
  | computed hc _ ih =>
      obtain ⟨v, hv, calls, hsilent, hpasses⟩ := ih hw
      cases hv
      exact ⟨_, rfl, _, hsilent.cons, passes_readProperty_computed ((hw _).trans hc) hpasses⟩
  | stop =>
      rw [World.trackCells_nil]
      exact ⟨_, rfl, silently_done w _⟩
  | step _ _ ihp ihw =>
      obtain ⟨u, hu, hproperty⟩ := ihp hw
      cases hu
      obtain ⟨v, hv, hwalk⟩ := ihw (htracked hw)
      cases hv
      rw [World.trackCells_append]
      exact ⟨_, rfl, silently_bind hproperty hwalk⟩
  | leave hv =>
      rw [World.trackCells_nil]
      exact ⟨_, rfl, [], .nil, passes_walk_leave hv⟩
  | const =>
      rw [World.trackCells_nil]
      exact ⟨_, rfl, silently_done w _⟩
  | self =>
      rw [World.trackCells_nil]
      exact ⟨_, rfl, silently_done w _⟩
  | get _ ih =>
      obtain ⟨v, hv, hwalk⟩ := ih hw
      exact ⟨v, hv, hwalk⟩
  | asking _ ih =>
      obtain ⟨v, hv, hasking⟩ := ih hw
      exact ⟨v, hv, hasking⟩
  | concat _ ih => exact ⟨_, rfl, silently_bind (ih hw) (silently_done _ _)⟩
  | sum _ ih => exact ⟨_, rfl, silently_bind (ih hw) (silently_done _ _)⟩
  | same _ _ iha ihb =>
      obtain ⟨x, hx, hfirst⟩ := iha hw
      cases hx
      obtain ⟨y, hy, hsecond⟩ := ihb (htracked hw)
      cases hy
      rw [World.trackCells_append]
      exact ⟨_, rfl, silently_bind hfirst (silently_bind hsecond (silently_done _ _))⟩
  | less _ _ iha ihb =>
      obtain ⟨x, hx, hfirst⟩ := iha hw
      cases hx
      obtain ⟨y, hy, hsecond⟩ := ihb (htracked hw)
      cases hy
      rw [World.trackCells_append]
      exact ⟨_, rfl, silently_bind hfirst (silently_bind hsecond (silently_done _ _))⟩
  | @choose data condition yes no c v cells cells' _ _ ihc ihv =>
      obtain ⟨x, hx, hcondition⟩ := ihc hw
      cases hx
      obtain ⟨y, hy, hbranch⟩ := ihv (htracked hw)
      cases hy
      rw [World.trackCells_append]
      refine ⟨_, rfl, silently_bind hcondition ?_⟩
      by_cases hc : c = .bool true
      · rw [if_pos hc] at hbranch ⊢
        exact hbranch
      · rw [if_neg hc] at hbranch ⊢
        exact hbranch
  | nil =>
      rw [World.trackCells_nil]
      exact silently_done w _
  | cons _ _ ihv ihs =>
      obtain ⟨v, hv, hfirst⟩ := ihv hw
      cases hv
      rw [World.trackCells_append]
      exact silently_bind hfirst (silently_bind (ihs (htracked hw)) (silently_done _ _))
  | answer =>
      rw [World.trackCells_nil]
      exact ⟨_, rfl, silently_done w _⟩
  | question _ _ ihw iha =>
      obtain ⟨u, hu, hwalk⟩ := ihw hw
      cases hu
      obtain ⟨v, hv, hasking⟩ := iha (htracked hw)
      cases hv
      rw [World.trackCells_append]
      exact ⟨_, rfl, silently_bind hwalk hasking⟩

end DataBinding
