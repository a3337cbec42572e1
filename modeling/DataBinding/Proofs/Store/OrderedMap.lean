import DataBinding.Proofs.Resolution.Assigning
import DataBinding.Proofs.Store.Closure

/-!
# Objects are ordered maps

An object against what was done to it. `Performs` is a run of operations
on any objects, one after the other: writes, accessors that are installed,
observations and reads. `objects_are_ordered_maps` says what an object then
is: its keys are in the order in which they first came in, a data property
holds the last value that was written, an accessor is there to stay, and so
is a dependency up to where an accessor takes its place.

Client code is on the way, as a write tells subscribers and a read calls
accessors. What it may do to the objects is `Spares`: nothing but create
objects, and dependencies for the properties that are there. So an
operation is what it does at once (`StoreAction.apply`), up to `Spares`
(`StoreAction.spares`), and a run of operations on a state is one on its
graph (`Performs.follows`). What an object is after it is by induction on
that (`Follows.keys`, `Follows.data`, `Follows.computed`,
`Follows.dependency?`).
-/

namespace DataBinding

open World

/-! ## Keys in the order of insertion -/

theorem eraseDups_of_nodup {keys : List String} (h : keys.Nodup) : keys.eraseDups = keys := by
  induction keys with
  | nil => rfl
  | cons key keys ih =>
      obtain ⟨hkey, hrest⟩ := List.nodup_cons.1 h
      have hfilter : keys.filter (fun other => !other == key) = keys :=
        List.filter_eq_self.2 fun other hother => by
          simpa using fun heq : other = key => hkey (heq ▸ hother)
      rw [List.eraseDups_cons, hfilter, ih hrest]

/-- A key comes in behind those that are there. -/
theorem eraseDups_concat (keys : List String) (key : String) :
    (keys ++ [key]).eraseDups =
      if key ∈ keys.eraseDups then keys.eraseDups else keys.eraseDups ++ [key] := by
  rw [List.eraseDups_append]
  by_cases hkey : key ∈ keys <;> simp [List.removeAll, hkey, List.eraseDups_cons]

theorem Keyed.contains_iff {β : Type} {c : Keyed β} {key : String} :
    c.contains key = true ↔ key ∈ c.keys := by
  rw [Keyed.contains, Option.isSome_iff_ne_none, ne_eq, Keyed.find?_eq_none, Decidable.not_not]

namespace Graph

variable {g g' g'' : Graph} {among among' : ObjectId → Prop} {id other : ObjectId} {key : String}

theorem keys_putSlot (hid : id < g.objects.length) (key : String) (slot : Slot) :
    (g.putSlot id key slot).keys id =
      if key ∈ g.keys id then g.keys id else g.keys id ++ [key] := by
  rw [keys, slots_putSlot g hid, if_pos rfl, Keyed.keys_put]
  rfl

theorem keys_putSlot_of_ne (h : other ≠ id) (key : String) (slot : Slot) :
    (g.putSlot id key slot).keys other = g.keys other := by
  by_cases hid : id < g.objects.length
  · rw [keys, slots_putSlot g hid, if_neg h]
    rfl
  · rw [putSlot, List.modify_eq_self (Nat.le_of_not_lt hid)]

/-- A slot is under its key. -/
theorem mem_keys_of_slot? {slot : Slot} (h : g.slot? id key = some slot) : key ∈ g.keys id := by
  refine Decidable.by_contra fun hkey => ?_
  rw [slot?, Keyed.find?_eq_none.2 hkey] at h
  cases h

/-- A write is seen as a slot that is put in, or nothing at all where the
key is there. -/
theorem fill_cases (g : Graph) (id : ObjectId) (key : String) (value : Value) :
    (∃ slot, g.fill id (key, value) = g.putSlot id key slot) ∨
      key ∈ g.keys id ∧ g.fill id (key, value) = g := by
  rcases hslot : g.slot? id key with _ | property | accessor
  · exact .inl ⟨.data ⟨value, none⟩, by simp only [fill, store, hslot]⟩
  · by_cases hsame : property.value.same value = true
    · exact .inr ⟨mem_keys_of_slot? hslot, by simp only [fill, hslot, hsame, if_true]⟩
    · exact .inl ⟨.data { property with value }, by simp only [fill, store, hslot, if_neg hsame]⟩
  · exact .inr ⟨mem_keys_of_slot? hslot, by simp only [fill, store, hslot]⟩

/-! ## Objects that are spared -/

/-- A data property has got a dependency. -/
def Gains (g g' : Graph) (id : ObjectId) (key : String) : Prop :=
  ∃ value d, g.slot? id key = some (.data ⟨value, none⟩) ∧
    g'.slot? id key = some (.data ⟨value, some d⟩)

/-- The objects are as they were, up to dependencies for the properties of
some of them. There may be more objects than before. -/
structure Spares (among : ObjectId → Prop) (g g' : Graph) : Prop where
  objects : g.objects.length ≤ g'.objects.length
  keys : ∀ {id}, id < g.objects.length → g'.keys id = g.keys id
  slot? : ∀ {id}, id < g.objects.length → ∀ key,
    g'.slot? id key = g.slot? id key ∨ among id ∧ g.Gains g' id key
  distinct : g.Distinct → g'.Distinct

namespace Spares

theorem of_objects (h : g'.objects = g.objects) : g.Spares among g' where
  objects := Nat.le_of_eq (congrArg List.length h.symm)
  keys _ := by rw [Graph.keys, Graph.keys, slots, slots, h]
  slot? _ key := .inl (slot?_eq h _ key)
  distinct hg := hg.of_objects h

theorem mono (h : g.Spares among g') (hsub : ∀ i, among i → among' i) : g.Spares among' g' where
  objects := h.objects
  keys := h.keys
  slot? hid key := (h.slot? hid key).imp_right fun hgains => ⟨hsub _ hgains.1, hgains.2⟩
  distinct := h.distinct

theorem trans (h : g.Spares among g') (h' : g'.Spares among g'') : g.Spares among g'' where
  objects := Nat.le_trans h.objects h'.objects
  keys hid := (h'.keys (Nat.lt_of_lt_of_le hid h.objects)).trans (h.keys hid)
  slot? {id} hid key := by
    have hid' := Nat.lt_of_lt_of_le hid h.objects
    rcases h.slot? hid key with hsame | ⟨hamong, value, d, hold, hnew⟩
    · rcases h'.slot? hid' key with hsame' | ⟨hamong, value, d, hold, hnew⟩
      · exact .inl (hsame'.trans hsame)
      · exact .inr ⟨hamong, value, d, hsame ▸ hold, hnew⟩
    · rcases h'.slot? hid' key with hsame' | ⟨-, value', d', hold', -⟩
      · exact .inr ⟨hamong, value, d, hold, hsame'.trans hnew⟩
      · cases hnew.symm.trans hold'
  distinct hg := h'.distinct (h.distinct hg)

theorem content (h : g.Spares among g') (hid : id < g.objects.length) (key : String) :
    g'.content (id, key) = g.content (id, key) := by
  rcases h.slot? hid key with hsame | ⟨-, value, d, hold, hnew⟩
  · rw [Graph.content, Graph.content, hsame]
  · rw [Graph.content, Graph.content, hold, hnew]
    rfl

theorem dependency? (h : g.Spares among g') {d : DependencyId}
    (hd : g.dependency? id key = some d) : g'.dependency? id key = some d := by
  obtain ⟨value, hslot⟩ := dependency?_eq_some.1 hd
  rcases h.slot? (lt_of_slot? hslot) key with hsame | ⟨-, value', d', hold, -⟩
  · exact dependency?_eq_some.2 ⟨value, hsame.trans hslot⟩
  · cases hslot.symm.trans hold

/-- What was reachable still is. -/
theorem leads (h : g.Spares among g') {base : ObjectId → Prop} {j : ObjectId}
    (hj : g.Leads base j) : g'.Leads base j :=
  hj.least (fun _ key _ hi hheld => .step hi ((h.content (lt_of_content hheld) key).trans hheld))
    fun _ => .base

end Spares

theorem spares_observe (hg : g.Distinct) (v : Value) :
    g.Spares (g.Leads fun i => v = .object i) (g.observe v) where
  objects := Nat.le_of_eq (observed_observe g v).objects.symm
  keys _ := keys_foldl_makeReactive _ g _
  slot? {id} _ key := by
    by_cases hid : g.Leads (fun i => v = .object i) id
    · rcases (observed_observe g v).slot? id key with hsame | ⟨value, d, hold, hnew, -⟩
      · exact .inl hsame
      · exact .inr ⟨hid, value, d, hold, hnew⟩
    · rw [Graph.slot?, slots_observe hg hid]
      exact .inl rfl
  distinct _ id := by
    rw [Graph.observe, keys_foldl_makeReactive]
    exact hg id

end Graph

/-! ## Client code that spares -/

section

variable {α : Type} {among : ObjectId → Prop} {w w' : World}

/-- The client code that a run calls spares the objects: it is accessors
without effect, and subscribers that do not write. They may make properties
reactive, of some objects. -/
def ClientSpares (among : ObjectId → Prop) (c : Config α) : Prop :=
  Along (fun w call => call.isClient = true → ∀ answer w',
    Reaches ⟨w, call.body⟩ ⟨w', .done answer⟩ → w.graph.Spares among w'.graph) c

/-- A run that comes to an end can be gone through. Client code that does
nothing spares all objects. -/
theorem ClientSpares.of_run (fuel : Nat) {c : Config α} (hend : (c.advance fuel).tick.isNone)
    (h : ∀ n < fuel, (c.advance n).calls.all fun call => !call.isClient || call.isIdle) :
    ClientSpares among c := by
  refine Along.of_run fuel (Option.isNone_iff_eq_none.1 hend)
    fun n hn call hcall hclient answer w' hrun => ?_
  have hidle := List.all_eq_true.1 (h n hn) call hcall
  rw [hclient] at hidle
  exact .of_objects (congrArg Graph.objects (Call.graph_of_isIdle hidle hrun))

/-- What spares the objects up to client code spares them. -/
theorem Proc.Sparing.spares {p : Proc α} {a : α} (h : p.Sparing w)
    (hclient : ClientSpares among ⟨w, p⟩) (hrun : Reaches ⟨w, p⟩ ⟨w', .done a⟩) :
    w.graph.Spares among w'.graph :=
  h.keeps (R := fun w w' => w.graph.Spares among w'.graph) .of_objects .trans
    (fun u call next hcall hc => hclient u call next hcall hc.isClient) hrun

end

/-! ## Operations -/

/-- What is done to objects. -/
inductive StoreAction
  /-- Writes a property. -/
  | set (id : ObjectId) (key : String) (value : Value)
  /-- Installs an accessor. -/
  | define (id : ObjectId) (key : String) (accessor : Expr)
  /-- Makes reactive what a value leads to. -/
  | observe (value : Value)
  /-- Reads a property, perhaps for an evaluation. -/
  | read (id : ObjectId) (key : String) (tracker : Option EvaluationId)

namespace StoreAction

variable {op : StoreAction} {g : Graph} {id : ObjectId} {key : String} {among : ObjectId → Prop}
  {u v : World}

/-- The operation, with its result left out. -/
def proc : StoreAction → Proc Unit
  | set id key value => setProperty id key value
  | define id key accessor => Proc.modify (·.onGraph (·.define id key accessor))
  | observe value => Proc.modify (·.onGraph (·.observe value))
  | read id key tracker => readProperty id key tracker >>= fun _ => pure ()

/-- The one slot that the operation is about. -/
def cell? : StoreAction → Option Cell
  | set id key _ | define id key _ => some (id, key)
  | observe _ | read .. => none

/-- The key that the operation writes, in an object. -/
def keyIn (id : ObjectId) (op : StoreAction) : Option String :=
  op.cell?.bind fun c => if c.1 = id then some c.2 else none

/-- The value that the operation writes, in a slot. -/
def written (c : Cell) : StoreAction → Option Value
  | set id key value => if (id, key) = c then some value else none
  | _ => none

/-- What is reachable from the value that the operation is given. -/
def reached (g : Graph) : StoreAction → ObjectId → Prop
  | set _ _ value | observe value => g.Leads fun i => value = .object i
  | define .. | read .. => fun _ => False

/-- The objects after the operation, up to new dependencies. -/
def apply (g : Graph) : StoreAction → Graph
  | set id key value => g.fill id (key, value)
  | define id key accessor => g.define id key accessor
  | observe _ | read .. => g

/-! ### What it does at once -/

/-- It puts a slot in, or does nothing, and then the key is there already. -/
theorem apply_cases (g : Graph) (op : StoreAction) :
    (∃ id key slot, op.cell? = some (id, key) ∧ op.apply g = g.putSlot id key slot) ∨
      (∀ id key, op.cell? = some (id, key) → key ∈ g.keys id) ∧ op.apply g = g := by
  cases op with
  | set id key value =>
      rcases g.fill_cases id key value with ⟨slot, hfill⟩ | ⟨hkey, hfill⟩
      · exact .inl ⟨id, key, slot, rfl, hfill⟩
      · refine .inr ⟨?_, hfill⟩
        rintro _ _ ⟨⟩
        exact hkey
  | define id key accessor => exact .inl ⟨id, key, .computed accessor, rfl, rfl⟩
  | _ => exact .inr ⟨nofun, rfl⟩

@[simp] theorem objects_apply (g : Graph) (op : StoreAction) :
    (op.apply g).objects.length = g.objects.length := by
  rcases op.apply_cases g with ⟨id, key, slot, -, happly⟩ | ⟨-, happly⟩
  · rw [happly, Graph.putSlot, List.length_modify]
  · rw [happly]

theorem distinct_apply (h : g.Distinct) (op : StoreAction) : (op.apply g).Distinct := by
  rcases op.apply_cases g with ⟨id, key, slot, -, happly⟩ | ⟨-, happly⟩
  · rw [happly]
    exact h.putSlot id key slot
  · rwa [happly]

/-- A new key goes to the end. -/
theorem keys_apply (hid : id < g.objects.length) (op : StoreAction) :
    (op.apply g).keys id = (op.keyIn id).elim (g.keys id) fun key =>
      if key ∈ g.keys id then g.keys id else g.keys id ++ [key] := by
  rcases op.apply_cases g with ⟨other, key, slot, hcell, happly⟩ | ⟨hkeys, happly⟩
  · rw [happly, keyIn, hcell]
    by_cases hother : other = id
    · subst hother
      simp [Graph.keys_putSlot hid]
    · simp [hother, Graph.keys_putSlot_of_ne (Ne.symm hother)]
  · rw [happly, keyIn]
    cases hcell : op.cell? with
    | none => rfl
    | some c =>
        obtain ⟨other, key⟩ := c
        by_cases hother : other = id
        · subst hother
          simp [hkeys _ _ hcell]
        · simp [hother]

/-- All other slots are left alone. -/
theorem slot?_apply (h : op.cell? ≠ some (id, key)) :
    (op.apply g).slot? id key = g.slot? id key := by
  rcases op.apply_cases g with ⟨other, otherKey, slot, hcell, happly⟩ | ⟨-, happly⟩
  · rw [happly, Graph.slot?_putSlot_eq, if_neg]
    rintro ⟨rfl, rfl, -⟩
    exact h hcell
  · rw [happly]

theorem content_apply_of_ne (h : op.cell? ≠ some (id, key)) :
    (op.apply g).content (id, key) = g.content (id, key) := by
  rw [Graph.content, Graph.content, slot?_apply h]

theorem content_define (hid : id < g.objects.length) (accessor : Expr) :
    ((define id key accessor).apply g).content (id, key) = some (.inr accessor) := by
  rw [apply, Graph.define, Graph.content, Graph.slot?_putSlot_eq, if_pos ⟨rfl, rfl, hid⟩]
  rfl

/-- What is computed stays computed. -/
theorem computed_apply {accessor : Expr} (h : g.content (id, key) = some (.inr accessor))
    (op : StoreAction) : ∃ last, (op.apply g).content (id, key) = some (.inr last) := by
  by_cases hcell : op.cell? = some (id, key)
  · have hid := Graph.lt_of_content h
    cases op with
    | set _ _ value =>
        cases hcell
        refine ⟨accessor, ?_⟩
        rw [apply, Graph.content_fill, if_pos ⟨rfl, hid⟩, h]
        rfl
    | define _ _ last =>
        cases hcell
        exact ⟨last, content_define hid last⟩
    | _ => cases hcell
  · exact ⟨accessor, (content_apply_of_ne hcell).trans h⟩

/-- What is a data property afterwards holds the value that was written,
or else what it held before. -/
theorem data_apply (hid : id < g.objects.length) {value : Value}
    (h : (op.apply g).content (id, key) = some (.inl value)) :
    (op.written (id, key)).elim (g.content (id, key) = some (.inl value)) value.Agrees := by
  by_cases hcell : op.cell? = some (id, key)
  · cases op with
    | set _ _ last =>
        cases hcell
        rw [apply, Graph.content_fill, if_pos ⟨rfl, hid⟩] at h
        -- an accessor would still be there
        have hdata : ∀ accessor, g.content (id, key) ≠ some (.inr accessor) := by
          intro accessor hheld
          rw [hheld] at h
          cases h
        obtain ⟨u, hfilled, hagrees⟩ :
            ∃ u, Graph.filled last (g.content (id, key)) = .inl u ∧ u.Agrees last :=
          Graph.filled_agrees hdata
        rw [hfilled] at h
        cases h
        simpa [written] using hagrees
    | define _ _ accessor =>
        cases hcell
        cases (content_define hid accessor).symm.trans h
    | _ => cases hcell
  · have hnone : op.written (id, key) = none := by
      cases op with
      | set => exact if_neg fun heq => hcell (congrArg some heq)
      | _ => rfl
    rw [hnone]
    exact (content_apply_of_ne hcell).symm.trans h

/-- A dependency stays where no accessor is installed. -/
theorem dependency?_apply {d : DependencyId} (hop : ∀ accessor, op ≠ define id key accessor)
    (h : g.dependency? id key = some d) : (op.apply g).dependency? id key = some d := by
  cases op with
  | set other otherKey value =>
      rw [apply, Graph.dependency?_fill]
      exact h
  | define other otherKey accessor =>
      have hcell : (define other otherKey accessor).cell? ≠ some (id, key) := by
        rintro ⟨⟩
        exact hop accessor rfl
      rw [Graph.dependency?, slot?_apply hcell]
      exact h
  | _ => exact h

/-! ### What it does in all -/

/-- An operation that has come to its end did what it does at once, and then
gave dependencies to what is reachable from its value. -/
theorem spares (hu : u.graph.Distinct) (hclient : ClientSpares among ⟨u, op.proc⟩)
    (hrun : Reaches ⟨u, op.proc⟩ ⟨v, .done ()⟩) :
    (op.apply u.graph).Spares (fun i => op.reached v.graph i ∨ among i) v.graph := by
  cases op with
  | set id key value =>
      obtain ⟨t, q, hpasses, ht, hq⟩ := setProperty_fills u id key value
      have hrest : t.graph.Spares among v.graph :=
        hq.spares (Along.of_reaches hclient hpasses.reaches) (Reaches.through hpasses hrun rfl)
      rcases ht with rfl | rfl
      · exact hrest.mono fun _ => .inr
      · let g := u.graph.fill id (key, value)
        have hobserved : g.Spares (fun i => g.Leads (fun i => value = .object i) i ∨ among i)
            (g.observe value) :=
          (Graph.spares_observe (hu.fill id (key, value)) value).mono fun _ => .inl
        -- reachable when it was observed, so reachable when the subscribers were told
        have hwhole := hobserved.trans (hrest.mono fun _ => .inr)
        exact hwhole.mono fun i => Or.imp_left hwhole.leads
  | define id key accessor =>
      obtain ⟨rfl, -⟩ := Reaches.result (.modify _) hrun
      exact .of_objects rfl
  | observe value =>
      obtain ⟨rfl, -⟩ := Reaches.result (.modify _) hrun
      have hobserved := Graph.spares_observe hu value
      exact hobserved.mono fun i hi => .inl (hobserved.leads hi)
  | read id key tracker =>
      have hsparing := (sparing_readProperty (w := u) id key tracker).bind fun _ _ => .done ()
      exact (hsparing.spares hclient hrun).mono fun _ => .inr

/-- An operation comes to its end as soon as client code comes back. -/
theorem returns (hback : ComesBack ⟨u, op.proc⟩) : op.proc.Returns u fun _ _ => True := by
  cases op with
  | set id key value => exact ComesBack.setProperty hback
  | define id key accessor => exact .of_passes (.modify _) trivial
  | observe value => exact .of_passes (.modify _) trivial
  | read id key tracker =>
      exact ((sparing_readProperty id key tracker).bind fun _ _ => .done ()).returns hback

end StoreAction

/-! ## Runs of operations -/

/-- The keys that operations write in an object, one after the other. -/
def keysIn (ops : List StoreAction) (id : ObjectId) : List String :=
  ops.filterMap (StoreAction.keyIn id)

/-- The last value that operations write in a slot. -/
def lastWritten (ops : List StoreAction) (c : Cell) : Option Value :=
  (ops.filterMap (StoreAction.written c)).getLast?

/-- An accessor is installed among the operations. -/
def Defines (ops : List StoreAction) (id : ObjectId) (key : String) : Prop :=
  ∃ accessor, .define id key accessor ∈ ops

theorem keysIn_concat (ops : List StoreAction) (op : StoreAction) (id : ObjectId) :
    keysIn (ops ++ [op]) id = keysIn ops id ++ (op.keyIn id).toList := by
  rw [keysIn, List.filterMap_append]
  cases hkey : op.keyIn id <;> simp [keysIn, hkey]

theorem lastWritten_concat (ops : List StoreAction) (op : StoreAction) (c : Cell) :
    lastWritten (ops ++ [op]) c = (op.written c).or (lastWritten ops c) := by
  rw [lastWritten, List.filterMap_append]
  cases hwritten : op.written c <;> simp [lastWritten, hwritten]

/-- The objects after some operations, each of them up to client code. -/
inductive Graph.Follows (g : Graph) : List StoreAction → Graph → Prop
  | nil : g.Follows [] g
  | snoc {ops : List StoreAction} {op : StoreAction} {h h' : Graph} : g.Follows ops h →
      (op.apply h).Spares (fun _ => True) h' → g.Follows (ops ++ [op]) h'

namespace Graph.Follows

variable {g g' : Graph} {ops : List StoreAction} {id : ObjectId} {key : String}

theorem objects (h : g.Follows ops g') : g.objects.length ≤ g'.objects.length := by
  induction h with
  | nil => exact Nat.le_refl _
  | @snoc ops op _ _ _ hspares ih => exact Nat.le_trans (by simpa using ih) hspares.objects

theorem distinct (hg : g.Distinct) (h : g.Follows ops g') : g'.Distinct := by
  induction h with
  | nil => exact hg
  | @snoc ops op _ _ _ hspares ih => exact hspares.distinct (StoreAction.distinct_apply ih op)

/-- An object that was there at first is there before each operation. -/
theorem lt_apply (h : g.Follows ops g') (hid : id < g.objects.length) (op : StoreAction) :
    id < (op.apply g').objects.length := by
  rw [StoreAction.objects_apply]
  exact Nat.lt_of_lt_of_le hid h.objects

theorem keys (hg : g.Distinct) (hid : id < g.objects.length) (h : g.Follows ops g') :
    g'.keys id = (g.keys id ++ keysIn ops id).eraseDups := by
  induction h with
  | nil => rw [keysIn, List.filterMap_nil, List.append_nil, eraseDups_of_nodup (hg id)]
  | @snoc ops op m m' hops hspares ih =>
      have hm := Nat.lt_of_lt_of_le hid hops.objects
      rw [hspares.keys (hops.lt_apply hid op), StoreAction.keys_apply hm, ih, keysIn_concat]
      cases op.keyIn id with
      | none => simp
      | some key => simp [← List.append_assoc, eraseDups_concat]

/-- A data property holds the last value that was written, or else what it
held at first. -/
theorem data (hid : id < g.objects.length) (h : g.Follows ops g') {value : Value}
    (hheld : g'.content (id, key) = some (.inl value)) :
    (lastWritten ops (id, key)).elim (g.content (id, key) = some (.inl value)) value.Agrees := by
  induction h generalizing value with
  | nil => exact hheld
  | @snoc ops op m m' hops hspares ih =>
      rw [hspares.content (hops.lt_apply hid op)] at hheld
      have hdata := StoreAction.data_apply (Nat.lt_of_lt_of_le hid hops.objects) hheld
      rw [lastWritten_concat]
      cases hwritten : op.written (id, key) with
      | none => exact ih (by simpa [hwritten] using hdata)
      | some last => simpa [hwritten] using hdata

/-- Where an accessor was installed, there is one. -/
theorem computed (hid : id < g.objects.length) (h : g.Follows ops g') (hops : Defines ops id key) :
    ∃ accessor, g'.content (id, key) = some (.inr accessor) := by
  obtain ⟨accessor, hops⟩ := hops
  induction h with
  | nil => cases hops
  | @snoc ops op m m' hbefore hspares ih =>
      rw [hspares.content (hbefore.lt_apply hid op)]
      rcases List.mem_append.1 hops with hops | hop
      · obtain ⟨last, hlast⟩ := ih hops
        exact StoreAction.computed_apply hlast op
      · obtain rfl := List.mem_singleton.1 hop
        have hm := Nat.lt_of_lt_of_le hid hbefore.objects
        exact ⟨accessor, StoreAction.content_define hm accessor⟩

/-- A dependency stays where no accessor was installed. -/
theorem dependency? (h : g.Follows ops g') {d : DependencyId}
    (hd : g.dependency? id key = some d) (hops : ¬ Defines ops id key) :
    g'.dependency? id key = some d := by
  induction h with
  | nil => exact hd
  | @snoc ops op m m' _ hspares ih =>
      have hbefore : ¬ Defines ops id key := fun ⟨accessor, hmem⟩ =>
        hops ⟨accessor, List.mem_append_left _ hmem⟩
      refine hspares.dependency? (StoreAction.dependency?_apply (fun accessor hop => ?_) (ih hbefore))
      exact hops ⟨accessor, List.mem_append_right ops (List.mem_singleton.2 hop.symm)⟩

end Graph.Follows

/-- Operations one after the other, each gone to its end, with client code
that spares the objects. -/
inductive Performs (w : World) : List StoreAction → World → Prop
  | nil : Performs w [] w
  | snoc {ops : List StoreAction} {op : StoreAction} {u v : World} : Performs w ops u →
      ClientSpares (fun _ => True) ⟨u, op.proc⟩ → Reaches ⟨u, op.proc⟩ ⟨v, .done ()⟩ →
      Performs w (ops ++ [op]) v

theorem Performs.follows {w v : World} {ops : List StoreAction} (hw : w.graph.Distinct)
    (h : Performs w ops v) : w.graph.Follows ops v.graph := by
  induction h with
  | nil => exact .nil
  | snoc _ hclient hrun ih =>
      have hspares := StoreAction.spares (ih.distinct hw) hclient hrun
      exact .snoc ih (hspares.mono fun _ _ => trivial)

/-! ## The ordered map -/

theorem passes_setProperty_computed {w : World} {id : ObjectId} {key : String} {accessor : Expr}
    (h : w.graph.content (id, key) = some (.inr accessor)) (value : Value) :
    Passes ⟨w, setProperty id key value⟩ [] ⟨w, .done ()⟩ := by
  refine .bind_nil (.ask _) ?_
  rw [Graph.slot?_of_content_inr h]
  exact .here _

/-- What an object is after some operations, against what it was before. -/
structure OrderedMap (w : World) (ops : List StoreAction) (v : World) (id : ObjectId) : Prop where
  /-- The keys are in the order in which they first came in. -/
  keys : v.graph.keys id = (w.graph.keys id ++ keysIn ops id).eraseDups
  nodup : (v.graph.keys id).Nodup
  length : (v.graph.slots id).entries.length = (v.graph.keys id).length
  contains : ∀ key, (v.graph.slots id).contains key = true ↔ key ∈ v.graph.keys id
  /-- A data property is read as the last value that was written. -/
  data : ∀ key property, v.graph.slot? id key = some (.data property) →
    Passes ⟨v, readProperty id key none⟩ [] ⟨v, .done property.value⟩ ∧
      match lastWritten ops (id, key) with
      | some last => property.value.Agrees last
      | none => w.graph.content (id, key) = some (.inl property.value)
  /-- Once an accessor was installed, writes change nothing. -/
  computed : ∀ key, Defines ops id key → ∀ value,
    Passes ⟨v, setProperty id key value⟩ [] ⟨v, .done ()⟩
  /-- Until an accessor is installed, a dependency stays. -/
  dependency : ∀ key d, w.graph.dependency? id key = some d → ¬ Defines ops id key →
    v.graph.dependency? id key = some d

theorem Graph.Follows.orderedMap {w v : World} {ops : List StoreAction} {id : ObjectId}
    (hw : w.graph.Distinct) (hid : id < w.graph.objects.length)
    (h : w.graph.Follows ops v.graph) : OrderedMap w ops v id where
  keys := h.keys hw hid
  nodup := h.distinct hw id
  length := by rw [Graph.keys, Keyed.keys, List.length_map]
  contains _ := Keyed.contains_iff
  data key property hslot := by
    have hheld : v.graph.content (id, key) = some (.inl property.value) := by
      simp [Graph.content, hslot]
    refine ⟨passes_readProperty_data hheld, ?_⟩
    have hdata := h.data hid hheld
    split
    · rename_i last hlast
      rwa [hlast] at hdata
    · rename_i hnone
      rwa [hnone] at hdata
  computed key hops value := by
    obtain ⟨accessor, hheld⟩ := h.computed hid hops
    exact passes_setProperty_computed hheld value
  dependency _ _ hd hops := h.dependency? hd hops

/-- Objects are ordered maps with dependencies that stay, whatever is done
to them with accessors that have no effect and subscribers that do not
write. There may always be one more operation, and it changes no slot but
the one that it is about; other properties get at most dependencies, those
of objects that are reachable from the value, and those that subscribers
observe. The run may start in any state that scripts come to
(`Reachable.distinct`). -/
theorem objects_are_ordered_maps {w v : World} {ops : List StoreAction} (hw : w.graph.Distinct)
    (h : Performs w ops v) :
    (∀ id < w.graph.objects.length, OrderedMap w ops v id) ∧
    (∀ op : StoreAction, ComesBack ⟨v, op.proc⟩ → op.proc.Returns v fun _ _ => True) ∧
    ∀ (among : ObjectId → Prop) (op : StoreAction) (u : World),
      ClientSpares among ⟨v, op.proc⟩ → Reaches ⟨v, op.proc⟩ ⟨u, .done ()⟩ →
      ∀ id < v.graph.objects.length, ∀ key, op.cell? ≠ some (id, key) →
        u.graph.slot? id key = v.graph.slot? id key ∨
          (op.reached u.graph id ∨ among id) ∧ v.graph.Gains u.graph id key := by
  have hfollows := h.follows hw
  refine ⟨fun id hid => hfollows.orderedMap hw hid, fun op => StoreAction.returns, ?_⟩
  intro among op u hclient hrun id hid key hcell
  have hspares := StoreAction.spares (hfollows.distinct hw) hclient hrun
  have hgains := hspares.slot? (by rwa [StoreAction.objects_apply]) key
  rwa [StoreAction.slot?_apply hcell, Graph.Gains, StoreAction.slot?_apply hcell] at hgains

/-- One more operation that can be gone through, with client code that does
nothing. -/
theorem Performs.of_run (fuel : Nat) {w u : World} {ops : List StoreAction} (op : StoreAction)
    (h : Performs w ops u)
    (hdone : ((⟨u, op.proc⟩ : Config Unit).advance fuel).returned? = some ())
    (hend : ((⟨u, op.proc⟩ : Config Unit).advance fuel).tick.isNone)
    (hidle : ∀ n < fuel, ((⟨u, op.proc⟩ : Config Unit).advance n).calls.all fun call =>
      !call.isClient || call.isIdle) :
    Performs w (ops ++ [op]) ((⟨u, op.proc⟩ : Config Unit).advance fuel).world :=
  h.snoc (.of_run fuel hend hidle) (Config.reaches_of_returned fuel hdone)

/-- A book with a title that is listened to, and its author. -/
def shelf : World :=
  { World.start with
    graph := ⟨[⟨[("title", .data ⟨.string "Emma", some 0⟩), ("author", .data ⟨.object 1, none⟩)]⟩,
      ⟨[("name", .data ⟨.string "Jane", none⟩)]⟩], [[.client 0]]⟩
    clients := [⟨"c", [], 1⟩] }

theorem shelf_distinct : shelf.graph.Distinct :=
  Graph.distinct_of_lt (by decide)

/-- The title becomes the author, who is an object that another property
holds too. Then an accessor takes the place of this property, is written to
in vain and read, and a new key comes in. -/
theorem objects_are_ordered_maps_of_shelf :
    shelf.graph.Distinct ∧
    (∃ v, Performs shelf [.set 0 "title" (.object 1), .define 0 "author" (.const .null),
        .set 0 "author" (.bool true), .read 0 "author" none, .set 0 "year" (.bool false)] v ∧
      v.graph.keys 0 = ["title", "author", "year"] ∧
      Passes ⟨v, readProperty 0 "title" none⟩ [] ⟨v, .done (.object 1)⟩ ∧
      Passes ⟨v, setProperty 0 "author" (.bool true)⟩ [] ⟨v, .done ()⟩ ∧
      v.graph.dependency? 0 "title" = some 0) ∧
    ∃ v, Reaches ⟨shelf, setProperty 0 "title" (.object 1)⟩ ⟨v, .done ()⟩ ∧
      v.graph.Leads (fun i => Value.object 1 = .object i) 1 ∧
      shelf.graph.Gains v.graph 1 "name" := by
  have hset : Performs shelf [.set 0 "title" (.object 1)] _ := .of_run 30 _ .nil
    (by decide +kernel) (by decide +kernel) (by decide +kernel)
  have hdefine := hset.of_run 30 (.define 0 "author" (.const .null))
    (by decide +kernel) (by decide +kernel) (by decide +kernel)
  have hvain := hdefine.of_run 30 (.set 0 "author" (.bool true))
    (by decide +kernel) (by decide +kernel) (by decide +kernel)
  have hread := hvain.of_run 30 (.read 0 "author" none)
    (by decide +kernel) (by decide +kernel) (by decide +kernel)
  have hall := hread.of_run 30 (.set 0 "year" (.bool false))
    (by decide +kernel) (by decide +kernel) (by decide +kernel)
  obtain ⟨hmaps, -, -⟩ := objects_are_ordered_maps shelf_distinct hall
  obtain ⟨hkeys, -, -, -, hdata, hcomputed, hdependency⟩ := hmaps 0 (by decide)
  have htitle : shelf.graph.dependency? 0 "title" = some 0 := rfl
  refine ⟨shelf_distinct, ⟨_, hall, hkeys, ?_, ?_, ?_⟩, ?_⟩
  · exact (hdata "title" ⟨.object 1, some 0⟩ (by rfl)).1
  · exact hcomputed "author" ⟨.const .null, by simp⟩ (.bool true)
  · exact hdependency "title" 0 htitle (by simp [Defines])
  · obtain ⟨-, -, hframe⟩ := objects_are_ordered_maps shelf_distinct .nil
    let c : Config Unit := ⟨shelf, setProperty 0 "title" (.object 1)⟩
    have hrun : Reaches c ⟨(c.advance 30).world, .done ()⟩ :=
      Config.reaches_of_returned 30 (by decide +kernel)
    have hclient : ClientSpares (fun _ => False) c :=
      .of_run 30 (by decide +kernel) (by decide +kernel)
    have hname : (c.advance 30).world.graph.dependency? 1 "name" = some 1 := by decide +kernel
    refine ⟨_, hrun, ?_⟩
    rcases hframe _ (.set 0 "title" (.object 1)) _ hclient hrun 1 (by decide) "name" (by simp
      [StoreAction.cell?]) with hsame | ⟨hreached, hgains⟩
    · rw [Graph.dependency?, hsame] at hname
      cases hname
    · exact ⟨hreached.resolve_right id, hgains⟩

end DataBinding
