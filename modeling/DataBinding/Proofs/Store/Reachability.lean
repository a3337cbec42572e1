import DataBinding.Proofs.Resolution.Yields

/-!
# What data properties lead to

`Leads` is the closure of some objects under the values of data
properties. The bounded visit that observing uses finds all of it
(`mem_visit_of_leads`): a visit adds an object only together with what it
holds, and there are as many levels as there are objects to add. So
observing a value makes every data property that the value leads to
reactive (`reactive_observe`).
-/

namespace DataBinding.Graph

variable {g g' : Graph} {among among' : ObjectId → Prop} {j : ObjectId}

/-! ## The closure -/

/-- What some objects lead to through the values of data properties. -/
inductive Leads (g : Graph) (among : ObjectId → Prop) : ObjectId → Prop
  | base {i : ObjectId} : among i → Leads g among i
  | step {i j : ObjectId} {key : String} :
      Leads g among i → g.content (i, key) = some (.inl (.object j)) → Leads g among j

theorem Leads.closed (g : Graph) (among : ObjectId → Prop) : g.Closed (g.Leads among) :=
  fun _ _ _ hi hc => .step hi hc

/-- It is the least closed one. -/
theorem Leads.least {among closed : ObjectId → Prop} (hclosed : g.Closed closed)
    (hbase : ∀ i, among i → closed i) {j : ObjectId} (h : g.Leads among j) : closed j := by
  induction h with
  | base hi => exact hbase _ hi
  | step _ hc ih => exact hclosed _ _ _ ih hc

theorem Leads.mono {among among' : ObjectId → Prop} (h : ∀ i, among i → among' i) {j : ObjectId}
    (hj : g.Leads among j) : g.Leads among' j :=
  hj.least (Leads.closed g among') fun i hi => .base (h i hi)

theorem Closed.congr (h : g.Closed among) (hcontent : ∀ c, g'.content c = g.content c) :
    g'.Closed among :=
  fun id key j hi hc => h id key j hi ((hcontent _).symm.trans hc)

theorem Leads.congr (h : g'.Leads among j) (hcontent : ∀ c, g'.content c = g.content c) :
    g.Leads among j :=
  h.least ((Leads.closed g among).congr hcontent) fun _ => .base

theorem Leads.or (h : g.Leads (fun i => among i ∨ among' i) j) :
    g.Leads among j ∨ g.Leads among' j := by
  induction h with
  | base hi => exact hi.imp .base .base
  | step _ hc ih => exact ih.imp (.step · hc) (.step · hc)

theorem Leads.of_closed (h : g.Leads among j) (hclosed : g.Closed among) : among j :=
  h.least hclosed fun _ hi => hi

/-- What is newly reachable after a write was reached through the value. -/
theorem Leads.of_store {id : ObjectId} {key : String} {property : Property} {v : Value}
    (hslot : g.slot? id key = some (.data property)) (h : (g.store id key v).Leads among j) :
    g.Leads among j ∨ (g.store id key v).Leads (fun i => v = .object i) j := by
  induction h with
  | base hi => exact .inl (.base hi)
  | @step i j otherKey _ hc ih =>
      refine ih.elim (fun hi => ?_) fun hi => .inr (.step hi hc)
      obtain ⟨found, hfound, hvalue⟩ := slot?_of_content hc
      rw [slot?_store_data hslot] at hfound
      split at hfound
      · cases hfound
        exact .inr (.base hvalue)
      · have hcell : g.content (i, otherKey) = some (.inl (.object j)) := by
          rw [content, hfound]
          exact congrArg (some ∘ Sum.inl) hvalue
        exact .inl (.step hi hcell)

/-- Every data property of an object has a dependency. -/
def Reactive (g : Graph) (id : ObjectId) : Prop :=
  ∀ key property, g.slot? id key = some (.data property) → property.dependency.isSome = true

/-- Reading a path looks at nothing but what its root leads to. -/
theorem Yields.leads {root : ObjectId} {keys : List String} {vs : List Value} {cells : List Cell}
    (h : g.Yields (.walk (.object root) keys) vs cells) : ∀ c ∈ cells, g.Leads (· = root) c.1 := by
  refine (h.within (Leads.closed g (· = root)) ?_).1
  intro j hj
  cases hj
  exact .base rfl

/-! ## The visit -/

theorem mem_of_findEntry {β : Type} {key : String} {entries : List (String × β)} {b : β}
    (h : Keyed.findEntry key entries = some b) : (key, b) ∈ entries := by
  induction entries with
  | nil => simp [Keyed.findEntry] at h
  | cons entry entries ih =>
      rw [Keyed.findEntry] at h
      split at h
      · rename_i hkey
        cases h
        exact hkey ▸ List.mem_cons_self
      · exact List.mem_cons_of_mem _ (ih h)

/-- Whether there are data properties only, and all of them reactive. -/
def allReactive (g : Graph) : Bool :=
  g.objects.all fun slots => slots.entries.all fun entry =>
    match entry.2 with
    | .data property => property.dependency.isSome
    | .computed _ => false

theorem data_of_allReactive (h : g.allReactive = true) {id : ObjectId} {key : String} {slot : Slot}
    (hslot : g.slot? id key = some slot) :
    ∃ property, slot = .data property ∧ property.dependency.isSome = true := by
  have hlt := lt_of_slot? hslot
  have hslots : g.slots id ∈ g.objects := by
    rw [slots, List.getD_eq_getElem?_getD, List.getElem?_eq_getElem hlt]
    exact List.getElem_mem hlt
  have hentry := List.all_eq_true.1 (List.all_eq_true.1 h _ hslots) _ (mem_of_findEntry hslot)
  cases slot with
  | data property => exact ⟨property, rfl, hentry⟩
  | computed accessor => cases hentry

theorem reactive_of_allReactive (h : g.allReactive = true) (id : ObjectId) : g.Reactive id := by
  intro key property hslot
  obtain ⟨found, hfound, hreactive⟩ := data_of_allReactive h hslot
  cases hfound
  exact hreactive

/-- What an object holds is among its neighbours. -/
theorem mem_neighbours {i j : ObjectId} {key : String}
    (h : g.content (i, key) = some (.inl (.object j))) : j ∈ g.neighbours i := by
  unfold content at h
  rcases hslot : g.slot? i key with _ | property | accessor
  · simp [hslot] at h
  · simp [hslot] at h
    exact List.mem_filterMap.2
      ⟨(key, .data property), mem_of_findEntry hslot, by simp [h, Value.object?]⟩
  · simp [hslot] at h

theorem lt_of_content {i : ObjectId} {key : String} {held : Value ⊕ Expr}
    (h : g.content (i, key) = some held) : i < g.objects.length := by
  unfold content at h
  cases hslot : g.slot? i key with
  | none => simp [hslot] at h
  | some slot => exact lt_of_slot? hslot

/-- How many objects are still to be seen. -/
def unseen (g : Graph) (seen : List ObjectId) : Nat :=
  ((List.range g.objects.length).filter fun i => decide (i ∉ seen)).length

theorem unseen_le {seen seen' : List ObjectId} (h : ∀ i ∈ seen, i ∈ seen') :
    g.unseen seen' ≤ g.unseen seen := by
  unfold unseen
  rw [← List.countP_eq_length_filter, ← List.countP_eq_length_filter]
  refine List.countP_mono_left fun i _ hi => ?_
  simp only [decide_eq_true_eq] at hi ⊢
  exact fun hmem => hi (h i hmem)

/-- Seeing an object leaves fewer to be seen. -/
theorem unseen_append_lt {seen : List ObjectId} {id : Nat} (hid : id < g.objects.length)
    (hnew : id ∉ seen) : g.unseen (seen ++ [id]) < g.unseen seen := by
  have hfilter : (List.range g.objects.length).filter (fun i => decide (i ∉ seen ++ [id])) =
      ((List.range g.objects.length).filter fun i => decide (i ∉ seen)).filter
        fun i => decide (i ≠ id) := by
    rw [List.filter_filter]
    refine List.filter_congr fun i _ => ?_
    by_cases h : i ∈ seen <;> by_cases h' : i = id <;> simp [h, h']
  unfold unseen
  rw [hfilter, List.length_filter_lt_length_iff_exists]
  exact ⟨id, List.mem_filter.2 ⟨List.mem_range.2 hid, by simpa using hnew⟩, by simp⟩

/-- What a visit from `seen` has found: nothing is lost, and whatever is
new comes with all that it holds. -/
structure Visited (g : Graph) (seen found : List ObjectId) : Prop where
  keeps : ∀ i ∈ seen, i ∈ found
  complete : ∀ i ∈ found, i ∉ seen → ∀ j ∈ g.neighbours i, j < g.objects.length → j ∈ found

theorem Visited.refl (g : Graph) (seen : List ObjectId) : Visited g seen seen :=
  ⟨fun _ h => h, fun _ h h' => absurd h h'⟩

theorem Visited.trans {seen found last : List ObjectId} (h : Visited g seen found)
    (h' : Visited g found last) : Visited g seen last where
  keeps i hi := h'.keeps i (h.keeps i hi)
  complete i hi hnew j hj hlt := by
    by_cases hfound : i ∈ found
    · exact h'.keeps j (h.complete i hfound hnew j hj hlt)
    · exact h'.complete i hi hfound j hj hlt

/-- Visiting several objects, if visiting one is all right. -/
theorem visited_foldl {levels : Nat}
    (hvisit : ∀ seen id, g.unseen seen ≤ levels → Visited g seen (g.visit levels seen id) ∧
      (id < g.objects.length → id ∈ g.visit levels seen id)) :
    ∀ (ids seen : List ObjectId), g.unseen seen ≤ levels →
      Visited g seen (ids.foldl (g.visit levels) seen) ∧
        ∀ id ∈ ids, id < g.objects.length → id ∈ ids.foldl (g.visit levels) seen
  | [], seen, _ => ⟨.refl g seen, by simp⟩
  | id :: ids, seen, hlevels => by
      obtain ⟨hfirst, hid⟩ := hvisit seen id hlevels
      obtain ⟨hrest, hids⟩ := visited_foldl hvisit ids (g.visit levels seen id)
        (Nat.le_trans (unseen_le hfirst.keeps) hlevels)
      refine ⟨hfirst.trans hrest, fun other hother hlt => ?_⟩
      rcases List.mem_cons.1 hother with rfl | hother
      · exact hrest.keeps _ (hid hlt)
      · exact hids other hother hlt

theorem visited_visit (g : Graph) : ∀ (levels : Nat) (seen : List ObjectId) (id : ObjectId),
    g.unseen seen ≤ levels → Visited g seen (g.visit levels seen id) ∧
      (id < g.objects.length → id ∈ g.visit levels seen id)
  | 0, seen, id, hlevels => by
      refine ⟨.refl g seen, fun hlt => ?_⟩
      show id ∈ seen
      refine Decidable.by_contra fun hnew => ?_
      have := unseen_append_lt hlt hnew
      omega
  | levels + 1, seen, id, hlevels => by
      unfold visit
      split
      · rename_i hseen
        exact ⟨.refl g seen, fun _ => hseen⟩
      · rename_i hnew
        by_cases hlt : id < g.objects.length
        · have hfewer := unseen_append_lt hlt hnew
          obtain ⟨hrest, hids⟩ := visited_foldl (visited_visit g levels) (g.neighbours id)
            (seen ++ [id]) (by omega)
          refine ⟨⟨fun i hi => hrest.keeps i (List.mem_append_left _ hi), fun i hi hnot j hj hjlt => ?_⟩,
            fun _ => hrest.keeps id (by simp)⟩
          by_cases hself : i = id
          · subst hself
            exact hids j hj hjlt
          · exact hrest.complete i hi (by simp [hnot, hself]) j hj hjlt
        · have hnone : g.neighbours id = [] := by
            rw [neighbours, slots_eq_empty (Nat.le_of_not_lt hlt)]
            rfl
          rw [hnone]
          refine ⟨⟨fun i hi => List.mem_append_left _ hi, fun i hi hnot j hj => ?_⟩,
            fun h => absurd h hlt⟩
          rcases List.mem_append.1 hi with hi | hi
          · exact absurd hi hnot
          · rw [List.mem_singleton.1 hi, hnone] at hj
            exact absurd hj List.not_mem_nil

/-- A visit with as many levels as there are objects finds all that its
beginning leads to. -/
theorem mem_visit_of_leads {id j : ObjectId} (h : g.Leads (· = id) j)
    (hj : j < g.objects.length) : j ∈ g.visit g.objects.length [] id := by
  have hunseen : g.unseen [] ≤ g.objects.length :=
    Nat.le_trans (List.length_filter_le _ _) (Nat.le_of_eq List.length_range)
  obtain ⟨hvisited, hid⟩ := visited_visit g g.objects.length [] id hunseen
  induction h with
  | base hi => exact hi ▸ hid (hi ▸ hj)
  | step _ hc ih =>
      exact hvisited.complete _ (ih (lt_of_content hc)) (by simp) _ (mem_neighbours hc) hj

/-! ## Observing -/

/-- A property that is reactive stays so. -/
theorem Observed.reactive (h : Observed g g') {id : ObjectId} (hid : g.Reactive id) :
    g'.Reactive id := by
  intro key property hslot
  rcases h.slot? id key with hsame | ⟨value, d, -, hnew, -⟩
  · exact hid key property (hsame ▸ hslot)
  · cases hnew.symm.trans hslot
    rfl

theorem Observed.content (h : Observed g g') (c : Cell) : g'.content c = g.content c := by
  unfold Graph.content
  rcases h.slot? c.1 c.2 with hsame | ⟨value, d, hold, hnew, -⟩
  · rw [hsame]
  · rw [hold, hnew]
    rfl

/-- A property that has a dependency is left as it is. -/
theorem Observed.slot?_eq (h : Observed g g') {id : ObjectId} {key : String}
    (hold : ∀ value, g.slot? id key ≠ some (.data ⟨value, none⟩)) :
    g'.slot? id key = g.slot? id key := by
  rcases h.slot? id key with hsame | ⟨value, d, hplain, -, -⟩
  · exact hsame
  · exact absurd hplain (hold value)

theorem reactive_makeReactive (g : Graph) (id : ObjectId) : (g.makeReactive id).Reactive id := by
  intro key property hslot
  rcases slot?_makeReactive g id id key with ⟨hsame, hplain⟩ | ⟨value, d, -, -, hnew, -⟩
  · rw [hsame] at hslot
    obtain ⟨value, _ | d⟩ := property
    · exact absurd hslot (hplain rfl value)
    · rfl
  · cases hnew.symm.trans hslot
    rfl

theorem reactive_foldl_makeReactive {ids : List ObjectId} {id : ObjectId} (h : id ∈ ids)
    (g : Graph) : (ids.foldl makeReactive g).Reactive id := by
  induction ids generalizing g with
  | nil => exact absurd h List.not_mem_nil
  | cons first ids ih =>
      rcases List.mem_cons.1 h with rfl | h
      · exact (Observed.foldl_makeReactive ids _).reactive (reactive_makeReactive g _)
      · exact ih h _

/-- What a value leads to is found from it. -/
theorem mem_reachable {v : Value} {j : ObjectId} (h : g.Leads (fun i => v = .object i) j)
    (hlt : j < g.objects.length) : j ∈ g.reachable v := by
  cases v with
  | object id => exact mem_visit_of_leads (h.mono fun i hi => by cases hi; rfl) hlt
  | _ =>
      have hnone : g.Closed fun _ => False := fun _ _ _ hfalse => hfalse.elim
      exact (h.least hnone fun i hi => by cases hi).elim

/-- Observing a value makes all that it leads to reactive. -/
theorem reactive_observe {v : Value} {j : ObjectId} (h : g.Leads (fun i => v = .object i) j) :
    (g.observe v).Reactive j := by
  intro key property hslot
  have hlt : j < g.objects.length := (observed_observe g v).objects ▸ lt_of_slot? hslot
  exact reactive_foldl_makeReactive (mem_reachable h hlt) g key property hslot

/-! ## All that a root leads to -/

/-- Every data property of every object that a root leads to is
reactive. -/
def ReactiveFrom (g : Graph) (root : ObjectId) : Prop :=
  ∀ j, g.Leads (· = root) j → g.Reactive j

/-- No data property comes in under a new key of an object that a root leads
to. -/
def KeepsKeys (g : Graph) (root : ObjectId) (g' : Graph) : Prop :=
  ∀ {j key property}, g.Leads (· = root) j → g'.slot? j key = some (.data property) →
    g.slot? j key ≠ none

theorem keepsKeys_of_keys {root : ObjectId} (h : ∀ id, g'.keys id = g.keys id) :
    g.KeepsKeys root g' := by
  intro id key property _ hslot hnone
  have hkey : key ∉ g'.keys id := h id ▸ Keyed.find?_eq_none.1 hnone
  exact nomatch hslot.symm.trans (Keyed.find?_eq_none.2 hkey)

theorem keepsKeys_of_map {root : ObjectId}
    (h : g'.objects.map Keyed.keys = g.objects.map Keyed.keys) : g.KeepsKeys root g' := by
  refine keepsKeys_of_keys fun id => ?_
  have hkeys : ∀ g : Graph, g.keys id = (g.objects.map Keyed.keys).getD id [] := fun g => by
    simp only [keys, slots, List.getD_eq_getElem?_getD, List.getElem?_map]
    cases g.objects[id]? <;> rfl
  rw [hkeys, hkeys, h]

theorem reactiveFrom_observe (g : Graph) (root : ObjectId) :
    (g.observe (.object root)).ReactiveFrom root := fun _ hj =>
  reactive_observe ((hj.congr (observed_observe g _).content).mono fun _ hi => hi ▸ rfl)

namespace ReactiveFrom

variable {root : ObjectId} {key : String} {v : Value}

/-- What the root leads to has no data properties but those that it had,
with the same values. -/
theorem next (h : g.ReactiveFrom root)
    (hslots : ∀ {i key property}, g.Leads (· = root) i →
      g'.slot? i key = some (.data property) → ∃ former, g.slot? i key = some (.data former) ∧
        former.value = property.value ∧
        (former.dependency.isSome = true → property.dependency.isSome = true)) :
    g'.ReactiveFrom root := by
  have hleads : ∀ {j}, g'.Leads (· = root) j → g.Leads (· = root) j := by
    refine fun hj => hj.least (fun i key j hi hc => ?_) fun _ hi => .base hi
    obtain ⟨property, hslot, hvalue⟩ := slot?_of_content hc
    obtain ⟨former, hformer, hsame, -⟩ := hslots hi hslot
    have hcontent : g.content (i, key) = some (.inl (.object j)) := by
      rw [content, hformer, ← hvalue, ← hsame]
      rfl
    exact .step hi hcontent
  intro j hj key property hslot
  obtain ⟨former, hformer, -, hkept⟩ := hslots (hleads hj) hslot
  exact hkept (h j (hleads hj) key former hformer)

theorem of_objects (h : g.ReactiveFrom root) (hobjects : g'.objects = g.objects) :
    g'.ReactiveFrom root :=
  h.next fun _ hslot => ⟨_, by rwa [slot?, slots, ← hobjects], rfl, id⟩

/-- Objects are made, and accessors are installed. -/
theorem of_extends (h : g.ReactiveFrom root) (hextends : Extends g g')
    (hkeys : g.KeepsKeys root g') : g'.ReactiveFrom root := by
  refine h.next fun {i key property} hi hslot => ?_
  rcases hextends i key with hsame | ⟨hnone, -⟩ | ⟨accessor, haccessor⟩
  · exact ⟨property, hsame ▸ hslot, rfl, id⟩
  · exact absurd hnone (hkeys hi hslot)
  · cases haccessor.symm.trans hslot

theorem observe (h : g.ReactiveFrom root) (v : Value) : (g.observe v).ReactiveFrom root := by
  refine h.next fun {i key property} hi hslot => ?_
  rcases (observed_observe g v).slot? i key with hsame | ⟨value, d, hformer, hnew, -⟩
  · exact ⟨property, hsame ▸ hslot, rfl, id⟩
  · cases hnew.symm.trans hslot
    exact ⟨_, hformer, rfl, fun _ => rfl⟩

/-- A property that is not reactive is not one that the root leads to. -/
theorem store {id : ObjectId} (h : g.ReactiveFrom root)
    (hfree : g.dependency? id key = none)
    (hkeys : g.KeepsKeys root (g.store id key v)) : (g.store id key v).ReactiveFrom root := by
  refine h.next fun {i other property} hi hslot => ?_
  have hpresent := hkeys hi hslot
  rw [slot?_store] at hslot
  split at hslot
  · rename_i hwritten
    obtain ⟨rfl, rfl, -⟩ := hwritten
    rcases hformer : g.slot? i other with _ | former | accessor
    · exact absurd hformer hpresent
    · have hreactive := h i hi other former hformer
      simp only [dependency?, hformer] at hfree
      rw [hfree] at hreactive
      cases hreactive
    · rw [hformer] at hslot
      cases hslot
  · exact ⟨property, hslot, rfl, fun h => h⟩

/-- What is written into a reactive property is observed, and with it all
that the root leads to from then on. -/
theorem attach (h : g.ReactiveFrom root) {id : ObjectId} {property : Property}
    {d : DependencyId}
    (hslot : g.slot? id key = some (.data property)) (hdependency : property.dependency = some d)
    (v : Value) : ((g.store id key v).observe v).ReactiveFrom root := by
  intro j hj
  have hobserved := observed_observe (g.store id key v) v
  rcases (hj.congr hobserved.content).of_store hslot with hold | hnew
  · refine hobserved.reactive fun other found hfound => ?_
    rw [slot?_store_data hslot] at hfound
    split at hfound
    · cases hfound
      rw [hdependency]
      rfl
    · exact h j hold other found hfound
  · exact reactive_observe hnew

end ReactiveFrom

end DataBinding.Graph
