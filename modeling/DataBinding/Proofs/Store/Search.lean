import DataBinding.Proofs.Store.Reachability

/-!
# The search behind observing

Observing a value searches what the value leads to, over as many levels as
there are objects. That is the search that goes on until nothing is left to
be visited (`Traverses`): the bound is never the reason why it ends. It
finds what the value leads to and nothing else (`mem_present_reachable`).
-/

namespace DataBinding

theorem Keyed.findEntry_of_mem {β : Type} {key : String} {b : β} :
    ∀ {entries : List (String × β)}, (entries.map (·.1)).Nodup → (key, b) ∈ entries →
      findEntry key entries = some b
  | entry :: entries, hkeys, hmem => by
      obtain ⟨hfirst, hrest⟩ := List.nodup_cons.1 hkeys
      rw [findEntry]
      rcases List.mem_cons.1 hmem with rfl | hmem
      · rw [if_pos rfl]
      · have hkey : key ∈ entries.map (·.1) := List.mem_map_of_mem hmem
        have hne : entry.1 ≠ key := by
          rintro rfl
          exact hfirst hkey
        rw [if_neg hne]
        exact findEntry_of_mem hrest hmem

namespace Graph

variable {g : Graph} {v : Value}

/-- No object has a key twice. -/
def Distinct (g : Graph) : Prop :=
  ∀ id, (g.keys id).Nodup

/-- Where there is no object, there are no keys. -/
theorem distinct_of_lt (h : ∀ id < g.objects.length, (g.keys id).Nodup) : g.Distinct := by
  intro id
  by_cases hid : id < g.objects.length
  · exact h id hid
  · rw [keys, slots_eq_empty (Nat.le_of_not_lt hid)]
    exact List.nodup_nil

/-- What is among the neighbours of an object is held by it. -/
theorem content_of_mem_neighbours (h : g.Distinct) {i j : ObjectId} (hj : j ∈ g.neighbours i) :
    ∃ key, g.content (i, key) = some (.inl (.object j)) := by
  obtain ⟨⟨key, slot⟩, hmem, hvalue⟩ := List.mem_filterMap.1 hj
  have hslot : g.slot? i key = some slot := Keyed.findEntry_of_mem (h i) hmem
  cases slot with
  | computed accessor => cases hvalue
  | data property =>
      obtain ⟨value, dependency⟩ := property
      cases value with
      | object id =>
          obtain rfl := Option.some.inj hvalue
          exact ⟨key, by rw [content, hslot]; rfl⟩
      | _ => cases hvalue

/-! ## The search -/

/-- The search without a bound, from the objects that were seen and those
that are still to be visited: an object that was seen, or is not there, is
left out; of any other one the neighbours come next. -/
inductive Traverses (g : Graph) : (seen todo found : List ObjectId) → Prop
  | done {seen : List ObjectId} : Traverses g seen [] seen
  | skip {seen todo found : List ObjectId} {id : ObjectId} :
      id ∈ seen ∨ g.objects.length ≤ id → Traverses g seen todo found →
      Traverses g seen (id :: todo) found
  | visit {seen todo found : List ObjectId} {id : ObjectId} :
      id ∉ seen → id < g.objects.length →
      Traverses g (seen ++ [id]) (g.neighbours id ++ todo) found →
      Traverses g seen (id :: todo) found

namespace Traverses

variable {seen todo todo' mid found : List ObjectId}

theorem append (h : g.Traverses seen todo mid) (h' : g.Traverses mid todo' found) :
    g.Traverses seen (todo ++ todo') found := by
  induction h with
  | done => exact h'
  | skip hskip _ ih => exact .skip hskip (ih h')
  | visit hnew hid _ ih =>
      have hrest := ih h'
      rw [List.append_assoc] at hrest
      exact .visit hnew hid hrest

theorem nodup (h : g.Traverses seen todo found) (hseen : seen.Nodup) : found.Nodup := by
  induction h with
  | done => exact hseen
  | skip _ _ ih => exact ih hseen
  | visit hnew _ _ ih =>
      refine ih (List.nodup_append.2 ⟨hseen, by simp, fun i hi j hj heq => ?_⟩)
      exact hnew (List.mem_singleton.1 hj ▸ heq ▸ hi)

/-- Nothing is found but what was seen and what the rest leads to. -/
theorem sound (hkeys : g.Distinct) (h : g.Traverses seen todo found) {j : ObjectId}
    (hj : j ∈ found) : j ∈ seen ∨ j < g.objects.length ∧ g.Leads (· ∈ todo) j := by
  induction h with
  | done => exact .inl hj
  | skip _ _ ih =>
      exact (ih hj).imp_right fun h => ⟨h.1, h.2.mono fun _ => List.mem_cons_of_mem _⟩
  | @visit seen todo found id _ hid _ ih =>
      have hfirst : g.Leads (· ∈ id :: todo) id := .base List.mem_cons_self
      rcases ih hj with hseen | ⟨hlt, hleads⟩
      · rcases List.mem_append.1 hseen with hseen | hself
        · exact .inl hseen
        · obtain rfl := List.mem_singleton.1 hself
          exact .inr ⟨hid, hfirst⟩
      · refine .inr ⟨hlt, hleads.least (.closed g _) fun i hi => ?_⟩
        rcases List.mem_append.1 hi with hnext | hmore
        · obtain ⟨key, hcontent⟩ := content_of_mem_neighbours hkeys hnext
          exact .step hfirst hcontent
        · exact .base (List.mem_cons_of_mem _ hmore)

end Traverses

/-- Those that are there. -/
def present (g : Graph) (ids : List ObjectId) : List ObjectId :=
  ids.filter (· < g.objects.length)

theorem mem_present {ids : List ObjectId} {id : Nat} :
    id ∈ g.present ids ↔ id ∈ ids ∧ id < g.objects.length := by
  rw [present, List.mem_filter, decide_eq_true_eq]

theorem present_append (ids ids' : List ObjectId) :
    g.present (ids ++ ids') = g.present ids ++ g.present ids' :=
  List.filter_append ..

theorem traverses_foldl {levels : Nat}
    (hvisit : ∀ seen id, g.unseen seen ≤ levels →
      g.Traverses (g.present seen) [id] (g.present (g.visit levels seen id))) :
    ∀ (ids seen : List ObjectId), g.unseen seen ≤ levels →
      g.Traverses (g.present seen) ids (g.present (ids.foldl (g.visit levels) seen))
  | [], _, _ => .done
  | id :: ids, seen, hlevels => by
      have hkeeps := (visited_visit g levels seen id hlevels).1.keeps
      exact (hvisit seen id hlevels).append (traverses_foldl hvisit ids _
        (Nat.le_trans (unseen_le hkeeps) hlevels))

/-- With as many levels as there are objects to be seen, a visit is the
search without a bound. -/
theorem traverses_visit (g : Graph) : ∀ (levels : Nat) (seen : List ObjectId) (id : ObjectId),
    g.unseen seen ≤ levels →
      g.Traverses (g.present seen) [id] (g.present (g.visit levels seen id))
  | 0, seen, id, hlevels => by
      refine .skip ?_ .done
      by_cases hid : id < g.objects.length
      · refine .inl (mem_present.2 ⟨Decidable.by_contra fun hnew => ?_, hid⟩)
        have := unseen_append_lt hid hnew
        omega
      · exact .inr (Nat.le_of_not_lt hid)
  | levels + 1, seen, id, hlevels => by
      unfold visit
      split
      · rename_i hseen
        refine .skip ?_ .done
        by_cases hid : id < g.objects.length
        · exact .inl (mem_present.2 ⟨hseen, hid⟩)
        · exact .inr (Nat.le_of_not_lt hid)
      · rename_i hnew
        by_cases hid : id < g.objects.length
        · have hfewer := unseen_append_lt hid hnew
          have hrest := traverses_foldl (traverses_visit g levels) (g.neighbours id)
            (seen ++ [id]) (by omega)
          have hself : g.present [id] = [id] := by simp [present, hid]
          rw [present_append, hself] at hrest
          refine .visit (fun hmem => hnew (mem_present.1 hmem).1) hid ?_
          rwa [List.append_nil]
        · have hle := Nat.le_of_not_lt hid
          have hnone : g.neighbours id = [] := by
            rw [neighbours, slots_eq_empty hle]
            rfl
          have hout : g.present [id] = [] := by simp [present, hid]
          rw [hnone, List.foldl_nil, present_append, hout, List.append_nil]
          exact .skip (.inr hle) .done

/-- The objects that a value leads to, in the order in which they are
visited. -/
theorem traverses_reachable (g : Graph) (v : Value) :
    g.Traverses [] v.object?.toList (g.present (g.reachable v)) := by
  cases v with
  | object id =>
      refine traverses_visit g g.objects.length [] id ?_
      exact Nat.le_trans (List.length_filter_le _ _) (Nat.le_of_eq List.length_range)
  | _ => exact .done

theorem mem_present_reachable (hkeys : g.Distinct) {j : Nat} :
    j ∈ g.present (g.reachable v) ↔
      g.Leads (fun i => v = .object i) j ∧ j < g.objects.length := by
  constructor
  · intro hj
    obtain ⟨hlt, hleads⟩ := ((traverses_reachable g v).sound hkeys hj).resolve_left List.not_mem_nil
    refine ⟨hleads.mono fun i hi => ?_, hlt⟩
    cases v with
    | object id => rw [List.mem_singleton.1 hi]
    | _ => cases hi
  · rintro ⟨hleads, hlt⟩
    exact mem_present.2 ⟨mem_reachable hleads hlt, hlt⟩

end Graph

end DataBinding
