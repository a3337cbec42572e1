import DataBinding.Proofs.Compiling.Outline

/-!
# Which parts of a tree its bindings keep

A binding keeps the content or the form value of its node (`part?`). In a
tree that is `Single`, no element has two directives for the same, and
then two bindings of the outline keep the same part only if they are
placeholders of one text (`Outline.separate_ofForest`). Of such a text all
placeholders are in the outline, or none (`Outline.full_ofForest`).
-/

namespace DataBinding

/-! ## Parts -/

/-- What a directive keeps of its element: the form value, or the content. -/
def Directive.form? : Directive → Option Bool
  | .text _ | .html _ => some false
  | .model _ => some true
  | .on _ _ => none

/-- The same for an attribute. -/
def Convention.form? (convention : Convention) (pair : String × String) : Option Bool :=
  match Directive.parse convention.marker pair.1 pair.2 with
  | .ok (some directive) => directive.form?
  | _ => none

mutual

/-- No element has two directives that show its content, or two for its
form value. -/
def Markup.Tree.Single (convention : Convention) : Markup.Tree → Prop
  | .element _ attributes children =>
    (attributes.entries.filterMap convention.form?).Nodup ∧ SingleAll convention children
  | .text _ => True

/-- The same for a forest. -/
def Markup.Tree.SingleAll (convention : Convention) : List Markup.Tree → Prop
  | [] => True
  | tree :: trees => tree.Single convention ∧ SingleAll convention trees

end

/-- What a binding keeps: a place, and whether it is the form value there. -/
def Binding.part? : Binding → Option (Nat × Bool)
  | .directive place declared => declared.form?.map fun form => (place, form)
  | .placeholder place _ _ => some (place, false)

theorem Binding.place_of_part {b : Binding} {place : Nat} {form : Bool}
    (h : b.part? = some (place, form)) : b.place = place := by
  cases b with
  | placeholder place template path => exact congrArg Prod.fst (Option.some.inj h)
  | directive place directive =>
      obtain ⟨form, -, hpair⟩ := Option.map_eq_some_iff.1 h
      exact congrArg Prod.fst hpair

/-- Two bindings that keep the same part are placeholders of one text. -/
def Binding.Apart (b b' : Binding) : Prop :=
  ∀ part, b.part? = some part → b'.part? = some part →
    ∃ place template path path', b = .placeholder place template path ∧
      b' = .placeholder place template path'

theorem Binding.apart_of_place {b b' : Binding} (h : b.place ≠ b'.place) : b.Apart b' :=
  fun _ hb hb' => absurd ((place_of_part hb).trans (place_of_part hb').symm) h

namespace Outline

variable {convention : Convention} {methods : Keyed Method} {o o' : Outline}

/-! ## Nothing is kept twice -/

/-- No two bindings keep the same part, but for placeholders of one text. -/
def Separate (o : Outline) : Prop :=
  o.bindings.Pairwise Binding.Apart

theorem Separate.andThen (h : o.Separate) (h' : o'.Separate)
    (happart : ∀ b ∈ o.bindings, ∀ b' ∈ o'.bindings, b.Apart b') : (o.andThen o').Separate := by
  unfold Outline.andThen
  split
  · exact h
  · exact List.pairwise_append.2 ⟨h, h', happart⟩

theorem separate_ofAttribute (place : Nat) (pair : String × String) :
    (ofAttribute convention methods place pair).Separate := by
  unfold ofAttribute
  split
  · exact .nil
  · exact .nil
  · unfold ofDirective
    split
    · split
      · exact .nil
      · exact List.pairwise_singleton ..
    · exact List.pairwise_singleton ..

theorem separate_ofAttributes (place : Nat) {attributes : Keyed String}
    (h : (attributes.entries.filterMap convention.form?).Nodup) :
    (ofAttributes convention methods place attributes).Separate := by
  obtain ⟨entries⟩ := attributes
  induction entries with
  | nil => exact .nil
  | cons pair entries ih =>
      have hrest : (entries.filterMap convention.form?).Nodup :=
        h.sublist ((List.sublist_cons_self pair entries).filterMap _)
      refine (separate_ofAttribute place pair).andThen (ih hrest) fun b hb b' hb' part hpart hpart' => ?_
      obtain ⟨directive, hparse, rfl⟩ := directive_of_mem_ofAttribute hb
      obtain ⟨o, ho, hb'⟩ := mem_sequence hb'
      obtain ⟨pair', hpair', rfl⟩ := List.mem_map.1 ho
      obtain ⟨directive', hparse', rfl⟩ := directive_of_mem_ofAttribute hb'
      obtain ⟨form, hform, rfl⟩ := Option.map_eq_some_iff.1 hpart
      obtain ⟨form', hform', hsame⟩ := Option.map_eq_some_iff.1 hpart'
      obtain rfl : form' = form := congrArg Prod.snd hsame
      have hfirst : convention.form? pair = some form' := by
        rw [Convention.form?, hparse]
        exact hform
      have hlater : convention.form? pair' = some form' := by
        rw [Convention.form?, hparse']
        exact hform'
      rw [List.filterMap_cons_some hfirst] at h
      exact absurd (List.mem_filterMap.2 ⟨pair', hpair', hlater⟩) (List.nodup_cons.1 h).1

theorem separate_ofText (place : Nat) (content : String) :
    (ofText convention place content).Separate := by
  refine List.pairwise_map.2 (List.pairwise_of_forall fun path path' part _ _ => ?_)
  exact ⟨place, _, path, path', rfl, rfl⟩

mutual

theorem separate_ofTree : ∀ {tree : Markup.Tree} (place : Nat), tree.Single convention →
    (ofTree convention methods place tree).Separate
  | .element tag attributes children, place, h => by
      have hown : (ofAttributes convention methods place attributes).Separate :=
        separate_ofAttributes place h.1
      rw [ofTree]
      split
      · exact hown
      · refine hown.andThen (separate_ofForest (place + 1) h.2) fun b hb b' hb' => ?_
        obtain ⟨directive, rfl⟩ := directive_of_mem hb
        exact Binding.apart_of_place (Nat.ne_of_lt (place_of_mem_ofForest hb').1)
  | .text content, place, _ => separate_ofText place content

/-- The bindings of a forest keep different parts. -/
theorem separate_ofForest : ∀ {trees : List Markup.Tree} (place : Nat),
    Markup.Tree.SingleAll convention trees → (ofForest convention methods place trees).Separate
  | [], _, _ => .nil
  | tree :: trees, place, h => by
      refine (separate_ofTree place h.1).andThen (separate_ofForest _ h.2) fun b hb b' hb' => ?_
      exact Binding.apart_of_place (Nat.ne_of_lt
        (Nat.lt_of_lt_of_le (place_of_mem_ofTree hb).2 (place_of_mem_ofForest hb').1))

end

/-! ## Whole texts -/

/-- Of a text that has a binding, every placeholder has one. -/
def Full (o : Outline) : Prop :=
  ∀ place template path, .placeholder place template path ∈ o.bindings →
    ∀ path' ∈ template.placeholders, .placeholder place template path' ∈ o.bindings

theorem Full.andThen (h : o.Full) (h' : o'.Full) : (o.andThen o').Full := by
  intro place template path hmem path' hpath'
  unfold Outline.andThen at hmem ⊢
  split
  · rename_i herror
    rw [herror] at hmem
    exact h place template path hmem path' hpath'
  · rename_i herror
    rw [herror] at hmem
    rcases List.mem_append.1 hmem with hmem | hmem
    · exact List.mem_append_left _ (h place template path hmem path' hpath')
    · exact List.mem_append_right _ (h' place template path hmem path' hpath')

theorem full_ofAttributes (place : Nat) (attributes : Keyed String) :
    (ofAttributes convention methods place attributes).Full := by
  intro place template path hmem
  obtain ⟨directive, hdirective⟩ := directive_of_mem hmem
  cases hdirective

theorem full_ofText (place : Nat) (content : String) :
    (ofText convention place content).Full := by
  intro other template path hmem path' hpath'
  obtain ⟨path, -, heq⟩ := List.mem_map.1 hmem
  cases heq
  exact List.mem_map.2 ⟨path', hpath', rfl⟩

mutual

theorem full_ofTree : ∀ (tree : Markup.Tree) (place : Nat),
    (ofTree convention methods place tree).Full
  | .element tag attributes children, place => by
      rw [ofTree]
      split
      · exact full_ofAttributes place attributes
      · exact (full_ofAttributes place attributes).andThen (full_ofForest children (place + 1))
  | .text content, place => full_ofText place content

theorem full_ofForest : ∀ (trees : List Markup.Tree) (place : Nat),
    (ofForest convention methods place trees).Full
  | [], _ => fun _ _ _ hmem => absurd hmem List.not_mem_nil
  | tree :: trees, place => (full_ofTree tree place).andThen (full_ofForest trees _)

end

end Outline

end DataBinding
