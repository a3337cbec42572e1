import DataBinding.Binding.Compile

/-!
# What a tree asks to be bound

The outline of a forest is what compiling it installs, and the error that
it stops at: a function of the markup, the convention and the methods
alone. Nodes are counted in document order, from `place` on. An element
with a directive that shows a value as its content has no other content
to be bound.

A forest is `Inert` when nothing in it asks to be bound.
-/

namespace DataBinding

/-! ## Counting nodes -/

mutual

/-- The number of nodes of a tree. -/
def Markup.Tree.count : Markup.Tree → Nat
  | .element _ _ children => 1 + countAll children
  | .text _ => 1

/-- The number of nodes of a forest. -/
def Markup.Tree.countAll : List Markup.Tree → Nat
  | [] => 0
  | tree :: trees => tree.count + countAll trees

end

theorem Markup.Tree.count_pos (tree : Markup.Tree) : 0 < tree.count := by
  cases tree with
  | element tag attributes children => exact Nat.lt_of_lt_of_le Nat.one_pos (Nat.le_add_right ..)
  | text content => exact Nat.one_pos

/-! ## Bindings -/

/-- What is installed for one node. -/
inductive Binding
  | directive (place : Nat) (directive : Directive)
  | placeholder (place : Nat) (template : Template) (path : Path)
deriving DecidableEq

namespace Binding

/-- The node that the binding is for. -/
def place : Binding → Nat
  | directive place _ => place
  | placeholder place _ _ => place

/-- Whether a value is shown in place of the children of the node. -/
def displaces : Binding → Bool
  | directive _ (.text _) | directive _ (.html _) => true
  | _ => false

/-- The path that is watched. -/
def path? : Binding → Option Path
  | directive _ (.text path) | directive _ (.html path) | directive _ (.model path) => some path
  | directive _ (.on _ _) => none
  | placeholder _ _ path => some path

/-- The node and the event that are listened to. -/
def event? (methods : Keyed Method) : Binding → Option (Nat × String)
  | directive place (.model _) => some (place, "input")
  | directive place (.on event method) => (methods.find? method).map fun _ => (place, event)
  | _ => none

end Binding

/-! ## Outlines -/

/-- Bindings in the order in which they are installed, and the error that
comes after them. -/
structure Outline where
  bindings : List Binding
  error : Option Error

namespace Outline

/-- What is installed by nothing. -/
def nothing : Outline :=
  ⟨[], none⟩

/-- One outline after another. Nothing comes after an error. -/
def andThen (o o' : Outline) : Outline :=
  match o.error with
  | some _ => o
  | none => ⟨o.bindings ++ o'.bindings, o'.error⟩

/-- Several outlines in a row. -/
def sequence : List Outline → Outline
  | [] => nothing
  | o :: os => o.andThen (sequence os)

/-- How a compilation ends. -/
def result (o : Outline) : Except Error Unit :=
  match o.error with
  | some e => .error e
  | none => .ok ()

/-- A directive asks for a binding. A method must be there. -/
def ofDirective (methods : Keyed Method) (place : Nat) : Directive → Outline
  | .on event method =>
    match methods.find? method with
    | none => ⟨[], some (.unknownMethod method)⟩
    | some _ => ⟨[.directive place (.on event method)], none⟩
  | directive => ⟨[.directive place directive], none⟩

/-- An attribute asks for what its directive does. -/
def ofAttribute (convention : Convention) (methods : Keyed Method) (place : Nat)
    (pair : String × String) : Outline :=
  match Directive.parse convention.marker pair.1 pair.2 with
  | .error e => ⟨[], some e⟩
  | .ok none => nothing
  | .ok (some directive) => ofDirective methods place directive

/-- The attributes of an element, in order. -/
def ofAttributes (convention : Convention) (methods : Keyed Method) (place : Nat)
    (attributes : Keyed String) : Outline :=
  sequence (attributes.entries.map (ofAttribute convention methods place))

/-- A text asks for one binding for each placeholder. -/
def ofText (convention : Convention) (place : Nat) (content : String) : Outline :=
  let template := Template.parse convention.opening convention.closing content
  ⟨template.placeholders.map (.placeholder place template), none⟩

mutual

/-- The outline of a tree whose root is counted as `place`. -/
def ofTree (convention : Convention) (methods : Keyed Method) (place : Nat) :
    Markup.Tree → Outline
  | .element _ attributes children =>
    let own := ofAttributes convention methods place attributes
    if own.bindings.any (·.displaces) then own
    else own.andThen (ofForest convention methods (place + 1) children)
  | .text content => ofText convention place content

/-- The outline of a forest that is counted from `place` on. -/
def ofForest (convention : Convention) (methods : Keyed Method) (place : Nat) :
    List Markup.Tree → Outline
  | [] => nothing
  | tree :: trees =>
    (ofTree convention methods place tree).andThen
      (ofForest convention methods (place + tree.count) trees)

end

/-! ## One after another -/

variable {o o' : Outline}

theorem error_of_result (h : o.result = .ok ()) : o.error = none := by
  unfold result at h
  split at h
  · cases h
  · assumption

theorem error_of_result_error {e : Error} (h : o.result = .error e) : o.error = some e := by
  unfold result at h
  split at h
  · rename_i herror
    rwa [Except.error.inj h] at herror
  · cases h

theorem andThen_of_result (h : o.result = .ok ()) :
    o.andThen o' = ⟨o.bindings ++ o'.bindings, o'.error⟩ := by
  unfold andThen
  rw [error_of_result h]

theorem andThen_of_error {e : Error} (h : o.result = .error e) : o.andThen o' = o := by
  unfold andThen
  rw [error_of_result_error h]

theorem mem_andThen_left {b : Binding} (h : b ∈ o.bindings) : b ∈ (o.andThen o').bindings := by
  unfold andThen
  split
  · exact h
  · exact List.mem_append_left _ h

/-! ## Where the bindings are -/

theorem mem_andThen {b : Binding} (h : b ∈ (o.andThen o').bindings) :
    b ∈ o.bindings ∨ b ∈ o'.bindings := by
  unfold andThen at h
  split at h
  · exact .inl h
  · exact List.mem_append.1 h

theorem mem_sequence {os : List Outline} {b : Binding} (h : b ∈ (sequence os).bindings) :
    ∃ o ∈ os, b ∈ o.bindings := by
  induction os with
  | nil => exact absurd h List.not_mem_nil
  | cons o os ih =>
      rcases mem_andThen h with hfirst | hrest
      · exact ⟨o, List.mem_cons_self, hfirst⟩
      · obtain ⟨o', ho', hb⟩ := ih hrest
        exact ⟨o', List.mem_cons_of_mem _ ho', hb⟩

/-- An attribute asks for the directive that it is read as. -/
theorem directive_of_mem_ofAttribute {convention : Convention} {methods : Keyed Method}
    {place : Nat} {pair : String × String} {b : Binding}
    (h : b ∈ (ofAttribute convention methods place pair).bindings) :
    ∃ directive, Directive.parse convention.marker pair.1 pair.2 = .ok (some directive) ∧
      b = .directive place directive := by
  unfold ofAttribute at h
  split at h
  · exact absurd h List.not_mem_nil
  · exact absurd h List.not_mem_nil
  · rename_i directive hparse
    refine ⟨directive, hparse, ?_⟩
    unfold ofDirective at h
    split at h
    · split at h
      · exact absurd h List.not_mem_nil
      · exact List.mem_singleton.1 h
    · exact List.mem_singleton.1 h

/-- The attributes of an element ask for directives of the element. -/
theorem directive_of_mem {convention : Convention} {methods : Keyed Method} {place : Nat}
    {attributes : Keyed String} {b : Binding}
    (h : b ∈ (ofAttributes convention methods place attributes).bindings) :
    ∃ directive, b = .directive place directive := by
  obtain ⟨o, ho, hb⟩ := mem_sequence h
  obtain ⟨pair, -, rfl⟩ := List.mem_map.1 ho
  obtain ⟨directive, -, hdirective⟩ := directive_of_mem_ofAttribute hb
  exact ⟨directive, hdirective⟩

theorem place_of_mem_ofText {convention : Convention} {place : Nat} {content : String}
    {b : Binding} (h : b ∈ (ofText convention place content).bindings) : b.place = place := by
  obtain ⟨path, -, rfl⟩ := List.mem_map.1 h
  rfl

mutual

/-- The bindings of a tree are for its nodes. -/
theorem place_of_mem_ofTree {convention : Convention} {methods : Keyed Method} {b : Binding} :
    ∀ {tree : Markup.Tree} {place : Nat}, b ∈ (ofTree convention methods place tree).bindings →
      place ≤ b.place ∧ b.place < place + tree.count
  | .element tag attributes children, place, h => by
      have hcount : (Markup.Tree.element tag attributes children).count =
          1 + Markup.Tree.countAll children := rfl
      have hown : b ∈ (ofAttributes convention methods place attributes).bindings →
          place ≤ b.place ∧ b.place < place + (Markup.Tree.element tag attributes children).count := by
        intro hb
        obtain ⟨directive, rfl⟩ := directive_of_mem hb
        exact ⟨Nat.le_refl _, Nat.lt_add_of_pos_right (Markup.Tree.count_pos _)⟩
      rw [ofTree] at h
      split at h
      · exact hown h
      · rcases mem_andThen h with hb | hb
        · exact hown hb
        · obtain ⟨hle, hlt⟩ := place_of_mem_ofForest hb
          omega
  | .text content, place, h => by
      rw [place_of_mem_ofText h]
      exact ⟨Nat.le_refl _, Nat.lt_succ_self _⟩

theorem place_of_mem_ofForest {convention : Convention} {methods : Keyed Method} {b : Binding} :
    ∀ {trees : List Markup.Tree} {place : Nat},
      b ∈ (ofForest convention methods place trees).bindings →
      place ≤ b.place ∧ b.place < place + Markup.Tree.countAll trees
  | [], place, h => absurd h List.not_mem_nil
  | tree :: trees, place, h => by
      rw [Markup.Tree.countAll]
      rcases mem_andThen h with hb | hb
      · obtain ⟨hle, hlt⟩ := place_of_mem_ofTree hb
        omega
      · obtain ⟨hle, hlt⟩ := place_of_mem_ofForest hb
        omega

end

end Outline

/-! ## Inert markup -/

mutual

/-- No attribute of the tree is a directive and no text has a placeholder. -/
def Markup.Tree.Inert (convention : Convention) : Markup.Tree → Prop
  | .element _ attributes children =>
    (∀ pair ∈ attributes.entries, Directive.parse convention.marker pair.1 pair.2 = .ok none) ∧
      InertAll convention children
  | .text content =>
    (Template.parse convention.opening convention.closing content).placeholders = []

/-- The same for a forest. -/
def Markup.Tree.InertAll (convention : Convention) : List Markup.Tree → Prop
  | [] => True
  | tree :: trees => tree.Inert convention ∧ InertAll convention trees

end

end DataBinding
