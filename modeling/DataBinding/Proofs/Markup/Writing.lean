import DataBinding.Proofs.Markup.Parsing

/-!
# What is written is in the grammar

A forest can be written when its names read as names, a void element holds
nothing, and no two texts are neighbours, since they would be read as one.
What `renderAll` writes for such a forest is a derivation of the grammar
with the same forest, whatever follows it, as long as a text at its end is
not continued (`forest_renderAll`). The parser is not mentioned here: that
it reads the forest back is the equivalence of parser and grammar.
-/

namespace DataBinding

/-! ## Keys that are not repeated -/

theorem Keyed.put_new {β : Type} {c : Keyed β} {key : String} {value : β} (h : key ∉ c.keys) :
    c.put key value = ⟨c.entries ++ [(key, value)]⟩ := by
  obtain ⟨entries⟩ := c
  simp only [Keyed.put, Keyed.keys, Keyed.mk.injEq] at h ⊢
  induction entries with
  | nil => rfl
  | cons entry entries ih =>
      obtain ⟨hne, hout⟩ := not_or.1 (mt List.mem_cons.2 h)
      rw [Keyed.putEntry, if_neg (Ne.symm hne), ih hout, List.cons_append]

theorem Keyed.foldl_put {β : Type} (c : Keyed β) {pairs : List (String × β)}
    (h : (c.keys ++ pairs.map (·.1)).Nodup) :
    pairs.foldl (fun c pair => c.put pair.1 pair.2) c = ⟨c.entries ++ pairs⟩ := by
  induction pairs generalizing c with
  | nil => rw [List.foldl_nil, List.append_nil]
  | cons pair pairs ih =>
      have hnew : pair.1 ∉ c.keys := fun hmem =>
        (List.nodup_append.1 h).2.2 pair.1 hmem pair.1 List.mem_cons_self rfl
      have hkeys : (c.put pair.1 pair.2).keys = c.keys ++ [pair.1] := by
        rw [Keyed.keys_put, if_neg hnew]
      rw [List.foldl_cons, ih _ (by simpa [hkeys] using h), put_new hnew]
      simp

theorem Keyed.ofList_entries {β : Type} {c : Keyed β} (h : c.keys.Nodup) :
    Keyed.ofList c.entries = c :=
  Keyed.foldl_put .empty h

namespace Markup

open Grammar

variable {text rest : List Char}

/-! ## Forests that can be written -/

/-- A text that is read as one name. -/
structure IsName (name : String) : Prop where
  nonempty : name ≠ ""
  chars : ∀ c ∈ name.toList, isNameChar c = true

/-- A tag that is read as it is written: in lower case, and not as the
beginning of a comment. -/
structure IsTag (tag : String) : Prop extends IsName tag where
  lower : ∀ c ∈ tag.toList, c.toLower = c
  noComment : ¬ "!--".toList <+: tag.toList

/-- Whether a tree is a text. -/
def Tree.isText : Tree → Bool
  | .element _ _ _ => false
  | .text _ => true

mutual

/-- A tree that is read as it is written. -/
def Tree.Writable : Tree → Prop
  | .element tag attributes children =>
    IsTag tag ∧ attributes.keys.Nodup ∧ (∀ name ∈ attributes.keys, IsName name) ∧
      (isVoid tag = true → children = []) ∧ WritableAll children
  | .text content => content ≠ ""

/-- A forest that is read as it is written: no two texts are neighbours. -/
def WritableAll : List Tree → Prop
  | [] => True
  | tree :: trees =>
    tree.Writable ∧ (tree.isText = true → ∀ next ∈ trees.head?, next.isText = false) ∧
      WritableAll trees

end

/-! ## Names -/

/-- What is a beginning of a text and of one kind is a beginning of its
first run. -/
theorem Grammar.Run.prefix_run {kind : Char → Bool} {text run rest mark : List Char}
    (h : Run kind text run rest) (hmark : ∀ c ∈ mark, kind c = true) (hbegins : mark <+: text) :
    mark <+: run := by
  obtain ⟨rfl, -, hstops⟩ := h
  rcases List.prefix_or_prefix_of_prefix hbegins (List.prefix_append run rest) with h | ⟨more, rfl⟩
  · exact h
  · cases more with
    | nil => exact ⟨[], by simp⟩
    | cons c more =>
        -- the run would go on with a character of the mark
        obtain ⟨behind, hbehind⟩ := hbegins
        rw [List.append_assoc] at hbehind
        have hhead : c ∈ rest.head? := by rw [← List.append_cancel_left hbehind]; rfl
        have hc := hmark c (List.mem_append_right run List.mem_cons_self)
        exact absurd (hstops c hhead) (by rw [hc]; decide)

theorem IsName.ne_nil {name : String} (h : IsName name) : name.toList ≠ [] := by
  simpa using h.nonempty

/-- A name is read up to a character that is in no name. -/
theorem IsName.run {name : String} (h : IsName name) {c : Char} (hc : isNameChar c = false) :
    Run isNameChar (name.toList ++ c :: rest) name.toList (c :: rest) :=
  ⟨rfl, h.chars, fun _ hd => Option.some.inj hd ▸ hc⟩

/-- There is no blank where another character comes. -/
theorem Grammar.run_blank_nil {c : Char} (hc : Text.isBlank c = false) :
    Run Text.isBlank (c :: text) [] (c :: text) :=
  ⟨rfl, fun _ h => absurd h List.not_mem_nil, fun _ hd => Option.some.inj hd ▸ hc⟩

theorem isBlank_of_isNameChar {c : Char} (h : isNameChar c = true) : Text.isBlank c = false := by
  unfold isNameChar at h
  cases hblank : Text.isBlank c with
  | false => rfl
  | true => simp [hblank] at h

/-- The blank before a name. -/
theorem IsName.run_blank {name : String} (h : IsName name) :
    Run Text.isBlank (' ' :: name.toList ++ rest) [' '] (name.toList ++ rest) := by
  refine ⟨rfl, List.all_eq_true.1 (by decide), fun c hc => ?_⟩
  obtain ⟨first, more, hname⟩ := List.exists_cons_of_ne_nil h.ne_nil
  rw [hname] at hc
  obtain rfl := Option.some.inj hc
  exact isBlank_of_isNameChar (h.chars first (hname ▸ List.mem_cons_self))

theorem IsTag.tagOf {tag : String} (h : IsTag tag) : tagOf tag.toList = tag := by
  rw [Markup.tagOf, List.map_congr_left h.lower, List.map_id', String.ofList_toList]

/-! ## Tags -/

/-- An attribute as it is written. -/
theorem attribute_render {pair : String × String} (h : IsName pair.1) :
    Attribute (pair.1.toList ++ '=' :: '\x22' :: escape true pair.2.toList ++ '\x22' :: rest) pair
      rest := by
  have hvalue : Value ('\x22' :: escape true pair.2.toList ++ '\x22' :: rest)
      (String.ofList (decode (escape true pair.2.toList))) rest :=
    .quoted (by decide) (quote_not_mem_escape pair.2.toList)
  have hattribute := Attribute.valued h.ne_nil (h.run (by decide)) (run_blank_nil (by decide))
    (run_blank_nil (by decide)) hvalue
  simpa [decode_escape] using hattribute

/-- The attributes of an opening tag, up to its end. -/
theorem attributes_render {pairs : List (String × String)} (h : ∀ pair ∈ pairs, IsName pair.1) :
    Attributes (pairs.flatMap renderAttribute ++ '>' :: rest) pairs false rest := by
  induction pairs with
  | nil => exact .ended (run_blank_nil (by decide))
  | cons pair pairs ih =>
      have hname := h pair List.mem_cons_self
      have hpairs := ih fun other hother => h other (List.mem_cons_of_mem _ hother)
      have hwritten : (pair :: pairs).flatMap renderAttribute ++ '>' :: rest =
          ' ' :: pair.1.toList ++ ('=' :: '\x22' :: escape true pair.2.toList ++
            '\x22' :: (pairs.flatMap renderAttribute ++ '>' :: rest)) := by
        simp [renderAttribute]
      rw [hwritten]
      refine .more hname.run_blank ?_ hpairs
      simpa using attribute_render hname

theorem opening_render {tag : String} {attributes : Keyed String} (htag : IsTag tag)
    (hkeys : attributes.keys.Nodup) (hnames : ∀ name ∈ attributes.keys, IsName name) :
    Opening (renderOpening tag attributes ++ rest) tag attributes false rest := by
  have hpairs : ∀ pair ∈ attributes.entries, IsName pair.1 := fun pair hpair =>
    hnames pair.1 (List.mem_map_of_mem hpair)
  -- the tag ends at the blank before the first attribute, or at the bracket
  obtain ⟨c, behind, hbehind, hc⟩ : ∃ c behind,
      attributes.entries.flatMap renderAttribute ++ '>' :: rest = c :: behind ∧
        isNameChar c = false := by
    cases attributes.entries with
    | nil => exact ⟨'>', rest, rfl, by decide⟩
    | cons pair pairs => exact ⟨' ', _, rfl, by decide⟩
  have hattributes : Attributes (c :: behind) attributes.entries false rest :=
    hbehind ▸ attributes_render hpairs
  have hrun : Run isNameChar (tag.toList ++ c :: behind) tag.toList (c :: behind) :=
    htag.toIsName.run hc
  have hcomment : ¬ "<!--".toList <+: '<' :: (tag.toList ++ c :: behind) := fun h =>
    htag.noComment (hrun.prefix_run (List.all_eq_true.1 (by decide)) (List.cons_prefix_cons.1 h).2)
  have hopening := Opening.intro hcomment htag.ne_nil hrun hattributes
  rw [htag.tagOf, Keyed.ofList_entries hkeys, ← hbehind] at hopening
  simpa [renderOpening] using hopening

theorem closing_render {tag : String} (h : IsTag tag) :
    Closing ('<' :: '/' :: tag.toList ++ '>' :: rest) tag rest := by
  have hend : Run Text.isBlank ('>' :: rest) [] ('>' :: rest) := run_blank_nil (by decide)
  have hclosing := Closing.intro (h.run (by decide)) hend
  rwa [h.tagOf] at hclosing

/-! ## Forests -/

/-- Where no text goes on. -/
def Breaks (text : List Char) : Prop :=
  ∀ c ∈ text.head?, c = '<'

theorem breaks_nil : Breaks [] :=
  fun _ h => by cases h

theorem breaks_renderAll {trees : List Tree} (h : ∀ tree ∈ trees.head?, tree.isText = false)
    (hrest : Breaks rest) : Breaks (renderAll trees ++ rest) := by
  cases trees with
  | nil => exact hrest
  | cons tree trees =>
      cases tree with
      | element tag attributes children =>
          intro c hc
          exact (Option.some.inj hc).symm
      | text content => exact absurd (h _ rfl) Bool.noConfusion

/-- A text that is not continued. -/
theorem run_escape {content : String} (hrest : Breaks rest) :
    Run (· ≠ '<') (escape false content.toList ++ rest) (escape false content.toList) rest := by
  refine ⟨rfl, fun c hc => ?_, fun c hc => ?_⟩
  · exact decide_eq_true fun heq => lt_not_mem_escape false content.toList (heq ▸ hc)
  · exact decide_eq_false (not_not_intro (hrest c hc))

mutual

theorem forest_render : ∀ {tree : Tree} {trees : List Tree} {text rest : List Char},
    tree.Writable → (tree.isText = true → Breaks text) → Forest text trees rest →
      Forest (tree.render ++ text) (tree :: trees) rest
  | .text content, trees, text, rest, hcontent, hbreaks, hforest => by
      have hne : content.toList ≠ [] := by simpa [Tree.Writable] using hcontent
      have htext := Forest.text (escape_ne_nil false hne) (run_escape (hbreaks rfl)) hforest
      rwa [decode_escape, String.ofList_toList] at htext
  | .element tag attributes children, trees, text, rest, h, _, hforest => by
      obtain ⟨htag, hkeys, hnames, hvoid, hchildren⟩ := h
      rw [Tree.render, List.append_assoc]
      have hopening : ∀ {after}, Opening (renderOpening tag attributes ++ after) tag attributes
          false after := opening_render htag hkeys hnames
      cases hcase : isVoid tag with
      | true =>
          rw [hvoid hcase, if_pos rfl]
          exact .childless hopening hcase hforest
      | false =>
          rw [if_neg Bool.false_ne_true, List.append_assoc, List.append_assoc]
          have hinside : Forest (renderAll children ++ ('<' :: '/' :: tag.toList ++ '>' :: text))
              children ('<' :: '/' :: tag.toList ++ '>' :: text) :=
            forest_renderAll hchildren fun c hc => (Option.some.inj hc).symm
          exact .element hopening hcase hinside (closing_render htag) hforest

theorem forest_renderAll : ∀ {trees : List Tree} {rest : List Char},
    WritableAll trees → Breaks rest → Forest (renderAll trees ++ rest) trees rest
  | [], rest, _, _ => .nil rest
  | tree :: trees, rest, h, hrest => by
      obtain ⟨htree, hnext, htrees⟩ := h
      rw [renderAll, List.append_assoc]
      exact forest_render htree (fun htext => breaks_renderAll (hnext htext) hrest)
        (forest_renderAll htrees hrest)

end

end Markup

end DataBinding
