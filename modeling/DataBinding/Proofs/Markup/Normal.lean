import DataBinding.Proofs.Markup.Writing

/-!
# Parsed markup is in normal form

What the grammar derives is almost what can be written: tags are in lower
case, names are names, attributes are not repeated, void elements hold
nothing and no text is empty (`normal_of_forest`). Only neighbouring texts
may be left, where a comment was between them. Joining them gives a forest
that can be written, and that is written the same, since a text is escaped
character by character. So it is what the written markup is read as.
-/

namespace DataBinding.Markup

open Grammar

variable {text rest : List Char}

/-! ## Lower case -/

theorem toLower_cases (c : Char) :
    c.toLower = c ∨ 65 ≤ c.toNat ∧ c.toNat ≤ 90 ∧ c.toLower.toNat = c.toNat + 32 := by
  unfold Char.toLower
  split
  · rename_i h
    have hle : c.toNat ≤ 90 := h.2
    refine .inr ⟨h.1, hle, ?_⟩
    show (c.val + (97 - 65)).toNat = c.toNat + 32
    rw [UInt32.toNat_add]
    show (c.toNat + 32) % _ = c.toNat + 32
    omega
  · exact .inl rfl

theorem toLower_toLower (c : Char) : c.toLower.toLower = c.toLower := by
  rcases toLower_cases c with h | ⟨hge, -, h⟩
  · rw [h]
    exact h
  · rcases toLower_cases c.toLower with h' | ⟨-, hle, -⟩
    · exact h'
    · omega

/-- Only a small letter can come from another character. -/
theorem eq_of_toLower {c d : Char} (h : c.toLower = d) (hd : d.toNat < 97) : c = d := by
  rcases toLower_cases c with hsame | ⟨hge, -, hlower⟩
  · rw [← hsame, h]
  · rw [h] at hlower
    omega

theorem isNameChar_toLower {c : Char} (h : isNameChar c = true) :
    isNameChar c.toLower = true := by
  rcases toLower_cases c with hsame | ⟨hge, hle, hlower⟩
  · rw [hsame]
    exact h
  · have hletters : ∀ n ∈ List.range 26, isNameChar (Char.ofNat (97 + n)) = true := by decide
    have hletter := hletters (c.toNat - 65) (List.mem_range.2 (by omega))
    rwa [show 97 + (c.toNat - 65) = c.toLower.toNat by omega, Char.ofNat_toNat] at hletter

/-- A mark without letters begins a name in lower case only if it begins
the name. -/
theorem prefix_of_map_toLower {mark name : List Char} (hmark : ∀ c ∈ mark, c.toNat < 97)
    (h : mark <+: name.map Char.toLower) : mark <+: name := by
  obtain ⟨more, hmore⟩ := h
  obtain ⟨first, last, rfl, hfirst, -⟩ := List.map_eq_append_iff.1 hmore.symm
  have hsame : first.map Char.toLower = first.map id := List.map_congr_left fun c hc =>
    (eq_of_toLower rfl (hmark _ (hfirst ▸ List.mem_map_of_mem hc))).symm
  rw [List.map_id] at hsame
  exact ⟨last, by rw [← hfirst, hsame]⟩

/-! ## Names -/

theorem isName_ofList {name : List Char} (hne : name ≠ [])
    (hchars : ∀ c ∈ name, isNameChar c = true) : IsName (String.ofList name) where
  nonempty h := hne (by simpa using congrArg String.toList h)
  chars := by rwa [String.toList_ofList]

theorem toList_tagOf (name : List Char) : (tagOf name).toList = name.map Char.toLower :=
  String.toList_ofList

/-- The name after a bracket is a tag, unless a comment begins there. -/
theorem isTag_tagOf {name behind : List Char} (hne : name ≠ [])
    (hrun : Run isNameChar text name behind) (hcomment : ¬ "<!--".toList <+: '<' :: text) :
    IsTag (tagOf name) where
  toIsName := isName_ofList (by simpa using hne) fun c hc => by
    obtain ⟨d, hd, rfl⟩ := List.mem_map.1 hc
    exact isNameChar_toLower (hrun.all d hd)
  lower c hc := by
    rw [toList_tagOf] at hc
    obtain ⟨d, -, rfl⟩ := List.mem_map.1 hc
    exact toLower_toLower d
  noComment h := by
    rw [toList_tagOf] at h
    have hbegins : "!--".toList <+: name := prefix_of_map_toLower (by simp) h
    exact hcomment (List.cons_prefix_cons.2
      ⟨rfl, hrun.split ▸ hbegins.trans (List.prefix_append name behind)⟩)

theorem isName_of_attribute {pair : String × String} (h : Attribute text pair rest) :
    IsName pair.1 := by
  cases h with
  | plain hne hrun => exact isName_ofList hne hrun.all
  | valued hne hrun => exact isName_ofList hne hrun.all

theorem isName_of_attributes {pairs : List (String × String)} {closed : Bool}
    (h : Attributes text pairs closed rest) : ∀ pair ∈ pairs, IsName pair.1 := by
  induction h with
  | ended => simp
  | closed => simp
  | more _ hattribute _ ih =>
      intro pair hpair
      rcases List.mem_cons.1 hpair with rfl | hpair
      · exact isName_of_attribute hattribute
      · exact ih pair hpair

/-- Attributes that are read one after the other have the names that were
read, each once. -/
theorem keys_foldl_put {pairs : List (String × String)} {found : Keyed String}
    (hfound : found.keys.Nodup) (hnames : ∀ name ∈ found.keys, IsName name)
    (hpairs : ∀ pair ∈ pairs, IsName pair.1) :
    let all := pairs.foldl (fun c pair => c.put pair.1 pair.2) found
    all.keys.Nodup ∧ ∀ name ∈ all.keys, IsName name := by
  induction pairs generalizing found with
  | nil => exact ⟨hfound, hnames⟩
  | cons pair pairs ih =>
      have hput : ∀ name ∈ (found.put pair.1 pair.2).keys, IsName name := by
        intro name hname
        rw [Keyed.keys_put] at hname
        split at hname
        · exact hnames name hname
        · rcases List.mem_append.1 hname with hold | hnew
          · exact hnames name hold
          · exact List.mem_singleton.1 hnew ▸ hpairs pair List.mem_cons_self
      exact ih (Keyed.keys_put_nodup hfound _ _) hput
        fun other hother => hpairs other (List.mem_cons_of_mem _ hother)

/-! ## Normal form -/

mutual

/-- A tree without repeated attributes, odd names, void elements that hold
something, and empty texts. -/
def Tree.Normal : Tree → Prop
  | .element tag attributes children =>
    IsTag tag ∧ attributes.keys.Nodup ∧ (∀ name ∈ attributes.keys, IsName name) ∧
      (isVoid tag = true → children = []) ∧ NormalAll children
  | .text content => content ≠ ""

/-- The same of every tree of a forest. -/
def NormalAll : List Tree → Prop
  | [] => True
  | tree :: trees => tree.Normal ∧ NormalAll trees

end

theorem normal_of_opening {tag : String} {attributes : Keyed String} {closed : Bool}
    (h : Opening text tag attributes closed rest) :
    IsTag tag ∧ attributes.keys.Nodup ∧ ∀ name ∈ attributes.keys, IsName name := by
  cases h with
  | intro hcomment hne hrun hattributes =>
      exact ⟨isTag_tagOf hne hrun hcomment,
        keys_foldl_put List.nodup_nil (by simp) (isName_of_attributes hattributes)⟩

theorem decode_ne_nil (h : text ≠ []) : decode text ≠ [] := by
  cases hentity : entityAt text with
  | some found =>
      rw [decode_of_entityAt hentity]
      exact List.cons_ne_nil _ _
  | none =>
      obtain ⟨c, more, rfl⟩ := List.exists_cons_of_ne_nil h
      rw [decode_cons_of_entityAt hentity]
      exact List.cons_ne_nil _ _

/-- What is read from any source is in normal form. -/
theorem normal_of_forest {forest : List Tree} (h : Forest text forest rest) :
    NormalAll forest := by
  induction h with
  | nil => trivial
  | comment _ _ ih => exact ih
  | text hne hrun _ ih =>
      refine ⟨fun hempty => decode_ne_nil hne ?_, ih⟩
      simpa using congrArg String.toList hempty
  | childless hopening _ _ ih =>
      obtain ⟨htag, hkeys, hnames⟩ := normal_of_opening hopening
      exact ⟨⟨htag, hkeys, hnames, fun _ => rfl, trivial⟩, ih⟩
  | element hopening hvoid _ _ _ ihinside ihbehind =>
      obtain ⟨htag, hkeys, hnames⟩ := normal_of_opening hopening
      refine ⟨⟨htag, hkeys, hnames, fun htrue => ?_, ihinside⟩, ihbehind⟩
      rw [hvoid] at htrue
      cases htrue

/-! ## Joining neighbouring texts -/

/-- Puts a tree before a forest; two texts that meet are one. -/
def join : Tree → List Tree → List Tree
  | .text content, .text next :: trees => .text (content ++ next) :: trees
  | tree, trees => tree :: trees

mutual

/-- The tree with its neighbouring texts joined, on every level. -/
def Tree.joined : Tree → Tree
  | .element tag attributes children => .element tag attributes (joinAll children)
  | .text content => .text content

/-- The forest with every run of neighbouring texts joined to one text, on
every level. -/
def joinAll : List Tree → List Tree
  | [] => []
  | tree :: trees => join tree.joined (joinAll trees)

end

theorem renderAll_join (tree : Tree) (trees : List Tree) :
    renderAll (join tree trees) = tree.render ++ renderAll trees := by
  unfold join
  split
  · simp [renderAll, Tree.render, escape, List.flatMap_append]
  · rfl

mutual

theorem Tree.render_joined : ∀ tree : Tree, tree.joined.render = tree.render
  | .element tag attributes children => by
      rw [Tree.joined, Tree.render, Tree.render, renderAll_joinAll children]
  | .text _ => rfl

/-- Joined texts are written as the texts were. -/
theorem renderAll_joinAll : ∀ trees : List Tree, renderAll (joinAll trees) = renderAll trees
  | [] => rfl
  | tree :: trees => by
      rw [joinAll, renderAll_join, tree.render_joined, renderAll_joinAll trees, renderAll]

end

theorem writableAll_join {tree : Tree} {trees : List Tree} (htree : tree.Writable)
    (htrees : WritableAll trees) : WritableAll (join tree trees) := by
  unfold join
  split
  · rename_i content next trees
    refine ⟨fun hempty => ?_, fun _ => htrees.2.1 rfl, htrees.2.2⟩
    have hnil := congrArg String.toList hempty
    rw [String.toList_append] at hnil
    exact htree (by simpa using (List.append_eq_nil_iff.1 hnil).1)
  · rename_i hjoins
    refine ⟨htree, fun htext next hnext => ?_, htrees⟩
    cases tree with
    | element tag attributes children => cases htext
    | text content =>
        cases next with
        | element tag attributes children => rfl
        | text next =>
            obtain ⟨rest, rfl⟩ : ∃ rest, trees = .text next :: rest := by
              cases trees with
              | nil => cases hnext
              | cons first rest => exact ⟨rest, by rw [Option.some.inj hnext]⟩
            exact absurd rfl (hjoins content next rest rfl)

mutual

theorem Tree.writable_joined : ∀ {tree : Tree}, tree.Normal → tree.joined.Writable
  | .element tag attributes children, h => by
      obtain ⟨htag, hkeys, hnames, hvoid, hchildren⟩ := h
      refine ⟨htag, hkeys, hnames, fun htrue => ?_, writableAll_joinAll hchildren⟩
      rw [hvoid htrue]
      rfl
  | .text _, h => h

/-- With neighbouring texts joined, what is in normal form can be written. -/
theorem writableAll_joinAll : ∀ {trees : List Tree}, NormalAll trees → WritableAll (joinAll trees)
  | [], _ => trivial
  | _ :: _, h => writableAll_join (Tree.writable_joined h.1) (writableAll_joinAll h.2)

end

/-- What is written for a forest in normal form is read as the forest with
neighbouring texts joined. -/
theorem parse_renderAll {trees : List Tree} (h : NormalAll trees) :
    parse (String.ofList (renderAll trees)) = .ok (joinAll trees) := by
  rw [parse_eq_ok_iff, String.toList_ofList, ← renderAll_joinAll trees]
  simpa using forest_renderAll (writableAll_joinAll h) breaks_nil

end DataBinding.Markup
