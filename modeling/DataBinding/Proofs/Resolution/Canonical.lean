import Mathlib.Data.List.DropRight
import DataBinding.Path

/-!
# Paths are canonical

A path is read at its dots, and blanks count neither around the whole path
nor around a key. As a dot is not blank, the blanks around the path are
blanks around its first and its last key (`keysOf_trim`), so the keys are
those of the source as it is written, and the trimmed source has the same
ones (`parse_is_canonical`).
-/

namespace DataBinding

namespace Text

variable {separator : Char} {text before after : List Char}

/-- There are only blanks in the text. -/
def Blanks (text : List Char) : Prop :=
  ∀ c ∈ text, isBlank c

instance (text : List Char) : Decidable (Blanks text) :=
  decidable_of_iff (text.all isBlank = true) List.all_eq_true

/-- There is no blank at either end of the text. -/
structure Trimmed (text : List Char) : Prop where
  head : ∀ c ∈ text.head?, isBlank c = false
  last : ∀ c ∈ text.getLast?, isBlank c = false

instance (text : List Char) : Decidable (Trimmed text) :=
  decidable_of_iff (text.head?.any isBlank = false ∧ text.getLast?.any isBlank = false)
    ⟨fun h => ⟨(Option.any_eq_false _ _).1 h.1, (Option.any_eq_false _ _).1 h.2⟩,
      fun h => ⟨(Option.any_eq_false _ _).2 h.head, (Option.any_eq_false _ _).2 h.last⟩⟩

/-! ## Trimming -/

theorem trimStart_append (hbefore : Blanks before) (text : List Char) :
    trimStart (before ++ text) = trimStart text :=
  List.dropWhile_append_of_pos hbefore

theorem trimStart_of_head (h : ∀ c ∈ text.head?, isBlank c = false) : trimStart text = text := by
  cases text with
  | nil => rfl
  | cons c text => exact List.dropWhile_cons_of_neg (by simp [h c rfl])

/-- Trimming takes the blanks away that are around a trimmed text. -/
theorem trim_append (hbefore : Blanks before) (htext : Trimmed text) (hafter : Blanks after) :
    trim (before ++ text ++ after) = text := by
  rw [trim, List.append_assoc, trimStart_append hbefore]
  cases text with
  | nil =>
      have hblank : trimStart ([] ++ after) = [] := List.dropWhile_eq_nil_iff.2 hafter
      rw [hblank]
      rfl
  | cons c text =>
      have hstart : trimStart (c :: text ++ after) = c :: text ++ after :=
        trimStart_of_head htext.head
      have hreverse : Blanks after.reverse := fun d hd => hafter d (List.mem_reverse.1 hd)
      have hlast : ∀ d ∈ (c :: text).reverse.head?, isBlank d = false := by
        rw [List.head?_reverse]
        exact htext.last
      rw [hstart, trimEnd, List.reverse_append, trimStart_append hreverse,
        trimStart_of_head hlast, List.reverse_reverse]

/-- A text is what trimming leaves of it, with blanks around. -/
theorem exists_blanks (text : List Char) :
    ∃ before after, Blanks before ∧ Blanks after ∧ Trimmed (trim text) ∧
      before ++ trim text ++ after = text := by
  have hend : trim text ++ (trimStart text).rtakeWhile isBlank = trimStart text :=
    List.rdropWhile_append_rtakeWhile
  refine ⟨text.takeWhile isBlank, (trimStart text).rtakeWhile isBlank,
    fun _ => List.mem_takeWhile_imp, fun _ => List.mem_rtakeWhile_imp, ⟨?_, ?_⟩, ?_⟩
  · intro c hc
    have hhead : c ∈ (trimStart text).head? := by
      rw [← hend, List.head?_append, Option.mem_def.1 hc]
      rfl
    have hdrop := List.head?_dropWhile_not isBlank text
    rw [show (text.dropWhile isBlank).head? = some c from hhead] at hdrop
    simpa using hdrop
  · intro c hc
    have hdrop := List.head?_dropWhile_not isBlank (trimStart text).reverse
    rw [trim, trimEnd, List.getLast?_reverse] at hc
    rw [show ((trimStart text).reverse.dropWhile isBlank).head? = some c from hc] at hdrop
    simpa using hdrop
  · rw [List.append_assoc, hend]
    exact List.takeWhile_append_dropWhile

theorem trimmed_trim (text : List Char) : Trimmed (trim text) := by
  obtain ⟨before, after, -, -, htrimmed, -⟩ := exists_blanks text
  exact htrimmed

/-- Trimming a trimmed text again changes nothing. -/
theorem trim_trim (text : List Char) : trim (trim text) = trim text := by
  have hnone : Blanks [] := fun c hc => absurd hc List.not_mem_nil
  simpa using trim_append hnone (trimmed_trim text) hnone

theorem trim_blanks_append (hbefore : Blanks before) (text : List Char) :
    trim (before ++ text) = trim text := by
  rw [trim, trimStart_append hbefore]
  rfl

theorem trim_append_blanks (text : List Char) (hafter : Blanks after) :
    trim (text ++ after) = trim text := by
  obtain ⟨first, last, hfirst, hlast, htrimmed, htext⟩ := exists_blanks text
  have hmore : Blanks (last ++ after) := fun c hc =>
    (List.mem_append.1 hc).elim (hlast c) (hafter c)
  have h := trim_append hfirst htrimmed hmore
  rwa [← List.append_assoc, htext] at h

/-! ## Fields -/

theorem fields_eq_splitOn (separator : Char) (text : List Char) :
    fields separator text = text.splitOn separator := by
  induction text with
  | nil => rfl
  | cons c text ih =>
      rw [fields, List.splitOn_cons_eq_if_modifyHead, ← ih]
      by_cases hc : c = separator
      · simp [hc]
      · obtain ⟨first, others, hfields⟩ :=
          List.exists_cons_of_ne_nil (fields_ne_nil separator text)
        simp [hc, hfields]

theorem length_fields (separator : Char) (text : List Char) :
    (fields separator text).length = text.count separator + 1 := by
  induction text with
  | nil => rfl
  | cons c text ih =>
      rw [fields_eq_splitOn] at ih ⊢
      rw [List.splitOn_cons_eq_if_modifyHead]
      by_cases hc : c = separator
      · simp [hc, ih]
      · simp [hc, ih]

/-- No field has a separator in it. -/
theorem not_mem_of_mem_fields (text : List Char) :
    ∀ field ∈ fields separator text, separator ∉ field := by
  induction text with
  | nil => simp [fields]
  | cons c text ih =>
      rw [fields]
      split
      · simpa using ih
      · rename_i hc
        obtain ⟨first, others, hfields⟩ :=
          List.exists_cons_of_ne_nil (fields_ne_nil separator text)
        rw [hfields] at ih ⊢
        obtain ⟨hfirst, hothers⟩ := List.forall_mem_cons.1 ih
        exact List.forall_mem_cons.2
          ⟨List.not_mem_cons_of_ne_of_not_mem (Ne.symm hc) hfirst, hothers⟩

/-- What is put before a text without a separator belongs to the first
field. -/
theorem fields_append_left (hbefore : separator ∉ before) (text : List Char) :
    ∃ first others, fields separator text = first :: others ∧
      fields separator (before ++ text) = (before ++ first) :: others := by
  obtain ⟨first, others, hfields⟩ := List.exists_cons_of_ne_nil (fields_ne_nil separator text)
  refine ⟨first, others, hfields, ?_⟩
  induction before with
  | nil => exact hfields
  | cons c before ih =>
      obtain ⟨hc, hmore⟩ := not_or.1 (mt List.mem_cons.2 hbefore)
      rw [List.cons_append, fields, if_neg (Ne.symm hc), ih hmore]
      rfl

/-- What is put after a text without a separator belongs to the last
field. -/
theorem fields_append_right (text : List Char) (hafter : separator ∉ after) :
    ∃ others last, fields separator text = others ++ [last] ∧
      fields separator (text ++ after) = others ++ [last ++ after] := by
  induction text with
  | nil =>
      refine ⟨[], [], rfl, ?_⟩
      rw [fields_eq_splitOn]
      exact List.splitOn_eq_singleton hafter
  | cons c text ih =>
      obtain ⟨others, last, hfields, happend⟩ := ih
      rw [List.cons_append, fields, fields, hfields, happend]
      by_cases hc : c = separator
      · exact ⟨[] :: others, last, if_pos hc, if_pos hc⟩
      · rw [if_neg hc, if_neg hc]
        cases others with
        | nil => exact ⟨[], c :: last, rfl, rfl⟩
        | cons first others => exact ⟨(c :: first) :: others, last, rfl, rfl⟩

end Text

namespace Path

variable {text before after : List Char}

/-! ## Keys -/

/-- A text that can be written between the dots of a path as it is. -/
structure IsKey (key : String) : Prop where
  no_dot : '.' ∉ key.toList
  trimmed : Text.Trimmed key.toList

theorem isKey_empty : IsKey "" := ⟨by decide, by decide⟩

/-- A key with the blanks that are written around it. -/
structure PaddedKey where
  before : String
  key : String
  after : String
  isKey : IsKey key
  blanks_before : Text.Blanks before.toList
  blanks_after : Text.Blanks after.toList

/-- The key as it is written. -/
def PaddedKey.written (padded : PaddedKey) : String :=
  padded.before ++ padded.key ++ padded.after

theorem not_dot_of_blanks (h : Text.Blanks text) : '.' ∉ text := fun hdot =>
  absurd (h '.' hdot) (by decide)

theorem PaddedKey.no_dot (padded : PaddedKey) : '.' ∉ padded.written.toList := by
  simp only [written, String.toList_append, List.mem_append, not_or]
  exact ⟨⟨not_dot_of_blanks padded.blanks_before, padded.isKey.no_dot⟩,
    not_dot_of_blanks padded.blanks_after⟩

theorem PaddedKey.trim_written (padded : PaddedKey) :
    String.ofList (Text.trim padded.written.toList) = padded.key := by
  rw [written, String.toList_append, String.toList_append,
    Text.trim_append padded.blanks_before padded.isKey.trimmed padded.blanks_after,
    String.ofList_toList]

/-- Blanks around a path do not change its keys. -/
theorem keysOf_append (hbefore : Text.Blanks before) (text : List Char)
    (hafter : Text.Blanks after) : keysOf (before ++ text ++ after) = keysOf text := by
  have hleft : keysOf (before ++ text) = keysOf text := by
    obtain ⟨first, others, hfields, happend⟩ :=
      Text.fields_append_left (not_dot_of_blanks hbefore) text
    rw [keysOf, keysOf, hfields, happend, List.map_cons, List.map_cons,
      Text.trim_blanks_append hbefore]
  have hright : keysOf (before ++ text ++ after) = keysOf (before ++ text) := by
    obtain ⟨others, last, hfields, happend⟩ :=
      Text.fields_append_right (before ++ text) (not_dot_of_blanks hafter)
    rw [keysOf, keysOf, hfields, happend, List.map_append, List.map_append, List.map_singleton,
      List.map_singleton, Text.trim_append_blanks _ hafter]
  rw [hright, hleft]

/-- A trimmed path has the keys of the path. -/
theorem keysOf_trim (text : List Char) : keysOf (Text.trim text) = keysOf text := by
  obtain ⟨before, after, hbefore, hafter, -, htext⟩ := Text.exists_blanks text
  rw [← keysOf_append hbefore (Text.trim text) hafter, htext]

theorem segments_eq_keysOf (source : String) : (parse source).segments = keysOf source.toList :=
  keysOf_trim source.toList

/-- Keys joined by dots are read back, whatever blanks are around them. -/
theorem keysOf_intercalate {keys : List PaddedKey} (h : keys ≠ []) :
    keysOf (".".intercalate (keys.map PaddedKey.written)).toList = keys.map PaddedKey.key := by
  have hsplit : (['.'].intercalate (keys.map fun padded => padded.written.toList)).splitOn '.' =
      keys.map fun padded => padded.written.toList := by
    refine List.splitOn_intercalate '.' ?_ (by simpa using h)
    rintro _ hmem
    obtain ⟨padded, -, rfl⟩ := List.mem_map.1 hmem
    exact padded.no_dot
  rw [keysOf, Text.fields_eq_splitOn, String.toList_intercalate, List.map_map]
  refine (congrArg (List.map _) hsplit).trans ?_
  rw [List.map_map]
  exact List.map_congr_left fun padded _ => padded.trim_written

theorem isKey_of_mem_keysOf {key : String} (h : key ∈ keysOf text) : IsKey key := by
  obtain ⟨field, hfield, rfl⟩ := List.mem_map.1 h
  obtain ⟨before, after, -, -, htrimmed, htext⟩ := Text.exists_blanks field
  refine ⟨?_, by rwa [String.toList_ofList]⟩
  rw [String.toList_ofList]
  intro hdot
  refine Text.not_mem_of_mem_fields text field hfield ?_
  rw [← htext]
  exact List.mem_append_left _ (List.mem_append_right _ hdot)

/-- Keys that are written with any blanks around them, and with dots between
them, are the segments of the path that is read. Every source is read so:
its segments are keys, one more than it has dots, and what is kept as the
source is read as the same path again. -/
theorem parse_is_canonical :
    (∀ keys : List PaddedKey, keys ≠ [] →
      (parse (".".intercalate (keys.map PaddedKey.written))).segments = keys.map PaddedKey.key) ∧
    ∀ source,
      (parse source).segments ≠ [] ∧ (∀ key ∈ (parse source).segments, IsKey key) ∧
      (parse source).segments.length = source.toList.count '.' + 1 ∧
      parse (parse source).source = parse source := by
  constructor
  · intro keys hkeys
    rw [segments_eq_keysOf, keysOf_intercalate hkeys]
  · intro source
    rw [segments_eq_keysOf]
    refine ⟨?_, fun key => isKey_of_mem_keysOf, ?_, ?_⟩
    · exact mt List.map_eq_nil_iff.1 (Text.fields_ne_nil _ _)
    · rw [keysOf, List.length_map, Text.length_fields]
    · simp only [parse, String.toList_ofList, Text.trim_trim]

/-- A blank key before the first dot, blanks inside of a key, and nothing
after the last dot. -/
theorem parse_is_canonical_of_blanks :
    ∃ first second third : PaddedKey, [first, second, third] ≠ [] ∧
      ".".intercalate ([first, second, third].map PaddedKey.written) = "\u3000.\u2009a b\u00a0." ∧
      (parse "\u3000.\u2009a b\u00a0.").segments = ["", "a b", ""] ∧
      (parse "\u3000.\u2009a b\u00a0.").segments.length = 3 := by
  let first : PaddedKey := ⟨"\u3000", "", "", isKey_empty, by decide, by decide⟩
  let second : PaddedKey :=
    ⟨"\u2009", "a b", "\u00a0", ⟨by decide, by decide⟩, by decide, by decide⟩
  let third : PaddedKey := ⟨"", "", "", isKey_empty, by decide, by decide⟩
  have hsource : ".".intercalate ([first, second, third].map PaddedKey.written) =
      "\u3000.\u2009a b\u00a0." := by decide
  have hsegments := parse_is_canonical.1 [first, second, third] (List.cons_ne_nil _ _)
  rw [hsource] at hsegments
  refine ⟨first, second, third, List.cons_ne_nil _ _, hsource, hsegments, ?_⟩
  exact (parse_is_canonical.2 "\u3000.\u2009a b\u00a0.").2.2.1

end Path

end DataBinding
