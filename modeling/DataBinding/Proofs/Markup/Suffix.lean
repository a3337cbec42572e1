import DataBinding.Proofs.Markup.Scanning

/-!
# What is left is an end of the text

Each scanner leaves an end of the text that it was given, and a failure
shows at such an end (`within_next`). So the position of a failure is the
length of a beginning of the source (`parse_eq_error`).
-/

namespace DataBinding

theorem Text.byteLength_toList (s : String) : byteLength s.toList = s.utf8ByteSize := by
  have hlist : ∀ text : List Char, byteLength text = (String.ofList text).utf8ByteSize := by
    intro text
    induction text with
    | nil => rfl
    | cons c text ih => simp [ih, String.ofList_cons]
  rw [hlist, String.ofList_toList]

namespace Markup

variable {α β : Type} {text text' : List Char}

/-- What a reading leaves, or the place at which it fails, is an end of the
text. -/
def Within (text : List Char) : Reading α → Prop
  | .ok (_, rest) => rest <:+ text
  | .error failure => failure.rest <:+ text

theorem Within.mono {reading : Reading α} (h : Within text reading) (htext : text <:+ text') :
    Within text' reading := by
  cases reading with
  | error failure => exact List.IsSuffix.trans h htext
  | ok result => exact List.IsSuffix.trans h htext

theorem Within.map {reading : Reading α} (h : Within text reading) (f : α → β) :
    Within text (reading.map fun result => (f result.1, result.2)) := by
  cases reading with
  | error failure => exact h
  | ok result => exact h

theorem trimStart_suffix (text : List Char) : Text.trimStart text <:+ text :=
  List.dropWhile_suffix _

theorem afterName_suffix (text : List Char) : afterName text <:+ text :=
  List.dropWhile_suffix _

/-! ## Scanners -/

theorem within_bracket (text : List Char) : Within text (bracket text) := by
  unfold bracket
  split
  · exact List.suffix_cons _ _
  · exact List.suffix_rfl

theorem within_value (text : List Char) : Within text (value text) := by
  cases text with
  | nil => exact List.suffix_rfl
  | cons c text =>
      simp only [value]
      split
      · split
        · rename_i inner rest hcut
          rw [Text.eq_of_cutAt_eq_some hcut]
          exact (List.suffix_append _ _).trans (List.suffix_cons _ _)
        · exact List.suffix_cons _ _
      · exact List.dropWhile_suffix _

theorem within_valueAfterName (text : List Char) : Within text (valueAfterName text) := by
  unfold valueAfterName
  split
  · exact (within_value _).mono ((trimStart_suffix _).trans (List.suffix_cons _ _))
  · exact List.suffix_rfl

theorem within_attributeOf (text : List Char) : Within text (attributeOf text) := by
  have hvalue : Within text (valueAfterName (Text.trimStart (afterName text))) :=
    (within_valueAfterName _).mono ((trimStart_suffix _).trans (afterName_suffix _))
  unfold attributeOf
  split
  · exact List.suffix_rfl
  · split
    · rename_i failure hfailure
      rw [hfailure] at hvalue
      exact hvalue
    · rename_i content rest hok
      rw [hok] at hvalue
      exact hvalue

theorem within_attributes (found : Keyed String) (text : List Char) :
    Within text (attributes found text) := by
  fun_induction attributes found text with
  | case1 => exact List.nil_suffix
  | case2 found text rest htrim =>
      have htext := trimStart_suffix text
      rw [htrim] at htext
      exact (List.suffix_cons _ _).trans htext
  | case3 found text rest htrim =>
      have htext := trimStart_suffix text
      rw [htrim] at htext
      exact ((within_bracket rest).mono ((List.suffix_cons _ _).trans htext)).map
        fun _ => (found, true)
  | case4 found text c more _ _ htrim failure hfailure =>
      have htext := trimStart_suffix text
      have hattribute := within_attributeOf (c :: more)
      rw [htrim] at htext
      rw [hfailure] at hattribute
      exact hattribute.trans htext
  | case5 found text c more _ _ htrim pair rest hok ih =>
      have htext := trimStart_suffix text
      have hattribute := within_attributeOf (c :: more)
      rw [htrim] at htext
      rw [hok] at hattribute
      exact ih.mono (hattribute.trans htext)

/-! ## Tokens -/

theorem within_openingTag (text : List Char) : Within text (openingTag text) := by
  unfold openingTag
  split
  · exact List.suffix_rfl
  · exact ((within_attributes .empty (afterName text)).mono (afterName_suffix text)).map
      fun found => Token.opening (tagOf (name text)) found.1 found.2

theorem within_closingTag (text : List Char) : Within text (closingTag text) :=
  ((within_bracket _).mono ((trimStart_suffix _).trans (afterName_suffix text))).map
    fun _ => Token.closing (tagOf (name text))

theorem within_next (text : List Char) : Within text (Token.next text) := by
  unfold Token.next
  split
  · split
    · rename_i before rest hcut
      rw [Text.eq_of_cutAt_eq_some hcut]
      exact List.suffix_append _ _
    · exact List.suffix_rfl
  · split
    · rename_i rest _
      exact (within_closingTag rest).mono ((List.suffix_cons _ _).trans (List.suffix_cons _ _))
    · rename_i rest _ _
      exact (within_openingTag rest).mono (List.suffix_cons _ _)
    · exact List.dropWhile_suffix _

/-! ## Failures -/

theorem suffix_of_forestFrom {u : Unfinished} {failure : Failure}
    (h : forestFrom u text = .error failure) : failure.rest <:+ text := by
  fun_induction forestFrom u text with
  | case1 => cases h
  | case2 =>
      obtain rfl := Except.error.inj h
      exact List.suffix_rfl
  | case3 u text hsource found hnext =>
      obtain rfl := Except.error.inj h
      have hwithin := within_next text
      rwa [hnext] at hwithin
  | case4 u text hsource token rest hnext cause hcause =>
      obtain rfl := Except.error.inj h
      have hwithin := within_next text
      rwa [hnext] at hwithin
  | case5 u text hsource token rest hnext grown hgrown ih =>
      have hwithin := within_next text
      rw [hnext] at hwithin
      exact (ih h).trans hwithin

/-- A source is refused at an end of it, with the length of what comes
before as the position. -/
theorem parse_eq_error {source : String} {e : Error} (h : parse source = .error e) :
    ∃ before failure, forestFrom .start source.toList = .error failure ∧
      source.toList = before ++ failure.rest ∧
        e = .markup (Text.byteLength before) failure.cause := by
  unfold parse at h
  cases hforest : forestFrom .start source.toList with
  | ok forest =>
      rw [hforest] at h
      cases h
  | error failure =>
      rw [hforest] at h
      obtain rfl := Except.error.inj h
      obtain ⟨before, hbefore⟩ := suffix_of_forestFrom hforest
      have hposition : Text.byteLength source.toList - Text.byteLength failure.rest =
          Text.byteLength before := by
        rw [← hbefore, Text.byteLength_append, Nat.add_sub_cancel]
      exact ⟨before, failure, rfl, hbefore.symm, congrArg (Error.markup · failure.cause) hposition⟩

end Markup

end DataBinding
