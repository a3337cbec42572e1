/-!
# Searching and splitting a text

A text is a list of characters. `afterLeading` takes a given beginning off, `cutAt` cuts at the
first occurrence of a mark, `fields` splits at every separator, and `byteLength` measures a text
in UTF-8 bytes, the unit in which positions are reported. Each cut loses nothing: the parts and
the mark put together give the text again.
-/

namespace DataBinding.Text

/-- What is left of `text` after `mark`, if `text` begins with `mark`. -/
def afterLeading : (mark text : List Char) → Option (List Char)
  | [], text => some text
  | _ :: _, [] => none
  | m :: mark, c :: text => if m = c then afterLeading mark text else none

/-- The parts of `text` before and after the first occurrence of `mark`. The empty mark occurs
at the very beginning. -/
def cutAt (mark : List Char) : (text : List Char) → Option (List Char × List Char)
  | [] => (afterLeading mark []).map fun rest => ([], rest)
  | c :: text =>
    match afterLeading mark (c :: text) with
    | some rest => some ([], rest)
    | none => (cutAt mark text).map fun parts => (c :: parts.1, parts.2)

/-- The parts of a text between its separators, one more than there are separators. -/
def fields (separator : Char) : (text : List Char) → List (List Char)
  | [] => [[]]
  | c :: text =>
    if c = separator then [] :: fields separator text
    else
      match fields separator text with
      | [] => [[c]]
      | first :: others => (c :: first) :: others

/-- The length of a text in UTF-8 bytes. -/
def byteLength : (text : List Char) → Nat
  | [] => 0
  | c :: text => c.utf8Size + byteLength text

theorem fields_ne_nil (separator : Char) (text : List Char) : fields separator text ≠ [] := by
  cases text with
  | nil => exact List.cons_ne_nil _ _
  | cons c text =>
      unfold fields
      split
      · exact List.cons_ne_nil _ _
      · split <;> exact List.cons_ne_nil _ _

theorem afterLeading_eq_some_iff {mark text rest : List Char} :
    afterLeading mark text = some rest ↔ text = mark ++ rest := by
  fun_induction afterLeading mark text with
  | case1 text => simp [eq_comm]
  | case2 m mark => simp
  | case3 mark c text ih => simp [ih]
  | case4 m mark c text hne => simp [Ne.symm hne]

theorem eq_of_cutAt_eq_some {mark text before after : List Char}
    (h : cutAt mark text = some (before, after)) : text = before ++ mark ++ after := by
  fun_induction cutAt mark text generalizing before after with
  | case1 =>
    obtain ⟨rest, hrest, hpair⟩ := Option.map_eq_some_iff.1 h
    obtain ⟨rfl, rfl⟩ := Prod.mk.inj hpair
    simpa using afterLeading_eq_some_iff.1 hrest
  | case2 c text rest hrest =>
    obtain ⟨rfl, rfl⟩ := Prod.mk.inj (Option.some.inj h)
    simpa using afterLeading_eq_some_iff.1 hrest
  | case3 c text hnone ih =>
    obtain ⟨⟨b, a⟩, hcut, hpair⟩ := Option.map_eq_some_iff.1 h
    obtain ⟨rfl, rfl⟩ := Prod.mk.inj hpair
    simpa using ih hcut

@[simp] theorem byteLength_nil : byteLength [] = 0 := rfl

@[simp] theorem byteLength_cons (c : Char) (text : List Char) :
    byteLength (c :: text) = c.utf8Size + byteLength text := rfl

@[simp] theorem byteLength_append (first second : List Char) :
    byteLength (first ++ second) = byteLength first + byteLength second := by
  induction first with
  | nil => simp
  | cons c first ih => simp [ih, Nat.add_assoc]

end DataBinding.Text
