import DataBinding.Proofs.Markup.Decoding
import DataBinding.Proofs.Markup.Grammar

/-!
# Scanners read the grammar

Each scanner of the parser takes off the beginning of a text exactly what
the grammar has there: `takeWhile` and `dropWhile` cut off the longest run,
`cutAt` ends at the first mark. One equivalence per scanner, up to
`next_eq_ok_iff` for the tokens of a source; whoever needs what a scanner
does uses its equivalence and not its definition.
-/

namespace DataBinding

/-! ## Cutting -/

namespace Text

theorem afterLeading_isSome {mark text : List Char} :
    (afterLeading mark text).isSome = true ↔ mark <+: text := by
  rw [Option.isSome_iff_exists]
  exact ⟨fun ⟨rest, h⟩ => ⟨rest, (afterLeading_eq_some_iff.1 h).symm⟩,
    fun ⟨rest, h⟩ => ⟨rest, afterLeading_eq_some_iff.2 h.symm⟩⟩

theorem afterLeading_eq_none {mark text : List Char} :
    afterLeading mark text = none ↔ ¬ mark <+: text := by
  rw [← afterLeading_isSome, Option.not_isSome_iff_eq_none]

/-- A text is cut at the first place where the mark occurs. -/
theorem cutAt_eq_some_iff {mark text before after : List Char} :
    cutAt mark text = some (before, after) ↔ text = before ++ mark ++ after ∧
      ∀ other rest, text = other ++ mark ++ rest → before.length ≤ other.length := by
  fun_induction cutAt mark text generalizing before after with
  | case1 =>
      simp only [Option.map_eq_some_iff, Prod.mk.injEq, afterLeading_eq_some_iff]
      constructor
      · rintro ⟨rest, hrest, rfl, rfl⟩
        exact ⟨hrest, fun _ _ _ => Nat.zero_le _⟩
      · rintro ⟨htext, -⟩
        obtain ⟨hbefore, rfl⟩ := List.append_eq_nil_iff.1 htext.symm
        obtain ⟨rfl, rfl⟩ := List.append_eq_nil_iff.1 hbefore
        exact ⟨[], rfl, rfl, rfl⟩
  | case2 c text rest hrest =>
      have htext := afterLeading_eq_some_iff.1 hrest
      simp only [Option.some.injEq, Prod.mk.injEq]
      constructor
      · rintro ⟨rfl, rfl⟩
        exact ⟨htext, fun _ _ _ => Nat.zero_le _⟩
      · rintro ⟨hcut, hfirst⟩
        have hnil : before = [] := List.eq_nil_of_length_eq_zero
          (Nat.le_zero.1 (hfirst [] rest htext))
        subst hnil
        exact ⟨rfl, List.append_cancel_left (htext.symm.trans hcut)⟩
  | case3 c text hnone ih =>
      have hno : ¬ mark <+: c :: text := afterLeading_eq_none.1 hnone
      simp only [Option.map_eq_some_iff, Prod.mk.injEq, Prod.exists]
      constructor
      · rintro ⟨inner, rest, hcut, rfl, rfl⟩
        obtain ⟨rfl, hfirst⟩ := ih.1 hcut
        refine ⟨rfl, fun other rest hother => ?_⟩
        cases other with
        | nil => exact absurd ⟨rest, hother.symm⟩ hno
        | cons x other => exact Nat.succ_le_succ (hfirst other rest (List.cons.inj hother).2)
      · rintro ⟨htext, hfirst⟩
        cases before with
        | nil => exact absurd ⟨after, htext.symm⟩ hno
        | cons x before =>
            obtain ⟨rfl, htail⟩ := List.cons.inj htext
            refine ⟨before, after, ih.2 ⟨htail, fun other rest hother => ?_⟩, rfl, rfl⟩
            exact Nat.le_of_succ_le_succ (hfirst (c :: other) rest (congrArg (c :: ·) hother))

/-- The first occurrence of a single character. -/
theorem cutAt_singleton_iff {c : Char} {text before after : List Char} :
    cutAt [c] text = some (before, after) ↔ text = before ++ c :: after ∧ c ∉ before := by
  rw [cutAt_eq_some_iff]
  constructor
  · rintro ⟨rfl, hfirst⟩
    refine ⟨by simp, fun hmem => ?_⟩
    obtain ⟨first, rest, rfl⟩ := List.append_of_mem hmem
    have hle := hfirst first (rest ++ [c] ++ after) (by simp)
    simp only [List.length_append, List.length_cons] at hle
    omega
  · rintro ⟨rfl, hout⟩
    refine ⟨by simp, fun other rest hother => ?_⟩
    rw [List.append_assoc, List.singleton_append] at hother
    rcases List.append_eq_append_iff.1 hother with ⟨more, rfl, -⟩ | ⟨more, rfl, hrest⟩
    · simp
    · cases more with
      | nil => simp
      | cons x more =>
          obtain ⟨rfl, -⟩ := List.cons.inj hrest
          exact absurd (by simp) hout

end Text

namespace Markup

open Grammar

variable {text run rest : List Char}

/-! ## Runs -/

theorem Grammar.run_iff {kind : Char → Bool} :
    Run kind text run rest ↔ text.takeWhile kind = run ∧ text.dropWhile kind = rest := by
  constructor
  · rintro ⟨rfl, hall, hstops⟩
    have hrest : rest.takeWhile kind = [] ∧ rest.dropWhile kind = rest := by
      cases rest with
      | nil => exact ⟨rfl, rfl⟩
      | cons c rest => simp [hstops c rfl]
    rw [List.takeWhile_append_of_pos hall, List.dropWhile_append_of_pos hall, hrest.1, hrest.2]
    exact ⟨List.append_nil run, rfl⟩
  · rintro ⟨rfl, rfl⟩
    refine ⟨List.takeWhile_append_dropWhile.symm, fun c hc => ?_, fun c hc => ?_⟩
    · exact List.all_eq_true.1 List.all_takeWhile c hc
    · have hhead := List.head?_dropWhile_not kind text
      rw [Option.mem_def.1 hc] at hhead
      exact hhead

theorem Grammar.run_takeWhile (kind : Char → Bool) (text : List Char) :
    Run kind text (text.takeWhile kind) (text.dropWhile kind) :=
  run_iff.2 ⟨rfl, rfl⟩

/-! ## Values and attributes -/

theorem bracket_eq_ok_iff : bracket text = .ok ((), rest) ↔ text = '>' :: rest := by
  unfold bracket
  split
  · simp
  · rename_i hne
    constructor
    · intro h
      cases h
    · rintro rfl
      exact absurd rfl (hne rest)

theorem value_eq_ok_iff {content : String} :
    value text = .ok (content, rest) ↔ Value text content rest := by
  constructor
  · intro h
    cases text with
    | nil =>
        obtain ⟨rfl, rfl⟩ := Prod.mk.inj (Except.ok.inj h)
        have hvalue : Value [] (String.ofList (decode ([].takeWhile isBare))) [] :=
          .bare (fun _ hc => by cases hc) (run_takeWhile isBare [])
        rwa [List.takeWhile_nil, decode_nil] at hvalue
    | cons c text =>
        simp only [value] at h
        split at h
        · rename_i hquote
          split at h
          · rename_i inner behind hcut
            obtain ⟨rfl, rfl⟩ := Prod.mk.inj (Except.ok.inj h)
            obtain ⟨rfl, hout⟩ := Text.cutAt_singleton_iff.1 hcut
            exact .quoted hquote hout
          · cases h
        · rename_i hquote
          obtain ⟨rfl, rfl⟩ := Prod.mk.inj (Except.ok.inj h)
          exact .bare (by simpa using hquote) (run_takeWhile isBare _)
  · rintro (⟨hquote, hout⟩ | ⟨hquote, hrun⟩)
    · rename_i quote inner
      have hcut : Text.cutAt [quote] (inner ++ quote :: rest) = some (inner, rest) :=
        Text.cutAt_singleton_iff.2 ⟨rfl, hout⟩
      simp only [List.cons_append, value, hquote, if_true]
      rw [hcut]
    · rename_i run
      obtain ⟨rfl, rfl⟩ := run_iff.1 hrun
      cases text with
      | nil =>
          rw [List.takeWhile_nil, decode_nil]
          rfl
      | cons c text =>
          have hc : isQuote c = false := hquote c rfl
          simp only [value, hc]
          rfl

theorem Grammar.run_trimStart :
    (∃ blanks, Run Text.isBlank text blanks rest) ↔ Text.trimStart text = rest :=
  ⟨fun ⟨_, h⟩ => (run_iff.1 h).2, fun h => ⟨_, run_iff.2 ⟨rfl, h⟩⟩⟩

theorem Grammar.run_name {name : List Char} :
    Run isNameChar text name rest ↔ Markup.name text = name ∧ afterName text = rest :=
  run_iff

theorem valueAfterName_eq_ok_iff {content : String} :
    valueAfterName text = .ok (content, rest) ↔
      (∃ after, text = '=' :: after ∧ Value (Text.trimStart after) content rest) ∨
        text.head? ≠ some '=' ∧ content = "" ∧ rest = text := by
  unfold valueAfterName
  split
  · rename_i after
    rw [value_eq_ok_iff]
    constructor
    · exact fun h => .inl ⟨after, rfl, h⟩
    · rintro (⟨other, hother, h⟩ | ⟨hhead, -⟩)
      · obtain rfl := (List.cons.inj hother).2
        exact h
      · exact absurd rfl hhead
  · rename_i hne
    have hhead : text.head? ≠ some '=' := by
      cases text with
      | nil => simp
      | cons c text =>
          intro hc
          exact hne text (by rw [Option.some.inj hc])
    constructor
    · intro h
      obtain ⟨rfl, rfl⟩ := Prod.mk.inj (Except.ok.inj h)
      exact .inr ⟨hhead, rfl, rfl⟩
    · rintro (⟨after, rfl, -⟩ | ⟨-, rfl, rfl⟩)
      · exact absurd rfl hhead
      · rfl

theorem attributeOf_eq_ok_iff {pair : String × String} :
    attributeOf text = .ok (pair, rest) ↔ Attribute text pair rest := by
  constructor
  · intro h
    unfold attributeOf at h
    split at h
    · cases h
    · rename_i hname
      split at h
      · cases h
      · rename_i content behind hvalue
        obtain ⟨rfl, rfl⟩ := Prod.mk.inj (Except.ok.inj h)
        have hrun : Run isNameChar text (name text) (afterName text) := run_name.2 ⟨rfl, rfl⟩
        obtain ⟨blanks, hblanks⟩ := run_trimStart.2 (rfl : Text.trimStart (afterName text) = _)
        rcases valueAfterName_eq_ok_iff.1 hvalue with ⟨after, hafter, hcontent⟩ | ⟨hhead, rfl, rfl⟩
        · obtain ⟨blanks', hblanks'⟩ := run_trimStart.2 (rfl : Text.trimStart after = _)
          exact .valued hname hrun (hafter ▸ hblanks) hblanks' hcontent
        · exact .plain hname hrun hblanks hhead
  · intro h
    cases h with
    | plain hname hrun hblanks hhead =>
        obtain ⟨rfl, rfl⟩ := run_name.1 hrun
        have hvalue := valueAfterName_eq_ok_iff.2 (.inr ⟨hhead, rfl, rfl⟩)
        rw [attributeOf, if_neg hname, run_trimStart.1 ⟨_, hblanks⟩, hvalue]
    | valued hname hrun hblanks hblanks' hcontent =>
        obtain ⟨rfl, rfl⟩ := run_name.1 hrun
        rw [← run_trimStart.1 ⟨_, hblanks'⟩] at hcontent
        have hvalue := valueAfterName_eq_ok_iff.2 (.inl ⟨_, rfl, hcontent⟩)
        rw [attributeOf, if_neg hname, run_trimStart.1 ⟨_, hblanks⟩, hvalue]

/-- An attribute begins with its name. -/
theorem Grammar.Attribute.head {pair : String × String} (h : Attribute text pair rest) :
    ∃ c more, text = c :: more ∧ isNameChar c = true := by
  have hname : ∀ {name behind : List Char}, name ≠ [] → Run isNameChar text name behind →
      ∃ c more, text = c :: more ∧ isNameChar c = true := by
    intro name behind hname hrun
    cases name with
    | nil => exact absurd rfl hname
    | cons c name => exact ⟨c, _, hrun.split, hrun.all c List.mem_cons_self⟩
  cases h with
  | plain hne hrun => exact hname hne hrun
  | valued hne hrun => exact hname hne hrun

/-! ## The rest of an opening tag -/

theorem attributes_of_end {found : Keyed String} (h : Text.trimStart text = '>' :: rest) :
    attributes found text = .ok ((found, false), rest) := by
  rw [attributes]
  split
  · rename_i hnil
    rw [hnil] at h
    cases h
  · rename_i behind hend
    obtain rfl := (List.cons.inj (hend.symm.trans h)).2
    rfl
  · rename_i behind hend
    rw [hend] at h
    exact absurd (List.cons.inj h).1 (by decide)
  · rename_i c more hne _ hend
    rw [hend] at h
    exact absurd (List.cons.inj h).1 hne

theorem attributes_of_closed {found : Keyed String}
    (h : Text.trimStart text = '/' :: '>' :: rest) :
    attributes found text = .ok ((found, true), rest) := by
  rw [attributes]
  split
  · rename_i hnil
    rw [hnil] at h
    cases h
  · rename_i behind hend
    rw [hend] at h
    exact absurd (List.cons.inj h).1 (by decide)
  · rename_i behind hend
    obtain rfl := (List.cons.inj (hend.symm.trans h)).2
    rw [bracket_eq_ok_iff.2 rfl]
    rfl
  · rename_i c more _ hne hend
    rw [hend] at h
    exact absurd (List.cons.inj h).1 hne

theorem attributes_of_attribute {found : Keyed String} {pair : String × String}
    (h : Attribute (Text.trimStart text) pair rest) :
    attributes found text = attributes (found.put pair.1 pair.2) rest := by
  obtain ⟨c, more, hhead, hc⟩ := h.head
  rw [attributes]
  split
  · rename_i hnil
    rw [hnil] at hhead
    cases hhead
  · rename_i behind hend
    obtain ⟨rfl, -⟩ := List.cons.inj (hend.symm.trans hhead)
    exact absurd hc (by decide)
  · rename_i behind hend
    obtain ⟨rfl, -⟩ := List.cons.inj (hend.symm.trans hhead)
    exact absurd hc (by decide)
  · rename_i c' more' _ _ hend
    have hattribute := attributeOf_eq_ok_iff.2 (hend ▸ h)
    split
    · rename_i failure hfailure
      rw [hattribute] at hfailure
      cases hfailure
    · rename_i pair' rest' hok
      obtain ⟨rfl, rfl⟩ := Prod.mk.inj (Except.ok.inj (hok.symm.trans hattribute))
      rfl

/-- The attributes that were found before come first. -/
theorem attributes_eq_ok_iff {found result : Keyed String} {closed : Bool} :
    attributes found text = .ok ((result, closed), rest) ↔ ∃ pairs,
      Attributes text pairs closed rest ∧
        pairs.foldl (fun attributes pair => attributes.put pair.1 pair.2) found = result := by
  constructor
  · intro h
    fun_induction attributes found text with
    | case1 => cases h
    | case2 found text behind htrim =>
        obtain ⟨hpair, rfl⟩ := Prod.mk.inj (Except.ok.inj h)
        obtain ⟨rfl, rfl⟩ := Prod.mk.inj hpair
        obtain ⟨blanks, hblanks⟩ := run_trimStart.2 htrim
        exact ⟨[], .ended hblanks, rfl⟩
    | case3 found text behind htrim =>
        cases hbracket : bracket behind with
        | error failure =>
            rw [hbracket] at h
            cases h
        | ok reading =>
            rw [hbracket] at h
            obtain ⟨hpair, rfl⟩ := Prod.mk.inj (Except.ok.inj h)
            obtain ⟨rfl, rfl⟩ := Prod.mk.inj hpair
            rw [bracket_eq_ok_iff.1 hbracket] at htrim
            obtain ⟨blanks, hblanks⟩ := run_trimStart.2 htrim
            exact ⟨[], .closed hblanks, rfl⟩
    | case4 => cases h
    | case5 found text c more _ _ htrim pair behind hattribute ih =>
        obtain ⟨pairs, hpairs, hresult⟩ := ih h
        obtain ⟨blanks, hblanks⟩ := run_trimStart.2 htrim
        exact ⟨pair :: pairs, .more hblanks (attributeOf_eq_ok_iff.1 hattribute) hpairs, hresult⟩
  · rintro ⟨pairs, h, rfl⟩
    induction h generalizing found with
    | ended hblanks => exact attributes_of_end (run_trimStart.1 ⟨_, hblanks⟩)
    | closed hblanks => exact attributes_of_closed (run_trimStart.1 ⟨_, hblanks⟩)
    | more hblanks hattribute _ ih =>
        rw [← run_trimStart.1 ⟨_, hblanks⟩] at hattribute
        rw [attributes_of_attribute hattribute, ih]
        rfl

/-! ## Tokens -/

theorem openingTag_eq_ok_iff {token : Token} (hcomment : ¬ "<!--".toList <+: '<' :: text) :
    openingTag text = .ok (token, rest) ↔ ∃ tag attributes closed,
      Opening ('<' :: text) tag attributes closed rest ∧
        token = .opening tag attributes closed := by
  constructor
  · intro h
    unfold openingTag at h
    split at h
    · cases h
    · rename_i hname
      cases hattributes : attributes .empty (afterName text) with
      | error failure =>
          rw [hattributes] at h
          cases h
      | ok reading =>
          rw [hattributes] at h
          obtain ⟨rfl, rfl⟩ := Prod.mk.inj (Except.ok.inj h)
          obtain ⟨⟨found, closed⟩, behind⟩ := reading
          obtain ⟨pairs, hpairs, rfl⟩ := attributes_eq_ok_iff.1 hattributes
          exact ⟨_, _, closed, .intro hcomment hname (run_name.2 ⟨rfl, rfl⟩) hpairs, rfl⟩
  · rintro ⟨tag, attributes, closed, ⟨-, hname, hrun, hpairs⟩, rfl⟩
    obtain ⟨rfl, rfl⟩ := run_name.1 hrun
    rw [openingTag, if_neg hname, attributes_eq_ok_iff.2 ⟨_, hpairs, rfl⟩]
    rfl

theorem closingTag_eq_ok_iff {token : Token} :
    closingTag text = .ok (token, rest) ↔ ∃ tag,
      Closing ('<' :: '/' :: text) tag rest ∧ token = .closing tag := by
  constructor
  · intro h
    unfold closingTag at h
    cases hbracket : bracket (Text.trimStart (afterName text)) with
    | error failure =>
        rw [hbracket] at h
        cases h
    | ok reading =>
        rw [hbracket] at h
        obtain ⟨rfl, rfl⟩ := Prod.mk.inj (Except.ok.inj h)
        obtain ⟨blanks, hblanks⟩ := run_trimStart.2 (bracket_eq_ok_iff.1 hbracket)
        exact ⟨_, .intro (run_name.2 ⟨rfl, rfl⟩) hblanks, rfl⟩
  · rintro ⟨tag, ⟨hrun, hblanks⟩, rfl⟩
    obtain ⟨rfl, rfl⟩ := run_name.1 hrun
    rw [closingTag, bracket_eq_ok_iff.2 (run_trimStart.1 ⟨_, hblanks⟩)]
    rfl

/-- What the grammar has for a token. -/
inductive Grammar.Lexeme : (text : List Char) → Token → (rest : List Char) → Prop
  | comment {text rest : List Char} : Comment text rest → Lexeme text .comment rest
  | closing {text rest : List Char} {tag : String} :
      Closing text tag rest → Lexeme text (.closing tag) rest
  | opening {text rest : List Char} {tag : String} {attributes : Keyed String} {closed : Bool} :
      Opening text tag attributes closed rest → Lexeme text (.opening tag attributes closed) rest
  | text {text run rest : List Char} :
      run ≠ [] → Run (· ≠ '<') text run rest → Lexeme text (.text (String.ofList (decode run))) rest

theorem comment_iff :
    Comment text rest ↔ "<!--".toList <+: text ∧
      ∃ before, Text.cutAt "-->".toList text = some (before, rest) :=
  ⟨fun h => ⟨h.begins, h.ends.imp fun _ hcut => Text.cutAt_eq_some_iff.2 hcut⟩,
    fun h => ⟨h.1, h.2.imp fun _ hcut => Text.cutAt_eq_some_iff.1 hcut⟩⟩

/-- A comment begins with a bracket that no text run begins with. -/
theorem not_begins_comment {run : List Char} (hne : run ≠ []) (h : Run (· ≠ '<') text run rest) :
    text.head? ≠ some '<' := by
  rw [h.split]
  cases run with
  | nil => exact absurd rfl hne
  | cons c run =>
      intro hc
      have hother := h.all c List.mem_cons_self
      obtain rfl : c = '<' := Option.some.inj hc
      exact absurd hother (by decide)

theorem next_of_lexeme {token : Token} (h : Lexeme text token rest) :
    Token.next text = .ok (token, rest) := by
  unfold Token.next
  cases h with
  | comment hcomment =>
      obtain ⟨hbegins, before, hcut⟩ := comment_iff.1 hcomment
      rw [if_pos (Text.afterLeading_isSome.2 hbegins), hcut]
  | closing hclosing =>
      obtain ⟨hrun, hblanks⟩ := hclosing
      rw [if_neg (by simp [Text.afterLeading])]
      exact closingTag_eq_ok_iff.2 ⟨_, .intro hrun hblanks, rfl⟩
  | opening hopening =>
      obtain @⟨name, after, behind, _, pairs, closed, hcomment, hname, hrun, hpairs⟩ := hopening
      rw [if_neg fun hsome => hcomment (Text.afterLeading_isSome.1 hsome)]
      have hopen := openingTag_eq_ok_iff hcomment |>.2
        ⟨_, _, _, .intro hcomment hname hrun hpairs, rfl⟩
      split
      · rename_i tail heq
        obtain rfl := (List.cons.inj heq).2
        cases name with
        | nil => exact absurd rfl hname
        | cons c name =>
            obtain ⟨rfl, -⟩ := List.cons.inj hrun.split
            exact absurd (hrun.all _ List.mem_cons_self) (by decide)
      · rename_i tail _ heq
        obtain rfl := (List.cons.inj heq).2
        exact hopen
      · rename_i hne
        exact absurd rfl (hne after)
  | text hne hrun =>
      have hhead := not_begins_comment hne hrun
      rw [if_neg fun hsome => ?_]
      · split
        · exact absurd rfl hhead
        · exact absurd rfl hhead
        · obtain ⟨rfl, rfl⟩ := run_iff.1 hrun
          rfl
      · obtain ⟨tail, rfl⟩ := Text.afterLeading_isSome.1 hsome
        exact hhead rfl

theorem lexeme_of_next {token : Token} (hsource : text ≠ [])
    (h : Token.next text = .ok (token, rest)) : Lexeme text token rest := by
  unfold Token.next at h
  split at h
  · rename_i hcomment
    split at h
    · rename_i before behind hcut
      obtain ⟨rfl, rfl⟩ := Prod.mk.inj (Except.ok.inj h)
      exact .comment (comment_iff.2 ⟨Text.afterLeading_isSome.1 hcomment, before, hcut⟩)
    · cases h
  · rename_i hcomment
    rw [Text.afterLeading_isSome] at hcomment
    split at h
    · obtain ⟨tag, hclosing, rfl⟩ := closingTag_eq_ok_iff.1 h
      exact .closing hclosing
    · obtain ⟨tag, attributes, closed, hopening, rfl⟩ := (openingTag_eq_ok_iff hcomment).1 h
      exact .opening hopening
    · rename_i hclosing hopening
      obtain ⟨rfl, rfl⟩ := Prod.mk.inj (Except.ok.inj h)
      refine .text ?_ (run_takeWhile _ _)
      cases text with
      | nil => exact absurd rfl hsource
      | cons c text =>
          have hc : c ≠ '<' := fun hc => hopening text (by rw [hc])
          simp [hc]

/-- A token is read where the grammar has one. -/
theorem next_eq_ok_iff {token : Token} (hsource : text ≠ []) :
    Token.next text = .ok (token, rest) ↔ Lexeme text token rest :=
  ⟨lexeme_of_next hsource, next_of_lexeme⟩

end Markup

end DataBinding
