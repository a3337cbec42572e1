import DataBinding.Proofs.Markup.Suffix
import DataBinding.Proofs.Markup.Writing
import Mathlib.Data.List.Basic

/-!
# Markup behind markup

A source that parses can be followed by another one, if its last text is
not continued there. Every cut that was made stays where it is: a lexeme
is a lexeme of the longer text as well (`Lexeme.append`), since a tag ends
before its text does, and a comment or a quoted value ends at its first
mark. So the second source is read with all elements of the first one
closed again, and what was read before stays in front of it
(`forestFrom_append`): the forests follow one another, and a failure is
the same, at the same end of the second source.
-/

namespace DataBinding.Markup

open Grammar

variable {text rest : List Char}

/-! ## Lexemes of a longer text -/

/-- A run that ends within the text ends at the same place. -/
theorem Grammar.Run.append {kind : Char → Bool} {run : List Char} (h : Run kind text run rest)
    (hrest : rest ≠ []) (more : List Char) : Run kind (text ++ more) run (rest ++ more) where
  split := by rw [h.split, List.append_assoc]
  all := h.all
  stops := by rw [List.head?_append_of_ne_nil rest hrest]; exact h.stops

theorem Grammar.Run.ne_nil {kind : Char → Bool} {run : List Char} (h : Run kind text run rest)
    (hrest : rest ≠ []) : text ≠ [] := by
  rw [h.split]
  exact List.append_ne_nil_of_right_ne_nil run hrest

theorem Grammar.Comment.append (h : Comment text rest) (more : List Char) :
    Comment (text ++ more) (rest ++ more) where
  begins := h.begins.trans (List.prefix_append text more)
  ends := by
    obtain ⟨before, htext, hfirst⟩ := h.ends
    refine ⟨before, by rw [htext, List.append_assoc], fun other after hother => ?_⟩
    -- a mark that came earlier would lie in the shorter text
    refine Nat.le_of_not_lt fun hlt => ?_
    have hlong : other ++ "-->".toList <+: text ++ more := ⟨after, hother.symm⟩
    have hlength := congrArg List.length htext
    simp only [List.length_append] at hlength
    obtain ⟨after', hafter'⟩ := List.prefix_of_prefix_length_le hlong (List.prefix_append text more)
      (by rw [List.length_append]; omega)
    exact Nat.not_le.2 hlt (hfirst other after' hafter'.symm)

theorem Grammar.Value.append {content : String} (h : Value text content rest) (hrest : rest ≠ [])
    (more : List Char) : Value (text ++ more) content (rest ++ more) := by
  cases h with
  | @quoted quote inner rest hquote hinner =>
      rw [List.append_assoc, List.cons_append]
      exact .quoted hquote hinner
  | bare hhead hrun =>
      refine .bare ?_ (hrun.append hrest more)
      rw [List.head?_append_of_ne_nil text (hrun.ne_nil hrest)]
      exact hhead

theorem Grammar.Value.ne_nil {content : String} (h : Value text content rest) (hrest : rest ≠ []) :
    text ≠ [] := by
  cases h with
  | quoted => exact List.cons_ne_nil _ _
  | bare _ hrun => exact hrun.ne_nil hrest

theorem Grammar.Attribute.append {pair : String × String} (h : Attribute text pair rest)
    (hrest : rest ≠ []) (more : List Char) : Attribute (text ++ more) pair (rest ++ more) := by
  cases h with
  | plain hne hname hblanks hhead =>
      refine .plain hne (hname.append (hblanks.ne_nil hrest) more) (hblanks.append hrest more) ?_
      rwa [List.head?_append_of_ne_nil rest hrest]
  | valued hne hname hblanks hblanks' hvalue =>
      have hbegin := hvalue.ne_nil hrest
      exact .valued hne (hname.append (hblanks.ne_nil (List.cons_ne_nil _ _)) more)
        (hblanks.append (List.cons_ne_nil _ _) more) (hblanks'.append hbegin more)
        (hvalue.append hrest more)

theorem Grammar.Attribute.suffix {pair : String × String} (h : Attribute text pair rest) :
    rest <:+ text := by
  have hwithin := within_attributeOf text
  rwa [attributeOf_eq_ok_iff.2 h] at hwithin

/-- There is no tag without its closing bracket. -/
theorem Grammar.Attributes.bracket_mem {pairs : List (String × String)} {closed : Bool}
    (h : Attributes text pairs closed rest) : '>' ∈ text := by
  induction h with
  | ended hblanks =>
      rw [hblanks.split]
      simp
  | closed hblanks =>
      rw [hblanks.split]
      simp
  | more hblanks hattribute _ ih =>
      rw [hblanks.split]
      exact List.mem_append_right _ (hattribute.suffix.mem ih)

theorem Grammar.Attributes.append {pairs : List (String × String)} {closed : Bool}
    (h : Attributes text pairs closed rest) (more : List Char) :
    Attributes (text ++ more) pairs closed (rest ++ more) := by
  induction h with
  | ended hblanks => exact .ended (hblanks.append (List.cons_ne_nil _ _) more)
  | closed hblanks => exact .closed (hblanks.append (List.cons_ne_nil _ _) more)
  | more hblanks hattribute hattributes ih =>
      have hbehind := List.ne_nil_of_mem hattributes.bracket_mem
      exact .more (hblanks.append (hattribute.suffix.ne_nil hbehind) more)
        (hattribute.append hbehind more) ih

/-- What follows a tag does not make a comment of it. -/
theorem Grammar.Opening.append {tag : String} {attributes : Keyed String} {closed : Bool}
    (h : Opening text tag attributes closed rest) (more : List Char) :
    Opening (text ++ more) tag attributes closed (rest ++ more) := by
  obtain @⟨name, after, behind, _, pairs, closed, hcomment, hname, hrun, hattributes⟩ := h
  have hbracket : '>' ∈ '<' :: after := by
    rw [hrun.split]
    exact List.mem_cons_of_mem _ (List.mem_append_right name hattributes.bracket_mem)
  refine .intro (fun hlong => ?_) hname (hrun.append ?_ more) (hattributes.append more)
  · rcases List.prefix_or_prefix_of_prefix hlong (List.prefix_append ('<' :: after) more) with h | h
    · exact hcomment h
    · exact absurd (h.mem hbracket) (by decide)
  · exact List.ne_nil_of_mem hattributes.bracket_mem

theorem Grammar.Closing.append {tag : String} (h : Closing text tag rest) (more : List Char) :
    Closing (text ++ more) tag (rest ++ more) := by
  obtain ⟨hrun, hblanks⟩ := h
  exact .intro (hrun.append (hblanks.ne_nil (List.cons_ne_nil _ _)) more)
    (hblanks.append (List.cons_ne_nil _ _) more)

/-- A text is continued by any character but a bracket. -/
theorem Grammar.Run.append_of_breaks {run more : List Char} (h : Run (· ≠ '<') text run rest)
    (hmore : Breaks more) : Run (· ≠ '<') (text ++ more) run (rest ++ more) := by
  cases rest with
  | cons c rest => exact h.append (List.cons_ne_nil c rest) more
  | nil =>
      refine ⟨by rw [h.split, List.append_assoc], h.all, fun c hc => ?_⟩
      exact decide_eq_false (not_not_intro (hmore c hc))

/-- A lexeme of a text is one of the longer text. -/
theorem Grammar.Lexeme.append {token : Token} {more : List Char} (h : Lexeme text token rest)
    (hmore : Breaks more) : Lexeme (text ++ more) token (rest ++ more) := by
  cases h with
  | comment h => exact .comment (h.append more)
  | closing h => exact .closing (h.append more)
  | opening h => exact .opening (h.append more)
  | text hne h => exact .text hne (h.append_of_breaks hmore)

/-! ## Reading behind other markup -/

/-- The same has been read, behind a forest at the outermost level. -/
inductive Behind (forest : List Tree) : Unfinished → Unfinished → Prop
  | outermost (current : List Tree) : Behind forest ⟨current, []⟩ ⟨forest ++ current, []⟩
  | inside {tag : String} {attributes : Keyed String} {before before' : List Tree}
      {enclosing enclosing' : List OpenElement} (current : List Tree) :
      Behind forest ⟨before, enclosing⟩ ⟨before', enclosing'⟩ →
      Behind forest ⟨current, ⟨tag, attributes, before⟩ :: enclosing⟩
        ⟨current, ⟨tag, attributes, before'⟩ :: enclosing'⟩

namespace Behind

variable {forest : List Tree} {u u' : Unfinished}

theorem add (h : Behind forest u u') (tree : Tree) : Behind forest (u.add tree) (u'.add tree) := by
  cases h with
  | outermost current =>
      simp only [Unfinished.add, List.append_assoc]
      exact .outermost _
  | inside current h => exact .inside _ h

theorem enter (h : Behind forest u u') (tag : String) (attributes : Keyed String) :
    Behind forest (u.enter tag attributes) (u'.enter tag attributes) :=
  .inside [] h

/-- A token changes both in the same way, or is out of place in both. -/
theorem grow? (h : Behind forest u u') (token : Token) :
    (∃ cause, u.grow? token = .error cause ∧ u'.grow? token = .error cause) ∨
      ∃ grown grown', u.grow? token = .ok grown ∧ u'.grow? token = .ok grown' ∧
        Behind forest grown grown' := by
  cases token with
  | comment => exact .inr ⟨_, _, rfl, rfl, h⟩
  | text content => exact .inr ⟨_, _, rfl, rfl, h.add _⟩
  | opening tag attributes closed =>
      refine .inr ⟨_, _, rfl, rfl, ?_⟩
      split
      · exact h.add _
      · exact h.enter tag attributes
  | closing tag =>
      cases h with
      | outermost current => exact .inl ⟨_, rfl, rfl⟩
      | @inside open_ attributes before before' enclosing enclosing' current h =>
          by_cases htag : open_ = tag
          · subst htag
            exact .inr ⟨_, _, grow?_leave, grow?_leave, h.add _⟩
          · refine .inl ⟨.unexpectedClosingTag tag, ?_, ?_⟩ <;>
              simp [Unfinished.grow?, Unfinished.leave?, htag]

/-- What is read then is read in the same way. -/
theorem forestFrom (h : Behind forest u u') :
    forestFrom u' text = (forestFrom u text).map (forest ++ ·) := by
  fun_induction Markup.forestFrom u text generalizing u' with
  | case1 u henclosing =>
      cases h with
      | outermost current => exact forestFrom_nil rfl
      | inside current h => cases henclosing
  | case2 u element enclosing henclosing =>
      cases h with
      | outermost current => cases henclosing
      | @inside tag attributes before before' enclosing' enclosing'' current h =>
          obtain ⟨rfl, rfl⟩ := List.cons.inj henclosing
          exact (forestFrom_unclosed rfl : Markup.forestFrom
            ⟨current, ⟨tag, attributes, before'⟩ :: enclosing''⟩ [] = _)
  | case3 u text hsource failure hfailure => exact forestFrom_of_failure hsource hfailure
  | case4 u text hsource token rest hnext cause hcause =>
      rcases h.grow? token with ⟨cause', hcause', hsame⟩ | ⟨_, _, hgrown, -⟩
      · cases hcause.symm.trans hcause'
        exact forestFrom_misplaced (lexeme_of_next hsource hnext) hsame
      · cases hcause.symm.trans hgrown
  | case5 u text hsource token rest hnext grown hgrown ih =>
      rcases h.grow? token with ⟨_, hcause, -⟩ | ⟨grown', other, hgrown', hother, hbehind⟩
      · cases hgrown.symm.trans hcause
      · cases hgrown.symm.trans hgrown'
        rw [forestFrom_of_lexeme (lexeme_of_next hsource hnext) hother, ih hbehind]

end Behind

/-- After a source that was read to its end, what follows is read on its
own. -/
theorem forestFrom_append {u : Unfinished} {forest : List Tree} {more : List Char}
    (h : forestFrom u text = .ok forest) (hmore : Breaks more) :
    forestFrom u (text ++ more) = (forestFrom .start more).map (forest ++ ·) := by
  fun_induction forestFrom u text with
  | case1 u henclosing =>
      obtain ⟨current, enclosing⟩ := u
      obtain rfl := Except.ok.inj h
      obtain rfl : enclosing = [] := henclosing
      have hbehind : Behind current .start ⟨current, []⟩ := by
        have hstart : Behind current ⟨[], []⟩ ⟨current ++ [], []⟩ := .outermost []
        rwa [List.append_nil] at hstart
      exact hbehind.forestFrom
  | case2 => cases h
  | case3 => cases h
  | case4 => cases h
  | case5 u text hsource token rest hnext grown hgrown ih =>
      have hlexeme := (lexeme_of_next hsource hnext).append hmore
      rw [forestFrom_of_lexeme hlexeme hgrown, ih h]

variable {a b : String} {forest forest' : List Tree}

theorem parse_append (ha : parse a = .ok forest) (hb : Breaks b.toList)
    (h : parse b = .ok forest') : parse (a ++ b) = .ok (forest ++ forest') := by
  rw [parse_eq_ok_iff, ← forestFrom_start_iff] at ha h ⊢
  rw [String.toList_append, forestFrom_append ha hb, h]
  rfl

/-- A failure behind other markup shows so much later. -/
theorem parse_append_error {e : Error} (ha : parse a = .ok forest) (hb : Breaks b.toList)
    (h : parse b = .error e) : ∃ position cause, e = .markup position cause ∧
      parse (a ++ b) = .error (.markup (Text.byteLength a.toList + position) cause) := by
  obtain ⟨before, failure, hfailure, hsplit, rfl⟩ := parse_eq_error h
  rw [parse_eq_ok_iff, ← forestFrom_start_iff] at ha
  refine ⟨_, _, rfl, ?_⟩
  have hposition : Text.byteLength (a.toList ++ b.toList) - Text.byteLength failure.rest =
      Text.byteLength a.toList + Text.byteLength before := by
    rw [hsplit, ← List.append_assoc, Text.byteLength_append, Text.byteLength_append,
      Nat.add_sub_cancel]
  rw [parse, String.toList_append, forestFrom_append ha hb, hfailure, ← hposition]
  rfl

end DataBinding.Markup
