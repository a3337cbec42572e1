import DataBinding.Proofs.Markup.Scanning

/-!
# The parser accepts exactly the grammar

The parser reads token by token and keeps the open elements on a stack;
the grammar nests forests. What the grammar derives is read from any state
of the stack (`forestFrom_of_forest`). For the converse, `Closes` says what
the rest of a source has to be where elements are open: for each of them,
from the innermost one outwards, a forest and its closing tag, and a last
forest at the end. Reading a token keeps this, so that a source that was
read to its end is a forest (`parse_eq_ok_iff`).
-/

namespace DataBinding.Markup

open Grammar

variable {text rest : List Char} {forest : List Tree}

/-! ## Reading what the grammar derives -/

theorem Grammar.Lexeme.ne_nil {token : Token} (h : Lexeme text token rest) : text ≠ [] := by
  rintro rfl
  cases h with
  | comment h => exact absurd h.begins (by decide)
  | closing h => cases h
  | opening h => cases h
  | text hne h =>
      obtain ⟨hnil, -⟩ := List.append_eq_nil_iff.1 h.split.symm
      exact hne hnil

theorem forestFrom_of_lexeme {u grown : Unfinished} {token : Token} (h : Lexeme text token rest)
    (hgrown : u.grow? token = .ok grown) : forestFrom u text = forestFrom grown rest := by
  rw [forestFrom, dif_neg h.ne_nil]
  split
  · rename_i failure hfailure
    rw [next_of_lexeme h] at hfailure
    cases hfailure
  · rename_i token' rest' hnext
    obtain ⟨rfl, rfl⟩ := Prod.mk.inj (Except.ok.inj (hnext.symm.trans (next_of_lexeme h)))
    split
    · rename_i cause hcause
      rw [hgrown] at hcause
      cases hcause
    · rename_i grown' hgrown'
      rw [hgrown] at hgrown'
      cases hgrown'
      rfl

theorem forestFrom_nil {u : Unfinished} (h : u.enclosing = []) :
    forestFrom u [] = .ok u.current := by
  rw [forestFrom, dif_pos rfl, h]

theorem forestFrom_unclosed {u : Unfinished} {element : OpenElement}
    {enclosing : List OpenElement} (h : u.enclosing = element :: enclosing) :
    forestFrom u [] = .error ⟨[], .unclosedTag element.tag⟩ := by
  rw [forestFrom, dif_pos rfl, h]

theorem forestFrom_of_failure {u : Unfinished} {failure : Failure} (htext : text ≠ [])
    (h : Token.next text = .error failure) : forestFrom u text = .error failure := by
  rw [forestFrom, dif_neg htext]
  split
  · rename_i failure' hfailure
    rw [Except.error.inj (hfailure.symm.trans h)]
  · rename_i hnext
    rw [h] at hnext
    cases hnext

theorem forestFrom_misplaced {u : Unfinished} {token : Token} {cause : Malformed}
    (h : Lexeme text token rest) (hcause : u.grow? token = .error cause) :
    forestFrom u text = .error ⟨rest, cause⟩ := by
  rw [forestFrom, dif_neg h.ne_nil]
  split
  · rename_i failure hfailure
    rw [next_of_lexeme h] at hfailure
    cases hfailure
  · rename_i token' rest' hnext
    obtain ⟨rfl, rfl⟩ := Prod.mk.inj (Except.ok.inj (hnext.symm.trans (next_of_lexeme h)))
    split
    · rename_i cause' hcause'
      rw [Except.error.inj (hcause'.symm.trans hcause)]
    · rename_i grown hgrown
      rw [hcause] at hgrown
      cases hgrown

theorem grow?_childless {u : Unfinished} {tag : String} {attributes : Keyed String}
    {closed : Bool} (h : (closed || isVoid tag) = true) :
    u.grow? (.opening tag attributes closed) = .ok (u.add (.element tag attributes [])) := by
  simp only [Unfinished.grow?, h, if_true]

theorem grow?_enter {u : Unfinished} {tag : String} {attributes : Keyed String}
    {closed : Bool} (h : (closed || isVoid tag) = false) :
    u.grow? (.opening tag attributes closed) = .ok (u.enter tag attributes) := by
  simp [Unfinished.grow?, h]

theorem grow?_leave {before current : List Tree} {enclosing : List OpenElement} {tag : String}
    {attributes : Keyed String} :
    Unfinished.grow? ⟨current, ⟨tag, attributes, before⟩ :: enclosing⟩ (.closing tag) =
      .ok ⟨before ++ [.element tag attributes current], enclosing⟩ := by
  simp [Unfinished.grow?, Unfinished.leave?]

/-- A forest of the grammar is read whatever was read before. -/
theorem forestFrom_of_forest (h : Forest text forest rest) (u : Unfinished) :
    forestFrom u text = forestFrom ⟨u.current ++ forest, u.enclosing⟩ rest := by
  induction h generalizing u with
  | nil => rw [List.append_nil]
  | comment hcomment _ ih => exact (forestFrom_of_lexeme (.comment hcomment) rfl).trans (ih u)
  | text hne hrun _ ih =>
      rw [forestFrom_of_lexeme (.text hne hrun) rfl, ih]
      simp [Unfinished.add]
  | childless hopening hchildless _ ih =>
      rw [forestFrom_of_lexeme (.opening hopening) (grow?_childless hchildless), ih]
      simp [Unfinished.add]
  | element hopening hvoid _ hclosing _ ihinside ihbehind =>
      rw [forestFrom_of_lexeme (.opening hopening) (grow?_enter hvoid), ihinside,
        Unfinished.enter, List.nil_append, forestFrom_of_lexeme (.closing hclosing) grow?_leave,
        ihbehind]
      simp

/-! ## What is left to be read -/

/-- What the rest of a source says where elements are open. -/
def Closes : (current : List Tree) → List OpenElement → (text : List Char) →
    (result : List Tree) → Prop
  | current, [], text, result => ∃ forest, Forest text forest [] ∧ result = current ++ forest
  | current, element :: enclosing, text, result => ∃ forest closing behind,
      Forest text forest closing ∧ Closing closing element.tag behind ∧
        Closes (element.before ++ [.element element.tag element.attributes (current ++ forest)])
          enclosing behind result

/-- More at the innermost level. -/
theorem Closes.prepend {current new result : List Tree} {enclosing : List OpenElement}
    (h : Closes (current ++ new) enclosing rest result)
    (hnew : ∀ forest last, Forest rest forest last → Forest text (new ++ forest) last) :
    Closes current enclosing text result := by
  cases enclosing with
  | nil =>
      obtain ⟨forest, hforest, rfl⟩ := h
      exact ⟨_, hnew forest [] hforest, List.append_assoc current new forest⟩
  | cons element enclosing =>
      obtain ⟨forest, closing, behind, hforest, hclosing, hbehind⟩ := h
      refine ⟨_, closing, behind, hnew forest closing hforest, hclosing, ?_⟩
      rwa [List.append_assoc] at hbehind

/-- One token, and what has to follow it. -/
theorem closes_of_grow? {u grown : Unfinished} {token : Token} {result : List Tree}
    (hlexeme : Lexeme text token rest) (hgrown : u.grow? token = .ok grown)
    (h : Closes grown.current grown.enclosing rest result) :
    Closes u.current u.enclosing text result := by
  cases hlexeme with
  | comment hcomment =>
      obtain rfl := Except.ok.inj hgrown
      rw [← List.append_nil u.current] at h
      exact .prepend h fun forest last hforest => .comment hcomment hforest
  | text hne hrun =>
      obtain rfl := Except.ok.inj hgrown
      exact .prepend h fun forest last hforest => .text hne hrun hforest
  | @opening _ tag attributes closed hopening =>
      cases hchildless : closed || isVoid tag with
      | true =>
          obtain rfl := Except.ok.inj ((grow?_childless hchildless).symm.trans hgrown)
          exact .prepend h fun forest last hforest => .childless hopening hchildless hforest
      | false =>
          obtain rfl := Except.ok.inj ((grow?_enter hchildless).symm.trans hgrown)
          obtain ⟨rfl, hvoid⟩ := Bool.or_eq_false_iff.1 hchildless
          obtain ⟨children, closing, behind, hchildren, hclosing, hbehind⟩ := h
          exact .prepend hbehind fun forest last hforest =>
            .element hopening hvoid hchildren hclosing hforest
  | @closing _ tag hclosing =>
      obtain ⟨current, enclosing⟩ := u
      cases enclosing with
      | nil => cases hgrown
      | cons element enclosing =>
          by_cases htag : element.tag = tag
          · subst htag
            obtain rfl := Except.ok.inj (grow?_leave.symm.trans hgrown)
            refine ⟨[], text, rest, .nil text, hclosing, ?_⟩
            rwa [List.append_nil]
          · simp [Unfinished.grow?, Unfinished.leave?, htag] at hgrown

theorem closes_of_forestFrom {u : Unfinished} {result : List Tree}
    (h : forestFrom u text = .ok result) : Closes u.current u.enclosing text result := by
  fun_induction forestFrom u text with
  | case1 u henclosing =>
      obtain rfl := Except.ok.inj h
      rw [henclosing]
      exact ⟨[], .nil [], (List.append_nil _).symm⟩
  | case2 => cases h
  | case3 => cases h
  | case4 => cases h
  | case5 u text hsource token behind hnext grown hgrown ih =>
      exact closes_of_grow? (lexeme_of_next hsource hnext) hgrown (ih h)

theorem forestFrom_start_iff :
    forestFrom .start text = .ok forest ↔ Forest text forest [] := by
  constructor
  · intro h
    obtain ⟨found, hfound, rfl⟩ := closes_of_forestFrom h
    exact hfound
  · intro h
    rw [forestFrom_of_forest h]
    simp [forestFrom, Unfinished.start]

theorem parse_eq_ok_iff {source : String} :
    parse source = .ok forest ↔ Forest source.toList forest [] := by
  rw [← forestFrom_start_iff, parse]
  cases forestFrom .start source.toList with
  | error failure => exact ⟨nofun, nofun⟩
  | ok found =>
      exact ⟨fun h => congrArg _ (Except.ok.inj h), fun h => congrArg _ (Except.ok.inj h)⟩

end DataBinding.Markup
