import DataBinding.Proofs.Number.Quantity
import DataBinding.Proofs.Rendering.Renders

/-!
# Skipping a rendering

A watcher that finds the value that it remembers does not react, and a
write of the value that is there is not made known. `skipping_is_sound`
says what that rests on. The equality that decides is symmetric and
transitive and fails of a value and itself for a NaN only; on numbers it
is equality of the quantities that they stand for. What a rendering does
about a value depends on its text (`Reaction.run_congr`), and equal values
have one text, although the two zeros differ in their bits. The converse
fails: objects are all shown alike, but each equals itself only.
-/

namespace DataBinding

/-! ## Equal values -/

theorem Value.same_symm {a b : Value} (h : a.same b = true) : b.same a = true := by
  rcases eq_or_numbers h with rfl | ⟨n, m, rfl, rfl, hnumbers⟩
  · exact h
  · exact (Number.same_comm m n).trans hnumbers

theorem Value.same_trans {a b c : Value} (h : a.same b = true) (h' : b.same c = true) :
    a.same c = true :=
  (same_congr h c).trans h'

theorem Value.text_of_same {a b : Value} (h : a.same b = true) : a.text = b.text :=
  Agrees.text (.inl h)

/-- All there is to equality: a value other than a NaN and itself, or numbers of one quantity. -/
theorem Value.same_iff {a b : Value} :
    a.same b = true ↔ a = b ∧ a.isNaN = false ∨
      ∃ n m q, a = .number n ∧ b = .number m ∧ n.quantity? = some q ∧ m.quantity? = some q := by
  constructor
  · intro h
    rcases eq_or_numbers h with rfl | ⟨n, m, rfl, rfl, hnumbers⟩
    · rw [same_self, Bool.not_eq_true'] at h
      exact .inl ⟨rfl, h⟩
    · obtain ⟨q, hn, hm⟩ := Number.same_iff_quantity.1 hnumbers
      exact .inr ⟨n, m, q, rfl, rfl, hn, hm⟩
  · rintro (⟨rfl, hnumber⟩ | ⟨n, m, q, rfl, rfl, hn, hm⟩)
    · rw [same_self, hnumber]
      rfl
    · exact Number.same_iff_quantity.2 ⟨q, hn, hm⟩

/-! ## What a rendering does -/

/-- Whether a reaction shows the value in the document; otherwise it hands it to client code. -/
def Reaction.isRendering : Reaction → Bool
  | .client _ _ => false
  | .text _ | .markup _ | .formValue _ | .template _ _ _ => true

/-- A rendering does the same about any two values of one text. -/
theorem Reaction.run_congr {reaction : Reaction} (hrendering : reaction.isRendering = true)
    {a b : Value} (h : a.text = b.text) : reaction.run a = reaction.run b := by
  cases reaction with
  | client name body => cases hrendering
  | text node => simp only [run, h]
  | markup node => simp only [run, h]
  | formValue node => simp only [run, h]
  | template node parsed data => rfl

/-! ## Skipping -/

/-- **Skipping for an equal value is sound.** Equality of values is symmetric and transitive, and
every value but a NaN equals itself. Beyond that only numbers are equal, those that stand for the
same quantity, whatever their bits are. Equal values have the same text, so that a rendering does
the same about both. -/
theorem skipping_is_sound (a b c : Value) :
    (a.same b = true → b.same a = true ∧ a.text = b.text ∧
      ∀ reaction : Reaction, reaction.isRendering = true → reaction.run a = reaction.run b) ∧
    (a.same b = true → b.same c = true → a.same c = true) ∧
    (a.same a = true ↔ a.isNaN = false) ∧
    (a.same b = true ↔ a = b ∧ a.isNaN = false ∨
      ∃ n m q, a = .number n ∧ b = .number m ∧ n.quantity? = some q ∧ m.quantity? = some q) := by
  refine ⟨fun h => ?_, Value.same_trans, ?_, Value.same_iff⟩
  · have htext : a.text = b.text := Value.text_of_same h
    exact ⟨Value.same_symm h, htext, fun _ hrendering => Reaction.run_congr hrendering htext⟩
  · rw [Value.same_self, Bool.not_eq_true']

/-- The two zeros: different bits, one quantity, and every rendering shows them alike. -/
theorem skipping_is_sound_of_zeros :
    (Value.number ⟨0⟩).same (.number ⟨0x8000000000000000⟩) = true ∧
    (Value.number ⟨0x8000000000000000⟩).same (.number ⟨0⟩) = true ∧
    (Value.number ⟨0⟩).text = (Value.number ⟨0x8000000000000000⟩).text ∧
    (Reaction.text 0).run (.number ⟨0⟩) = (Reaction.text 0).run (.number ⟨0x8000000000000000⟩) ∧
    (Value.number ⟨0⟩).same (.number ⟨0⟩) = true ∧
    ∃ q, (⟨0⟩ : Number).quantity? = some q ∧ (⟨0x8000000000000000⟩ : Number).quantity? = some q := by
  have hzeros : (Value.number ⟨0⟩).same (.number ⟨0x8000000000000000⟩) = true := by decide
  obtain ⟨halike, htrans, -, hmeaning⟩ :=
    skipping_is_sound (.number ⟨0⟩) (.number ⟨0x8000000000000000⟩) (.number ⟨0⟩)
  obtain ⟨hback, htext, hrun⟩ := halike hzeros
  obtain ⟨n, m, q, hn, hm, hquantity⟩ := (hmeaning.1 hzeros).resolve_left (by decide)
  cases hn
  cases hm
  exact ⟨hzeros, hback, htext, hrun (.text 0) rfl, htrans hzeros hback, q, hquantity⟩

end DataBinding
