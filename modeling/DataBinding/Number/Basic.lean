/-!
# Numbers

A number is a binary64 value, kept as its 64 bits: a sign, an exponent field of 11 bits and a
fraction field of 52. Two numbers are the same when they are numerically equal, so the two zeros
are the same and a NaN is the same as nothing, not even itself. Arithmetic and order are those of
binary64.
-/

namespace DataBinding

/-- A binary64 value, given by its bits. -/
structure Number where
  bits : UInt64
deriving DecidableEq

namespace Number

/-- The weight of the sign bit, two to the power 63. -/
def signWeight : Nat := 0x8000000000000000

/-- The weight of the lowest exponent bit, two to the power 52. -/
def exponentWeight : Nat := 0x10000000000000

/-- The positive zero. -/
def zero : Number := ⟨0⟩

/-- Whether the sign bit is set. -/
def isNegative (n : Number) : Bool :=
  signWeight ≤ n.bits.toNat

/-- The exponent field, between 0 and 2047. -/
def exponentField (n : Number) : Nat :=
  n.bits.toNat / exponentWeight % 2048

/-- The fraction field. -/
def fractionField (n : Number) : Nat :=
  n.bits.toNat % exponentWeight

/-- A full exponent field and a fraction: not a number. -/
def isNaN (n : Number) : Bool :=
  n.exponentField = 2047 && n.fractionField ≠ 0

/-- A full exponent field without a fraction: one of the infinities. -/
def isInfinite (n : Number) : Bool :=
  n.exponentField = 2047 && n.fractionField = 0

/-- Neither exponent nor fraction: one of the zeros. -/
def isZero (n : Number) : Bool :=
  n.exponentField = 0 && n.fractionField = 0

/-- The integer significand of a finite number. Its value is the significand times two to the
power `scale`. -/
def significand (n : Number) : Nat :=
  if n.exponentField = 0 then n.fractionField else exponentWeight + n.fractionField

/-- The power of two that goes with the significand. -/
def scale (n : Number) : Int :=
  if n.exponentField = 0 then -1074 else (n.exponentField : Int) - 1075

/-- Numerical equality: no NaN is involved, and the bits agree or both are zeros. -/
def same (a b : Number) : Bool :=
  !a.isNaN && !b.isNaN && (a.bits == b.bits || (a.isZero && b.isZero))

/-- The number that a machine float holds. -/
def ofFloat (x : Float) : Number := ⟨x.toBits⟩

/-- The machine float with the number's bits. -/
def toFloat (n : Number) : Float := Float.ofBits n.bits

/-- The rounded sum. -/
def add (a b : Number) : Number := ofFloat (a.toFloat + b.toFloat)

/-- The numerical order; a NaN is neither below nor above anything. -/
def less (a b : Number) : Bool := a.toFloat < b.toFloat

theorem same_comm (a b : Number) : a.same b = b.same a := by
  simp only [same, Bool.and_comm, Bool.beq_comm]

theorem same_self (a : Number) : a.same a = !a.isNaN := by
  cases h : a.isNaN <;> simp [same, h]

theorem isNaN_of_isZero {n : Number} (h : n.isZero = true) : n.isNaN = false := by
  simp only [isZero, Bool.and_eq_true, decide_eq_true_eq] at h
  simp [isNaN, h.1]

/-- The same number has the same bits, the zeros apart. -/
theorem same_iff_eq_or_zeros {a b : Number} :
    a.same b = true ↔ a = b ∧ a.isNaN = false ∨ a.isZero = true ∧ b.isZero = true := by
  have hbits : a.bits = b.bits ↔ a = b := by
    cases a
    cases b
    exact (mk.injEq ..).symm.to_iff
  simp only [same, Bool.and_eq_true, Bool.or_eq_true, Bool.not_eq_true', beq_iff_eq, hbits]
  constructor
  · rintro ⟨⟨ha, -⟩, heq | hzeros⟩
    · exact .inl ⟨heq, ha⟩
    · exact .inr hzeros
  · rintro (⟨rfl, ha⟩ | ⟨ha, hb⟩)
    · exact ⟨⟨ha, ha⟩, .inl rfl⟩
    · exact ⟨⟨isNaN_of_isZero ha, isNaN_of_isZero hb⟩, .inr ⟨ha, hb⟩⟩

end Number

end DataBinding
