import OcLang.Kind

namespace OcLang

/-! ## Integer operators

What the integer operators compute is left open, and so is how a number written
in a program is held. Only truth values are fixed. -/

structure Operators where
  number : Nat → Int
  binary : BinaryOperator → Int → Int → Int
  unary : UnaryOperator → Int → Int
  comparison_bit : ∀ operator, operator.isComparison = true → ∀ left right,
    binary operator left right = 0 ∨ binary operator left right = 1
  not_bit : ∀ operand, unary .not operand = 0 ∨ unary .not operand = 1

def Operators.unbounded : Operators where
  number := Int.ofNat
  binary
    | .add, left, right => left + right
    | .sub, left, right => left - right
    | .mul, left, right => left * right
    | .div, left, right => left.tdiv right
    | .rem, left, right => left.tmod right
    | .eq, left, right => if left = right then 1 else 0
    | .ne, left, right => if left ≠ right then 1 else 0
    | .lt, left, right => if left < right then 1 else 0
    | .le, left, right => if left ≤ right then 1 else 0
    | .gt, left, right => if left > right then 1 else 0
    | .ge, left, right => if left ≥ right then 1 else 0
  unary
    | .neg, operand => -operand
    | .not, operand => if operand = 0 then 1 else 0
    | _, operand => operand
  comparison_bit operator comparison left right := by
    cases operator <;> first | contradiction | (dsimp only; split <;> simp)
  not_bit operand := by
    dsimp only
    split <;> simp

def Operators.int32 : Operators where
  number value := (value : Int).bmod 4294967296
  binary operator left right := (unbounded.binary operator left right).bmod 4294967296
  unary operator operand := (unbounded.unary operator operand).bmod 4294967296
  comparison_bit operator comparison left right := by
    rcases unbounded.comparison_bit operator comparison left right with zero | one
    · exact .inl (by rw [zero]; rfl)
    · exact .inr (by rw [one]; rfl)
  not_bit operand := by
    rcases unbounded.not_bit operand with zero | one
    · exact .inl (by rw [zero]; rfl)
    · exact .inr (by rw [one]; rfl)

end OcLang
