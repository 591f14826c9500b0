/-!
The values of the literal language: truth values, and those integers that fit in
64 bits with a sign.

Arithmetic is that of the exact integers, followed by one question: does the
result fit? `Number.ofInt?` asks it, and every operation goes through it, so
nothing ever wraps around.
-/

namespace Innermost

/-! ### Integers -/

/-- A signed integer of 64 bits: at least `-2 ^ 63` and less than `2 ^ 63`. -/
structure Number where
  /-- The exact integer. -/
  val : Int
  min_le : -9223372036854775808 ≤ val
  lt_bound : val < 9223372036854775808
  deriving DecidableEq

namespace Number

/-- The number of this value, if it is in range. -/
def ofInt? (n : Int) : Option Number :=
  if h : -9223372036854775808 ≤ n ∧ n < 9223372036854775808 then some ⟨n, h.1, h.2⟩ else none

theorem ext {a b : Number} (h : a.val = b.val) : a = b := by
  cases a; cases b; cases h; rfl

theorem ofInt?_eq_some_iff {n : Int} {a : Number} : ofInt? n = some a ↔ a.val = n := by
  unfold ofInt?
  split
  · rw [Option.some.injEq]
    exact ⟨fun h => by rw [← h], fun h => ext h.symm⟩
  · rename_i h
    refine ⟨fun h' => (Option.some_ne_none _ h'.symm).elim, fun h' => ?_⟩
    exact (h ⟨h' ▸ a.min_le, h' ▸ a.lt_bound⟩).elim

@[simp] theorem ofInt?_val (a : Number) : ofInt? a.val = some a :=
  ofInt?_eq_some_iff.mpr rfl

/-- The integer zero. -/
def zero : Number := ⟨0, by decide, by decide⟩

/-! #### Arithmetic -/

/-- The opposite number; the least number has none. -/
def neg? (a : Number) : Option Number := ofInt? (-a.val)

/-- The sum. -/
def add? (a b : Number) : Option Number := ofInt? (a.val + b.val)

/-- The difference. -/
def sub? (a b : Number) : Option Number := ofInt? (a.val - b.val)

/-- The product. -/
def mul? (a b : Number) : Option Number := ofInt? (a.val * b.val)

/-- The quotient, rounded towards zero. -/
def div? (a b : Number) : Option Number := ofInt? (a.val.tdiv b.val)

/-- The remainder, with the sign of the dividend. -/
def mod? (a b : Number) : Option Number := ofInt? (a.val.tmod b.val)

/-! #### Decimal form -/

/-- The decimal form: a minus sign before negative numbers, no leading zeros. -/
def text (a : Number) : String :=
  if a.val < 0 then "-" ++ Nat.repr a.val.natAbs else Nat.repr a.val.natAbs

end Number

/-! ### Values -/

/-- The types of values. -/
inductive ValueType where
  | boolean
  | integer
  deriving DecidableEq

/-- The name of a type in messages. -/
def ValueType.text : ValueType → String
  | .boolean => "boolean"
  | .integer => "integer"

/-- A value of the literal language. -/
inductive Value where
  | boolean (b : Bool)
  | integer (n : Number)
  deriving DecidableEq

namespace Value

/-- The type of a value. -/
def type : Value → ValueType
  | boolean _ => .boolean
  | integer _ => .integer

/-- The literal that denotes a value. -/
def text : Value → String
  | boolean true => "true"
  | boolean false => "false"
  | integer n => n.text

end Value

end Innermost
