import Mathlib.Algebra.Group.Int.Defs
import Mathlib.Order.Defs.LinearOrder

/-! # The C `int`

32-bit two's complement with wrap-around. Its order is the order of the values. -/

namespace MiniDbms.Foundation

/-- `INT_MAX`. -/
def intMax : Int32 := Int32.maxValue

@[simp] theorem toInt_intMax : intMax.toInt = 2 ^ 31 - 1 := by decide

instance instLinearOrderInt32 : LinearOrder Int32 where
  le_refl value := Int32.le_refl value
  le_trans _ _ _ := Int32.le_trans
  le_antisymm _ _ := Int32.le_antisymm
  le_total := Int32.le_total
  toDecidableLE := inferInstance
  toDecidableEq := inferInstance
  toDecidableLT := inferInstance
  lt_iff_le_not_ge left right := by
    rw [Int32.lt_iff_toInt_lt, Int32.le_iff_toInt_le, Int32.le_iff_toInt_le]
    omega

/-- The successor below `INT_MAX` does not wrap. -/
theorem toInt_add_one {value : Int32} (below : value < intMax) :
    (value + 1).toInt = value.toInt + 1 := by
  have lower := value.le_toInt
  have upper : value.toInt < 2 ^ 31 - 1 := by
    simpa only [toInt_intMax] using Int32.lt_iff_toInt_lt.mp below
  rw [Int32.toInt_add, show (1 : Int32).toInt = 1 from rfl]
  exact Int.bmod_eq_of_le (by omega) (by omega)

theorem lt_add_one_of_lt_intMax {value : Int32} (below : value < intMax) : value < value + 1 := by
  rw [Int32.lt_iff_toInt_lt, toInt_add_one below]
  omega

/-- No `int` is above the maximum. -/
theorem le_intMax (value : Int32) : value ≤ intMax := by
  have upper := value.toInt_lt
  rw [Int32.le_iff_toInt_le, toInt_intMax]
  omega

end MiniDbms.Foundation
