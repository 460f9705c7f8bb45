/-!
# Sixty-four bit integers

The integers of the language are signed and sixty-four bits wide. Arithmetic on
them is done in `Int`, where it is exact, and `Integer.fit` takes the result
back when it is in range; a result out of range is nobody's value, it never
wraps.
-/

namespace Stagewise.Integer

/-- Whether an integer is in the signed sixty-four bit range. -/
def inRange (n : Int) : Bool := Int64.minValue.toInt ≤ n && n ≤ Int64.maxValue.toInt

/-- **The sixty-four bit integer equal to `n`**, if there is one. -/
def fit (n : Int) : Option Int64 := if inRange n then some (Int64.ofInt n) else none

theorem inRange_toInt (n : Int64) : inRange n.toInt = true := by
  rw [inRange, Bool.and_eq_true, decide_eq_true_iff, decide_eq_true_iff]
  exact ⟨n.minValue_le_toInt, n.toInt_le⟩

/-- A sixty-four bit integer fits into sixty-four bits. -/
theorem fit_toInt (n : Int64) : fit n.toInt = some n := by
  rw [fit, if_pos (inRange_toInt n), Int64.ofInt_toInt]

/-- **What fits is itself.** -/
theorem fit_eq_some_iff {n : Int} {i : Int64} : fit n = some i ↔ i.toInt = n := by
  constructor
  · intro h
    unfold fit at h
    split at h
    · rename_i hrange
      rw [inRange, Bool.and_eq_true, decide_eq_true_iff, decide_eq_true_iff] at hrange
      rw [← Option.some.inj h]
      exact Int64.toInt_ofInt_of_le hrange.1 (Int.lt_add_one_of_le hrange.2)
    · cases h
  · rintro rfl
    exact fit_toInt i

theorem fit_eq_none_iff {n : Int} : fit n = none ↔ inRange n = false := by
  unfold fit
  cases inRange n <;> simp

end Stagewise.Integer
