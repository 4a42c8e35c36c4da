/-!
# Windows of a list

A bound of a window is a signed number: zero and up count from the front, a negative bound counts
from the end, and a bound beyond either end means that end.
-/

namespace Predictive.Text

/-- The place between elements that a bound denotes in a list of `size` elements. -/
def boundIn (size : Nat) (bound : Int) : Nat :=
  if bound < 0 then (size + bound).toNat else min bound.toNat size

/-- The elements from the first bound up to the second. -/
def window {α : Type} (xs : List α) (start stop : Int) : List α :=
  (xs.take (boundIn xs.length stop)).drop (boundIn xs.length start)

/-- The elements up to a bound. -/
def upTo {α : Type} (xs : List α) (stop : Int) : List α :=
  xs.take (boundIn xs.length stop)

theorem boundIn_natCast (size n : Nat) : boundIn size n = min n size := by
  simp [boundIn, show ¬((n : Int) < 0) by omega]

/-- A window between two places counted from the front. -/
theorem window_natCast {α : Type} (xs : List α) (start stop : Nat) :
    window xs start stop = (xs.take stop).drop start := by
  rw [window, boundIn_natCast, boundIn_natCast, ← List.take_eq_take_min]
  rcases Nat.le_total start xs.length with h | h
  · rw [Nat.min_eq_left h]
  · have hlen : (xs.take stop).length ≤ xs.length := by rw [List.length_take]; omega
    rw [Nat.min_eq_right h, List.drop_eq_nil_of_le hlen, List.drop_eq_nil_of_le (by omega)]

end Predictive.Text
