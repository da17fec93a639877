import Mathlib.Tactic.Ring

/-!
# Constant-product swaps

A pool that keeps the product of its reserves pays, for an input of weight
`net`, the part of its other reserve that the input will be of the first one,
rounded down.
-/

namespace IreBlockchain.Foundation

def swapOut (reserveIn reserveOut net : Nat) : Nat :=
  net * reserveOut / (reserveIn + net)

variable {reserveIn reserveOut net net' : Nat}

theorem swapOut_le (reserveIn reserveOut net : Nat) :
    swapOut reserveIn reserveOut net ≤ reserveOut := by
  apply Nat.div_le_of_le_mul
  exact Nat.mul_le_mul_right _ (Nat.le_add_left _ _)

theorem swapOut_mono (hin : 0 < reserveIn) (h : net ≤ net') :
    swapOut reserveIn reserveOut net ≤ swapOut reserveIn reserveOut net' := by
  obtain ⟨more, rfl⟩ := Nat.exists_eq_add_of_le h
  have hpaid : swapOut reserveIn reserveOut net * (reserveIn + net) ≤
      net * reserveOut := Nat.div_mul_le_self _ _
  have hmore : swapOut reserveIn reserveOut net * more ≤ reserveOut * more :=
    Nat.mul_le_mul_right _ (swapOut_le _ _ _)
  apply (Nat.le_div_iff_mul_le (by omega)).mpr
  calc
    swapOut reserveIn reserveOut net * (reserveIn + (net + more)) =
        swapOut reserveIn reserveOut net * (reserveIn + net) +
          swapOut reserveIn reserveOut net * more := by ring
    _ ≤ net * reserveOut + reserveOut * more := Nat.add_le_add hpaid hmore
    _ = (net + more) * reserveOut := by ring

end IreBlockchain.Foundation
