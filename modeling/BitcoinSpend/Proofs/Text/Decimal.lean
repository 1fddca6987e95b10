import BitcoinSpend.Text.Decimal
import Mathlib.Algebra.Group.Nat.Defs

/-!
# Which integers have a text

A bound in bits decides whether an integer has a text wherever the program bounds it at all, and the
errors about such an integer are the ones that are meant. The main result is `writable_of_lt`.
-/

namespace BitcoinSpend.Text

/-- Integers of so many bits have a text. -/
theorem writable_of_lt (bits : Nat) (hbits : bits ≤ 14284) {n : Int} (h : n.natAbs < 2 ^ bits) :
    Writable n := by
  have hdigits : 1 <<< 14284 ≤ Nat.pow 10 maxDigits := by decide +kernel
  rw [Nat.one_shiftLeft] at hdigits
  exact Nat.lt_of_lt_of_le h (Nat.le_trans (Nat.pow_le_pow_right (by decide) hbits) hdigits)

/-- An error about integers that have a text is the one that is meant. -/
theorem errorAbout_of_writable {ε : Type} {ns : List Int} (h : ∀ n ∈ ns, Writable n)
    (meant missing : ε) : errorAbout ns meant missing = meant :=
  if_pos h

/-- An error about one integer. -/
theorem errorAbout_singleton {ε : Type} (n : Int) (meant missing : ε) :
    errorAbout [n] meant missing = if Writable n then meant else missing := by
  simp only [errorAbout, List.forall_mem_singleton]

end BitcoinSpend.Text
