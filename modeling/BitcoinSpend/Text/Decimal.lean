/-!
# Decimal text

Messages and log entries write integers in decimal digits, and an integer with too many of them has
no text. A message that would be about such an integer is not made, and its error is replaced by the
one for a missing text. Read `Writable` and `errorAbout` first; each place that writes integers of
any size is an application of them.
-/

namespace BitcoinSpend.Text

/-- The most decimal digits that the text of an integer may have. It is irreducible so that no
unification computes the power of ten. -/
@[irreducible]
def maxDigits : Nat :=
  4300

/-- The integers that have a text. -/
def Writable (n : Int) : Prop :=
  n.natAbs < Nat.pow 10 maxDigits

instance : DecidablePred Writable :=
  fun n ↦ inferInstanceAs (Decidable (n.natAbs < Nat.pow 10 maxDigits))

/-- The error that is raised with a message about some integers: the one that is meant or, if one of
the integers has no text, the one that stands for a missing text. -/
def errorAbout {ε : Type} (ns : List Int) (meant missing : ε) : ε :=
  if ∀ n ∈ ns, Writable n then meant else missing

end BitcoinSpend.Text
