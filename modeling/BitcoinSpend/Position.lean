/-!
# Signed positions

Positions in a list may be negative and then count from the end, so that `-1` names the last
element.
-/

namespace BitcoinSpend

/-- The ordinary index of a signed position in a list of a given length, if it names an element. -/
def position? (length : Nat) (i : Int) : Option Nat :=
  if 0 ≤ i then if i < length then some i.toNat else none
  else if -i ≤ length then some (length - (-i).toNat) else none

/-- The element at a signed position. -/
def elementAt? {α : Type} (l : List α) (i : Int) : Option α := do
  l[← position? l.length i]?

/-- A position that names something stands in front of the end. -/
theorem lt_of_position? {length k : Nat} {i : Int} (h : position? length i = some k) :
    k < length := by
  unfold position? at h
  split at h
  · split at h
    · cases h
      omega
    · cases h
  · split at h
    · cases h
      omega
    · cases h

/-- What a position names is an element. -/
theorem mem_of_elementAt? {α : Type} {l : List α} {i : Int} {a : α} (h : elementAt? l i = some a) :
    a ∈ l := by
  unfold elementAt? at h
  obtain ⟨k, -, hk⟩ := Option.bind_eq_some_iff.mp h
  exact List.mem_of_getElem? hk

/-- The list with the element at a signed position changed, if there is one. -/
def modifyAt? {α : Type} (l : List α) (i : Int) (f : α → α) : Option (List α) := do
  return l.modify (← position? l.length i) f

/-- The part of a list from a signed position on. A position before the first element names it all,
one past the end names nothing. -/
def suffixFrom {α : Type} (l : List α) (i : Int) : List α :=
  if 0 ≤ i then l.drop i.toNat else l.drop (l.length - (-i).toNat)

end BitcoinSpend
