import BitcoinSpend.Text.CaseTable

/-!
# Lower case

The lower case of a text. Most characters have a lower case of their own, the capital I with a dot
becomes two characters, and the capital sigma has two forms, of which the final one stands at the
end of a word. Read `lower` first. `lower_eq_self` says which texts are left as they are.
-/

namespace BitcoinSpend.Text

/-- Whether the first character that is not passed over exists and has case. -/
def startsCased (cs : List Char) : Bool :=
  ((cs.dropWhile isCaseIgnorable).head?.map isCased).getD false

/-- The lower case of a character between the characters before it, the nearest one first, and the
characters behind it. A sigma is final if there is a letter before it and none behind it. -/
def lowerBetween (before : List Char) (c : Char) (behind : List Char) : List Char :=
  if c = 'Σ' then [if startsCased before && !startsCased behind then 'ς' else 'σ']
  else if c = 'İ' then ['i', '\u0307']
  else [lowerOf c]

/-- The lower case of characters that follow others, which are given nearest first. -/
def lowerAfter (before : List Char) : List Char → List Char
  | [] => []
  | c :: rest => lowerBetween before c rest ++ lowerAfter (c :: before) rest

/-- The lower case of a text. -/
def lower (s : String) : String :=
  String.ofList (lowerAfter [] s.toList)

/-- An ASCII character has the lower case that it has by itself, wherever it stands. -/
theorem lowerBetween_of_lt (before behind : List Char) {c : Char} (h : c.toNat < 0x80) :
    lowerBetween before c behind = [c.toLower] := by
  have hsigma : c ≠ 'Σ' := by
    rintro rfl
    exact absurd h (by decide)
  have hdotted : c ≠ 'İ' := by
    rintro rfl
    exact absurd h (by decide)
  rw [lowerBetween, if_neg hsigma, if_neg hdotted, lowerOf, if_pos h]

/-- ASCII characters that are their own lower case are left as they are. -/
theorem lowerAfter_eq_self (before : List Char) {cs : List Char}
    (h : ∀ c ∈ cs, c.toNat < 0x80 ∧ c.toLower = c) : lowerAfter before cs = cs := by
  induction cs generalizing before with
  | nil => rfl
  | cons c rest ih =>
    have hc := h c List.mem_cons_self
    have hrest := ih (c :: before) fun d hd ↦ h d (List.mem_cons_of_mem c hd)
    rw [lowerAfter, lowerBetween_of_lt before rest hc.1, hc.2, hrest, List.singleton_append]

/-- A text of ASCII characters that are their own lower case is left as it is. -/
theorem lower_eq_self {s : String} (h : ∀ c ∈ s.toList, c.toNat < 0x80 ∧ c.toLower = c) :
    lower s = s := by
  rw [lower, lowerAfter_eq_self [] h, String.ofList_toList]

end BitcoinSpend.Text
