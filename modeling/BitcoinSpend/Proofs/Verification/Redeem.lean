import BitcoinSpend.Proofs.Script.Machine.Standard
import BitcoinSpend.Verification.Input

/-!
# Scripts that are pushed

What `splitRedeem?` makes of an unlocking script: the script that is pushed last and what is in
front of its push. Read `splitRedeem?_parts` first.
-/

namespace BitcoinSpend.Verification.Spend

open Script

variable {unlocking : List Token}

/-- The tokens in front of a push without the opcode of its length field, one more token in front.
-/
theorem withoutField_cons (t : Token) (front : List Token) :
    splitRedeem?.withoutField (t :: front).reverse =
      if front = [] then (if t.isPushData then [] else [t])
      else t :: splitRedeem?.withoutField front.reverse := by
  rw [List.reverse_cons]
  split
  · next hfront =>
      subst hfront
      cases ht : t.isPushData <;> simp [splitRedeem?.withoutField, ht]
  · next hfront =>
      cases hreverse : front.reverse with
      | nil => exact absurd (List.reverse_eq_nil_iff.mp hreverse) hfront
      | cons u before =>
          rw [List.cons_append, splitRedeem?.withoutField, splitRedeem?.withoutField]
          split <;> simp

/-- What is in front of the last push of executable tokens is executable. -/
theorem executable_withoutField {size : Nat} {front : List Token} {last : Token}
    (h : Executable size (front ++ [last])) :
    Executable size (splitRedeem?.withoutField front.reverse) := by
  generalize htokens : front ++ [last] = tokens at h
  induction h generalizing front with
  | nil => simp at htokens
  | sized f l tokens hfield _ hsize ih =>
      match front with
      | [] => cases htokens
      | [t] =>
          cases htokens
          exact .nil _
      | t :: u :: front =>
          -- The data of this field stands in front of the last push, so both of them stay.
          simp only [List.cons_append, List.cons.injEq] at htokens
          obtain ⟨rfl, rfl, htokens⟩ := htokens
          have hrest := ih htokens
          rw [withoutField_cons, if_neg (List.cons_ne_nil _ _), withoutField_cons]
          split
          · exact .sized f l [] hfield (.nil 0) (by omega)
          · exact .sized f l _ hfield hrest hsize
  | single t tokens hencode _ hsize ih =>
      match front with
      | [] => exact .nil _
      | u :: front =>
          simp only [List.cons_append, List.cons.injEq] at htokens
          obtain ⟨rfl, htokens⟩ := htokens
          have hrest := ih htokens
          have hfield : u.isPushData = false := by
            cases u with
            | op o => cases o <;> first | rfl | cases hencode
            | synonym | literal | invalid | unknown => rfl
          rw [withoutField_cons, hfield]
          split
          · exact .single u [] hencode (.nil 0) (by omega)
          · exact .single u _ hencode hrest hsize

/-- The parts that executable tokens are split into are executable, and if nothing is in front of a
script that is pushed, the push is all there is. -/
theorem splitRedeem?_parts {size : Nat} {redeem before : List Token}
    (hunlocking : Executable size unlocking) (h : splitRedeem? unlocking = some (redeem, before)) :
    Executable size before ∧ (redeem = [] ∨ ∃ script : Bytes, script.length ≤ size ∧
      redeem = disassemble script ∧ (before = [] → SinglePush unlocking script)) := by
  unfold splitRedeem? at h
  split at h
  · split at h
    · next front hreverse =>
        cases h
        have htokens := List.reverse_eq_cons_iff.mp hreverse
        rw [htokens] at hunlocking
        have hbefore := executable_withoutField hunlocking
        rw [List.reverse_reverse] at hbefore
        exact ⟨hbefore, .inl rfl⟩
    · next l front hreverse =>
        cases h
        have htokens := List.reverse_eq_cons_iff.mp hreverse
        rw [htokens] at hunlocking ⊢
        have hbefore := executable_withoutField hunlocking
        rw [List.reverse_reverse] at hbefore
        refine ⟨hbefore, .inr ⟨l.data, hunlocking.data_length (by simp), rfl, fun hempty ↦ ?_⟩⟩
        match front, hempty with
        | [], _ => exact .direct l
        | t :: rest, hempty =>
          rw [splitRedeem?.withoutField] at hempty
          split at hempty
          · next ht =>
              obtain rfl := List.reverse_eq_nil_iff.mp hempty
              obtain ⟨f, rfl⟩ : ∃ f, t = .op (.pushData f) := by
                unfold Token.isPushData at ht
                split at ht
                · exact ⟨_, rfl⟩
                · cases ht
              exact .sized f l
          · simp at hempty
    · cases h
  · cases h

/-- What is in front of a script that is pushed is no longer than all of the unlocking script. -/
theorem length_of_splitRedeem? {redeem before : List Token}
    (h : splitRedeem? unlocking = some (redeem, before)) : before.length ≤ unlocking.length := by
  have hfield (front : List Token) :
      (splitRedeem?.withoutField front).length ≤ front.length := by
    cases front with
    | nil => exact Nat.le_refl 0
    | cons t front =>
        rw [splitRedeem?.withoutField]
        split <;> simp
  unfold splitRedeem? at h
  split at h
  · split at h
    · next front hreverse =>
        cases h
        have hlength := congrArg List.length hreverse
        have hle := hfield front
        rw [List.length_reverse, List.length_cons] at hlength
        omega
    · next l front hreverse =>
        cases h
        have hlength := congrArg List.length hreverse
        have hle := hfield front
        rw [List.length_reverse, List.length_cons] at hlength
        omega
    · cases h
  · cases h

/-- No opcode of a length field stands at the end of scripts that push. -/
theorem withoutField_of_pushes {before : List Token} {items : List Bytes}
    (h : Pushes before items) : splitRedeem?.withoutField before.reverse = before := by
  by_cases hempty : before = []
  · subst hempty
    rfl
  · obtain ⟨others, push, _, _, rfl, -, -, hpush⟩ := h.exists_last hempty
    obtain ⟨front, t, rfl, ht⟩ := hpush.exists_last
    rw [← List.append_assoc, List.reverse_append, List.reverse_singleton, List.singleton_append,
      splitRedeem?.withoutField, ht, List.reverse_cons, List.reverse_reverse]
    rfl

/-- Scripts that push data last are split into the script that it is and what is in front. -/
theorem splitRedeem?_of_pushes {before push : List Token} {items : List Bytes} {script : Bytes}
    (h : Pushes before items) (hpush : SinglePush push script) :
    splitRedeem? (before ++ push) = some (disassemble script, before) := by
  have honly : isPushOnly (before ++ push) = true :=
    List.all_eq_true.mpr fun _ ht ↦ ((h.concat (.data hpush)).mem ht).1
  rw [splitRedeem?, if_pos honly]
  cases hpush with
  | direct l =>
      rw [List.reverse_append]
      change some (disassemble l.data, splitRedeem?.withoutField before.reverse) = _
      rw [withoutField_of_pushes h]
  | sized f l =>
      rw [List.reverse_append]
      change some (disassemble l.data, before.reverse.reverse) = _
      rw [List.reverse_reverse]

/-- Scripts that push a number last have no script to be pushed, unless the number is zero. -/
theorem splitRedeem?_of_constant {before : List Token} {items : List Bytes} (h : Pushes before items)
    (c : Constant) : splitRedeem? (before ++ [.op (.stack (.constant c))]) =
      if c = .zero then some ([], before) else none := by
  have honly : isPushOnly (before ++ [.op (.stack (.constant c))]) = true :=
    List.all_eq_true.mpr fun _ ht ↦ ((h.concat (.constant c)).mem ht).1
  rw [splitRedeem?, if_pos honly, List.reverse_append]
  cases c with
  | zero =>
      change some ([], splitRedeem?.withoutField before.reverse) = _
      rw [withoutField_of_pushes h]
      rfl
  | minusOne | small => rfl

end BitcoinSpend.Verification.Spend
