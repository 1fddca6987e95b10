import BitcoinSpend.Proofs.Wire.RoundTrip

/-!
# Readers and further bytes

What a reader makes of a byte string is settled by the bytes that it looks at. Bytes behind them
change nothing, unless the reader fell short and asks for them. Read `Continues` and `Incremental`
first; `Incremental` is closed under sequencing, so every reader of a record has the property.
-/

namespace BitcoinSpend.Wire

variable {α β : Type}

/-- The outcomes on some bytes and on the same bytes with more behind them: the same value or the
same error, with more left, or anything where the bytes fell short. -/
inductive Continues (more : Bytes) :
    EStateM.Result ReadError Bytes α → EStateM.Result ReadError Bytes α → Prop where
  | ok (a : α) (rest : Bytes) : Continues more (.ok a rest) (.ok a (rest ++ more))
  | error (e : ReadError) (rest : Bytes) : Continues more (.error e rest) (.error e (rest ++ more))
  | short (what : Option String) (rest : Bytes) (outcome : EStateM.Result ReadError Bytes α) :
      Continues more (.error (.insufficient what) rest) outcome

/-- A reader on which further bytes have no influence unless it falls short without them. -/
def Incremental (r : Reader α) : Prop :=
  ∀ bs more, Continues more (r bs) (r (bs ++ more))

/-- What is read is read with more behind it as well. -/
theorem Incremental.ok_append {r : Reader α} (hr : Incremental r) {bs rest : Bytes} {a : α}
    (h : r bs = .ok a rest) (more : Bytes) : r (bs ++ more) = .ok a (rest ++ more) := by
  have hcontinues := hr bs more
  rw [h] at hcontinues
  generalize r (bs ++ more) = outcome at hcontinues
  cases hcontinues
  rfl

/-- Where something is read with more behind, the bytes alone give the same value or fall short. -/
theorem Incremental.of_ok_append {r : Reader α} (hr : Incremental r) {bs more rest : Bytes} {a : α}
    (h : r (bs ++ more) = .ok a rest) :
    (∃ left, r bs = .ok a left ∧ rest = left ++ more) ∨
      ∃ what left, r bs = .error (.insufficient what) left := by
  have hcontinues := hr bs more
  rw [h] at hcontinues
  generalize r bs = outcome at hcontinues
  cases hcontinues with
  | ok a left => exact .inl ⟨left, rfl, rfl⟩
  | short what left => exact .inr ⟨what, left, rfl⟩

/-! ## Sequencing -/

/-- Returning a value looks at nothing. -/
theorem Incremental.pure (a : α) : Incremental (Pure.pure a) :=
  fun bs _ ↦ .ok a bs

/-- One incremental reader after another is incremental. -/
theorem Incremental.bind {r : Reader α} {f : α → Reader β} (hr : Incremental r)
    (hf : ∀ a, Incremental (f a)) : Incremental (r >>= f) := by
  intro bs more
  have hcontinues := hr bs more
  change Continues more (EStateM.bind r f bs) (EStateM.bind r f (bs ++ more))
  rw [EStateM.bind, EStateM.bind]
  generalize r bs = alone at hcontinues ⊢
  generalize r (bs ++ more) = together at hcontinues ⊢
  cases hcontinues with
  | ok a rest => exact hf a rest more
  | error e rest => exact .error e rest
  | short what rest => exact .short what rest _

/-- An incremental reader that is chosen beforehand is incremental. -/
theorem Incremental.ite {c : Prop} [Decidable c] {r r' : Reader α} (hr : Incremental r)
    (hr' : Incremental r') : Incremental (if c then r else r') := by
  split
  · exact hr
  · exact hr'

/-- Incremental elements in a row are incremental. -/
theorem Incremental.many {r : Reader α} (hr : Incremental r) (count : Nat) :
    Incremental (many r count) := by
  induction count with
  | zero => exact .pure _
  | succ count ih => exact hr.bind fun a ↦ ih.bind fun as ↦ .pure _

/-! ## Bytes, integers and byte strings -/

/-- Bytes are taken from the front. -/
theorem incremental_take (n : Int) (what : Option String) : Incremental (take n what) := by
  intro bs more
  rw [take, take]
  split
  · split
    · exact .short what [] _
    · by_cases hshort : (bs.take n.toNat).length < n.toNat
      · rw [if_pos hshort]
        exact .short what [] _
      · have hle : n.toNat ≤ bs.length := by
          rw [List.length_take] at hshort
          omega
        rw [if_neg hshort, List.take_append_of_le_length hle, List.drop_append_of_le_length hle,
          if_neg hshort]
        exact .ok _ _
  · exact .error .oversize bs

/-- One byte is taken from the front. -/
theorem incremental_byte (what : Option String) : Incremental (byte what) := by
  intro bs more
  cases bs with
  | nil => exact .short what [] _
  | cons b bs => exact .ok b bs

/-- An integer is read from the front. -/
theorem incremental_littleInt (signed : Bool) (width : Int) (what : Option String) :
    Incremental (littleInt signed width what) :=
  (incremental_take width what).bind fun _ ↦ .pure _

/-- A count or length is read from the front. -/
theorem incremental_compactSize : Incremental compactSize := by
  have hdigits (width : Int) (what : Option String) :
      Incremental (do return (← take width what).toNatLE : Reader Nat) :=
    (incremental_take width what).bind fun _ ↦ .pure _
  exact (incremental_byte _).bind fun b ↦
    (Incremental.pure _).ite ((hdigits 2 _).ite ((hdigits 4 _).ite (hdigits 8 _)))

/-- A byte string behind its length is read from the front. -/
theorem incremental_lengthPrefixed (what : Option String) : Incremental (lengthPrefixed what) :=
  incremental_compactSize.bind fun n ↦ incremental_take n what

end BitcoinSpend.Wire
