import BitcoinSpend.Signature.Lax
import Mathlib.Tactic.Common

/-!
# The lax encoding of signatures

A byte string is a lax encoding exactly if it consists of certain parts: the tags, a length of the
sequence that only has to be complete, two integers with their lengths, and anything behind. The
parts are unique. The same signatures are read by positions in the byte string, and no position past
its end is asked for. Read `Parts` and `readAt` first; the main results are `decode_of_wellFormed`,
`exists_parts`, `readAt_eq` and `decode_grammar`.
-/

namespace BitcoinSpend.Signature.Lax

/-! ## The parts of an encoding -/

/-- How the length of the sequence is written: one byte below 128, or a byte that says how many
bytes follow, whatever they are. -/
inductive SkippedLength : Bytes → Prop where
  | short {b : UInt8} (h : b < 0x80) : SkippedLength [b]
  | long {b : UInt8} {digits : Bytes} (hb : b.toNat = 0x80 + digits.length) :
      SkippedLength (b :: digits)

/-- How the length of an integer is written: one byte below 128, or a byte that says how many bytes
follow, of which fewer than four remain without the zeros in front. -/
inductive LengthForm : Nat → Bytes → Prop where
  | short {b : UInt8} (h : b < 0x80) : LengthForm b.toNat [b]
  | long {b : UInt8} {digits : Bytes} (hb : b.toNat = 0x80 + digits.length)
      (hfew : (Bytes.dropZeros digits).length < 4) :
      LengthForm (Bytes.toNatBE digits) (b :: digits)

/-- What stands between the tags of an encoding, and what stands behind it. -/
structure Parts where
  length : Bytes
  rLength : Bytes
  r : Bytes
  sLength : Bytes
  s : Bytes
  rest : Bytes
deriving DecidableEq, Repr

namespace Parts

/-- The byte string that consists of the parts and the tags. -/
def bytes (parts : Parts) : Bytes :=
  0x30 :: (parts.length ++ 0x02 :: (parts.rLength ++ (parts.r ++
    0x02 :: (parts.sLength ++ (parts.s ++ parts.rest)))))

/-- The lengths are written in one of their forms, and the integers are as long as theirs say. -/
structure WellFormed (parts : Parts) : Prop where
  length : SkippedLength parts.length
  r : LengthForm parts.r.length parts.rLength
  s : LengthForm parts.s.length parts.sLength

/-- The numbers that the integers write, or zeros if one of them has more than thirty-two bytes
without the zeros in front. -/
def signature (parts : Parts) : Signature :=
  if (Bytes.dropZeros parts.r).length ≤ 32 ∧ (Bytes.dropZeros parts.s).length ≤ 32 then
    ⟨Bytes.toNatBE parts.r, Bytes.toNatBE parts.s⟩
  else ⟨0, 0⟩

end Parts

/-! ## Reading the parts -/

/-- A byte from 128 on says how many bytes follow. -/
theorem toNat_eq_add {b : UInt8} (h : ¬ b < 0x80) : b.toNat = 0x80 + (b.toNat - 0x80) := by
  rw [UInt8.lt_iff_toNat_lt] at h
  change ¬ b.toNat < 128 at h
  omega

/-- A byte that says how many bytes follow is not below 128. -/
theorem not_lt_of_toNat_eq {b : UInt8} {k : Nat} (h : b.toNat = 0x80 + k) : ¬ b < 0x80 := by
  rw [UInt8.lt_iff_toNat_lt]
  change ¬ b.toNat < 128
  omega

/-- A length is read exactly if it is written in one of its forms. -/
theorem length_eq_ok_iff {bs rest : Bytes} {n : Nat} :
    length bs = .ok (n, rest) ↔ ∃ form, LengthForm n form ∧ bs = form ++ rest := by
  constructor
  · intro h
    cases bs with
    | nil => cases h
    | cons b body =>
        rw [length] at h
        split at h
        · next hshort =>
            cases h
            exact ⟨[b], .short hshort, rfl⟩
        · next hlong =>
            dsimp only at h
            split at h
            · cases h
            · next hroom =>
                split at h
                · cases h
                · next hfew =>
                    obtain ⟨rfl, rfl⟩ := Prod.mk.inj (Except.ok.inj h)
                    rw [Bytes.toNatBE_dropZeros]
                    refine ⟨b :: body.take (b.toNat - 0x80), .long ?_ (by omega), ?_⟩
                    · rw [List.length_take, Nat.min_eq_left (by omega)]
                      exact toNat_eq_add hlong
                    · rw [List.cons_append, List.take_append_drop]
  · rintro ⟨form, hform, rfl⟩
    cases hform with
    | short h => rw [List.singleton_append, length, if_pos h]
    | @long b digits hb hfew =>
        have hcount : b.toNat - 0x80 = digits.length := by omega
        rw [List.cons_append, length, if_neg (not_lt_of_toNat_eq hb)]
        dsimp only
        rw [hcount, if_neg (by rw [List.length_append]; omega), List.take_left, List.drop_left,
          if_neg (by omega), Bytes.toNatBE_dropZeros]

/-- An integer element is read exactly if it is a tag, a length in one of its forms, and as many
bytes. -/
theorem integer_eq_ok_iff {bs contents rest : Bytes} :
    integer bs = .ok (contents, rest) ↔
      ∃ form, LengthForm contents.length form ∧ bs = 0x02 :: (form ++ (contents ++ rest)) := by
  constructor
  · intro h
    cases bs with
    | nil => cases h
    | cons b tail =>
        rw [integer] at h
        split at h
        · next htag =>
            subst htag
            cases hlength : length tail with
            | error e =>
                rw [hlength] at h
                cases h
            | ok result =>
                obtain ⟨n, body⟩ := result
                rw [hlength] at h
                change (if body.length < n then _ else _) = _ at h
                split at h
                · cases h
                · next hroom =>
                    cases h
                    obtain ⟨form, hform, rfl⟩ := length_eq_ok_iff.mp hlength
                    refine ⟨form, ?_, by rw [List.take_append_drop]⟩
                    rw [List.length_take, Nat.min_eq_left (by omega)]
                    exact hform
        · cases h
  · rintro ⟨form, hform, rfl⟩
    have hlength : length (form ++ (contents ++ rest)) = .ok (contents.length, contents ++ rest) :=
      length_eq_ok_iff.mpr ⟨form, hform, rfl⟩
    rw [integer, if_pos rfl, hlength]
    change (if (contents ++ rest).length < contents.length then _ else _) = _
    rw [if_neg (by rw [List.length_append]; omega), List.take_left, List.drop_left]
    rfl

/-- Behind the tag of a sequence stands its length. -/
theorem sequence_cons_cons (c : UInt8) (body : Bytes) :
    sequence (0x30 :: c :: body) =
      if c < 0x80 then .ok body
      else if body.length < c.toNat - 0x80 then .error .sequenceLengthPastEnd
      else .ok (body.drop (c.toNat - 0x80)) := by
  unfold sequence
  exact if_pos rfl

/-- The beginning of a sequence is read exactly if it is a tag and a length in one of its forms. -/
theorem sequence_eq_ok_iff {bs rest : Bytes} :
    sequence bs = .ok rest ↔ ∃ form, SkippedLength form ∧ bs = 0x30 :: (form ++ rest) := by
  constructor
  · intro h
    cases bs with
    | nil => cases h
    | cons b tail =>
        cases tail with
        | nil =>
            unfold sequence at h
            dsimp only at h
            split at h <;> cases h
        | cons c body =>
            by_cases htag : b = 0x30
            · subst htag
              rw [sequence_cons_cons] at h
              split at h
              · next hshort =>
                  cases h
                  exact ⟨[c], .short hshort, rfl⟩
              · next hlong =>
                  split at h
                  · cases h
                  · next hroom =>
                      obtain rfl := Except.ok.inj h
                      refine ⟨c :: body.take (c.toNat - 0x80), .long ?_, ?_⟩
                      · rw [List.length_take, Nat.min_eq_left (by omega)]
                        exact toNat_eq_add hlong
                      · rw [List.cons_append, List.take_append_drop]
            · unfold sequence at h
              dsimp only at h
              rw [if_neg htag] at h
              cases h
  · rintro ⟨form, hform, rfl⟩
    cases hform with
    | short h => rw [List.singleton_append, sequence_cons_cons, if_pos h]
    | @long b digits hb =>
        have hcount : b.toNat - 0x80 = digits.length := by omega
        rw [List.cons_append, sequence_cons_cons, if_neg (not_lt_of_toNat_eq hb), hcount,
          if_neg (by rw [List.length_append]; omega), List.drop_left]

/-! ## Encodings and their parts -/

namespace Parts.WellFormed

variable {parts other : Parts}

/-- The beginning of the sequence is read. -/
theorem sequence_bytes (h : parts.WellFormed) :
    sequence parts.bytes = .ok (0x02 :: (parts.rLength ++ (parts.r ++
      0x02 :: (parts.sLength ++ (parts.s ++ parts.rest))))) :=
  sequence_eq_ok_iff.mpr ⟨parts.length, h.length, rfl⟩

/-- The first integer is read. -/
theorem integer_r (h : parts.WellFormed) :
    integer (0x02 :: (parts.rLength ++ (parts.r ++
      0x02 :: (parts.sLength ++ (parts.s ++ parts.rest))))) =
      .ok (parts.r, 0x02 :: (parts.sLength ++ (parts.s ++ parts.rest))) :=
  integer_eq_ok_iff.mpr ⟨parts.rLength, h.r, rfl⟩

/-- The second integer is read. -/
theorem integer_s (h : parts.WellFormed) :
    integer (0x02 :: (parts.sLength ++ (parts.s ++ parts.rest))) = .ok (parts.s, parts.rest) :=
  integer_eq_ok_iff.mpr ⟨parts.sLength, h.s, rfl⟩

/-- The signature of the parts is decoded. -/
theorem decode_bytes (h : parts.WellFormed) : decode parts.bytes = .ok parts.signature := by
  rw [decode, h.sequence_bytes]
  change (integer _ >>= _) = _
  rw [h.integer_r]
  change (integer _ >>= _) = _
  rw [h.integer_s]
  change Except.ok (if _ then _ else _) = _
  rw [Bytes.toNatBE_dropZeros, Bytes.toNatBE_dropZeros, Parts.signature]
  congr 1
  by_cases hsizes : (Bytes.dropZeros parts.r).length ≤ 32 ∧ (Bytes.dropZeros parts.s).length ≤ 32
  · rw [if_pos hsizes, if_neg (by omega)]
  · rw [if_neg hsizes, if_pos (by omega)]

/-- A byte string has parts in at most one way. -/
theorem eq_of_bytes_eq (h : parts.WellFormed) (hother : other.WellFormed)
    (hbytes : other.bytes = parts.bytes) : other = parts := by
  -- What is read tells where each integer ends, and so where each length does.
  have hsequence := h.sequence_bytes
  rw [← hbytes, hother.sequence_bytes] at hsequence
  have hbody := Except.ok.inj hsequence
  have hinteger := h.integer_r
  rw [← hbody, hother.integer_r] at hinteger
  obtain ⟨hr, hmore⟩ := Prod.mk.inj (Except.ok.inj hinteger)
  have hlast := h.integer_s
  rw [← hmore, hother.integer_s] at hlast
  obtain ⟨hs, hrest⟩ := Prod.mk.inj (Except.ok.inj hlast)
  rw [Parts.bytes, Parts.bytes, hbody] at hbytes
  rw [hr, hmore] at hbody
  rw [hs, hrest] at hmore
  have hlength := List.append_cancel_right (List.cons.inj hbytes).2
  have hrLength := List.append_cancel_right (List.cons.inj hbody).2
  have hsLength := List.append_cancel_right (List.cons.inj hmore).2
  cases parts
  cases other
  rw [Parts.mk.injEq]
  exact ⟨hlength, hrLength, hr, hsLength, hs, hrest⟩

end Parts.WellFormed

/-- What is decoded has parts. -/
theorem exists_parts {bs : Bytes} {signature : Signature} (h : decode bs = .ok signature) :
    ∃ parts : Parts, parts.WellFormed ∧ parts.bytes = bs := by
  rw [decode] at h
  cases hsequence : sequence bs with
  | error e =>
      rw [hsequence] at h
      cases h
  | ok body =>
      rw [hsequence] at h
      change (integer body >>= _) = _ at h
      cases hr : integer body with
      | error e =>
          rw [hr] at h
          cases h
      | ok first =>
          obtain ⟨r, more⟩ := first
          rw [hr] at h
          change (integer more >>= _) = _ at h
          cases hs : integer more with
          | error e =>
              rw [hs] at h
              cases h
          | ok second =>
              obtain ⟨s, rest⟩ := second
              obtain ⟨length, hlength, rfl⟩ := sequence_eq_ok_iff.mp hsequence
              obtain ⟨rLength, hrLength, rfl⟩ := integer_eq_ok_iff.mp hr
              obtain ⟨sLength, hsLength, rfl⟩ := integer_eq_ok_iff.mp hs
              exact ⟨⟨length, rLength, r, sLength, s, rest⟩, ⟨hlength, hrLength, hsLength⟩, rfl⟩

/-! ## Reading by position -/

/-- Why reading by position gives no signature: a position past the end was asked for, or the byte
string was refused. -/
inductive Fault where
  | pastEnd
  | refused (e : LaxError)
deriving DecidableEq, Repr

/-- The byte at a position. -/
def byteAt (bs : Bytes) (pos : Nat) : Except Fault UInt8 :=
  match bs[pos]? with
  | some b => .ok b
  | none => .error .pastEnd

/-- The position behind the zeros among `count` bytes from a position on, and how many of the bytes
are left there. -/
def skipZeros (bs : Bytes) (pos : Nat) : (count : Nat) → Except Fault (Nat × Nat)
  | 0 => .ok (pos, 0)
  | count + 1 => do
    if (← byteAt bs pos) = 0 then skipZeros bs (pos + 1) count else return (pos, count + 1)

/-- Reads a length at a position, and returns the position behind it too. -/
def lengthAt (bs : Bytes) (pos : Nat) : Except Fault (Nat × Nat) := do
  if bs.length ≤ pos then throw (.refused .missingLength)
  let b ← byteAt bs pos
  if b < 0x80 then return (b.toNat, pos + 1)
  let count := b.toNat - 0x80
  if bs.length < pos + 1 + count then throw (.refused .lengthPastEnd)
  let (start, left) ← skipZeros bs (pos + 1) count
  if 4 ≤ left then throw (.refused .lengthTooLong)
  return (Bytes.toNatBE ((bs.drop start).take left), start + left)

/-- Reads an integer element at a position. -/
def integerAt (bs : Bytes) (pos : Nat) : Except Fault (Bytes × Nat) := do
  if bs.length ≤ pos then throw (.refused .missingIntegerTag)
  if (← byteAt bs pos) ≠ 0x02 then throw (.refused .missingIntegerTag)
  let (n, start) ← lengthAt bs (pos + 1)
  if bs.length < start + n then throw (.refused .integerPastEnd)
  return ((bs.drop start).take n, start + n)

/-- Finds the position behind the length of the sequence. -/
def sequenceAt (bs : Bytes) : Except Fault Nat := do
  if bs.length = 0 then throw (.refused .missingSequenceTag)
  if (← byteAt bs 0) ≠ 0x30 then throw (.refused .missingSequenceTag)
  if bs.length < 2 then throw (.refused .missingSequenceLength)
  let b ← byteAt bs 1
  if b < 0x80 then return 2
  let count := b.toNat - 0x80
  if bs.length < 2 + count then throw (.refused .sequenceLengthPastEnd)
  return 2 + count

/-- Reads a signature by positions. -/
def readAt (bs : Bytes) : Except Fault Signature := do
  let pos ← sequenceAt bs
  let (r, pos) ← integerAt bs pos
  let (s, _) ← integerAt bs pos
  let r := Bytes.dropZeros r
  let s := Bytes.dropZeros s
  return if 32 < r.length ∨ 32 < s.length then ⟨0, 0⟩
    else ⟨Bytes.toNatBE r, Bytes.toNatBE s⟩

/-- An outcome on the bytes behind `before` and one at its end as a position agree: they refuse for
the same reason, or both go on behind the bytes that were taken. -/
inductive Agree {α : Type} (before : Bytes) :
    Bytes → Except LaxError (α × Bytes) → Except Fault (α × Nat) → Prop where
  | refused {rest : Bytes} (e : LaxError) : Agree before rest (.error e) (.error (.refused e))
  | taken (a : α) (taken rest : Bytes) :
      Agree before (taken ++ rest) (.ok (a, rest)) (.ok (a, (before ++ taken).length))

/-- The byte behind some bytes is at the position that is their number. -/
theorem byteAt_append (before rest : Bytes) (b : UInt8) :
    byteAt (before ++ b :: rest) before.length = .ok b := by
  simp [byteAt]

/-- The zeros in front of some bytes are skipped. -/
theorem skipZeros_append (before digits rest : Bytes) :
    ∃ zeros : Bytes, digits = zeros ++ Bytes.dropZeros digits ∧
      skipZeros (before ++ (digits ++ rest)) before.length digits.length =
        .ok ((before ++ zeros).length, (Bytes.dropZeros digits).length) := by
  induction digits generalizing before with
  | nil => exact ⟨[], rfl, by simp [skipZeros, Bytes.dropZeros]⟩
  | cons b digits ih =>
      rw [List.length_cons, skipZeros, List.cons_append, byteAt_append, Bytes.dropZeros,
        List.dropWhile_cons]
      change ∃ zeros, _ ∧ (if b = 0 then _ else _) = _
      by_cases hzero : b = 0
      · obtain ⟨zeros, hzeros, hskip⟩ := ih (before ++ [b])
        rw [List.append_assoc, List.singleton_append, List.length_append,
          List.length_singleton] at hskip
        rw [if_pos hzero, if_pos (decide_eq_true hzero), hskip]
        refine ⟨b :: zeros, congrArg (b :: ·) hzeros, ?_⟩
        rw [List.append_assoc, List.singleton_append]
        rfl
      · rw [if_neg hzero, if_neg (by simpa using hzero)]
        exact ⟨[], rfl, by rw [List.append_nil]; rfl⟩

/-- Reading a length by position agrees with reading it from the bytes that are left. -/
theorem lengthAt_agrees (before rest : Bytes) :
    Agree before rest (length rest) (lengthAt (before ++ rest) before.length) := by
  cases rest with
  | nil =>
      rw [lengthAt, if_pos (by simp)]
      exact .refused _
  | cons b body =>
      rw [lengthAt, if_neg (by simp), byteAt_append, length]
      change Agree _ _ _ (if b < 0x80 then _ else _)
      split
      · rw [← List.length_singleton (a := b), ← List.length_append]
        exact .taken _ [b] body
      · have hroom : (before ++ b :: body).length < before.length + 1 + (b.toNat - 0x80) ↔
            body.length < b.toNat - 0x80 := by
          rw [List.length_append, List.length_cons]
          omega
        dsimp only
        by_cases hshort : body.length < b.toNat - 0x80
        · rw [if_pos hshort, if_pos (hroom.mpr hshort)]
          exact .refused _
        · rw [if_neg hshort, if_neg (mt hroom.mp hshort)]
          obtain ⟨digits, rest, rfl, hcount⟩ : ∃ digits rest, body = digits ++ rest ∧
              digits.length = b.toNat - 0x80 :=
            ⟨body.take (b.toNat - 0x80), body.drop (b.toNat - 0x80),
              (List.take_append_drop _ _).symm, by rw [List.length_take]; omega⟩
          obtain ⟨zeros, hzeros, hskip⟩ := skipZeros_append (before ++ [b]) digits rest
          have hwhole : before ++ [b] ++ (digits ++ rest) = before ++ b :: (digits ++ rest) := by
            rw [List.append_assoc, List.singleton_append]
          rw [hwhole, List.length_append, List.length_singleton] at hskip
          rw [← hcount, List.take_left, List.drop_left, hskip]
          change Agree _ _ _ (if 4 ≤ (Bytes.dropZeros digits).length then _ else _)
          split
          · exact .refused _
          · have hsplit : before ++ b :: (digits ++ rest) =
                before ++ [b] ++ zeros ++ (Bytes.dropZeros digits ++ rest) := by
              conv_lhs => rw [hzeros]
              simp
            have hend : (before ++ [b] ++ zeros).length + (Bytes.dropZeros digits).length =
                (before ++ b :: digits).length := by
              conv_rhs => rw [hzeros]
              simp only [List.length_append, List.length_cons, List.length_nil]
              omega
            rw [hsplit, List.drop_left, List.take_left, hend]
            exact .taken _ (b :: digits) rest

/-- Reading an integer by position agrees with reading it from the bytes that are left. -/
theorem integerAt_agrees (before rest : Bytes) :
    Agree before rest (integer rest) (integerAt (before ++ rest) before.length) := by
  cases rest with
  | nil =>
      rw [integerAt, if_pos (by simp)]
      exact .refused _
  | cons b tail =>
      rw [integerAt, if_neg (by simp), byteAt_append, integer]
      change Agree _ _ _ (if b ≠ 0x02 then _ else _)
      by_cases htag : b = 0x02
      · have hlength := lengthAt_agrees (before ++ [b]) tail
        rw [List.append_assoc, List.singleton_append, List.length_append,
          List.length_singleton] at hlength
        rw [if_pos htag, if_neg (not_not.mpr htag)]
        generalize length tail = outcome at hlength
        generalize lengthAt (before ++ b :: tail) (before.length + 1) = outcomeAt at hlength
        cases hlength with
        | refused e => exact .refused e
        | taken n form body =>
            have hroom : (before ++ b :: (form ++ body)).length <
                (before ++ [b] ++ form).length + n ↔ body.length < n := by
              simp only [List.length_append, List.length_cons, List.length_nil]
              omega
            change Agree _ _ (if body.length < n then _ else _) (if _ < _ + n then _ else _)
            by_cases hshort : body.length < n
            · rw [if_pos hshort, if_pos (hroom.mpr hshort)]
              exact .refused _
            · rw [if_neg hshort, if_neg (mt hroom.mp hshort)]
              have hsplit : before ++ b :: (form ++ body) = before ++ [b] ++ form ++ body := by simp
              have hend : (before ++ [b] ++ form).length + n =
                  (before ++ b :: (form ++ body.take n)).length := by
                simp only [List.length_append, List.length_cons, List.length_nil, List.length_take]
                omega
              have htaken : b :: (form ++ body) = b :: (form ++ body.take n) ++ body.drop n := by
                rw [List.cons_append, List.append_assoc, List.take_append_drop]
              rw [hsplit, List.drop_left, hend, htaken]
              exact .taken _ _ _
      · rw [if_neg htag, if_pos htag]
        exact .refused _

/-- The position behind the length of the sequence agrees with what is left there. -/
theorem sequenceAt_agrees (bs : Bytes) :
    Agree [] bs ((sequence bs).map ((), ·)) ((sequenceAt bs).map ((), ·)) := by
  cases bs with
  | nil => exact .refused _
  | cons b tail =>
      rw [sequenceAt, if_neg (by simp)]
      change Agree _ _ _ ((if b ≠ 0x30 then _ else _ : Except Fault Nat).map _)
      by_cases htag : b = 0x30
      · subst htag
        rw [if_neg (not_not.mpr rfl)]
        cases tail with
        | nil => exact .refused _
        | cons c body =>
            have htwo : ¬ (0x30 :: c :: body : Bytes).length < 2 := by simp
            rw [if_neg htwo, sequence_cons_cons]
            change Agree _ _ _ ((if c < 0x80 then _ else _ : Except Fault Nat).map _)
            split
            · exact .taken () [0x30, c] body
            · have hroom : (0x30 :: c :: body).length < 2 + (c.toNat - 0x80) ↔
                  body.length < c.toNat - 0x80 := by
                simp only [List.length_cons]
                omega
              dsimp only
              by_cases hshort : body.length < c.toNat - 0x80
              · rw [if_pos hshort, if_pos (hroom.mpr hshort)]
                exact .refused _
              · rw [if_neg hshort, if_neg (mt hroom.mp hshort)]
                have hend : 2 + (c.toNat - 0x80) =
                    ([] ++ 0x30 :: c :: body.take (c.toNat - 0x80)).length := by
                  simp only [List.nil_append, List.length_cons, List.length_take]
                  omega
                have htaken : (0x30 :: c :: body : Bytes) =
                    0x30 :: c :: body.take (c.toNat - 0x80) ++ body.drop (c.toNat - 0x80) := by
                  rw [List.cons_append, List.cons_append, List.take_append_drop]
                rw [htaken, hend]
                exact .taken () _ _
      · rw [if_pos htag]
        have hrefused : sequence (b :: tail) = .error .missingSequenceTag := by
          unfold sequence
          exact if_neg htag
        rw [hrefused]
        exact .refused _

/-- Outcomes that agree give the same result if what is done next does. -/
theorem Agree.bind_eq {α β : Type} {before rest : Bytes} {outcome : Except LaxError (α × Bytes)}
    {outcomeAt : Except Fault (α × Nat)} (h : Agree before rest outcome outcomeAt)
    {next : α × Bytes → Except LaxError β} {nextAt : α × Nat → Except Fault β}
    (hnext : ∀ a taken left, rest = taken ++ left →
      nextAt (a, (before ++ taken).length) = (next (a, left)).mapError .refused) :
    outcomeAt >>= nextAt = (outcome >>= next).mapError .refused := by
  cases h with
  | refused e => rfl
  | taken a taken left => exact hnext a taken left rfl

/-- Reading by positions gives the same outcome, and asks for no position past the end. -/
theorem readAt_eq (bs : Bytes) : readAt bs = (decode bs).mapError .refused := by
  have hsequence := sequenceAt_agrees bs
  rw [readAt, decode]
  generalize sequence bs = outcome at hsequence
  generalize sequenceAt bs = outcomeAt at hsequence
  cases outcome with
  | error e =>
      cases outcomeAt with
      | error fault =>
          cases hsequence
          rfl
      | ok pos => cases hsequence
  | ok body =>
      cases outcomeAt with
      | error fault => cases hsequence
      | ok pos =>
          cases hsequence with
          | taken _ opening body =>
              refine (integerAt_agrees opening body).bind_eq fun r element more hbody ↦ ?_
              subst hbody
              rw [← List.append_assoc]
              exact (integerAt_agrees (opening ++ element) more).bind_eq fun s _ _ _ ↦ rfl

/-! ## The grammar -/

/-- Reading a byte string by positions never asks for one past its end and gives what decoding
gives: the signature of the parts that the byte string consists of, which are unique, or an error if
it does not consist of parts. -/
theorem decode_grammar (bs : Bytes) :
    readAt bs = (decode bs).mapError Fault.refused ∧
      ((∃ parts : Parts, parts.WellFormed ∧ parts.bytes = bs ∧
          decode bs = .ok parts.signature ∧
          ∀ other : Parts, other.WellFormed → other.bytes = bs → other = parts) ∨
        (¬ ∃ parts : Parts, parts.WellFormed ∧ parts.bytes = bs) ∧
          ∃ e, decode bs = .error e) := by
  refine ⟨readAt_eq bs, ?_⟩
  cases hdecode : decode bs with
  | ok signature =>
      obtain ⟨parts, hparts, rfl⟩ := exists_parts hdecode
      refine .inl ⟨parts, hparts, rfl, ?_, fun other hother ↦ hparts.eq_of_bytes_eq hother⟩
      rw [← hdecode, hparts.decode_bytes]
  | error e =>
      refine .inr ⟨?_, e, rfl⟩
      rintro ⟨parts, hparts, rfl⟩
      rw [hparts.decode_bytes] at hdecode
      cases hdecode

-- Neither length counts what follows, and the second integer has no bytes.
example : readAt [0x30, 0x00, 0x02, 0x81, 0x01, 0x05, 0x02, 0x80, 0xff] = .ok ⟨5, 0⟩ := by decide

end BitcoinSpend.Signature.Lax
