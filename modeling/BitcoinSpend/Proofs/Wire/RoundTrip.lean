import Mathlib.Algebra.Group.Nat.Defs
import BitcoinSpend.Wire.Reader
import BitcoinSpend.Wire.Writer

/-!
# Reading back what was written

`Restores` says that a reader returns a value from some bytes and leaves alone what stands behind
them. It is closed under sequencing, so the reader of a record restores it from its parts. What a
reader returns in any case is said by `Yields`, which bounds the values that are ever read. Read
these two definitions first.
-/

namespace BitcoinSpend.Wire

variable {α β : Type}

/-! ## Values and their bytes -/

/-- A reader that returns a value from some bytes and leaves what stands behind them. -/
def Restores (r : Reader α) (bs : Bytes) (a : α) : Prop :=
  ∀ rest, r (bs ++ rest) = .ok a rest

/-- Returning a value takes no bytes. -/
theorem Restores.pure (a : α) : Restores (Pure.pure a) [] a :=
  fun _ ↦ rfl

/-- A reader that goes on behind a value goes on at what stands behind its bytes. -/
theorem Restores.step {r : Reader α} {bs : Bytes} {a : α} (hr : Restores r bs a) (f : α → Reader β)
    (rest : Bytes) : (r >>= f) (bs ++ rest) = f a rest := by
  change EStateM.bind r f _ = _
  rw [EStateM.bind, hr]

/-- One reader after another takes the bytes of both. -/
theorem Restores.bind {r : Reader α} {f : α → Reader β} {bs cs : Bytes} {a : α} {b : β}
    (hr : Restores r bs a) (hf : Restores (f a) cs b) : Restores (r >>= f) (bs ++ cs) b := by
  intro rest
  rw [List.append_assoc, hr.step]
  exact hf rest

/-- A reader whose value is changed behind it takes the same bytes. -/
theorem Restores.map {r : Reader α} {f : α → β} {bs : Bytes} {a : α} (hr : Restores r bs a) :
    Restores (r >>= fun a ↦ Pure.pure (f a)) bs (f a) := by
  have h := hr.bind (f := fun a ↦ Pure.pure (f a)) (.pure (f a))
  rwa [List.append_nil] at h

/-- What is restored from some bytes is read from them alone. -/
theorem Restores.decode {r : Reader α} {bs : Bytes} {a : α} (hr : Restores r bs a) :
    r.decode bs = .ok a := by
  have h := hr []
  rw [List.append_nil] at h
  rw [Reader.decode, EStateM.run, h]

/-- What is restored from bytes with anything behind them tells the bytes from what is behind. -/
theorem Restores.append_inj {r : Reader α} {bs bs' rest rest' : Bytes} {a a' : α}
    (hr : Restores r bs a) (hr' : Restores r bs' a') (h : bs ++ rest = bs' ++ rest') :
    a = a' ∧ rest = rest' := by
  have hread := hr rest
  rw [h, hr' rest'] at hread
  injection hread with ha hrest
  exact ⟨ha.symm, hrest.symm⟩

/-- Lengths of byte strings that can be asked for. -/
theorem addressable_of_lt {n : Nat} (hn : n < 2 ^ 63) : Bytes.addressable n = true := by
  simp only [Bytes.addressable, Bool.and_eq_true, decide_eq_true_eq]
  omega

/-- Bytes are taken as they are. -/
theorem restores_take {bs : Bytes} (hbs : bs.length < 2 ^ 63) (what : Option String) :
    Restores (take bs.length what) bs bs := by
  intro rest
  rw [take, if_pos (addressable_of_lt hbs), if_neg (by omega), Int.toNat_natCast, List.take_left,
    List.drop_left, if_neg (Nat.lt_irrefl _)]

/-- Bytes of a known number are taken as they are. -/
theorem restores_take_width {bs : Bytes} {width : Nat} (hwidth : bs.length = width)
    (hlt : width < 2 ^ 63) (what : Option String) : Restores (take width what) bs bs := by
  subst hwidth
  exact restores_take hlt what

/-- One byte is read as it is. -/
theorem restores_byte (b : UInt8) (what : Option String) : Restores (byte what) [b] b :=
  fun _ ↦ rfl

/-! ## Integers -/

/-- An integer that fits without a sign is not negative and below the capacity. -/
theorem fits_unsigned {width : Nat} {v : Int} :
    fits false width v = true ↔ 0 ≤ v ∧ v < Bytes.capacity width := by
  simp [fits]

/-- An integer that fits with a sign lies within half the capacity on either side. -/
theorem fits_signed {width : Nat} (hwidth : 0 < width) {v : Int} :
    fits true width v = true ↔
      -(Bytes.capacity width : Int) ≤ 2 * v ∧ 2 * v < Bytes.capacity width := by
  simp [fits, Nat.ne_of_gt hwidth]

/-- The unsigned form of an integer that fits is read back. -/
theorem toNatLE_ofIntLE {width : Nat} {v : Int} (h : fits false width v = true) :
    ((Bytes.ofIntLE width v).toNatLE : Int) = v := by
  obtain ⟨hnonneg, hlt⟩ := fits_unsigned.mp h
  rw [Bytes.ofIntLE, if_neg (by omega), Bytes.toNatLE_ofNatLE, Nat.mod_eq_of_lt (by omega)]
  omega

/-- The two's complement form of an integer that fits is read back. -/
theorem toIntLE_ofIntLE {width : Nat} (hwidth : 0 < width) {v : Int}
    (h : fits true width v = true) : (Bytes.ofIntLE width v).toIntLE = v := by
  obtain ⟨hlow, hhigh⟩ := (fits_signed hwidth).mp h
  have hcap : 0 < (Bytes.capacity width : Int) := by
    have := Bytes.capacity_pos width
    omega
  have hbounds : 0 ≤ v % (Bytes.capacity width : Int) ∧
      v % (Bytes.capacity width : Int) < Bytes.capacity width :=
    ⟨Int.emod_nonneg v (Int.ne_of_gt hcap), Int.emod_lt_of_pos v hcap⟩
  have hshift : v % (Bytes.capacity width : Int) = v ∨
      v % (Bytes.capacity width : Int) = v + Bytes.capacity width := by
    by_cases hneg : v < 0
    · right
      rw [← Int.add_emod_right]
      exact Int.emod_eq_of_lt (by omega) (by omega)
    · left
      exact Int.emod_eq_of_lt (by omega) (by omega)
  rw [Bytes.ofIntLE_eq_ofNatLE_emod, Bytes.toIntLE, Bytes.length_ofNatLE, Bytes.toNatLE_ofNatLE,
    Nat.mod_eq_of_lt (by omega)]
  split <;> omega

/-- The form of an integer has the width asked for. -/
theorem length_ofIntLE (width : Nat) (v : Int) : (Bytes.ofIntLE width v).length = width := by
  rw [Bytes.ofIntLE_eq_ofNatLE_emod, Bytes.length_ofNatLE]

/-- The form of an integer is not empty, whatever stands behind it. -/
theorem ofIntLE_append_ne_nil {width : Nat} (hwidth : 0 < width) (v : Int) (rest : Bytes) :
    Bytes.ofIntLE width v ++ rest ≠ [] := by
  refine List.ne_nil_of_length_pos ?_
  rw [List.length_append, length_ofIntLE]
  omega

/-- An integer that fits is read back. -/
theorem restores_littleInt {signed : Bool} {width : Nat} {v : Int} (hwidth : 0 < width)
    (hlt : width < 2 ^ 63) (h : fits signed width v = true) (what : Option String) :
    Restores (littleInt signed width what) (Bytes.ofIntLE width v) v := by
  have hvalue : (if signed then (Bytes.ofIntLE width v).toIntLE
      else ((Bytes.ofIntLE width v).toNatLE : Int)) = v := by
    cases signed with
    | true => exact toIntLE_ofIntLE hwidth h
    | false => exact toNatLE_ofIntLE h
  have hread := (restores_take_width (length_ofIntLE width v) hlt what).map
    (f := fun bs ↦ if signed then bs.toIntLE else (bs.toNatLE : Int))
  rw [hvalue] at hread
  exact hread

/-- Integers that fit are told apart by their bytes, whatever stands behind them. -/
theorem ofIntLE_append_inj {signed : Bool} {width : Nat} {v v' : Int} (hwidth : 0 < width)
    (hlt : width < 2 ^ 63) (h : fits signed width v = true) (h' : fits signed width v' = true)
    {rest rest' : Bytes} (heq : Bytes.ofIntLE width v ++ rest = Bytes.ofIntLE width v' ++ rest') :
    v = v' ∧ rest = rest' :=
  (restores_littleInt hwidth hlt h none).append_inj (restores_littleInt hwidth hlt h' none) heq

/-- An integer that fits is written. -/
theorem littleInt?_of_fits {signed : Bool} {width : Nat} {v : Int}
    (h : fits signed width v = true) :
    littleInt? signed width v = .ok (Bytes.ofIntLE width v) := by
  rw [littleInt?, if_pos h]

/-- The digits behind a marker are read back. -/
theorem restores_digits (width : Nat) {n : Nat} (hlt : width < 2 ^ 63)
    (hn : n < Bytes.capacity width) (what : Option String) :
    Restores (do return (← take width what).toNatLE) (Bytes.ofNatLE width n) n := by
  have h := (restores_take_width (Bytes.length_ofNatLE width n) hlt what).map
    (f := fun bs ↦ bs.toNatLE)
  rwa [Bytes.toNatLE_ofNatLE, Nat.mod_eq_of_lt hn] at h

/-- A count or length below `2⁶⁴` is read back. -/
theorem restores_compactSize {n : Nat} (hn : n < 2 ^ 64) :
    Restores compactSize (compactSizeOf n) n := by
  unfold compactSizeOf
  split
  · next hsmall =>
      have hbyte : (UInt8.ofNat n).toNat = n := by
        rw [UInt8.toNat_ofNat']
        omega
      have hlt : UInt8.ofNat n < 0xfd := by
        rw [UInt8.lt_iff_toNat_lt, hbyte]
        exact hsmall
      intro rest
      rw [Bytes.ofNatLE, Nat.mod_eq_of_lt (by omega)]
      change (if UInt8.ofNat n < 0xfd then pure (UInt8.ofNat n).toNat else _ : Reader Nat) rest = _
      rw [if_pos hlt, hbyte]
      rfl
  · split
    · exact (restores_byte 0xfd _).bind (restores_digits 2 (by decide)
        (by have : Bytes.capacity 2 = 65536 := rfl; omega) _)
    · split
      · exact (restores_byte 0xfe _).bind (restores_digits 4 (by decide)
          (by have : Bytes.capacity 4 = 4294967296 := rfl; omega) _)
      · exact (restores_byte 0xff _).bind (restores_digits 8 (by decide)
          (by have : Bytes.capacity 8 = 18446744073709551616 := rfl; omega) _)

/-- The bytes of a count or length are not empty. -/
theorem compactSizeOf_ne_nil (n : Nat) : compactSizeOf n ≠ [] := by
  unfold compactSizeOf
  split
  · exact List.cons_ne_nil _ _
  · split
    · exact List.cons_ne_nil _ _
    · split <;> exact List.cons_ne_nil _ _

/-- A count or length below `2⁶⁴` is written. -/
theorem compactSize?_of_lt {n : Nat} (hn : n < 2 ^ 64) :
    compactSize? n = .ok (compactSizeOf n) := by
  rw [compactSize?, if_neg (by omega), Int.toNat_natCast]

/-- A byte string behind its length. -/
def sized (bs : Bytes) : Bytes :=
  compactSizeOf bs.length ++ bs

/-- A byte string behind its length is read back. -/
theorem restores_lengthPrefixed {bs : Bytes} (hbs : bs.length < 2 ^ 63) (what : Option String) :
    Restores (lengthPrefixed what) (sized bs) bs :=
  (restores_compactSize (by omega)).bind (restores_take hbs what)

/-- Byte strings behind their lengths are told apart, whatever stands behind them. -/
theorem sized_append_inj {bs bs' : Bytes} (hbs : bs.length < 2 ^ 63) (hbs' : bs'.length < 2 ^ 63)
    {rest rest' : Bytes} (heq : sized bs ++ rest = sized bs' ++ rest') : bs = bs' ∧ rest = rest' :=
  (restores_lengthPrefixed hbs none).append_inj (restores_lengthPrefixed hbs' none) heq

/-- A byte string is written behind its length. -/
theorem lengthPrefixed?_of_lt {bs : Bytes} (hbs : bs.length < 2 ^ 64) :
    lengthPrefixed? bs = .ok (sized bs) := by
  rw [lengthPrefixed?, compactSize?_of_lt hbs]
  rfl

/-! ## Lists -/

/-- The bytes of some elements in a row, behind their number. -/
def counted (elements : List Bytes) : Bytes :=
  compactSizeOf elements.length ++ elements.flatten

/-- Where each element of a list has an image, the list has the list of the images. -/
theorem mapM_eq_ok {ε : Type} {f : α → Except ε β} {g : α → β} {as : List α}
    (h : ∀ a ∈ as, f a = .ok (g a)) : as.mapM f = .ok (as.map g) := by
  induction as with
  | nil => rfl
  | cons a as ih =>
      rw [List.mapM_cons, h a List.mem_cons_self, ih fun b hb ↦ h b (List.mem_cons_of_mem a hb)]
      rfl

/-- Where each element of a list is read back, so is the list. -/
theorem restores_many (r : Reader β) (write : α → Bytes) (g : α → β) {as : List α}
    (h : ∀ a ∈ as, Restores r (write a) (g a)) :
    Restores (many r as.length) (as.map write).flatten (as.map g) := by
  induction as with
  | nil => exact .pure _
  | cons a as ih =>
      exact (h a List.mem_cons_self).bind (ih fun b hb ↦ h b (List.mem_cons_of_mem a hb)).map

/-- Where each element of a list is read back, so is the list behind the number of its elements. -/
theorem restores_counted {r : Reader β} {write : α → Bytes} {g : α → β} {as : List α}
    (hcount : as.length < 2 ^ 64) (h : ∀ a ∈ as, Restores r (write a) (g a)) :
    Restores (compactSize >>= many r) (counted (as.map write)) (as.map g) := by
  rw [counted, List.length_map]
  exact (restores_compactSize hcount).bind (restores_many r write g h)

/-- Elements in a row are told apart by their bytes, also where it is not said how many there are, if
each element has some bytes and is read back. -/
theorem flatten_map_inj_iff {r : Reader α} {write : α → Bytes} (hwrite : ∀ a, write a ≠ [])
    {as as' : List α} (h : ∀ a ∈ as, Restores r (write a) a)
    (h' : ∀ a ∈ as', Restores r (write a) a) :
    (as.map write).flatten = (as'.map write).flatten ↔ as = as' := by
  refine ⟨fun heq ↦ ?_, fun heq ↦ by rw [heq]⟩
  induction as generalizing as' with
  | nil =>
      cases as' with
      | nil => rfl
      | cons a' as' => exact absurd (List.append_eq_nil_iff.mp heq.symm).1 (hwrite a')
  | cons a as ih =>
      cases as' with
      | nil => exact absurd (List.append_eq_nil_iff.mp heq).1 (hwrite a)
      | cons a' as' =>
          obtain ⟨hhead, htail⟩ :=
            (h a List.mem_cons_self).append_inj (h' a' List.mem_cons_self) heq
          rw [hhead, ih (fun b hb ↦ h b (List.mem_cons_of_mem a hb))
            (fun b hb ↦ h' b (List.mem_cons_of_mem a' hb)) htail]

/-! ## What is ever read -/

/-- A reader all of whose values have a property. -/
def Yields (r : Reader α) (P : α → Prop) : Prop :=
  ∀ bs a rest, r bs = .ok a rest → P a

/-- What is read from a whole byte string is read from its front. -/
theorem exists_of_decode {r : Reader α} {bs : Bytes} {a : α} (h : r.decode bs = .ok a) :
    ∃ rest, r bs = .ok a rest := by
  rw [Reader.decode, EStateM.run] at h
  split at h
  · next b rest hread =>
      cases h
      exact ⟨rest, hread⟩
  · cases h

/-- What is read from the front of a byte string is read from the whole of it. -/
theorem decode_of_ok {r : Reader α} {bs rest : Bytes} {a : α} (h : r bs = .ok a rest) :
    r.decode bs = .ok a := by
  rw [Reader.decode, EStateM.run, h]

/-- What stops a reader is the outcome on the whole byte string. -/
theorem decode_of_error {r : Reader α} {bs rest : Bytes} {e : ReadError}
    (h : r bs = .error e rest) : r.decode bs = .error e := by
  rw [Reader.decode, EStateM.run, h]

/-- A reader's outcome on a whole byte string has the property. -/
theorem Yields.decode {r : Reader α} {P : α → Prop} (hr : Yields r P) {bs : Bytes} {a : α}
    (h : r.decode bs = .ok a) : P a := by
  obtain ⟨rest, hread⟩ := exists_of_decode h
  exact hr bs a rest hread

/-- Returning a value yields it. -/
theorem Yields.pure {P : α → Prop} {a : α} (h : P a) : Yields (Pure.pure a) P := by
  intro bs b rest hread
  cases hread
  exact h

/-- One reader after another succeeds if the first does and then the second does behind it. -/
theorem bind_ok {r : Reader α} {f : α → Reader β} {bs rest : Bytes} {b : β} :
    (r >>= f) bs = .ok b rest ↔ ∃ a more, r bs = .ok a more ∧ f a more = .ok b rest := by
  change EStateM.bind r f bs = _ ↔ _
  rw [EStateM.bind]
  cases r bs with
  | ok a more =>
      refine ⟨fun h ↦ ⟨a, more, rfl, h⟩, ?_⟩
      rintro ⟨_, _, hfirst, h⟩
      cases hfirst
      exact h
  | error e more =>
      constructor
      · intro h
        cases h
      · rintro ⟨_, _, hfirst, -⟩
        cases hfirst

/-- One reader after another fails if the first does, or if the second does behind it. -/
theorem bind_error {r : Reader α} {f : α → Reader β} {bs rest : Bytes} {e : ReadError} :
    (r >>= f) bs = .error e rest ↔
      r bs = .error e rest ∨ ∃ a more, r bs = .ok a more ∧ f a more = .error e rest := by
  change EStateM.bind r f bs = _ ↔ _
  rw [EStateM.bind]
  cases r bs with
  | ok a more =>
      refine ⟨fun h ↦ .inr ⟨a, more, rfl, h⟩, ?_⟩
      rintro (hfirst | ⟨_, _, hfirst, h⟩)
      · cases hfirst
      · cases hfirst
        exact h
  | error e' more =>
      refine ⟨fun h ↦ .inl (by cases h; rfl), ?_⟩
      rintro (hfirst | ⟨_, _, hfirst, -⟩)
      · cases hfirst
        rfl
      · cases hfirst

/-- What the second reader yields after the values of the first, both together yield. -/
theorem Yields.bind {r : Reader α} {f : α → Reader β} {P : α → Prop} {Q : β → Prop}
    (hr : Yields r P) (hf : ∀ a, P a → Yields (f a) Q) : Yields (r >>= f) Q := by
  intro bs b rest hread
  obtain ⟨a, more, hfirst, hsecond⟩ := bind_ok.mp hread
  exact hf a (hr bs a more hfirst) more b rest hsecond

/-- Any reader yields something. -/
theorem Yields.any (r : Reader α) : Yields r fun _ ↦ True :=
  fun _ _ _ _ ↦ trivial

/-- What is taken and what is left make up what was there. -/
theorem append_eq_of_take {n : Int} {what : Option String} {bs front rest : Bytes}
    (h : take n what bs = .ok front rest) : front ++ rest = bs := by
  rw [take] at h
  split at h
  · split at h
    · cases h
    · dsimp only at h
      split at h
      · cases h
      · cases h
        exact List.take_append_drop _ _
  · cases h

/-- Bytes are taken in the number asked for. -/
theorem yields_take (n : Int) (what : Option String) :
    Yields (take n what) fun bs ↦ (bs.length : Int) = n ∧ bs.length < 2 ^ 63 := by
  intro bs front rest hread
  rw [take] at hread
  split at hread
  · next haddressable =>
      simp only [Bytes.addressable, Bool.and_eq_true, decide_eq_true_eq] at haddressable
      split at hread
      · cases hread
      · dsimp only at hread
        split at hread
        · cases hread
        · cases hread
          have hle := List.length_take_le n.toNat bs
          omega
  · cases hread

/-- Unsigned bytes write a number that fits into them. -/
theorem fits_toNatLE (bs : Bytes) : fits false bs.length bs.toNatLE = true :=
  fits_unsigned.mpr ⟨by omega, by exact_mod_cast bs.toNatLE_lt⟩

/-- Bytes write an integer in two's complement that fits into them. -/
theorem fits_toIntLE {bs : Bytes} (h : 0 < bs.length) : fits true bs.length bs.toIntLE = true := by
  have hlt := bs.toNatLE_lt
  rw [fits_signed h, Bytes.toIntLE]
  split <;> omega

/-- An integer that is read fits into its width. -/
theorem yields_littleInt {width : Nat} (hwidth : 0 < width) (signed : Bool)
    (what : Option String) :
    Yields (littleInt signed width what) fun v ↦ fits signed width v = true := by
  refine (yields_take width what).bind fun bs hbs ↦ .pure ?_
  have hlength : bs.length = width := by omega
  subst hlength
  cases signed with
  | true => exact fits_toIntLE hwidth
  | false => exact fits_toNatLE bs

/-- A count or length that is read lies below `2⁶⁴`. -/
theorem yields_compactSize : Yields compactSize fun n ↦ n < 2 ^ 64 := by
  have hdigits (width : Nat) (hwidth : width ≤ 8) (what : Option String) :
      Yields (do return (← take width what).toNatLE) fun n ↦ n < 2 ^ 64 := by
    refine (yields_take width what).bind fun bs hbs ↦ .pure ?_
    have hcapacity : Bytes.capacity bs.length ≤ Bytes.capacity 8 :=
      Nat.pow_le_pow_right (by decide) (by omega)
    exact Nat.lt_of_lt_of_le bs.toNatLE_lt hcapacity
  refine (Yields.any _).bind fun b _ ↦ ?_
  have hb := b.toNat_lt
  split
  · exact .pure (by omega)
  · split
    · exact hdigits 2 (by decide) _
    · split
      · exact hdigits 4 (by decide) _
      · exact hdigits 8 (by decide) _

/-- A count or length is read from one byte that is equal to it, unless a longer form is marked. -/
theorem compactSize_ok {bs rest : Bytes} {n : Nat} (h : compactSize bs = .ok n rest) :
    bs = UInt8.ofNat n :: rest ∨ ∃ marker, bs[0]? = some marker ∧ 0xfd ≤ marker := by
  cases bs with
  | nil => cases h
  | cons b bs =>
      by_cases hb : b < 0xfd
      · left
        change (if b < 0xfd then pure b.toNat else _ : Reader Nat) bs = _ at h
        rw [if_pos hb] at h
        cases h
        rw [UInt8.ofNat_toNat]
      · exact .inr ⟨b, rfl, UInt8.not_lt.mp hb⟩

/-- A byte string that is read behind its length is one that can be asked for. -/
theorem yields_lengthPrefixed (what : Option String) :
    Yields (lengthPrefixed what) fun bs ↦ bs.length < 2 ^ 63 :=
  (Yields.any _).bind fun n _ ↦ fun bs front rest h ↦ (yields_take n what bs front rest h).2

/-- As many elements are read as are asked for, each as its reader yields it. -/
theorem yields_many {r : Reader α} {P : α → Prop} (hr : Yields r P) (count : Nat) :
    Yields (many r count) fun as ↦ as.length = count ∧ ∀ a ∈ as, P a := by
  induction count with
  | zero => exact .pure ⟨rfl, fun a ha ↦ nomatch ha⟩
  | succ count ih =>
      refine hr.bind fun a ha ↦ ih.bind fun as has ↦ .pure ⟨?_, ?_⟩
      · rw [List.length_cons, has.1]
      · exact List.forall_mem_cons.mpr ⟨ha, has.2⟩

end BitcoinSpend.Wire
