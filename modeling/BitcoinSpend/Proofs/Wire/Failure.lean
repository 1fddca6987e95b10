import BitcoinSpend.Proofs.Wire.Spelling

/-!
# Why readers fail

The readers of the wire format stop where bytes are missing, and where a length is declared that
no read can ask for. The errors of a reader are bounded by `Fails`, and `Oversized` singles out
the byte strings on which it meets such a length. Both follow the readers through sequences and
rows. Read these two definitions first. How long a row is read is said by `Consumes.givesUp`.
-/

namespace BitcoinSpend.Wire

variable {α β σ : Type}

/-! ## The errors of a reader -/

/-- A reader all of whose errors have a property. -/
def Fails (r : Reader α) (P : ReadError → Prop) : Prop :=
  ∀ bs e rest, r bs = .error e rest → P e

/-- Returning a value never fails. -/
theorem Fails.pure (a : α) (P : ReadError → Prop) : Fails (Pure.pure a) P := by
  intro bs e rest h
  cases h

/-- The errors of one reader after another are those of both. -/
theorem Fails.bind {r : Reader α} {f : α → Reader β} {P : ReadError → Prop} (hr : Fails r P)
    (hf : ∀ a, Fails (f a) P) : Fails (r >>= f) P := by
  intro bs e rest h
  obtain hfirst | ⟨a, more, -, hsecond⟩ := bind_error.mp h
  · exact hr bs e rest hfirst
  · exact hf a more e rest hsecond

/-- A weaker property bounds the errors as well. -/
theorem Fails.mono {r : Reader α} {P Q : ReadError → Prop} (hr : Fails r P)
    (h : ∀ e, P e → Q e) : Fails r Q :=
  fun bs e rest herror ↦ h e (hr bs e rest herror)

/-- The errors of elements in a row are those of an element. -/
theorem Fails.many {r : Reader α} {P : ReadError → Prop} (hr : Fails r P) (count : Nat) :
    Fails (many r count) P := by
  induction count with
  | zero => exact .pure _ _
  | succ count ih => exact hr.bind fun a ↦ ih.bind fun as ↦ .pure _ _

/-- The errors of reads that fall short. -/
def ReadError.IsShort (e : ReadError) : Prop :=
  ∃ what, e = .insufficient what

/-- The errors of reads whose length is declared by the bytes. -/
def ReadError.IsSized (e : ReadError) : Prop :=
  e.IsShort ∨ e = .oversize

/-- Bytes of any number fall short, or cannot be asked for. -/
theorem fails_take (n : Int) (what : Option String) : Fails (take n what) ReadError.IsSized := by
  intro bs e rest h
  rw [take] at h
  split at h
  · left
    split at h
    · cases h
      exact ⟨what, rfl⟩
    · dsimp only at h
      split at h
      · cases h
        exact ⟨what, rfl⟩
      · cases h
  · cases h
    exact .inr rfl

/-- An integer falls short, or is of a width that cannot be asked for. -/
theorem fails_littleInt (signed : Bool) (width : Int) (what : Option String) :
    Fails (littleInt signed width what) ReadError.IsSized :=
  (fails_take width what).bind fun _ ↦ .pure _ _

/-- One byte is missing if it cannot be read. -/
theorem fails_byte (what : Option String) : Fails (byte what) ReadError.IsShort := by
  intro bs e rest h
  cases bs with
  | nil =>
      cases h
      exact ⟨what, rfl⟩
  | cons b bs => cases h

/-- At the end of the input nothing is asked for. -/
theorem fails_atEnd : Fails atEnd (· ≠ .oversize) := by
  rintro bs _ rest h rfl
  cases bs <;> cases h

/-! ## Lengths that no read can ask for -/

/-- Whether a reader stops at a length that no read can ask for. -/
def Oversized (r : Reader α) (bs : Bytes) : Prop :=
  ∃ rest, r bs = .error .oversize rest

/-- A reader that fails for other reasons only never stops at a length. -/
theorem Fails.not_oversized {r : Reader α} (hr : Fails r (· ≠ .oversize)) (bs : Bytes) :
    ¬ Oversized r bs :=
  fun ⟨rest, h⟩ ↦ hr bs _ rest h rfl

/-- Returning a value never stops at a length. -/
theorem not_oversized_pure (a : α) (bs : Bytes) : ¬ Oversized (Pure.pure a : Reader α) bs :=
  (Fails.pure a _).not_oversized bs

/-- To fall short is another reason. -/
theorem Fails.ne_oversize {r : Reader α} (hr : Fails r ReadError.IsShort) :
    Fails r (· ≠ .oversize) := by
  refine hr.mono ?_
  rintro _ ⟨what, rfl⟩
  exact ReadError.noConfusion

/-- One reader after another stops at a length in the first, or in the second behind it. -/
theorem oversized_bind {r : Reader α} {f : α → Reader β} {bs : Bytes} :
    Oversized (r >>= f) bs ↔
      Oversized r bs ∨ ∃ a rest, r bs = .ok a rest ∧ Oversized (f a) rest := by
  constructor
  · rintro ⟨left, h⟩
    obtain hfirst | ⟨a, rest, hfirst, hsecond⟩ := bind_error.mp h
    · exact .inl ⟨left, hfirst⟩
    · exact .inr ⟨a, rest, hfirst, left, hsecond⟩
  · rintro (⟨left, hfirst⟩ | ⟨a, rest, hfirst, left, hsecond⟩)
    · exact ⟨left, bind_error.mpr (.inl hfirst)⟩
    · exact ⟨left, bind_error.mpr (.inr ⟨a, rest, hfirst, hsecond⟩)⟩

/-- What stands behind a reader is irrelevant if it never stops at a length. -/
theorem oversized_bind_left {r : Reader α} {f : α → Reader β} {bs : Bytes}
    (hf : ∀ a rest, ¬ Oversized (f a) rest) : Oversized (r >>= f) bs ↔ Oversized r bs := by
  rw [oversized_bind, or_iff_left]
  rintro ⟨a, rest, -, hsecond⟩
  exact hf a rest hsecond

/-- A length is too great from `2⁶³` on, whatever there is to read. -/
theorem oversized_take {n : Nat} {what : Option String} {bs : Bytes} :
    Oversized (take n what) bs ↔ 2 ^ 63 ≤ n := by
  have haddressable : Bytes.addressable n = true ↔ n < 2 ^ 63 := by
    simp only [Bytes.addressable, Bool.and_eq_true, decide_eq_true_eq]
    omega
  constructor
  · rintro ⟨rest, h⟩
    refine Nat.le_of_not_lt fun hn ↦ ?_
    rw [take, if_pos (haddressable.mpr hn)] at h
    split at h
    · cases h
    · dsimp only at h
      split at h <;> cases h
  · intro hn
    refine ⟨bs, ?_⟩
    rw [take, if_neg (mt haddressable.mp (Nat.not_lt_of_le hn))]

/-- A reader that takes a fixed number of bytes, whatever they are, and falls short of fewer. -/
structure FixedWidth (r : Reader α) (width : Nat) : Prop where
  exists_ok_iff : ∀ {bs rest : Bytes},
    (∃ a, r bs = .ok a rest) ↔ width ≤ bs.length ∧ rest = bs.drop width
  fails : Fails r ReadError.IsShort

/-- Bytes of a number that can be asked for are of a fixed width. -/
theorem fixedWidth_take (width : Nat) (hwidth : width < 2 ^ 63) (what : Option String) :
    FixedWidth (take width what) width := by
  refine ⟨fun {bs rest} ↦ ⟨?_, ?_⟩, fun bs e rest h ↦ ?_⟩
  · rintro ⟨front, h⟩
    obtain ⟨rfl, -, rfl⟩ := take_ok_iff.mp h
    rw [List.length_append, List.drop_left]
    exact ⟨Nat.le_add_right _ _, rfl⟩
  · rintro ⟨hle, rfl⟩
    have hlength : (bs.take width).length = width := List.length_take_of_le hle
    exact ⟨bs.take width, take_ok_iff.mpr
      ⟨hlength, hlength.symm ▸ hwidth, (List.take_append_drop width bs).symm⟩⟩
  · refine (fails_take width what bs e rest h).resolve_right ?_
    rintro rfl
    exact Nat.not_lt_of_le (oversized_take.mp ⟨rest, h⟩) hwidth

/-- What is made of bytes of a fixed width is of the same width. -/
theorem FixedWidth.map {r : Reader α} {width : Nat} (hr : FixedWidth r width) (f : α → β) :
    FixedWidth (r >>= fun a ↦ Pure.pure (f a)) width := by
  refine ⟨fun {bs rest} ↦ Iff.trans ?_ hr.exists_ok_iff, hr.fails.bind fun a ↦ .pure _ _⟩
  constructor
  · rintro ⟨b, h⟩
    obtain ⟨a, more, hread, hpure⟩ := bind_ok.mp h
    cases hpure
    exact ⟨a, hread⟩
  · rintro ⟨a, hread⟩
    exact ⟨f a, bind_ok.mpr ⟨a, rest, hread, rfl⟩⟩

/-- An integer is of the width asked for. -/
theorem fixedWidth_littleInt (signed : Bool) (width : Nat) (hwidth : width < 2 ^ 63)
    (what : Option String) : FixedWidth (littleInt signed width what) width :=
  (fixedWidth_take width hwidth what).map _

/-- Behind a fixed number of bytes a length that stops the reader is met where they end. -/
theorem FixedWidth.oversized_bind {r : Reader α} {f : α → Reader β} {width : Nat}
    {overlong : Bytes → Prop} (hr : FixedWidth r width)
    (hf : ∀ a rest, Oversized (f a) rest ↔ overlong rest) (hnil : ¬ overlong []) (bs : Bytes) :
    Oversized (r >>= f) bs ↔ overlong (bs.drop width) := by
  rw [Wire.oversized_bind,
    or_iff_right (hr.fails.ne_oversize.not_oversized bs)]
  constructor
  · rintro ⟨a, rest, hread, hsecond⟩
    obtain ⟨-, rfl⟩ := hr.exists_ok_iff.mp ⟨a, hread⟩
    exact (hf a _).mp hsecond
  · intro hoverlong
    have hle : width ≤ bs.length := by
      refine Nat.le_of_not_lt fun hlt ↦ hnil ?_
      rwa [List.drop_eq_nil_of_le (Nat.le_of_lt hlt)] at hoverlong
    obtain ⟨a, hread⟩ := hr.exists_ok_iff.mpr ⟨hle, rfl⟩
    exact ⟨a, _, hread, (hf a _).mpr hoverlong⟩

/-! ## Byte strings and rows -/

/-- A count or length is missing in part if it cannot be read. -/
theorem fails_compactSize : Fails compactSize ReadError.IsShort := by
  have hdigits (width : Nat) (hwidth : width < 2 ^ 63) (what : Option String) :
      Fails (do return (← take width what).toNatLE : Reader Nat) ReadError.IsShort :=
    ((fixedWidth_take width hwidth what).map _).fails
  refine (fails_byte _).bind fun b ↦ ?_
  split
  · exact .pure _ _
  · split
    · exact hdigits 2 (by decide) _
    · split
      · exact hdigits 4 (by decide) _
      · exact hdigits 8 (by decide) _

/-- A byte string is missing in part, or its length is one that cannot be asked for. -/
theorem fails_lengthPrefixed (what : Option String) :
    Fails (lengthPrefixed what) ReadError.IsSized :=
  (fails_compactSize.mono fun _ ↦ .inl).bind fun n ↦ fails_take n what

/-- Bytes that begin with a length that no read can ask for. -/
def OverlongString (bs : Bytes) : Prop :=
  ∃ size : SizeSpelling, 2 ^ 63 ≤ size.value ∧ size.bytes <+: bs

/-- Without bytes there is no length. -/
theorem not_overlongString_nil : ¬ OverlongString [] :=
  fun ⟨size, _, hprefix⟩ ↦ size.bytes_ne_nil (List.prefix_nil.mp hprefix)

/-- A byte string stops its reader at its length if that is in front. -/
theorem oversized_lengthPrefixed {what : Option String} {bs : Bytes} :
    Oversized (lengthPrefixed what) bs ↔ OverlongString bs := by
  rw [lengthPrefixed, oversized_bind,
    or_iff_right (fails_compactSize.ne_oversize.not_oversized bs)]
  constructor
  · rintro ⟨n, rest, hsize, hcontent⟩
    obtain ⟨size, rfl, rfl⟩ := spells_compactSize.exists_of_ok hsize
    exact ⟨size, oversized_take.mp hcontent, List.prefix_append _ _⟩
  · rintro ⟨size, hvalue, rest, rfl⟩
    exact ⟨size.value, rest, size.restores rest, oversized_take.mpr hvalue⟩

/-- Elements in a row stop their reader at a length in one of them, behind those that are
complete. -/
theorem Spells.oversized_many {r : Reader α} {bytes : σ → Bytes} {value : σ → α}
    (h : Spells r bytes value) {n : Nat} {bs : Bytes} : Oversized (many r n) bs ↔
      ∃ (ss : List σ) (rest : Bytes), ss.length < n ∧ bs = (ss.map bytes).flatten ++ rest ∧
        Oversized r rest := by
  induction n generalizing bs with
  | zero =>
      constructor
      · exact fun hrow ↦ absurd hrow (not_oversized_pure [] bs)
      · rintro ⟨ss, rest, hlt, -⟩
        exact absurd hlt (Nat.not_lt_zero _)
  | succ n ih =>
      have htail (a : α) (rest : Bytes) :
          Oversized (many r n >>= fun as ↦ pure (a :: as)) rest ↔ Oversized (many r n) rest :=
        oversized_bind_left fun as ↦ not_oversized_pure _
      rw [many, oversized_bind]
      simp only [htail, ih]
      constructor
      · rintro (helement | ⟨a, rest, hread, ss, left, hlt, rfl, helement⟩)
        · exact ⟨[], bs, Nat.zero_lt_succ _, rfl, helement⟩
        · obtain ⟨s, -, rfl⟩ := h.exists_of_ok hread
          refine ⟨s :: ss, left, Nat.succ_lt_succ hlt, ?_, helement⟩
          rw [List.map_cons, List.flatten_cons, List.append_assoc]
      · rintro ⟨ss, left, hlt, rfl, helement⟩
        cases ss with
        | nil => exact .inl helement
        | cons s ss =>
            rw [List.map_cons, List.flatten_cons, List.append_assoc]
            exact .inr ⟨value s, _, h.restores s _, ss, left, Nat.lt_of_succ_lt_succ hlt, rfl,
              helement⟩

/-- Bytes that begin with a row in which an element that is still expected is overlong. -/
def OverlongRow (bytes : σ → Bytes) (overlong : Bytes → Prop) (bs : Bytes) : Prop :=
  ∃ (count : SizeSpelling) (ss : List σ) (rest : Bytes), ss.length < count.value ∧
    overlong rest ∧ bs = count.bytes ++ ((ss.map bytes).flatten ++ rest)

/-- A row begins with the zero byte only if nothing in it is expected. -/
theorem OverlongRow.head_ne_zero {bytes : σ → Bytes} {overlong : Bytes → Prop} {bs : Bytes}
    (h : OverlongRow bytes overlong bs) : bs[0]? ≠ some 0x00 := by
  obtain ⟨count, ss, rest, hlt, -, rfl⟩ := h
  intro hhead
  rw [(SizeSpelling.eq_zero_of_head hhead).2] at hlt
  exact Nat.not_lt_zero _ hlt

/-- Elements behind their number stop their reader in the row, or what follows is stopped behind
it. -/
theorem Spells.oversized_row {r : Reader α} {bytes : σ → Bytes} {value : σ → α}
    (h : Spells r bytes value) {overlong : Bytes → Prop}
    (hr : ∀ bs, Oversized r bs ↔ overlong bs) (f : Nat → List α → Reader β) (bs : Bytes) :
    Oversized (do let n ← compactSize; let as ← many r n; f n as) bs ↔
      OverlongRow bytes overlong bs ∨ ∃ (row : RowSpelling σ) (rest : Bytes),
        bs = row.bytes bytes ++ rest ∧
          Oversized (f row.count.value (row.elements.map value)) rest := by
  rw [oversized_bind,
    or_iff_right (fails_compactSize.ne_oversize.not_oversized bs)]
  simp only [oversized_bind, h.oversized_many, hr]
  constructor
  · rintro ⟨n, more, hcount, ⟨ss, rest, hlt, rfl, helement⟩ | ⟨as, rest, hmany, hbehind⟩⟩
    · obtain ⟨count, rfl, rfl⟩ := spells_compactSize.exists_of_ok hcount
      exact .inl ⟨count, ss, rest, hlt, helement, rfl⟩
    · obtain ⟨count, rfl, rfl⟩ := spells_compactSize.exists_of_ok hcount
      obtain ⟨ss, hlength, rfl, rfl⟩ := (spells_many h).mp hmany
      exact .inr ⟨⟨count, ss, hlength⟩, rest, (List.append_assoc _ _ _).symm, hbehind⟩
  · rintro (⟨count, ss, rest, hlt, helement, rfl⟩ | ⟨row, rest, rfl, hbehind⟩)
    · exact ⟨count.value, _, count.restores _, .inl ⟨ss, rest, hlt, rfl, helement⟩⟩
    · rw [RowSpelling.bytes, List.append_assoc]
      exact ⟨row.count.value, _, row.count.restores _, .inr ⟨_, rest,
        (spells_many h).mpr ⟨row.elements, row.length_elements, rfl, rfl⟩, hbehind⟩⟩

/-! ## How long a row is read -/

/-- A reader each of whose values takes at least one byte. -/
def Consumes (r : Reader α) : Prop :=
  ∀ bs a rest, r bs = .ok a rest → rest.length < bs.length

/-- Values whose spellings are not empty take at least one byte. -/
theorem Spells.consumes {r : Reader α} {bytes : σ → Bytes} {value : σ → α}
    (h : Spells r bytes value) (hne : ∀ s, bytes s ≠ []) : Consumes r := by
  intro bs a rest hread
  obtain ⟨s, -, rfl⟩ := h.exists_of_ok hread
  have hpos := List.length_pos_iff.mpr (hne s)
  rw [List.length_append]
  omega

/-- A reader whose rows are given up within the bytes: numbers of elements that are greater than the
number of bytes are all the same. -/
def GivesUp (r : Reader α) : Prop :=
  ∀ (n n' : Nat) (bs : Bytes), bs.length < n → bs.length < n' → many r n bs = many r n' bs

/-- More elements than there are bytes are never found if each takes at least one. -/
theorem Consumes.givesUp {r : Reader α} (hr : Consumes r) : GivesUp r := by
  intro n n' bs hn hn'
  induction n generalizing n' bs with
  | zero => exact absurd hn (Nat.not_lt_zero _)
  | succ n ih =>
      obtain ⟨n', rfl⟩ := Nat.exists_eq_succ_of_ne_zero (Nat.ne_zero_of_lt hn')
      change EStateM.bind r _ bs = EStateM.bind r _ bs
      rw [EStateM.bind, EStateM.bind]
      cases hread : r bs with
      | error e rest => rfl
      | ok a rest =>
          have hlt := hr bs a rest hread
          have htail : many r n rest = many r n' rest := ih n' rest (by omega) (by omega)
          change EStateM.bind (many r n) _ rest = EStateM.bind (many r n') _ rest
          rw [EStateM.bind, EStateM.bind, htail]

end BitcoinSpend.Wire
