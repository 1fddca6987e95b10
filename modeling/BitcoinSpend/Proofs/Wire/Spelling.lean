import Mathlib.Order.WellFounded
import BitcoinSpend.Proofs.Wire.RoundTrip

/-!
# The spellings of the wire format

A count or length below `fd` can be written in four ways, so the bytes of a value are not
determined by the value. A spelling is a value together with the choices that its bytes show. A
reader `Spells` if it succeeds on the spellings of its values, with anything behind them, and on
nothing else. Read `SizeSpelling` and `Spells` first; what the shortest spelling saves is said by
`Saves`.
-/

namespace BitcoinSpend.Wire

variable {α σ : Type}

/-! ## Saved bytes -/

/-- Bytes that are the same as others under a condition, and fewer if it fails. -/
structure Saves (short long : Bytes) (same : Prop) : Prop where
  eq_of_same : same → short = long
  length_lt : ¬ same → short.length < long.length

/-- Nothing is saved where nothing differs. -/
theorem Saves.refl (bs : Bytes) : Saves bs bs True :=
  ⟨fun _ ↦ rfl, fun h ↦ absurd trivial h⟩

/-- What is saved is never negative. -/
theorem Saves.length_le {short long : Bytes} {same : Prop} (h : Saves short long same) :
    short.length ≤ long.length := by
  by_cases hsame : same
  · exact Nat.le_of_eq (congrArg List.length (h.eq_of_same hsame))
  · exact Nat.le_of_lt (h.length_lt hsame)

/-- The bytes are the same under the condition only. -/
theorem Saves.eq_iff {short long : Bytes} {same : Prop} (h : Saves short long same) :
    short = long ↔ same := by
  refine ⟨fun heq ↦ Classical.byContradiction fun hdiffers ↦ ?_, h.eq_of_same⟩
  exact Nat.ne_of_lt (h.length_lt hdiffers) (congrArg List.length heq)

/-- Equivalent conditions are interchangeable. -/
theorem Saves.congr {short long : Bytes} {same same' : Prop} (h : Saves short long same)
    (hiff : same ↔ same') : Saves short long same' :=
  ⟨fun hsame ↦ h.eq_of_same (hiff.mpr hsame), fun hdiffers ↦ h.length_lt (mt hiff.mp hdiffers)⟩

/-- Savings in two places add up. -/
theorem Saves.append {short long short' long' : Bytes} {same same' : Prop}
    (h : Saves short long same) (h' : Saves short' long' same') :
    Saves (short ++ short') (long ++ long') (same ∧ same') := by
  refine ⟨fun hsame ↦ by rw [h.eq_of_same hsame.1, h'.eq_of_same hsame.2], fun hdiffers ↦ ?_⟩
  have hle := h.length_le
  have hle' := h'.length_le
  rw [List.length_append, List.length_append]
  by_cases hsame : same
  · have hlt := h'.length_lt fun hsame' ↦ hdiffers ⟨hsame, hsame'⟩
    omega
  · have hlt := h.length_lt hsame
    omega

/-- Savings in the elements of a row add up. -/
theorem Saves.flatten_map {short long : σ → Bytes} {same : σ → Prop}
    (h : ∀ s, Saves (short s) (long s) (same s)) (ss : List σ) :
    Saves (ss.map short).flatten (ss.map long).flatten (∀ s ∈ ss, same s) := by
  induction ss with
  | nil => exact (Saves.refl []).congr (iff_of_true trivial fun s hs ↦ nomatch hs)
  | cons s ss ih => exact ((h s).append ih).congr List.forall_mem_cons.symm

/-! ## Counts and lengths -/

/-- The forms of a count or length: a single byte, or two, four or eight behind a marker. -/
inductive SizeForm where
  | one
  | two
  | four
  | eight
deriving DecidableEq, Repr

/-- The least number that a form does not hold. -/
def SizeForm.limit : SizeForm → Nat
  | .one => 0xfd
  | .two => 0x10000
  | .four => 0x100000000
  | .eight => 0x10000000000000000

/-- The number of bytes of a form. -/
def SizeForm.width : SizeForm → Nat
  | .one => 1
  | .two => 3
  | .four => 5
  | .eight => 9

/-- The bytes of a number in a form. -/
def SizeForm.bytes : SizeForm → Nat → Bytes
  | .one, n => [UInt8.ofNat n]
  | .two, n => 0xfd :: Bytes.ofNatLE 2 n
  | .four, n => 0xfe :: Bytes.ofNatLE 4 n
  | .eight, n => 0xff :: Bytes.ofNatLE 8 n

/-- A form that holds fewer numbers takes fewer bytes. -/
theorem SizeForm.width_lt {form form' : SizeForm} (h : form.limit < form'.limit) :
    form.width < form'.width := by
  cases form <;> cases form' <;> first | decide | exact absurd h (by decide)

/-- Forms of the same width are the same. -/
theorem SizeForm.width_inj {form form' : SizeForm} (h : form.width = form'.width) :
    form = form' := by
  cases form <;> cases form' <;> first | rfl | exact absurd h (by decide)

/-- A form has its width, whatever number it holds. -/
theorem SizeForm.length_bytes (form : SizeForm) (n : Nat) : (form.bytes n).length = form.width := by
  cases form <;> rfl

/-- What is written is the least form that holds the number. -/
theorem compactSizeOf_eq_bytes {form : SizeForm} {n : Nat} (hn : n < form.limit)
    (hleast : ∀ form' : SizeForm, n < form'.limit → form.limit ≤ form'.limit) :
    compactSizeOf n = form.bytes n := by
  have hge (form' : SizeForm) (hlt : form'.limit < form.limit) : form'.limit ≤ n :=
    Nat.le_of_not_lt fun hn' ↦ Nat.not_le_of_lt hlt (hleast form' hn')
  unfold compactSizeOf
  cases form with
  | one =>
      change n < 0xfd at hn
      rw [if_pos hn, Bytes.ofNatLE, Nat.mod_eq_of_lt (by omega)]
      rfl
  | two =>
      have hone : 0xfd ≤ n := hge .one (by decide)
      rw [if_neg (Nat.not_lt_of_le hone), if_pos (Nat.le_of_lt_succ hn)]
      rfl
  | four =>
      have htwo : 0x10000 ≤ n := hge .two (by decide)
      rw [if_neg (by omega), if_neg (by omega), if_pos (Nat.le_of_lt_succ hn)]
      rfl
  | eight =>
      have hfour : 0x100000000 ≤ n := hge .four (by decide)
      rw [if_neg (by omega), if_neg (by omega), if_neg (by omega)]
      rfl

/-- A count or length in one of the forms that hold it. -/
@[ext]
structure SizeSpelling where
  form : SizeForm
  value : Nat
  value_lt : value < form.limit

namespace SizeSpelling

/-- The bytes of a count or length in its form. -/
def bytes (s : SizeSpelling) : Bytes :=
  s.form.bytes s.value

/-- Whether no smaller form holds the number. -/
def Shortest (s : SizeSpelling) : Prop :=
  ∀ form : SizeForm, s.value < form.limit → s.form.limit ≤ form.limit

/-- A number is written in the shortest of its forms, and all others take more bytes. -/
theorem saves (s : SizeSpelling) : Saves (compactSizeOf s.value) s.bytes s.Shortest := by
  refine ⟨compactSizeOf_eq_bytes s.value_lt, fun hlonger ↦ ?_⟩
  obtain ⟨least, hholds, hleast⟩ := (measure SizeForm.limit).wf.has_min
    (fun form ↦ s.value < form.limit) ⟨s.form, s.value_lt⟩
  have hle (form : SizeForm) (hform : s.value < form.limit) : least.limit ≤ form.limit :=
    Nat.le_of_not_lt (hleast form hform)
  have hlimit : least.limit < s.form.limit := Nat.lt_of_not_le fun hform ↦
    hlonger fun form hform' ↦ Nat.le_trans hform (hle form hform')
  calc (compactSizeOf s.value).length = (least.bytes s.value).length := by
        rw [compactSizeOf_eq_bytes hholds hle]
    _ = least.width := least.length_bytes s.value
    _ < s.form.width := SizeForm.width_lt hlimit
    _ = s.bytes.length := (s.form.length_bytes s.value).symm

/-- A count or length is read from any of its spellings. -/
theorem restores (s : SizeSpelling) : Restores compactSize s.bytes s.value := by
  obtain ⟨form, value, hlt⟩ := s
  cases form with
  | one =>
      have hleast : compactSizeOf value = SizeForm.bytes .one value :=
        compactSizeOf_eq_bytes hlt fun form _ ↦ by cases form <;> decide
      have hread := restores_compactSize (Nat.lt_trans hlt (by decide))
      rwa [hleast] at hread
  | two => exact (restores_byte 0xfd _).bind (restores_digits 2 (by decide) hlt _)
  | four => exact (restores_byte 0xfe _).bind (restores_digits 4 (by decide) hlt _)
  | eight => exact (restores_byte 0xff _).bind (restores_digits 8 (by decide) hlt _)

/-- A count or length takes some bytes. -/
theorem bytes_ne_nil (s : SizeSpelling) : s.bytes ≠ [] := by
  obtain ⟨form, value, -⟩ := s
  cases form <;> exact List.cons_ne_nil _ _

/-- The first byte of a spelling is zero only in the single byte that spells zero. -/
theorem eq_zero_of_head {s : SizeSpelling} {rest : Bytes}
    (h : (s.bytes ++ rest)[0]? = some 0x00) : s.bytes = [0x00] ∧ s.value = 0 := by
  obtain ⟨form, value, hlt⟩ := s
  cases form with
  | one =>
      have hbyte : UInt8.ofNat value = 0x00 := Option.some.inj h
      have hvalue : value % 256 = 0 := by
        rw [← UInt8.toNat_ofNat', hbyte]
        rfl
      change value < 0xfd at hlt
      exact ⟨congrArg (fun b ↦ [b]) hbyte, by change value = 0; omega⟩
  | two | four | eight => exact absurd (Option.some.inj h) (by decide)

end SizeSpelling

/-! ## What is read -/

/-- A reader that succeeds on the spellings of its values, with anything behind them, and on nothing
else. -/
structure Spells (r : Reader α) (bytes : σ → Bytes) (value : σ → α) : Prop where
  restores : ∀ s, Restores r (bytes s) (value s)
  exists_of_ok : ∀ {bs : Bytes} {a : α} {rest : Bytes}, r bs = .ok a rest →
    ∃ s, value s = a ∧ bs = bytes s ++ rest

/-- A reader that spells succeeds exactly on spellings. -/
theorem Spells.ok_iff {r : Reader α} {bytes : σ → Bytes} {value : σ → α} (h : Spells r bytes value)
    {bs rest : Bytes} {a : α} : r bs = .ok a rest ↔ ∃ s, value s = a ∧ bs = bytes s ++ rest := by
  refine ⟨h.exists_of_ok, ?_⟩
  rintro ⟨s, rfl, rfl⟩
  exact h.restores s rest

/-- One byte is read if there is one. -/
theorem byte_ok_iff {what : Option String} {bs rest : Bytes} {b : UInt8} :
    byte what bs = .ok b rest ↔ bs = b :: rest := by
  constructor
  · intro h
    cases bs with
    | nil => cases h
    | cons first more =>
        cases h
        rfl
  · rintro rfl
    rfl

/-- Bytes of a number that can be asked for are taken if they are there. -/
theorem take_ok_iff {n : Nat} {what : Option String} {bs front rest : Bytes} :
    take n what bs = .ok front rest ↔
      front.length = n ∧ front.length < 2 ^ 63 ∧ bs = front ++ rest := by
  constructor
  · intro h
    obtain ⟨hlength, hlt⟩ := yields_take n what bs front rest h
    exact ⟨by omega, hlt, (append_eq_of_take h).symm⟩
  · rintro ⟨rfl, hlt, rfl⟩
    exact restores_take hlt what rest

/-- The digits behind a marker are read as the number that they write. -/
theorem digits_ok_iff {width : Nat} (hwidth : width < 2 ^ 63) {what : Option String} {n : Nat}
    {bs rest : Bytes} : (do return (← take width what).toNatLE : Reader Nat) bs = .ok n rest ↔
      n < Bytes.capacity width ∧ bs = Bytes.ofNatLE width n ++ rest := by
  constructor
  · intro h
    obtain ⟨front, more, hfront, hpure⟩ := bind_ok.mp h
    obtain ⟨rfl, -, rfl⟩ := take_ok_iff.mp hfront
    cases hpure
    refine ⟨front.toNatLE_lt, ?_⟩
    rw [Bytes.ofNatLE_toNatLE]
  · rintro ⟨hn, rfl⟩
    exact restores_digits width hwidth hn what rest

/-- Bytes are the two's complement form of the integer that they write. -/
theorem ofIntLE_toIntLE (bs : Bytes) : Bytes.ofIntLE bs.length bs.toIntLE = bs := by
  have hlt := bs.toNatLE_lt
  have hmod : bs.toIntLE % (Bytes.capacity bs.length : Int) = bs.toNatLE := by
    rw [Bytes.toIntLE]
    split
    · exact Int.emod_eq_of_lt (by omega) (by omega)
    · rw [Int.sub_emod_right]
      exact Int.emod_eq_of_lt (by omega) (by omega)
  rw [Bytes.ofIntLE_eq_ofNatLE_emod, hmod, Int.toNat_natCast, Bytes.ofNatLE_toNatLE]

/-- Bytes are the unsigned form of the number that they write. -/
theorem ofIntLE_toNatLE (bs : Bytes) : Bytes.ofIntLE bs.length bs.toNatLE = bs := by
  rw [Bytes.ofIntLE, if_neg (by omega), Int.toNat_natCast, Bytes.ofNatLE_toNatLE]

/-- An integer is read exactly from its form in the width asked for. -/
theorem littleInt_ok_iff {signed : Bool} {width : Nat} (hwidth : 0 < width) (hlt : width < 2 ^ 63)
    {what : Option String} {v : Int} {bs rest : Bytes} :
    littleInt signed width what bs = .ok v rest ↔
      fits signed width v = true ∧ bs = Bytes.ofIntLE width v ++ rest := by
  constructor
  · intro h
    refine ⟨yields_littleInt hwidth signed what bs v rest h, ?_⟩
    obtain ⟨front, more, hfront, hpure⟩ := bind_ok.mp h
    obtain ⟨rfl, -, rfl⟩ := take_ok_iff.mp hfront
    cases signed with
    | true =>
        cases hpure
        rw [if_pos rfl, ofIntLE_toIntLE]
    | false =>
        cases hpure
        rw [if_neg Bool.false_ne_true, ofIntLE_toNatLE]
  · rintro ⟨hfits, rfl⟩
    exact restores_littleInt hwidth hlt hfits what rest

/-- Above the single bytes there are three markers. -/
theorem eq_last_of_ne {b : UInt8} (hone : ¬ b < 0xfd) (htwo : b ≠ 0xfd) (hfour : b ≠ 0xfe) :
    b = 0xff := by
  have hlow : 0xfd ≤ b.toNat := UInt8.le_iff_toNat_le.mp (UInt8.not_lt.mp hone)
  have hhigh := b.toNat_lt
  have hvalue (c : UInt8) (hc : b ≠ c) : b.toNat ≠ c.toNat := mt UInt8.toNat_inj.mp hc
  have hneTwo : b.toNat ≠ 0xfd := hvalue 0xfd htwo
  have hneFour : b.toNat ≠ 0xfe := hvalue 0xfe hfour
  refine UInt8.toNat_inj.mp ?_
  change b.toNat = 0xff
  omega

/-- A count or length is read exactly from its spellings. -/
theorem spells_compactSize : Spells compactSize SizeSpelling.bytes SizeSpelling.value := by
  refine ⟨SizeSpelling.restores, fun {bs n rest} h ↦ ?_⟩
  obtain ⟨b, more, hb, hnumber⟩ := bind_ok.mp h
  obtain rfl := byte_ok_iff.mp hb
  split at hnumber
  · next hone =>
      cases hnumber
      refine ⟨⟨.one, b.toNat, UInt8.lt_iff_toNat_lt.mp hone⟩, rfl, ?_⟩
      change b :: rest = [UInt8.ofNat b.toNat] ++ rest
      rw [UInt8.ofNat_toNat]
      rfl
  · next hone =>
      split at hnumber
      · next htwo =>
          obtain ⟨hlt, rfl⟩ := (digits_ok_iff (by decide)).mp hnumber
          exact ⟨⟨.two, n, hlt⟩, rfl, by rw [htwo]; rfl⟩
      · next htwo =>
          split at hnumber
          · next hfour =>
              obtain ⟨hlt, rfl⟩ := (digits_ok_iff (by decide)).mp hnumber
              exact ⟨⟨.four, n, hlt⟩, rfl, by rw [hfour]; rfl⟩
          · next hfour =>
              obtain ⟨hlt, rfl⟩ := (digits_ok_iff (by decide)).mp hnumber
              exact ⟨⟨.eight, n, hlt⟩, rfl, by rw [eq_last_of_ne hone htwo hfour]; rfl⟩

/-- A byte string behind its length, which is spelled in some form. -/
@[ext]
structure StringSpelling where
  size : SizeSpelling
  content : Bytes
  length_content : content.length = size.value
  addressable : content.length < 2 ^ 63

/-- The bytes of a byte string behind its length. -/
def StringSpelling.bytes (s : StringSpelling) : Bytes :=
  s.size.bytes ++ s.content

/-- A byte string is read exactly from its spellings. -/
theorem spells_lengthPrefixed (what : Option String) :
    Spells (lengthPrefixed what) StringSpelling.bytes StringSpelling.content := by
  refine ⟨fun s ↦ ?_, fun {bs content rest} h ↦ ?_⟩
  · have hcontent := restores_take s.addressable what
    rw [s.length_content] at hcontent
    exact s.size.restores.bind hcontent
  · obtain ⟨n, more, hsize, hcontent⟩ := bind_ok.mp h
    obtain ⟨size, rfl, rfl⟩ := spells_compactSize.exists_of_ok hsize
    obtain ⟨hlength, hlt, rfl⟩ := take_ok_iff.mp hcontent
    exact ⟨⟨size, content, hlength, hlt⟩, rfl, (List.append_assoc _ _ _).symm⟩

/-- What is written of a byte string is its shortest spelling. -/
theorem StringSpelling.saves (s : StringSpelling) :
    Saves (sized s.content) s.bytes s.size.Shortest := by
  rw [sized, s.length_content]
  exact (s.size.saves.append (.refl s.content)).congr (and_iff_left trivial)

/-- Spelled elements in a row are read exactly from their bytes. -/
theorem spells_many {r : Reader α} {bytes : σ → Bytes} {value : σ → α} (h : Spells r bytes value)
    {n : Nat} {bs rest : Bytes} {as : List α} : many r n bs = .ok as rest ↔
      ∃ ss : List σ, ss.length = n ∧ ss.map value = as ∧ bs = (ss.map bytes).flatten ++ rest := by
  constructor
  · intro hread
    induction n generalizing bs as with
    | zero =>
        cases hread
        exact ⟨[], rfl, rfl, rfl⟩
    | succ n ih =>
        obtain ⟨a, more, ha, hread⟩ := bind_ok.mp hread
        obtain ⟨as', more', has, hpure⟩ := bind_ok.mp hread
        cases hpure
        obtain ⟨s, rfl, rfl⟩ := h.exists_of_ok ha
        obtain ⟨ss, rfl, rfl, rfl⟩ := ih has
        exact ⟨s :: ss, rfl, rfl, by simp⟩
  · rintro ⟨ss, rfl, rfl, rfl⟩
    exact restores_many r bytes value (fun s _ ↦ h.restores s) rest

/-- Elements behind their number, which is spelled in some form. -/
@[ext]
structure RowSpelling (σ : Type) where
  count : SizeSpelling
  elements : List σ
  length_elements : elements.length = count.value

/-- The bytes of elements behind their number. -/
def RowSpelling.bytes (bytes : σ → Bytes) (s : RowSpelling σ) : Bytes :=
  s.count.bytes ++ (s.elements.map bytes).flatten

/-- Elements behind their number are read exactly from their spellings. -/
theorem spells_counted {r : Reader α} {bytes : σ → Bytes} {value : σ → α}
    (h : Spells r bytes value) : Spells (compactSize >>= many r) (RowSpelling.bytes bytes)
      fun s ↦ s.elements.map value := by
  refine ⟨fun s ↦ ?_, fun {bs as rest} hread ↦ ?_⟩
  · have helements := restores_many r bytes value fun t (_ : t ∈ s.elements) ↦ h.restores t
    rw [s.length_elements] at helements
    exact s.count.restores.bind helements
  · obtain ⟨n, more, hcount, hmany⟩ := bind_ok.mp hread
    obtain ⟨count, rfl, rfl⟩ := spells_compactSize.exists_of_ok hcount
    obtain ⟨elements, hlength, rfl, rfl⟩ := (spells_many h).mp hmany
    exact ⟨⟨count, elements, hlength⟩, rfl, (List.append_assoc _ _ _).symm⟩

/-- What is written of a row is its spelling with the shortest count and the shortest elements. -/
theorem RowSpelling.saves {short long : σ → Bytes} {same : σ → Prop}
    (h : ∀ t, Saves (short t) (long t) (same t)) (s : RowSpelling σ) :
    Saves (counted (s.elements.map short)) (s.bytes long)
      (s.count.Shortest ∧ ∀ t ∈ s.elements, same t) := by
  rw [counted, List.length_map, s.length_elements]
  exact s.count.saves.append (.flatten_map h s.elements)

/-! ## Where a spelling ends -/

/-- Bytes that show where they end and which spelling they are. -/
def Delimits (bytes : σ → Bytes) : Prop :=
  ∀ ⦃s s' : σ⦄ ⦃rest rest' : Bytes⦄, bytes s ++ rest = bytes s' ++ rest' → s = s' ∧ rest = rest'

/-- Bytes that show where they end are those of one spelling. -/
theorem Delimits.injective {bytes : σ → Bytes} (h : Delimits bytes) {s s' : σ}
    (heq : bytes s = bytes s') : s = s' :=
  (h (congrArg (· ++ []) heq)).1

/-- A count or length shows where it ends and in which form it is. -/
theorem delimits_size : Delimits SizeSpelling.bytes := by
  intro s s' rest rest' h
  obtain ⟨hvalue, rfl⟩ := s.restores.append_inj s'.restores h
  have hlength : s.bytes.length = s'.bytes.length :=
    congrArg List.length (List.append_cancel_right h)
  rw [SizeSpelling.bytes, SizeSpelling.bytes, SizeForm.length_bytes, SizeForm.length_bytes]
    at hlength
  exact ⟨SizeSpelling.ext (SizeForm.width_inj hlength) hvalue, rfl⟩

/-- A byte string behind its length shows where it ends. -/
theorem delimits_string : Delimits StringSpelling.bytes := by
  intro s s' rest rest' h
  simp only [StringSpelling.bytes, List.append_assoc] at h
  obtain ⟨hsize, h⟩ := delimits_size h
  obtain ⟨hcontent, hrest⟩ :=
    List.append_inj h (by rw [s.length_content, s'.length_content, hsize])
  exact ⟨StringSpelling.ext hsize hcontent, hrest⟩

/-- As many elements as are expected show where they end. -/
theorem Delimits.flatten_map {bytes : σ → Bytes} (h : Delimits bytes) {ss ss' : List σ}
    (hlength : ss.length = ss'.length) {rest rest' : Bytes}
    (heq : (ss.map bytes).flatten ++ rest = (ss'.map bytes).flatten ++ rest') :
    ss = ss' ∧ rest = rest' := by
  induction ss generalizing ss' with
  | nil =>
      obtain rfl := List.length_eq_zero_iff.mp hlength.symm
      exact ⟨rfl, heq⟩
  | cons s ss ih =>
      cases ss' with
      | nil => cases hlength
      | cons s' ss' =>
          simp only [List.map_cons, List.flatten_cons, List.append_assoc] at heq
          obtain ⟨rfl, htail⟩ := h heq
          obtain ⟨rfl, hrest⟩ := ih (Nat.succ.inj hlength) htail
          exact ⟨rfl, hrest⟩

/-- Elements behind their number show where they end. -/
theorem Delimits.row {bytes : σ → Bytes} (h : Delimits bytes) :
    Delimits (RowSpelling.bytes bytes) := by
  intro s s' rest rest' heq
  simp only [RowSpelling.bytes, List.append_assoc] at heq
  obtain ⟨hcount, heq⟩ := delimits_size heq
  obtain ⟨helements, hrest⟩ :=
    h.flatten_map (by rw [s.length_elements, s'.length_elements, hcount]) heq
  exact ⟨RowSpelling.ext hcount helements, hrest⟩

end BitcoinSpend.Wire
