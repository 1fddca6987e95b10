import BitcoinSpend.Proofs.Curve.Group
import BitcoinSpend.Proofs.Curve.Secp256k1
import BitcoinSpend.PublicKey

/-!
# Public keys on the curve

A public key that is decoded is a finite point on the curve with reduced coordinates, and the bytes
are one of the three forms of that key. Where there is none, the form is wrong; the arithmetic itself
has no errors. Conversely, each form of such a point is decoded to it. Read `forms` and `Exact`
first; the main results are `decode_exact`, `decode_compressed`, `decode_marked`, `decode_eq_ok_iff`
and `exists_ofPrivate`.
-/

namespace BitcoinSpend.PublicKey

open Curve

/-- The hybrid form: the uncompressed one, with the parity of `y` in the marker. -/
def hybrid (key : PublicKey) : Bytes :=
  (if key.point.y % 2 = 0 then 0x06 else 0x07) :: key.uncompressed.tail

/-- The forms in which a key is written. -/
def forms (key : PublicKey) : List Bytes :=
  [key.compressed, key.uncompressed, key.hybrid]

/-! ## What is decoded -/

/-- A decoded key is a finite point on the curve of which the bytes are a form, and no error comes
from the arithmetic. -/
inductive Exact (bs : Bytes) : Except KeyError PublicKey → Prop where
  | decoded {key : PublicKey} (hpoint : secp256k1.Finite key.point) (hform : bs ∈ key.forms) :
      Exact bs (.ok key)
  | refused {e : KeyError} (h : ∀ c, e ≠ .curve c) : Exact bs (.error e)

variable {bs : Bytes}

/-- Refusing a key for its form is exact. -/
theorem Exact.refuse {α : Type} {e : KeyError} (he : ∀ c, e ≠ .curve c)
    (f : α → Except KeyError PublicKey) : Exact bs (throw e >>= f) :=
  .refused he

/-- A coordinate that is read from thirty-two bytes is written as them. -/
theorem coordinate_toNatBE (hbs : bs.length = 32) : coordinate (Bytes.toNatBE bs) = bs := by
  rw [coordinate, Int.toNat_natCast, ← hbs, Bytes.ofNatBE_toNatBE]

/-- The parity of `y` follows from the marker of the compressed form. -/
theorem compressed_eq_of_parity {marker : UInt8} (hmarker : isCompressedMarker marker = true)
    {x y : Int} (hparity : y % 2 = (marker.toNat : Int) % 2) :
    compressed ⟨⟨x, y⟩⟩ = marker :: coordinate x := by
  rw [isCompressedMarker, Bool.or_eq_true, decide_eq_true_eq, decide_eq_true_eq] at hmarker
  rw [compressed]
  obtain rfl | rfl := hmarker
  · have heven : y % 2 = 0 := hparity
    rw [if_pos heven]
  · have hodd : y % 2 = 1 := hparity
    have hne : ¬ y % 2 = 0 := by omega
    rw [if_neg hne]

/-- A marker that agrees with the parity of `y`, if it has to, makes both coordinates a form. -/
theorem marked_mem_forms {marker : UInt8} (hmarker : isUncompressedMarker marker = true) {x y : Int}
    (hparity : marker = 0x04 ∨ y % 2 = (marker.toNat : Int) % 2) :
    marker :: (coordinate x ++ coordinate y) ∈ forms ⟨⟨x, y⟩⟩ := by
  have hcases : marker = 0x04 ∨ marker = 0x06 ∨ marker = 0x07 := by
    simpa [isUncompressedMarker, or_assoc] using hmarker
  obtain rfl | rfl | rfl := hcases
  · exact .tail _ (.head _)
  · have heven : y % 2 = 0 := hparity.resolve_left (by decide)
    simp [forms, hybrid, uncompressed, heven]
  · have hodd : y % 2 = 1 := hparity.resolve_left (by decide)
    simp [forms, hybrid, uncompressed, hodd]

/-- Decoding an uncompressed key is exact. -/
theorem ofUncompressed_exact (bs : Bytes) : Exact bs (ofUncompressed bs) := by
  unfold ofUncompressed
  dsimp only
  split
  · exact .refuse (by rintro c ⟨⟩) _
  next hlength =>
  rw [ne_eq, Decidable.not_not] at hlength
  obtain ⟨marker, body, rfl⟩ := List.exists_cons_of_length_eq_add_one hlength
  rw [List.headD_cons, List.drop_succ_cons, List.drop_zero, List.drop_succ_cons]
  split
  case isFalse => exact .refuse (by rintro c ⟨⟩) _
  next hmarker =>
  rw [List.length_cons, Nat.add_left_inj] at hlength
  have hx : coordinate (Bytes.toNatBE (body.take 32)) = body.take 32 :=
    coordinate_toNatBE (by rw [List.length_take]; omega)
  have hy : coordinate (Bytes.toNatBE (body.drop 32)) = body.drop 32 :=
    coordinate_toNatBE (by rw [List.length_drop]; omega)
  have hbody : body = coordinate (Bytes.toNatBE (body.take 32)) ++
      coordinate (Bytes.toNatBE (body.drop 32)) := by
    rw [hx, hy, List.take_append_drop]
  generalize Bytes.toNatBE (body.take 32) = x at hbody
  generalize Bytes.toNatBE (body.drop 32) = y at hbody
  subst hbody
  split
  case isFalse => exact .refuse (by rintro c ⟨⟩) _
  next hreduced =>
  obtain ⟨b, hb, hequation⟩ := contains_some (C := secp256k1) ⟨x, y⟩
  rw [hb]
  change Exact _ (if b = true then _ else _)
  split
  case isFalse => exact .refuse (by rintro c ⟨⟩) _
  next hon =>
  split
  · exact .refuse (by rintro c ⟨⟩) _
  next hparity =>
  refine .decoded ⟨⟨Int.natCast_nonneg x, hreduced.1, Int.natCast_nonneg y, hreduced.2⟩,
    hequation.mp hon⟩ (marked_mem_forms hmarker ?_)
  rw [not_and_or, not_not, not_not] at hparity
  exact hparity.imp id fun h ↦ by exact_mod_cast h

/-- Decoding a compressed key is exact. -/
theorem ofCompressed_exact (bs : Bytes) : Exact bs (ofCompressed bs) := by
  unfold ofCompressed
  dsimp only
  split
  · exact .refuse (by rintro c ⟨⟩) _
  next hlength =>
  rw [ne_eq, Decidable.not_not] at hlength
  obtain ⟨marker, body, rfl⟩ := List.exists_cons_of_length_eq_add_one hlength
  rw [List.headD_cons, List.drop_succ_cons, List.drop_zero]
  split
  case isFalse => exact .refuse (by rintro c ⟨⟩) _
  next hmarker =>
  rw [List.length_cons, Nat.add_left_inj] at hlength
  have hbody : body = coordinate (Bytes.toNatBE body) := (coordinate_toNatBE hlength).symm
  generalize Bytes.toNatBE body = x at hbody
  subst hbody
  split
  case isFalse => exact .refuse (by rintro c ⟨⟩) _
  next hreduced =>
  obtain ⟨b, hb, -⟩ := containsX_eq x
  rw [hb]
  change Exact _ (if b = true then _ else _)
  split
  case isFalse => exact .refuse (by rintro c ⟨⟩) _
  next hon =>
  -- The `y` that is found is the smaller root, so the other one may be asked for. The modulus is
  -- odd, so that one of them has the parity of the marker.
  obtain ⟨y, hy, hnonneg, hlt, hequation⟩ := solveY_eq (x := x) (by rw [hb, hon])
  rw [hy]
  have hpoint : secp256k1.Finite ⟨x, y⟩ :=
    ⟨⟨Int.natCast_nonneg x, hreduced.2, hnonneg, hlt⟩, hequation⟩
  have hodd : secp256k1.p % 2 = 1 := by decide +kernel
  refine .decoded ?_ ?_
  · dsimp only
    split
    · exact hpoint
    · exact finite_reflect hpoint
  · rw [forms, compressed_eq_of_parity hmarker]
    · exact .head _
    · split <;> omega

/-- Decoding a key is exact. -/
theorem decode_exact (bs : Bytes) : Exact bs (decode bs) := by
  unfold decode
  dsimp only
  split
  · exact ofUncompressed_exact bs
  · split
    · exact ofCompressed_exact bs
    · exact .refused fun _ ↦ nofun

/-- A decoded key is a finite point on the curve, and no error comes from the arithmetic. -/
inductive Sound : Except KeyError PublicKey → Prop where
  | decoded {key : PublicKey} (h : secp256k1.Finite key.point) : Sound (.ok key)
  | refused {e : KeyError} (h : ∀ c, e ≠ .curve c) : Sound (.error e)

/-- Decoding a key is sound. -/
theorem decode_sound (bs : Bytes) : Sound (decode bs) := by
  have hexact := decode_exact bs
  generalize decode bs = outcome at hexact
  cases hexact with
  | decoded hpoint _ => exact .decoded hpoint
  | refused he => exact .refused he

/-! ## The compressed form -/

variable {key : PublicKey}

/-- The compressed form has thirty-three bytes. -/
theorem length_compressed (key : PublicKey) : key.compressed.length = 33 := by
  rw [compressed, List.length_cons, coordinate, Bytes.length_ofNatBE]

/-- A reduced coordinate is read back. -/
theorem toNatBE_coordinate {v : Int} (hv : 0 ≤ v ∧ v < secp256k1.p) :
    (Bytes.toNatBE (coordinate v) : Int) = v := by
  have hp : secp256k1.p < Bytes.capacity 32 := by decide +kernel
  rw [coordinate, Bytes.toNatBE_ofNatBE, Nat.mod_eq_of_lt (by omega), Int.toNat_of_nonneg hv.1]

/-- The `y` coordinates of points with the same `x` are the same or add up to the modulus. -/
theorem y_eq_or {x y y' : Int} (hP : secp256k1.Finite ⟨x, y⟩) (hP' : secp256k1.Finite ⟨x, y'⟩) :
    y = y' ∨ y = secp256k1.p - y' := by
  have hreflected := finite_reflect hP'
  have hequation := (equation_secp256k1 _ _).mp hP.equation
  rw [← (equation_secp256k1 _ _).mp hP'.equation, sq_eq_sq_iff_eq_or_eq_neg] at hequation
  refine hequation.imp (hP.reduced.y_eq hP'.reduced) fun hneg ↦
    hP.reduced.y_eq hreflected.reduced ?_
  rw [hneg, Int.cast_sub, p_eq, Int.cast_natCast, ZMod.natCast_self, zero_sub]

/-- The marker of the compressed form has the parity of `y`. -/
theorem exists_marker (key : PublicKey) : ∃ marker : UInt8,
    key.compressed = marker :: coordinate key.point.x ∧ isCompressedMarker marker = true ∧
      (marker.toNat : Int) % 2 = key.point.y % 2 := by
  refine ⟨_, rfl, ?_⟩
  split
  · next heven => exact ⟨rfl, heven.symm⟩
  · next hodd =>
      refine ⟨rfl, ?_⟩
      change (1 : Int) = _
      omega

/-- The compressed form of a finite point on the curve is decoded to it. -/
theorem decode_compressed (h : secp256k1.Finite key.point) : decode key.compressed = .ok key := by
  obtain ⟨marker, hform, hmarker, hparity⟩ := exists_marker key
  have hlength := length_compressed key
  obtain ⟨⟨x, y⟩⟩ := key
  have hxbounds : 0 ≤ x ∧ x < secp256k1.p := ⟨h.reduced.x_nonneg, h.reduced.x_lt⟩
  have hxpos : 0 < x := lt_of_le_of_ne hxbounds.1 (Ne.symm (x_ne_zero h))
  have hx := toNatBE_coordinate hxbounds
  obtain ⟨b, hb, hsquare⟩ := containsX_eq x
  have hcontains : secp256k1.containsX x = .ok true := by
    rw [hb, hsquare.mpr ⟨y, by rw [← sq, (equation_secp256k1 _ _).mp h.equation]⟩]
  obtain ⟨root, hroot, hnonneg, hlt, hequation⟩ := solveY_eq hcontains
  -- The root is `y` or its reflection, and the parity tells which, since the modulus is odd.
  have hchoice : (if root % 2 = marker.toNat % 2 then root else secp256k1.p - root) = y := by
    have hypos : y ≠ 0 := y_ne_zero h
    have hodd : secp256k1.p % 2 = 1 := by decide +kernel
    have hcases := y_eq_or ⟨⟨hxbounds.1, hxbounds.2, hnonneg, hlt⟩, hequation⟩ h
    dsimp only at hparity
    split <;> omega
  have hdecode : decode (marker :: coordinate x) = ofCompressed (marker :: coordinate x) := by
    rw [hform] at hlength
    simp [decode, hlength, hmarker]
  have hnumber : 0 < Bytes.toNatBE (coordinate x) := by omega
  rw [hform, hdecode, ofCompressed]
  rw [hform] at hlength
  simp only [List.headD_cons, List.drop_one, List.tail_cons, hlength, hmarker, hx, hnumber,
    hxbounds.2, hcontains, hroot, onCurve, Except.mapError, bind, Except.bind, ne_eq,
    not_true_eq_false, and_self, if_true, if_false]
  exact congrArg (fun y ↦ Except.ok (PublicKey.mk ⟨x, y⟩)) hchoice

/-! ## The forms with both coordinates -/

/-- Both coordinates of a finite point on the curve are decoded to it behind a marker that agrees
with the parity of `y`, if it has to. -/
theorem decode_marked {marker : UInt8} {x y : Int} (h : secp256k1.Finite ⟨x, y⟩)
    (hmarker : isUncompressedMarker marker = true)
    (hparity : marker = 0x04 ∨ y % 2 = (marker.toNat : Int) % 2) :
    decode (marker :: (coordinate x ++ coordinate y)) = .ok ⟨⟨x, y⟩⟩ := by
  have hx : 0 ≤ x ∧ x < secp256k1.p := ⟨h.reduced.x_nonneg, h.reduced.x_lt⟩
  have hy : 0 ≤ y ∧ y < secp256k1.p := ⟨h.reduced.y_nonneg, h.reduced.y_lt⟩
  have hlength (v : Int) : (coordinate v).length = 32 := Bytes.length_ofNatBE 32 v.toNat
  have htake : (coordinate x ++ coordinate y).take 32 = coordinate x :=
    List.take_left' (hlength x)
  have hdrop : (coordinate x ++ coordinate y).drop 32 = coordinate y :=
    List.drop_left' (hlength x)
  have hcontains : secp256k1.contains (some ⟨x, y⟩) = .ok true :=
    contains_of_onCurve (P := some ⟨x, y⟩) h
  have hagrees : ¬ (marker ≠ 0x04 ∧ (Bytes.toNatBE (coordinate y)) % 2 ≠ marker.toNat % 2) := by
    rw [not_and_or, not_not, not_not]
    refine hparity.imp id fun hparity ↦ ?_
    rw [← toNatBE_coordinate hy] at hparity
    exact_mod_cast hparity
  have hdecode : decode (marker :: (coordinate x ++ coordinate y)) =
      ofUncompressed (marker :: (coordinate x ++ coordinate y)) := by
    simp [decode, hlength, hmarker]
  rw [hdecode, ofUncompressed]
  simp only [List.headD_cons, List.drop_succ_cons, List.drop_zero, htake, hdrop, hmarker,
    List.length_cons, List.length_append, hlength, toNatBE_coordinate hx, toNatBE_coordinate hy,
    hx.2, hy.2, hcontains, onCurve, Except.mapError, bind, Except.bind, if_neg hagrees, ne_eq,
    not_true_eq_false, and_self, if_true, if_false]
  rfl

/-- Each form of a finite point on the curve is decoded to it. -/
theorem decode_of_mem_forms (h : secp256k1.Finite key.point) (hform : bs ∈ key.forms) :
    decode bs = .ok key := by
  have hcases : bs = key.compressed ∨ bs = key.uncompressed ∨ bs = key.hybrid := by
    simpa [forms] using hform
  obtain rfl | rfl | rfl := hcases
  · exact decode_compressed h
  · exact decode_marked h rfl (.inl rfl)
  · rw [hybrid]
    split
    · next heven => exact decode_marked h rfl (.inr heven)
    · next hodd => exact decode_marked h rfl (.inr (by change _ = (1 : Int); omega))

/-- Bytes are decoded to a key if and only if the key is a finite point on the curve and the bytes
are its compressed form, its uncompressed form or its hybrid form. Anything else is refused for its
form. -/
theorem decode_eq_ok_iff (bs : Bytes) :
    (∀ key, decode bs = .ok key ↔ secp256k1.Finite key.point ∧
      (bs = key.compressed ∨ bs = key.uncompressed ∨ bs = key.hybrid)) ∧
    ∀ e, decode bs ≠ .error (.curve e) := by
  have hexact := decode_exact bs
  constructor
  · intro key
    have hforms : bs ∈ key.forms ↔
        bs = key.compressed ∨ bs = key.uncompressed ∨ bs = key.hybrid := by
      simp [forms]
    rw [← hforms]
    constructor
    · intro hdecode
      rw [hdecode] at hexact
      cases hexact with
      | decoded hpoint hform => exact ⟨hpoint, hform⟩
    · rintro ⟨hpoint, hform⟩
      exact decode_of_mem_forms hpoint hform
  · intro e hdecode
    rw [hdecode] at hexact
    cases hexact with
    | refused he => exact he e rfl

/-! ## Keys of private keys -/

/-- A private key below the number of points has a public key, which is its multiple of the
generator. -/
theorem exists_ofPrivate {g : secp256k1.weierstrass.Point} (hg : Generated secp256k1 g)
    {d : Int} (hd : 1 ≤ d ∧ d < secp256k1.order) :
    ∃ key, ofPrivate d = .ok key ∧ Represents (some key.point) (d • g) := by
  obtain ⟨P, hP, hmultiple⟩ := hg.exists_multiplyGenerator hd
  refine ⟨⟨P⟩, ?_, hmultiple⟩
  simp only [ofPrivate, if_pos hd, hP, onCurve, Except.mapError, bind, Except.bind]
  rfl

end BitcoinSpend.PublicKey
