import BitcoinSpend.Proofs.Curve.Multiplication
import BitcoinSpend.Proofs.Curve.Residue
import Mathlib.Order.Bounds.Defs

/-!
# Points with a given `x` coordinate

Modulo a prime that leaves remainder three on division by four, the smaller `y` coordinate of the
points with an `x` coordinate is found if there are such points, and it is known if there are none.
The `x` coordinate may be any integer. Read `ordinates` first; the main result is `solveY_isLeast`.
-/

namespace BitcoinSpend.Curve

/-- The `y` coordinates between zero and the modulus of the points with this `x` coordinate. -/
def ordinates (C : Curve) (x : Int) : Set Int :=
  {y | 0 ≤ y ∧ y < C.p ∧ y ^ 2 ≡ x ^ 3 + C.a * x + C.b [ZMOD C.p]}

variable {C : Curve} [hprime : Fact C.modulus.Prime] {x y z : Int}

/-! ## Roots of the cubic -/

/-- A `y` coordinate is a root of the cubic in the field. -/
theorem mem_ordinates_iff :
    y ∈ C.ordinates x ↔
      0 ≤ y ∧ y < C.p ∧ (y : ZMod C.modulus) ^ 2 = (x : ZMod C.modulus) ^ 3 + C.a * x + C.b := by
  have hcast : y ^ 2 ≡ x ^ 3 + C.a * x + C.b [ZMOD C.p] ↔
      (y : ZMod C.modulus) ^ 2 = (x : ZMod C.modulus) ^ 3 + C.a * x + C.b := by
    have hfield := cast_eq_iff (C := C) (y ^ 2) (x ^ 3 + C.a * x + C.b)
    push_cast at hfield
    exact hfield.symm
  rw [← hcast]
  rfl

/-- There are `y` coordinates if and only if the cubic is a square in the field. -/
theorem nonempty_ordinates_iff :
    (C.ordinates x).Nonempty ↔ IsSquare ((x : ZMod C.modulus) ^ 3 + C.a * x + C.b) := by
  constructor
  · rintro ⟨y, hy⟩
    exact ⟨y, by rw [← sq, (mem_ordinates_iff.mp hy).2.2]⟩
  · rintro ⟨root, hroot⟩
    have hcast : ((root.val : Int) : ZMod C.modulus) = root := by
      rw [Int.cast_natCast, ZMod.natCast_zmod_val]
    have hlt : (root.val : Int) < C.p := by
      rw [p_eq]
      exact_mod_cast root.val_lt
    exact ⟨root.val, mem_ordinates_iff.mpr
      ⟨Int.natCast_nonneg _, hlt, by rw [hcast, hroot, sq]⟩⟩

/-- The reflection of a `y` coordinate is one. -/
theorem neg_emod_mem_ordinates (hy : y ∈ C.ordinates x) : -y % C.p ∈ C.ordinates x := by
  have hbounds := emod_bounds (C := C) (-y)
  refine mem_ordinates_iff.mpr ⟨hbounds.1, hbounds.2, ?_⟩
  rw [cast_emod, Int.cast_neg, neg_sq, (mem_ordinates_iff.mp hy).2.2]

/-- There is no other `y` coordinate than one and its reflection. -/
theorem eq_or_eq_neg_emod (hy : y ∈ C.ordinates x) (hz : z ∈ C.ordinates x) :
    z = y ∨ z = -y % C.p := by
  obtain ⟨hzero, hlt, hroot⟩ := mem_ordinates_iff.mp hz
  obtain ⟨hzero', hlt', hroot'⟩ := mem_ordinates_iff.mp hy
  rcases sq_eq_sq_iff_eq_or_eq_neg.mp (hroot.trans hroot'.symm) with hsame | hopposite
  · exact .inl (eq_of_cast_eq ⟨hzero, hlt⟩ ⟨hzero', hlt'⟩ hsame)
  · refine .inr (eq_of_cast_eq ⟨hzero, hlt⟩ (emod_bounds (-y)) ?_)
    rw [hopposite, cast_emod, Int.cast_neg]

/-- The smaller one of a `y` coordinate and its reflection is the smallest of all. -/
theorem isLeast_min (hy : y ∈ C.ordinates x) :
    IsLeast (C.ordinates x) (min y (-y % C.p)) := by
  constructor
  · rcases min_choice y (-y % C.p) with hmin | hmin
    · rwa [hmin]
    · rw [hmin]
      exact neg_emod_mem_ordinates hy
  · intro z hz
    rcases eq_or_eq_neg_emod hy hz with rfl | rfl
    · exact min_le_left _ _
    · exact min_le_right _ _

/-! ## What is computed -/

/-- Whether some point has an `x` coordinate is decided. -/
theorem exists_containsX (hodd : C.modulus % 2 = 1) (x : Int) :
    ∃ b, C.containsX x = .ok b ∧ (b = true ↔ (C.ordinates x).Nonempty) := by
  obtain ⟨b, hb, hsquare⟩ :=
    isResidue_eq (p := C.modulus) hodd ((x ^ 3 % C.p + C.a * x + C.b) % C.p)
  refine ⟨b, ?_, ?_⟩
  · rw [containsX, cubic_eq]
    exact p_eq (C := C) ▸ hb
  · rw [hsquare, cast_cubic, nonempty_ordinates_iff]

/-- Where there are points, the smaller one of a `y` coordinate and its reflection is found. -/
theorem exists_solveY (hmod : C.modulus % 4 = 3) (h : (C.ordinates x).Nonempty) :
    ∃ y ∈ C.ordinates x, C.solveY x = .ok (min y (-y % C.p)) := by
  obtain ⟨b, hb, hcontains⟩ := exists_containsX (C := C) (by omega) x
  rw [hcontains.mpr h] at hb
  have hcast := cast_cubic (C := C) x
  obtain ⟨y, hy, hnonneg, hlt, hroot⟩ :=
    squareRoot_eq (p := C.modulus) hmod (hcast ▸ nonempty_ordinates_iff.mp h)
  rw [← p_eq] at hy hlt
  refine ⟨y, mem_ordinates_iff.mpr ⟨hnonneg, hlt, hroot.trans hcast⟩, ?_⟩
  simp only [solveY, hb, cubic_eq]
  change (squareRoot _ _ >>= fun y ↦ do return min y (← remainder (-y) C.p)) = _
  rw [hy]
  change (do return min y (← remainder (-y) C.p)) = _
  rw [remainder_p]
  rfl

/-- Where there are no points, the `x` coordinate is refused. -/
theorem solveY_of_not_nonempty (hodd : C.modulus % 2 = 1) (h : ¬(C.ordinates x).Nonempty) :
    C.solveY x = .error (.notOnCurve x) := by
  obtain ⟨b, hb, hcontains⟩ := exists_containsX hodd x
  have hfalse : b = false := Bool.eq_false_iff.mpr fun htrue ↦ h (hcontains.mp htrue)
  rw [solveY, hb, hfalse]
  rfl

/-- Modulo a prime that leaves remainder three on division by four, and for any integer `x`, the
smallest `y` coordinate of the points with this `x` coordinate is found if there are such points. If
there are none that is the error, and there is no other. Whether there are such points is decided.
-/
theorem solveY_isLeast (hmod : C.p % 4 = 3) (x : Int) :
    ((C.ordinates x).Nonempty → ∃ y, C.solveY x = .ok y ∧ IsLeast (C.ordinates x) y) ∧
    (∀ e, C.solveY x = .error e ↔ ¬(C.ordinates x).Nonempty ∧ e = .notOnCurve x) ∧
    ∃ b, C.containsX x = .ok b ∧ (b = true ↔ (C.ordinates x).Nonempty) := by
  have hquarter : C.modulus % 4 = 3 := by
    rw [p_eq] at hmod
    omega
  have hodd : C.modulus % 2 = 1 := by omega
  refine ⟨fun h ↦ ?_, fun e ↦ ⟨fun he ↦ ?_, ?_⟩, exists_containsX hodd x⟩
  · obtain ⟨y, hy, hsolve⟩ := exists_solveY hquarter h
    exact ⟨_, hsolve, isLeast_min hy⟩
  · by_cases h : (C.ordinates x).Nonempty
    · obtain ⟨y, -, hsolve⟩ := exists_solveY hquarter h
      rw [hsolve] at he
      cases he
    · rw [solveY_of_not_nonempty hodd h] at he
      cases he
      exact ⟨h, rfl⟩
  · rintro ⟨h, rfl⟩
    exact solveY_of_not_nonempty hodd h

/-- A curve with eleven finite points, modulo eleven. -/
def elevenPoints : Curve where
  a := 0
  b := 7
  p := 11
  order := 12
  generator := some ⟨3, 1⟩

/-- Modulo eleven, minus nine is the `x` coordinate of points, of which the smaller `y` coordinate is
two, five is that of a point with `y = 0`, and eight is that of none. -/
theorem solveY_isLeast_eleven :
    elevenPoints.modulus.Prime ∧ elevenPoints.p % 4 = 3 ∧
      (elevenPoints.solveY (-9) = .ok 2 ∧ IsLeast (elevenPoints.ordinates (-9)) 2) ∧
      (elevenPoints.solveY 5 = .ok 0 ∧ IsLeast (elevenPoints.ordinates 5) 0) ∧
      elevenPoints.solveY 8 = .error (.notOnCurve 8) ∧ ¬(elevenPoints.ordinates 8).Nonempty := by
  have hprime : elevenPoints.modulus.Prime := by decide
  have hmod : elevenPoints.p % 4 = 3 := by decide
  have : Fact elevenPoints.modulus.Prime := ⟨hprime⟩
  have hfound {x y : Int} (hy : elevenPoints.solveY x = .ok y)
      (hmem : y ∈ elevenPoints.ordinates x) :
      elevenPoints.solveY x = .ok y ∧ IsLeast (elevenPoints.ordinates x) y := by
    obtain ⟨z, hz, hleast⟩ := (solveY_isLeast hmod x).1 ⟨y, hmem⟩
    rw [hy] at hz
    cases hz
    exact ⟨hy, hleast⟩
  have hrefused : elevenPoints.solveY 8 = .error (.notOnCurve 8) := by decide +kernel
  exact ⟨hprime, hmod, hfound (by decide +kernel) ⟨by decide, by decide, by decide⟩,
    hfound (by decide +kernel) ⟨by decide, by decide, by decide⟩, hrefused,
    (((solveY_isLeast hmod 8).2.1 _).mp hrefused).1⟩

end BitcoinSpend.Curve
