import Mathlib.Algebra.Order.Ring.Int

/-!
# Double-precision floating point

A double is its 64 bits. Every value that is not a NaN is a multiple of the smallest subnormal
`2^-1074`, so its exact value is an integer in that unit (`units`; an infinity gets the value that
follows the largest finite one). An integer `i` is the value `i * scale`.

The magnitudes of the doubles, read as numbers, are in the order of their values
(`magUnits_strictMono`). The total order key (`totalKey`) extends this to signed zeros and NaNs. The
conversion of an integer rounds to nearest, ties to even; what its users need is that it keeps the
order against every double (`units_ofInt_le`, `le_units_ofInt`) and against other integers
(`totalKey_ofInt_mono`).
-/

/-- A double, by its bits. -/
structure Double where
  bits : UInt64
  deriving DecidableEq

namespace Double

/-! ## Values -/

/-- The sign bit. -/
def sign (x : Double) : Bool := decide (2 ^ 63 ≤ x.bits.toNat)

/-- The bits below the sign bit. -/
def magnitude (x : Double) : Nat := x.bits.toNat % 2 ^ 63

/-- The magnitude of the infinities. -/
def infMag : Nat := 2047 * 2 ^ 52

def isNan (x : Double) : Bool := decide (infMag < x.magnitude)

def isFinite (x : Double) : Bool := decide (x.magnitude < infMag)

/-- The exponent of the smallest subnormal, without its sign. -/
def unitExp : Nat := 1074

/-- The number of units in one. -/
def scale : Nat := 2 ^ unitExp

/-- The value of a magnitude: a subnormal, or a significand with its leading one and an exponent. -/
def magUnits (mag : Nat) : Nat :=
  if mag < 2 ^ 52 then mag else (2 ^ 52 + mag % 2 ^ 52) * 2 ^ (mag / 2 ^ 52 - 1)

/-- The exact value, in units. -/
def units (x : Double) :
    Int := if x.sign then -(magUnits x.magnitude : Int) else magUnits x.magnitude

lemma scale_pos : 0 < scale := Nat.two_pow_pos unitExp

lemma intScale_pos : (0 : Int) < scale := Int.natCast_pos.2 scale_pos

lemma magUnits_eq {e q : Nat} (hlo : 2 ^ 52 ≤ q) (hhi : q ≤ 2 ^ 53) :
    magUnits (e * 2 ^ 52 + q) = q * 2 ^ e := by
  rw [magUnits, if_neg (by omega)]
  by_cases hq : q = 2 ^ 53
  · have hmod : (e * 2 ^ 52 + q) % 2 ^ 52 = 0 := by omega
    have hdiv : (e * 2 ^ 52 + q) / 2 ^ 52 - 1 = e + 1 := by omega
    rw [hmod, hdiv, hq]
    omega
  · have hmod : (e * 2 ^ 52 + q) % 2 ^ 52 = q - 2 ^ 52 := by omega
    have hdiv : (e * 2 ^ 52 + q) / 2 ^ 52 - 1 = e := by omega
    rw [hmod, hdiv, Nat.add_sub_cancel' hlo]

/-- A magnitude with an exponent, by its significand. -/
lemma exists_magUnits_eq {mag : Nat} (h : 2 ^ 52 ≤ mag) :
    ∃ e q, mag = e * 2 ^ 52 + q ∧ 2 ^ 52 ≤ q ∧ q < 2 ^ 53 :=
  ⟨mag / 2 ^ 52 - 1, 2 ^ 52 + mag % 2 ^ 52, by omega, by omega, by omega⟩

lemma magUnits_lt_succ (mag : Nat) : magUnits mag < magUnits (mag + 1) := by
  by_cases h : 2 ^ 52 ≤ mag
  · obtain ⟨e, q, rfl, hlo, hhi⟩ := exists_magUnits_eq h
    rw [Nat.add_assoc, magUnits_eq hlo hhi.le, magUnits_eq (by omega) (by omega)]
    exact Nat.mul_lt_mul_of_pos_right (Nat.lt_succ_self q) (Nat.two_pow_pos e)
  have hmag : magUnits mag = mag := if_pos (by omega)
  by_cases hnext : mag + 1 < 2 ^ 52
  · rw [hmag, magUnits, if_pos hnext]
    exact Nat.lt_succ_self mag
  · have hsucc : mag + 1 = 0 * 2 ^ 52 + 2 ^ 52 := by omega
    rw [hsucc, magUnits_eq le_rfl (by decide)]
    omega

lemma magUnits_strictMono : StrictMono magUnits := strictMono_nat_of_lt_succ magUnits_lt_succ

lemma magUnits_zero : magUnits 0 = 0 := rfl

lemma magnitude_lt (x : Double) : x.magnitude < 2 ^ 63 := Nat.mod_lt _ (Nat.two_pow_pos 63)

lemma toNat_bits (x : Double) : x.bits.toNat = (if x.sign then 2 ^ 63 else 0) + x.magnitude := by
  have hlt := x.bits.toNat_lt
  rw [sign, magnitude]
  by_cases h : 2 ^ 63 ≤ x.bits.toNat
  · rw [decide_eq_true h, if_pos rfl]
    omega
  · rw [decide_eq_false h, if_neg (by decide)]
    omega

lemma ext_sign_magnitude {x y : Double} (hs : x.sign = y.sign)
    (hm : x.magnitude = y.magnitude) : x = y := by
  have hbits : x.bits.toNat = y.bits.toNat := by rw [toNat_bits, toNat_bits, hs, hm]
  cases x
  cases y
  exact congrArg mk (UInt64.toNat_inj.1 hbits)

/-- Values that differ from zero determine the double. -/
lemma eq_of_units_eq {x y : Double} (h : x.units = y.units) (h0 : x.units ≠ 0) : x = y := by
  unfold units at h h0
  cases hsx : x.sign <;> cases hsy : y.sign <;>
    simp only [hsx, hsy, if_true, if_false, Bool.false_eq_true] at h h0
  · exact ext_sign_magnitude (hsx.trans hsy.symm) (magUnits_strictMono.injective (Int.ofNat.inj h))
  · omega
  · omega
  · exact ext_sign_magnitude (hsx.trans hsy.symm)
      (magUnits_strictMono.injective (Int.ofNat.inj (neg_inj.1 h)))

/-! ## The total order key -/

/-- The bits as a number in total order: negative values reversed, then the others, then every
NaN. -/
def totalKey (x : Double) : Nat :=
  if x.isNan then 2 ^ 64 - 1
  else if x.sign then 2 ^ 64 - 1 - x.bits.toNat
  else x.bits.toNat + 2 ^ 63

lemma totalKey_of_isNan {x : Double} (h : x.isNan = true) : x.totalKey = 2 ^ 64 - 1 := if_pos h

lemma totalKey_eq {x : Double} (h : x.isNan = false) :
    x.totalKey = if x.sign then 2 ^ 63 - 1 - x.magnitude else 2 ^ 63 + x.magnitude := by
  rw [totalKey, h, if_neg (by decide), toNat_bits]
  cases x.sign
  · simp only [Bool.false_eq_true, if_false]
    omega
  · simp only [if_true]
    omega

lemma magnitude_le_infMag {x : Double} (h : x.isNan = false) : x.magnitude ≤ infMag :=
  not_lt.1 (of_decide_eq_false h)

lemma totalKey_lt_of_isNan {x y : Double} (hx : x.isNan = false) (hy : y.isNan = true) :
    x.totalKey < y.totalKey := by
  have hm := magnitude_le_infMag hx
  rw [totalKey_of_isNan hy, totalKey_eq hx]
  unfold infMag at hm
  split <;> omega

/-- Off the NaNs the key determines the double. -/
lemma eq_of_totalKey_eq {x y : Double} (hx : x.isNan = false)
    (h : x.totalKey = y.totalKey) : x = y := by
  cases hy : y.isNan with
  | true => exact absurd h (totalKey_lt_of_isNan hx hy).ne
  | false =>
    have hmx := x.magnitude_lt
    have hmy := y.magnitude_lt
    rw [totalKey_eq hx, totalKey_eq hy] at h
    cases hsx : x.sign <;> cases hsy : y.sign <;>
      simp only [hsx, hsy, if_true, if_false, Bool.false_eq_true] at h
    · exact ext_sign_magnitude (hsx.trans hsy.symm) (by omega)
    · omega
    · omega
    · exact ext_sign_magnitude (hsx.trans hsy.symm) (by omega)

/-- The key is in the order of the values. -/
lemma totalKey_lt_of_units_lt {x y : Double} (hx : x.isNan = false) (hy : y.isNan = false)
    (h : x.units < y.units) : x.totalKey < y.totalKey := by
  have hmx := x.magnitude_lt
  rw [totalKey_eq hx, totalKey_eq hy]
  unfold units at h
  cases hsx : x.sign <;> cases hsy : y.sign <;>
    simp only [hsx, hsy, if_true, if_false, Bool.false_eq_true] at h ⊢
  · have hlt : magUnits x.magnitude < magUnits y.magnitude := by omega
    have := magUnits_strictMono.lt_iff_lt.1 hlt
    omega
  · omega
  · omega
  · have hlt : magUnits y.magnitude < magUnits x.magnitude := by omega
    have := magUnits_strictMono.lt_iff_lt.1 hlt
    omega

lemma units_le_of_totalKey_le {x y : Double} (hx : x.isNan = false) (hy : y.isNan = false)
    (h : x.totalKey ≤ y.totalKey) : x.units ≤ y.units :=
  Int.not_lt.1 fun hlt => not_lt.2 h (totalKey_lt_of_units_lt hy hx hlt)

/-! ## Rounding an integer -/

/-- The significand of `n` with its leading one, cut to 53 bits. -/
def significand (n : Nat) : Nat := n * 2 ^ (52 - n.log2) / 2 ^ (n.log2 - 52)

/-- Does `n` round up: is what was cut above one half, or one half behind an odd significand? -/
def RoundsUp (n : Nat) : Prop :=
  2 ^ (n.log2 - 52) < 2 * (n % 2 ^ (n.log2 - 52)) ∨
    2 * (n % 2 ^ (n.log2 - 52)) = 2 ^ (n.log2 - 52) ∧ significand n % 2 = 1

instance (n : Nat) : Decidable (RoundsUp n) := inferInstanceAs (Decidable (_ ∨ _))

/-- The magnitude at or below `n`. -/
def floorMag (n : Nat) : Nat := if n = 0 then 0 else (n.log2 + 1022) * 2 ^ 52 + significand n

/-- The magnitude nearest to `n`, ties to even. -/
def roundMag (n : Nat) : Nat := floorMag n + if RoundsUp n then 1 else 0

/-- The conversion of an integer. -/
def ofInt (i : Int) : Double :=
  ⟨UInt64.ofNat ((if i < 0 then 2 ^ 63 else 0) + roundMag i.natAbs)⟩

variable {n n' mag : Nat}

lemma log2_bounds (h : n ≠ 0) : 2 ^ n.log2 ≤ n ∧ n < 2 ^ n.log2 * 2 :=
  ⟨Nat.log2_self_le h, Nat.lt_log2_self⟩

/-- Cutting the integer to a significand, in units. -/
lemma significand_spec (h : n ≠ 0) : 2 ^ 52 ≤ significand n ∧ significand n < 2 ^ 53 ∧
    significand n * 2 ^ (n.log2 + 1022) ≤ n * scale ∧
    n * scale < (significand n + 1) * 2 ^ (n.log2 + 1022) := by
  obtain ⟨hlo, hhi⟩ := log2_bounds h
  have hscale : 0 < scale := scale_pos
  unfold significand
  generalize n.log2 = k at *
  rcases Nat.le_total k 52 with hk | hk
  · -- Nothing is cut.
    have hs : k - 52 = 0 := by omega
    have hsplit : 2 ^ k * 2 ^ (52 - k) = 2 ^ 52 := by rw [← Nat.pow_add, Nat.add_sub_cancel' hk]
    have hunits : n * 2 ^ (52 - k) * 2 ^ (k + 1022) = n * scale := by
      rw [Nat.mul_assoc, ← Nat.pow_add, show 52 - k + (k + 1022) =
        unitExp by unfold unitExp; omega, scale]
    have h1 := Nat.mul_le_mul_right (2 ^ (52 - k)) hlo
    have h2 := Nat.mul_lt_mul_of_pos_right hhi (Nat.two_pow_pos (52 - k))
    rw [hs, Nat.pow_zero, Nat.div_one, Nat.add_mul, hunits]
    rw [hsplit] at h1
    rw [Nat.mul_right_comm, hsplit] at h2
    have hpos := Nat.two_pow_pos (k + 1022)
    refine ⟨h1, h2, le_rfl, ?_⟩
    omega
  · have ht : 52 - k = 0 := by omega
    have hsplit : 2 ^ (k + 1022) = 2 ^ (k - 52) * scale := by
      rw [scale, ← Nat.pow_add, show k - 52 + unitExp = k + 1022 by unfold unitExp; omega]
    have hk' : 2 ^ k = 2 ^ 52 * 2 ^ (k - 52) := by rw [← Nat.pow_add, Nat.add_sub_cancel' hk]
    have hpos := Nat.two_pow_pos (k - 52)
    rw [ht, Nat.pow_zero, Nat.mul_one, hsplit, ← Nat.mul_assoc, ← Nat.mul_assoc]
    rw [hk'] at hlo hhi
    refine ⟨(Nat.le_div_iff_mul_le hpos).2 hlo, (Nat.div_lt_iff_lt_mul hpos).2 ?_,
      Nat.mul_le_mul_right _ (Nat.div_mul_le_self _ _),
      Nat.mul_lt_mul_of_pos_right ?_ hscale⟩
    · rw [Nat.mul_right_comm] at hhi
      exact hhi
    · rw [Nat.mul_comm]
      exact Nat.lt_mul_div_succ n hpos

/-- The integer lies between two neighbouring magnitudes. -/
lemma floorMag_spec (n : Nat) :
    magUnits (floorMag n) ≤ n * scale ∧ n * scale < magUnits (floorMag n + 1) := by
  by_cases h : n = 0
  · subst h
    exact ⟨Nat.zero_le _, by rw [Nat.zero_mul]; decide⟩
  · obtain ⟨hlo, hhi, hle, hlt⟩ := significand_spec h
    rw [floorMag, if_neg h, Nat.add_assoc, magUnits_eq hlo hhi.le,
      magUnits_eq (by omega) (by omega)]
    exact ⟨hle, hlt⟩

/-- An integer that is a magnitude is not rounded up. -/
lemma not_roundsUp (h : magUnits (floorMag n) = n * scale) : ¬ RoundsUp n := by
  by_cases h0 : n = 0
  · subst h0
    decide
  obtain ⟨hlo, hhi, -, -⟩ := significand_spec h0
  rw [floorMag, if_neg h0, magUnits_eq hlo hhi.le] at h
  have hrem : n % 2 ^ (n.log2 - 52) = 0 := by
    rcases Nat.le_total n.log2 52 with hk | hk
    · rw [show n.log2 - 52 = 0 by omega, Nat.pow_zero, Nat.mod_one]
    have hsplit : 2 ^ (n.log2 + 1022) = 2 ^ (n.log2 - 52) * scale := by
      rw [scale, ← Nat.pow_add, show n.log2 - 52 + unitExp = n.log2 + 1022 by
        unfold unitExp; omega]
    rw [hsplit, ← Nat.mul_assoc] at h
    exact Nat.mod_eq_zero_of_dvd ⟨significand n, by
      rw [Nat.mul_comm]
      exact (Nat.eq_of_mul_eq_mul_right scale_pos h).symm⟩
  rw [RoundsUp]
  omega

lemma le_roundMag (h : magUnits mag ≤ n * scale) : mag ≤ roundMag n := by
  have hlt := magUnits_strictMono.lt_iff_lt.1 (h.trans_lt (floorMag_spec n).2)
  rw [roundMag]
  omega

lemma roundMag_le (h : n * scale ≤ magUnits mag) : roundMag n ≤ mag := by
  have hle := magUnits_strictMono.le_iff_le.1 ((floorMag_spec n).1.trans h)
  rw [roundMag]
  rcases hle.lt_or_eq with hlt | rfl
  · split <;> omega
  · rw [if_neg (not_roundsUp ((floorMag_spec n).1.antisymm h))]
    exact le_rfl

/-- No magnitude lies strictly between an integer and the nearest one. -/
lemma roundMag_between (n mag : Nat) :
    (magUnits mag ≤ n * scale → magUnits mag ≤ magUnits (roundMag n)) ∧
    (n * scale ≤ magUnits mag → magUnits (roundMag n) ≤ magUnits mag) :=
  ⟨fun h => magUnits_strictMono.monotone (le_roundMag h), fun h =>
    magUnits_strictMono.monotone (roundMag_le h)⟩

/-- The significand and its exponent determine the magnitude below. -/
lemma log2_eq_of_floorMag_eq (h0 : n ≠ 0) (h0' : n' ≠ 0) (h : floorMag n = floorMag n') :
    n.log2 = n'.log2 ∧ significand n = significand n' := by
  obtain ⟨hlo, hhi, -, -⟩ := significand_spec h0
  obtain ⟨hlo', hhi', -, -⟩ := significand_spec h0'
  rw [floorMag, floorMag, if_neg h0, if_neg h0'] at h
  omega

/-- Rounding keeps the order of the integers. -/
lemma roundMag_mono (h : n ≤ n') : roundMag n ≤ roundMag n' := by
  have hscale : n * scale ≤ n' * scale := Nat.mul_le_mul_right _ h
  have hfloor : floorMag n ≤ floorMag n' := by
    have hlt := (floorMag_spec n).1.trans_lt (hscale.trans_lt (floorMag_spec n').2)
    exact Nat.lt_succ_iff.1 (magUnits_strictMono.lt_iff_lt.1 hlt)
  rcases hfloor.lt_or_eq with hlt | heq
  · rw [roundMag, roundMag]
    split <;> split <;> omega
  -- Between the same neighbours, the larger integer has the larger rest.
  by_cases h0 : n = 0
  · rw [h0]
    rw [h0] at hfloor
    exact hfloor.trans (Nat.le_add_right _ _)
  obtain ⟨hlog, hsig⟩ := log2_eq_of_floorMag_eq h0 (by omega) heq
  have hup : RoundsUp n → RoundsUp n' := by
    have hdiv : n / 2 ^ (n.log2 - 52) = n' / 2 ^ (n.log2 - 52) := by
      rcases Nat.le_total n.log2 52 with hk | hk
      · rw [significand, significand, ← hlog, show n.log2 - 52 = 0 by omega, Nat.pow_zero,
          Nat.div_one, Nat.div_one] at hsig
        rw [Nat.eq_of_mul_eq_mul_right (Nat.two_pow_pos _) hsig]
      · rw [significand, significand, ← hlog, show 52 - n.log2 = 0 by omega, Nat.pow_zero,
          Nat.mul_one, Nat.mul_one] at hsig
        exact hsig
    have hrem : n % 2 ^ (n.log2 - 52) ≤ n' % 2 ^ (n.log2 - 52) := by
      have h1 := Nat.div_add_mod n (2 ^ (n.log2 - 52))
      have h2 := Nat.div_add_mod n' (2 ^ (n.log2 - 52))
      rw [hdiv] at h1
      omega
    unfold RoundsUp
    rw [← hlog]
    omega
  rw [roundMag, roundMag, heq]
  split
  · rw [if_pos (hup ‹_›)]
  · exact Nat.le_add_right _ _

/-- Integers of at most 53 bits are magnitudes. -/
lemma magUnits_roundMag (h : n ≤ 2 ^ 53) : magUnits (roundMag n) = n * scale := by
  have hfloor : magUnits (floorMag n) = n * scale := by
    by_cases h0 : n = 0
    · subst h0
      rw [Nat.zero_mul]
      rfl
    rcases h.lt_or_eq with hlt | rfl
    · obtain ⟨hlo, hhi, -, -⟩ := significand_spec h0
      have hk : n.log2 ≤ 52 := Nat.lt_succ_iff.1 ((Nat.log2_lt h0).2 hlt)
      rw [floorMag, if_neg h0, magUnits_eq hlo hhi.le, significand, show n.log2 - 52 = 0 by omega,
        Nat.pow_zero, Nat.div_one, Nat.mul_assoc, ← Nat.pow_add,
        show 52 - n.log2 + (n.log2 + 1022) = unitExp by unfold unitExp; omega, scale]
    · decide +kernel
  rw [roundMag, if_neg (not_roundsUp hfloor), Nat.add_zero, hfloor]

/-- The range of a 64-bit integer stays far below the infinities. -/
lemma roundMag_le_of_le (h : n ≤ 2 ^ 63) : roundMag n ≤ 1086 * 2 ^ 52 := by
  refine roundMag_le ?_
  have hunits : magUnits (1086 * 2 ^ 52) = 2 ^ 63 * scale := by decide +kernel
  rw [hunits]
  exact Nat.mul_le_mul_right _ h

/-! ## Integers and doubles -/

variable {i j : Int} {x y : Double}

section

variable (h : i.natAbs ≤ 2 ^ 63)

include h

lemma toNat_bits_ofInt :
    (ofInt i).bits.toNat = (if i < 0 then 2 ^ 63 else 0) + roundMag i.natAbs := by
  have hle := roundMag_le_of_le h
  refine UInt64.toNat_ofNat_of_lt' ?_
  show _ < 2 ^ 64
  split <;> omega

lemma sign_ofInt : (ofInt i).sign = decide (i < 0) := by
  have hle := roundMag_le_of_le h
  rw [sign, toNat_bits_ofInt h, decide_eq_decide]
  split <;> omega

lemma magnitude_ofInt : (ofInt i).magnitude = roundMag i.natAbs := by
  have hle := roundMag_le_of_le h
  rw [magnitude, toNat_bits_ofInt h]
  split <;> omega

lemma isNan_ofInt : (ofInt i).isNan = false := by
  have hle := roundMag_le_of_le h
  rw [isNan, magnitude_ofInt h]
  refine decide_eq_false ?_
  unfold infMag
  omega

lemma isFinite_ofInt : (ofInt i).isFinite = true := by
  have hle := roundMag_le_of_le h
  rw [isFinite, magnitude_ofInt h]
  refine decide_eq_true ?_
  unfold infMag
  omega

end

lemma units_of_not_sign (h : x.sign = false) : x.units = magUnits x.magnitude :=
  if_neg (by rw [h]; decide)

lemma units_ofInt_of_neg (h : i.natAbs ≤ 2 ^ 63) (hi : i < 0) :
    (ofInt i).units = -(magUnits (roundMag i.natAbs) : Int) := by
  rw [units, if_pos ((sign_ofInt h).trans (decide_eq_true hi)), magnitude_ofInt h]

lemma units_ofInt_of_nonneg (h : i.natAbs ≤ 2 ^ 63) (hi : 0 ≤ i) :
    (ofInt i).units = magUnits (roundMag i.natAbs) := by
  rw [units_of_not_sign ((sign_ofInt h).trans (decide_eq_false (Int.not_lt.2 hi))),
    magnitude_ofInt h]

lemma mul_scale_of_neg (hi : i < 0) : i * scale = -((i.natAbs * scale : Nat) : Int) := by
  rw [Int.natCast_mul, Int.ofNat_natAbs_of_nonpos hi.le, Int.neg_mul, Int.neg_neg]

lemma mul_scale_of_nonneg (hi : 0 ≤ i) : i * scale = ((i.natAbs * scale : Nat) : Int) := by
  rw [Int.natCast_mul, Int.natAbs_of_nonneg hi]

section

variable (h : i.natAbs ≤ 2 ^ 63)

include h

/-- No double lies strictly between an integer and its conversion. -/
lemma units_ofInt_between (y : Double) :
    (i * scale ≤ y.units → (ofInt i).units ≤ y.units) ∧
    (y.units ≤ i * scale → y.units ≤ (ofInt i).units) := by
  have hmag := roundMag_between i.natAbs y.magnitude
  rcases lt_or_ge i 0 with hi | hi
  · rw [units_ofInt_of_neg h hi, mul_scale_of_neg hi, units]
    split <;> omega
  · -- A double with a sign at or above a non-negative integer: both are zero.
    rw [units_ofInt_of_nonneg h hi, mul_scale_of_nonneg hi, units]
    split <;> omega

/-- A double at or above an integer is at or above its conversion. -/
lemma units_ofInt_le (hle : i * scale ≤ y.units) : (ofInt i).units ≤ y.units :=
  (units_ofInt_between h y).1 hle

lemma le_units_ofInt (hle : y.units ≤ i * scale) : y.units ≤ (ofInt i).units :=
  (units_ofInt_between h y).2 hle

/-- An integer that is a double is converted exactly. -/
lemma units_ofInt_of_eq (heq : y.units = i * scale) : (ofInt i).units = i * scale :=
  heq ▸ le_antisymm (units_ofInt_le h heq.ge) (le_units_ofInt h heq.le)

end

lemma units_ofInt_of_le (h : i.natAbs ≤ 2 ^ 53) : (ofInt i).units = i * scale := by
  have h63 : i.natAbs ≤ 2 ^ 63 := h.trans (by decide)
  rcases lt_or_ge i 0 with hi | hi
  · rw [units_ofInt_of_neg h63 hi, mul_scale_of_neg hi, magUnits_roundMag h]
  · rw [units_ofInt_of_nonneg h63 hi, mul_scale_of_nonneg hi, magUnits_roundMag h]

/-- The range of a 64-bit integer ends in doubles. -/
lemma units_ofInt_two_pow : (ofInt (2 ^ 63)).units = 2 ^ 63 * scale := by
  have hmag : magUnits (roundMag (2 ^ 63)) = 2 ^ 63 * scale := by decide +kernel
  rw [units_ofInt_of_nonneg (by decide) (by decide), show Int.natAbs (2 ^ 63) =
    2 ^ 63 from rfl, hmag, Int.natCast_mul, Int.natCast_pow, Nat.cast_ofNat]

lemma units_ofInt_neg_two_pow : (ofInt (-2 ^ 63)).units = -2 ^ 63 * scale := by
  have hmag : magUnits (roundMag (2 ^ 63)) = 2 ^ 63 * scale := by decide +kernel
  rw [units_ofInt_of_neg (by decide) (by decide), show Int.natAbs (-2 ^ 63) = 2 ^ 63 from rfl, hmag,
    Int.natCast_mul, Int.natCast_pow, Nat.cast_ofNat, Int.neg_mul]

lemma totalKey_ofInt_mono (hi : i.natAbs ≤ 2 ^ 63) (hj : j.natAbs ≤ 2 ^ 63) (h : i ≤ j) :
    (ofInt i).totalKey ≤ (ofInt j).totalKey := by
  rw [totalKey_eq (isNan_ofInt hi), totalKey_eq (isNan_ofInt hj), sign_ofInt hi, sign_ofInt hj,
    magnitude_ofInt hi, magnitude_ofInt hj]
  simp only [decide_eq_true_eq]
  split <;> split
  · have := @roundMag_mono j.natAbs i.natAbs (by omega)
    omega
  · omega
  · omega
  · have := @roundMag_mono i.natAbs j.natAbs (by omega)
    omega

/-- Below `2^53` an integer keeps its own place among the conversions. -/
lemma units_ofInt_lt (hi : i.natAbs ≤ 2 ^ 63) (hj : j.natAbs ≤ 2 ^ 53) (hj' : -2 ^ 53 < j)
    (h : i < j) : (ofInt i).units < (ofInt j).units := by
  -- The integer just below `j` is a double as well, and it is at or above `i`.
  have hpred : (j - 1).natAbs ≤ 2 ^ 53 := by omega
  have hle : i * scale ≤ (ofInt (j - 1)).units := by
    rw [units_ofInt_of_le hpred]
    exact Int.mul_le_mul_of_nonneg_right (by omega) intScale_pos.le
  refine (units_ofInt_le hi hle).trans_lt ?_
  rw [units_ofInt_of_le hpred, units_ofInt_of_le hj]
  exact Int.mul_lt_mul_of_pos_right (by omega) intScale_pos

/-! ## Comparison -/

/-- The comparison of the standard: none with a NaN, and the zeros are equal. -/
def partialCmp (x y : Double) : Option Ordering :=
  if x.isNan || y.isNan then none else some (compare x.units y.units)

/-- Equality of the standard. -/
def ieeeEq (x y : Double) : Bool := x.partialCmp y == some .eq

def lt (x y : Double) : Bool := x.partialCmp y == some .lt

def ge (x y : Double) : Bool := (x.partialCmp y).any Ordering.isGE

lemma partialCmp_of_not_isNan (hx : x.isNan = false) (hy : y.isNan = false) :
    x.partialCmp y = some (compare x.units y.units) := by
  rw [partialCmp, hx, hy]
  rfl

lemma ieeeEq_iff : x.ieeeEq y = true ↔ x.isNan = false ∧ y.isNan = false ∧ x.units = y.units := by
  unfold ieeeEq partialCmp
  cases hx : x.isNan <;> cases hy : y.isNan <;> simp

lemma lt_iff (hx : x.isNan = false) (hy : y.isNan = false) : x.lt y = true ↔ x.units < y.units := by
  rw [lt, partialCmp_of_not_isNan hx hy]
  simp [compare_lt_iff_lt]

lemma ge_iff (hx : x.isNan = false) (hy : y.isNan = false) : x.ge y = true ↔ y.units ≤ x.units := by
  rw [ge, partialCmp_of_not_isNan hx hy, Option.any_some, Ordering.isGE_iff_ne_lt,
    compare_lt_iff_lt, not_lt]

/-! ## Whole numbers -/

/-- The conversion to a 64-bit integer: towards zero, saturating, zero for a NaN. -/
def toI64 (x : Double) : Int :=
  if x.isNan then 0 else max (-2 ^ 63) (min (2 ^ 63 - 1) (x.units.tdiv scale))

/-- Is the value a whole number? -/
def IsWhole (x : Double) : Prop := (scale : Int) ∣ x.units

instance (x : Double) : Decidable x.IsWhole := inferInstanceAs (Decidable (_ ∣ _))

/-- The largest whole number at or below the value. From `2^52` on every double is whole. -/
def floor (x : Double) : Double :=
  if 1075 * 2 ^ 52 ≤ x.magnitude then x
  else if x.magnitude = 0 then x
  else ofInt (x.units / scale)

lemma scale_dvd_magUnits (h : 1075 * 2 ^ 52 ≤ mag) : scale ∣ magUnits mag := by
  obtain ⟨e, q, rfl, hlo, hhi⟩ := @exists_magUnits_eq mag (by omega)
  rw [magUnits_eq hlo hhi.le,
    show e = e - unitExp + unitExp by unfold unitExp; omega, Nat.pow_add, ← Nat.mul_assoc]
  exact Nat.dvd_mul_left _ _

lemma isWhole_of_le (h : 1075 * 2 ^ 52 ≤ x.magnitude) : x.IsWhole := by
  have hdvd := Int.natCast_dvd_natCast.2 (scale_dvd_magUnits h)
  rw [IsWhole, units]
  split
  · exact Int.dvd_neg.2 hdvd
  · exact hdvd

/-- Below `2^52` the integer part converts exactly. -/
lemma natAbs_floor_le (h : ¬ 1075 * 2 ^ 52 ≤ x.magnitude) : (x.units / scale).natAbs ≤ 2 ^ 53 := by
  have hunits : magUnits (1075 * 2 ^ 52) = 2 ^ 52 * scale := by decide +kernel
  have hlt := magUnits_strictMono (not_le.1 h)
  have hbound : -(2 ^ 52) * (scale : Int) ≤ x.units ∧ x.units < 2 ^ 52 * scale := by
    rw [units]
    split <;> constructor <;> omega
  have hlo := (Int.le_ediv_iff_mul_le intScale_pos).2 hbound.1
  have hhi := (Int.ediv_lt_iff_lt_mul intScale_pos).2 hbound.2
  omega

lemma units_floor (x : Double) : x.floor.units = x.units / scale * scale := by
  unfold floor
  split
  case isTrue h => exact (Int.ediv_mul_cancel (isWhole_of_le h)).symm
  case isFalse h =>
    split
    case isTrue h0 =>
      have hzero : x.units = 0 := by
        rw [units, h0]
        split <;> rfl
      rw [hzero, Int.zero_ediv, Int.zero_mul]
    case isFalse => exact units_ofInt_of_le (natAbs_floor_le h)

lemma isNan_floor (x : Double) : x.floor.isNan = x.isNan := by
  unfold floor
  split
  case isTrue => rfl
  case isFalse h =>
    split
    case isTrue => rfl
    case isFalse =>
      rw [isNan_ofInt ((natAbs_floor_le h).trans (by decide))]
      refine (decide_eq_false ?_).symm
      unfold infMag
      omega

/-- A whole number in range converts to itself. -/
lemma toI64_eq (hx : x.isNan = false) (hi : -2 ^ 63 ≤ i) (hi' : i < 2 ^ 63)
    (h : x.units = i * scale) : x.toI64 = i := by
  rw [toI64, hx, if_neg (by decide), h, Int.mul_tdiv_cancel _ intScale_pos.ne']
  omega

/-- The conversion of an integer is a whole number. -/
lemma isWhole_ofInt (h : i.natAbs ≤ 2 ^ 63) : (ofInt i).IsWhole := by
  by_cases hle : i.natAbs ≤ 2 ^ 53
  · exact ⟨i, by rw [units_ofInt_of_le hle, Int.mul_comm]⟩
  refine isWhole_of_le ?_
  have hbig : 1075 * 2 ^ 52 ≤ roundMag (2 ^ 53) := by decide
  rw [magnitude_ofInt h]
  exact hbig.trans (roundMag_mono (not_le.1 hle).le)

lemma units_eq_zero_iff : x.units = 0 ↔ x.magnitude = 0 := by
  have hzero : magUnits x.magnitude = 0 ↔ x.magnitude = 0 :=
    ⟨fun h => magUnits_strictMono.injective (h.trans magUnits_zero.symm), fun h => by
      rw [h, magUnits_zero]⟩
  rw [units]
  split <;> omega

/-- A value of zero is one of the two zeros. -/
lemma eq_zero_of_units (h : x.units = 0) : x = ⟨0⟩ ∨ x = ⟨0x8000000000000000⟩ := by
  have hm := units_eq_zero_iff.1 h
  cases hs : x.sign with
  | false => exact .inl (ext_sign_magnitude hs hm)
  | true => exact .inr (ext_sign_magnitude hs hm)

end Double
