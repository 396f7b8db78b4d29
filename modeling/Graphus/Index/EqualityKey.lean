import Graphus.Cypher.Equality
import Graphus.Index.KeyCodec

/-!
# The equality key against equality

`encode_equality_canonical` drops the type byte of a number and gives an integer that is no double a
key of its own. Its users take equal keys for equal values and different keys for different ones.

**Theorem (`equalityKeys_eq_iff`).** For two values with a key, equal keys mean equality and
conversely, if and only if the pair is none of the exceptions (`EqualityException`): zeros of
different sign, `i64::MAX` with the float `2^63`, points with a NaN coordinate or with zeros of
different sign, durations of one approximate length, and date-times whose instant saturates.

For integers the exactness test of the source converts to a double and back. The conversion back
saturates, so the test also passes for `i64::MAX`, which is no double (`toI64_ofInt_eq_iff`).
-/

namespace Graphus

open List Double
open Int64 (maxValue toInt_inj)
open Except (ok)

/-- The pairs of values for which the equality key misses an equality or invents one. -/
def EqualityException : Value → Value → Prop
  | .float f, .float g => f ≠ g ∧ f.ieeeEq g = true
  | .integer i, .float f | .float f, .integer i =>
    (i = 0 ∧ f = ⟨0x8000000000000000⟩) ∨ (i = maxValue ∧ f = twoPow63)
  | .zonedDateTime x, .zonedDateTime y =>
    x.localDateTime.epochSeconds ≠ y.localDateTime.epochSeconds ∧ x.utcSeconds = y.utcSeconds ∧
      x.localDateTime.nanos = y.localDateTime.nanos ∧ x.offsetSeconds = y.offsetSeconds ∧
      x.zoneId = y.zoneId
  | .duration x, .duration y => x ≠ y ∧ durationOrderNanos x = durationOrderNanos y
  | .point p, .point q =>
    (p.crs = q.crs ∧ p.coords.map totalKey = q.coords.map totalKey ∧
      ∃ c ∈ p.coords, c.isNan = true) ∨ (p.valueEq q = true ∧ p.coords ≠ q.coords)
  | _, _ => False

/-! ## Integers that are doubles -/

/-- The integer is a double. -/
def IsDouble (i : Int64) : Prop := (ofInt i.toInt).units = i.toInt * scale

section Integers

variable {i j : Int64} {f g : Double}

lemma ofInt_maxValue : ofInt maxValue.toInt = twoPow63 := by decide +kernel

lemma not_isDouble_maxValue : ¬ IsDouble maxValue := by
  intro h
  rw [IsDouble, ofInt_maxValue, twoPow63, units_ofInt_two_pow] at h
  exact absurd (Int.eq_of_mul_eq_mul_right intScale_pos.ne' h) (by decide)

/-- The exactness test of the source. -/
lemma toI64_ofInt_eq_iff : (ofInt i.toInt).toI64 = i.toInt ↔ IsDouble i ∨ i = maxValue := by
  have hnan := isNan_ofInt (natAbs_toInt_le i)
  obtain ⟨k, hk⟩ := isWhole_ofInt (natAbs_toInt_le i)
  constructor
  · intro h
    -- Not below the range: the lower end of the range is a double.
    have hlow : -2 ^ 63 ≤ k := by
      have hle : (ofInt (-2 ^ 63)).units ≤ (ofInt i.toInt).units := by
        refine le_units_ofInt (natAbs_toInt_le i) ?_
        rw [units_ofInt_neg_two_pow]
        exact Int.mul_le_mul_of_nonneg_right i.le_toInt intScale_pos.le
      rw [units_ofInt_neg_two_pow, hk, Int.mul_comm _ k] at hle
      exact Int.le_of_mul_le_mul_right hle intScale_pos
    have hclamp : max (-2 ^ 63) (min (2 ^ 63 - 1) k) = i.toInt := by
      rw [toI64, hnan, hk, Int.mul_tdiv_cancel_left _ intScale_pos.ne'] at h
      exact h
    by_cases hin : k < 2 ^ 63
    · left
      rw [IsDouble, hk, Int.mul_comm, show k = i.toInt by omega]
    right
    have hmax : i.toInt = maxValue.toInt := by
      rw [Int64.toInt_maxValue]
      omega
    exact toInt_inj.1 hmax
  · rintro (h | rfl)
    · exact toI64_eq hnan i.le_toInt i.toInt_lt h
    · decide +kernel

lemma isDouble_of_units_eq (h : f.units = i.toInt * scale) : IsDouble i :=
  units_ofInt_of_eq (natAbs_toInt_le i) h

/-- A double with the value of the integer is its conversion, or negative zero. -/
lemma eq_ofInt_of_units_eq (h : f.units = i.toInt * scale) :
    f = ofInt i.toInt ∨ (i = 0 ∧ f = ⟨0x8000000000000000⟩) := by
  have hunits : f.units = (ofInt i.toInt).units := h.trans (isDouble_of_units_eq h).symm
  by_cases hzero : f.units = 0
  · have hi : i = 0 := by
      rw [hzero] at h
      exact toInt_inj.1 ((Int.mul_eq_zero.1 h.symm).resolve_right intScale_pos.ne')
    rcases eq_zero_of_units hzero with hf | hf
    · left
      rw [hf, hi]
      decide
    · exact .inr ⟨hi, hf⟩
  · exact .inl (eq_of_units_eq hunits hzero)

lemma ofInt_injective (hi : IsDouble i ∨ i = maxValue) (hj : IsDouble j ∨ j = maxValue)
    (h : ofInt i.toInt = ofInt j.toInt) : i = j := by
  have hmax : ∀ {i : Int64}, IsDouble i → ofInt i.toInt ≠ twoPow63 := by
    intro i hi heq
    have hlt := i.toInt_lt
    rw [IsDouble, heq, twoPow63, units_ofInt_two_pow] at hi
    have := Int.eq_of_mul_eq_mul_right intScale_pos.ne' hi
    omega
  rcases hi with hi | rfl <;> rcases hj with hj | rfl
  · rw [IsDouble, h, hj] at hi
    exact (toInt_inj.1 (Int.eq_of_mul_eq_mul_right intScale_pos.ne' hi)).symm
  · exact absurd (h.trans ofInt_maxValue) (hmax hi)
  · exact absurd (h.symm.trans ofInt_maxValue) (hmax hj)
  · rfl

/-! ## Keys of numbers -/

lemma encodeF64Bits_inj : encodeF64Bits f = encodeF64Bits g ↔ f.totalKey = g.totalKey := by
  have hcmp := compare_encodeF64Bits [] [] f g
  rw [List.append_nil, List.append_nil, List.compare_nil_nil, Ordering.then_eq, totalF64] at hcmp
  rw [← Std.LawfulEqOrd.compare_eq_iff_eq, hcmp, compare_eq_iff_eq]

lemma encodeF64Bits_inj_of_not_isNan (hf : f.isNan = false) :
    encodeF64Bits f = encodeF64Bits g ↔ f = g := by
  rw [encodeF64Bits_inj]
  exact ⟨eq_of_totalKey_eq hf, fun h => h ▸ rfl⟩

lemma encodeI64Bits_inj : encodeI64Bits i.toInt = encodeI64Bits j.toInt ↔ i = j := by
  have hcmp := compare_encodeI64Bits [] [] (toInt_range i) (toInt_range j)
  rw [List.append_nil, List.append_nil, List.compare_nil_nil, Ordering.then_eq] at hcmp
  rw [← Std.LawfulEqOrd.compare_eq_iff_eq, hcmp, compare_eq_iff_eq, toInt_inj]

section

variable (hf : f.isNan = false)

include hf

lemma cmpIntFloat_eq_some_eq_iff :
    cmpIntFloat i f = some .eq ↔ f.units = i.toInt * scale := by
  rw [cmpIntFloat_eq hf, Option.some.injEq, compare_eq_iff_eq, eq_comm]

lemma equals_integerFloat :
    equals (.integer i) (.float f) = .true ↔ f.units = i.toInt * scale := by
  rw [@equals_eq_deepEquals (.integer i) (.float f) rfl rfl rfl hf, ← cmpIntFloat_eq_some_eq_iff hf]
  exact fromBool_eq_true.trans beq_iff_eq

lemma equals_floatInteger :
    equals (.float f) (.integer i) = .true ↔ f.units = i.toInt * scale := by
  rw [@equals_eq_deepEquals (.float f) (.integer i) rfl rfl hf rfl, ← cmpIntFloat_eq_some_eq_iff hf]
  exact fromBool_eq_true.trans beq_iff_eq

lemma equals_floats (hg : g.isNan = false) :
    equals (.float f) (.float g) = .true ↔ f.ieeeEq g = true := by
  rw [@equals_eq_deepEquals (.float f) (.float g) rfl rfl hf hg]
  exact fromBool_eq_true

end

lemma equals_integers : equals (.integer i) (.integer j) = .true ↔ i = j := by
  exact fromBool_eq_true.trans beq_iff_eq

end Integers

/-! ## What the equality key decides, class by class -/

/-- The key decides equality on the pair, unless `E`. -/
def Decides (a b : Value) (E : Prop) : Prop :=
  ∀ ka kb : Bytes, encodeEqualityCanonical a = .ok ka → encodeEqualityCanonical b = .ok kb →
    ((ka = kb ↔ equals a b = .true) ↔ ¬ E)

section Decides

variable {i j : Int64} {f g : Double} {a b : Value}

/-- Where a key is equal only for equal values, the exceptions are the equal values it misses. -/
lemma iff_iff_not {P Q E : Prop} (hP : P → Q) (hE : Q → ¬ P → E) (hE' : E → Q ∧ ¬ P) :
    (P ↔ Q) ↔ ¬ E :=
  ⟨fun h he => (hE' he).2 (h.2 (hE' he).1), fun h =>
    ⟨hP, fun hq => Classical.byContradiction fun hp => h (hE hq hp)⟩⟩

variable {k : Bytes}

lemma isNan_of_encodeEqualityCanonical (h : encodeEqualityCanonical (.float f) = .ok k) :
    f.isNan = false ∧ k = Tag.number :: encodeF64Bits f := by
  rw [encodeEqualityCanonical] at h
  cases hf : f.isNan with
  | true =>
    rw [hf] at h
    exact nomatch h
  | false =>
    rw [hf] at h
    exact ⟨rfl, (ok.inj h).symm⟩

lemma encodeEqualityCanonical_integer (h : encodeEqualityCanonical (.integer i) = .ok k) :
    ((IsDouble i ∨ i = maxValue) ∧ k = Tag.number :: encodeF64Bits (ofInt i.toInt)) ∨
    (¬ (IsDouble i ∨ i = maxValue) ∧ k = Numtag.integer :: encodeI64Bits i.toInt) := by
  rw [encodeEqualityCanonical] at h
  rw [← toI64_ofInt_eq_iff]
  split at h
  · exact .inl ⟨‹_›, (ok.inj h).symm⟩
  · exact .inr ⟨‹_›, (ok.inj h).symm⟩

lemma decides_floats : Decides (.float f) (.float g) (f ≠ g ∧ f.ieeeEq g = true) := by
  intro ka kb ha hb
  obtain ⟨hf, rfl⟩ := isNan_of_encodeEqualityCanonical ha
  obtain ⟨hg, rfl⟩ := isNan_of_encodeEqualityCanonical hb
  rw [equals_floats hf hg, cons_inj_right, encodeF64Bits_inj_of_not_isNan hf]
  refine iff_iff_not ?_ (fun heq hne => ⟨hne, heq⟩) fun h => ⟨h.2, h.1⟩
  rintro rfl
  exact ieeeEq_iff.2 ⟨hf, hf, rfl⟩

lemma decides_integers : Decides (.integer i) (.integer j) False := by
  intro ka kb ha hb
  rw [equals_integers, not_false_eq_true, iff_true]
  rcases encodeEqualityCanonical_integer ha with ⟨hi, rfl⟩ | ⟨hi, rfl⟩ <;>
    rcases encodeEqualityCanonical_integer hb with ⟨hj, rfl⟩ | ⟨hj, rfl⟩
  · rw [cons_inj_right, encodeF64Bits_inj_of_not_isNan (isNan_ofInt (natAbs_toInt_le i))]
    exact ⟨ofInt_injective hi hj, fun h => h ▸ rfl⟩
  · exact iff_of_false (fun h => absurd (cons.inj h).1 (by decide)) fun h => hj (h ▸ hi)
  · exact iff_of_false (fun h => absurd (cons.inj h).1 (by decide)) fun h => hi (h ▸ hj)
  · rw [cons_inj_right, encodeI64Bits_inj]

lemma decides_integerFloat : Decides (.integer i) (.float f)
    ((i = 0 ∧ f = ⟨0x8000000000000000⟩) ∨ (i = maxValue ∧ f = twoPow63)) := by
  intro ka kb ha hb
  obtain ⟨hf, rfl⟩ := isNan_of_encodeEqualityCanonical hb
  have hnan := isNan_ofInt (natAbs_toInt_le i)
  rw [equals_integerFloat hf]
  rcases encodeEqualityCanonical_integer ha with ⟨hdouble | rfl, rfl⟩ | ⟨hi, rfl⟩
  · -- A double: the key misses negative zero.
    rw [cons_inj_right, encodeF64Bits_inj_of_not_isNan hnan]
    refine iff_iff_not ?_ (fun heq hne => .inl ?_) ?_
    · rintro rfl
      exact hdouble
    · exact (eq_ofInt_of_units_eq heq).resolve_left (Ne.symm hne)
    · rintro (⟨rfl, rfl⟩ | ⟨rfl, -⟩)
      · exact ⟨by decide +kernel, by decide⟩
      · exact absurd hdouble not_isDouble_maxValue
  · -- `i64::MAX` has the key of `2^63`, and no double has its value.
    have hne : ¬ f.units = maxValue.toInt * scale := fun h =>
      not_isDouble_maxValue (isDouble_of_units_eq h)
    have hzero : ¬ (maxValue = 0 ∧ f = ⟨0x8000000000000000⟩) := fun h =>
      absurd h.1 (by decide)
    rw [cons_inj_right, encodeF64Bits_inj_of_not_isNan hnan, ofInt_maxValue, iff_false_right hne,
      or_iff_right hzero, and_iff_right rfl, eq_comm]
  · have hne : ¬ f.units = i.toInt * scale := fun h => hi (.inl (isDouble_of_units_eq h))
    refine iff_of_true (iff_of_false (fun h => absurd (cons.inj h).1 (by decide)) hne) ?_
    rintro (⟨rfl, -⟩ | ⟨rfl, -⟩)
    · exact hi (.inl (units_ofInt_of_le (by decide)))
    · exact hi (.inr rfl)

lemma decides_floatInteger : Decides (.float f) (.integer i)
    ((i = 0 ∧ f = ⟨0x8000000000000000⟩) ∨ (i = maxValue ∧ f = twoPow63)) := by
  intro ka kb ha hb
  obtain ⟨hf, rfl⟩ := isNan_of_encodeEqualityCanonical ha
  have hswap := @decides_integerFloat i f _ _ hb ha
  rw [equals_integerFloat hf] at hswap
  rw [equals_floatInteger hf, ← hswap, eq_comm]

/-! ### Other classes -/

lemma valueKey_eq_iff (ha : Indexable a) (hb : Indexable b) : valueKey a = valueKey b ↔
    classRank a = classRank b ∧ indexNum a = indexNum b ∧ textKey a = textKey b := by
  rw [faithful_valueKey.eq_iff ha hb, indexCmp, Ordering.then_eq_eq, Ordering.then_eq_eq,
    compare_eq_iff_eq, Std.LawfulEqOrd.compare_eq_iff_eq, Std.LawfulEqOrd.compare_eq_iff_eq]

lemma isNull_of_indexable (h : Indexable a) : isNull a = false := by
  cases a <;> first | rfl | exact h.elim

section

variable (ha : encodeEqualityCanonical a = encodeSingle a)
    (hb : encodeEqualityCanonical b = encodeSingle b) (hna : isNan a = false)

include ha hb hna

/-- A class whose equality key is its index key. -/
lemma decides_of_indexKey {Q E : Prop} (hnb : isNan b = false) (hrank : classRank a = classRank b)
    (hQ : ∀ eq, deepEquals eq a b = .true ↔ Q)
    (h : ((indexNum a = indexNum b ∧ textKey a = textKey b) ↔ Q) ↔ ¬ E) : Decides a b E := by
  intro ka kb hka hkb
  obtain ⟨hia, rfl⟩ := encodeValue_ok (ha.symm.trans hka)
  obtain ⟨hib, rfl⟩ := encodeValue_ok (hb.symm.trans hkb)
  rw [equals_eq_deepEquals (isNull_of_indexable hia) (isNull_of_indexable hib) hna hnb, hQ,
    nil_append, nil_append, valueKey_eq_iff hia hib, and_iff_right hrank]
  exact h

lemma decides_structural {α : Type} [BEq α] [LawfulBEq α] {x y : α} {E : Prop}
    (hnb : isNan b = false)
    (hrank : classRank a = classRank b) (hQ : ∀ eq, deepEquals eq a b = .fromBool (x == y))
    (h : ((indexNum a = indexNum b ∧ textKey a = textKey b) ↔ x = y) ↔ ¬ E) : Decides a b E := by
  refine decides_of_indexKey ha hb hna hnb hrank (fun eq => ?_) h
  rw [hQ, fromBool_eq_true, beq_iff_eq]

end

lemma decides_zonedTimes (x y : ZonedTime) : Decides (.zonedTime x) (.zonedTime y) False := by
  refine decides_structural rfl rfl rfl rfl rfl (fun _ => rfl) (iff_of_true ⟨?_, ?_⟩ id)
  · rintro ⟨hnum, -⟩
    obtain ⟨hinstant, hrest⟩ := cons.inj hnum
    have hoff : x.offsetSeconds = y.offsetSeconds := Int32.toInt_inj.1 (cons.inj hrest).1
    have htime : x.time.nanosOfDay = y.time.nanosOfDay := by
      have hsub := toInt_inj.1 hinstant
      rw [ZonedTime.instant, hoff] at hsub
      exact congrArg Int64.toUInt64 ((Int64.sub_left_inj _).1 hsub)
    obtain ⟨⟨tx⟩, ox⟩ := x
    cases hoff
    cases htime
    rfl
  · rintro rfl
    exact ⟨rfl, rfl⟩

lemma decides_zonedDateTimes (x y : ZonedDateTime) : Decides (.zonedDateTime x) (.zonedDateTime y)
      (EqualityException (.zonedDateTime x) (.zonedDateTime y)) := by
  refine decides_structural rfl rfl rfl rfl rfl (fun _ => rfl) ?_
  refine iff_comm.trans (iff_iff_not ?_ ?_ ?_)
  · rintro rfl
    exact ⟨rfl, rfl⟩
  · rintro ⟨hnum, hzone⟩ hne
    simp only [indexNum, numKey, cons.injEq, and_true, Int.natCast_inj, UInt32.toNat_inj,
      Int32.toInt_inj] at hnum
    refine ⟨fun hepoch => hne ?_, hnum.1, hnum.2.1, hnum.2.2, hzone⟩
    obtain ⟨⟨ex, nx⟩, ox, zx⟩ := x
    cases hepoch
    cases hnum.2.1
    cases hnum.2.2
    cases hzone
    rfl
  · rintro ⟨hepoch, hutc, hnanos, hoff, hzone⟩
    refine ⟨⟨?_, hzone⟩, fun h => hepoch (h ▸ rfl)⟩
    simp only [indexNum, numKey, hutc, hnanos, hoff]

lemma decides_durations (x y : Duration) : Decides (.duration x) (.duration y)
    (x ≠ y ∧ durationOrderNanos x = durationOrderNanos y) := by
  refine decides_structural rfl rfl rfl rfl rfl (fun _ => rfl) ?_
  refine iff_comm.trans (iff_iff_not ?_ ?_ ?_)
  · rintro rfl
    exact ⟨rfl, rfl⟩
  · rintro ⟨hnum, -⟩ hne
    exact ⟨hne, (cons.inj hnum).1⟩
  · rintro ⟨hne, hnum⟩
    exact ⟨⟨congrArg (fun n : Int => [n]) hnum, rfl⟩, hne⟩

/-! ### Points -/

lemma eq_of_map_totalKey : ∀ {xs ys : List Double}, (∀ c ∈ xs, c.isNan = false) →
    xs.map totalKey = ys.map totalKey → xs = ys
  | [], [], _, _ => rfl
  | x :: xs, y :: ys, hnan, h => by
    obtain ⟨hx, hxs⟩ := forall_mem_cons.1 hnan
    obtain ⟨hkey, hrest⟩ := cons.inj h
    rw [eq_of_totalKey_eq hx hkey, eq_of_map_totalKey hxs hrest]

lemma not_isNan_of_ieeeEq : ∀ {xs ys : List Double}, xs.length = ys.length →
    (xs.zip ys).all (fun c => c.1.ieeeEq c.2) = true → ∀ c ∈ xs, c.isNan = false
  | [], _, _, _ => fun _ hc => absurd hc not_mem_nil
  | x :: xs, y :: ys, hlen, h => by
    obtain ⟨hx, hxs⟩ := Bool.and_eq_true_iff.1 h
    exact forall_mem_cons.2 ⟨(ieeeEq_iff.1 hx).1, not_isNan_of_ieeeEq (Nat.succ.inj hlen) hxs⟩

lemma all_ieeeEq_self : ∀ {xs : List Double}, (∀ c ∈ xs, c.isNan = false) →
    (xs.zip xs).all (fun c => c.1.ieeeEq c.2) = true
  | [], _ => rfl
  | x :: xs, h => by
    obtain ⟨hx, hxs⟩ := forall_mem_cons.1 h
    exact Bool.and_eq_true_iff.2 ⟨ieeeEq_iff.2 ⟨hx, hx, rfl⟩, all_ieeeEq_self hxs⟩

lemma valueEq_iff {p q : Point} :
    p.valueEq q = true ↔ p.crs = q.crs ∧ p.coords.length = q.coords.length ∧
      (p.coords.zip q.coords).all (fun c => c.1.ieeeEq c.2) = true := by
  rw [Point.valueEq, Bool.and_eq_true_iff, Bool.and_eq_true_iff, decide_eq_true_iff,
    decide_eq_true_iff, and_assoc]

lemma decides_points (p q : Point) :
    Decides (.point p) (.point q) (EqualityException (.point p) (.point q)) := by
  refine decides_of_indexKey rfl rfl rfl rfl rfl (fun _ => fromBool_eq_true) ?_
  have hkeys : (indexNum (.point p) = indexNum (.point q) ∧
    textKey (.point p) = textKey (.point q)) ↔
      p.crs = q.crs ∧ p.coords.map totalKey = q.coords.map totalKey := by
    have hmap : ∀ xs : List Double, xs.map (fun c => (c.totalKey : Int)) =
        (xs.map totalKey).map Int.ofNat := fun xs => by rw [map_map]; rfl
    simp only [indexNum, numKey, textKey, cons.injEq, and_true, hmap]
    rw [Crs.srid_injective.eq_iff, (map_injective_iff.2 @Int.ofNat.inj).eq_iff]
  rw [hkeys]
  by_cases hnan : ∃ c ∈ p.coords, c.isNan = true
  · -- A NaN is equal to nothing, and its key is equal to itself.
    obtain ⟨c, hc, hcnan⟩ := hnan
    have hneq : ¬ p.valueEq q = true := fun h => by
      obtain ⟨-, hlen, hall⟩ := valueEq_iff.1 h
      rw [not_isNan_of_ieeeEq hlen hall c hc] at hcnan
      exact Bool.false_ne_true hcnan
    rw [iff_false_right hneq]
    refine not_congr ⟨fun h => .inl ⟨h.1, h.2, c, hc, hcnan⟩, ?_⟩
    rintro (h | h)
    · exact ⟨h.1, h.2.1⟩
    · exact absurd h.1 hneq
  · have hnot : ∀ c ∈ p.coords, c.isNan = false := fun c hc =>
      Bool.eq_false_iff.2 fun hcnan => hnan ⟨c, hc, hcnan⟩
    refine iff_iff_not ?_ ?_ ?_
    · rintro ⟨hcrs, hmap⟩
      have hcoords := eq_of_map_totalKey hnot hmap
      rw [valueEq_iff, ← hcoords]
      exact ⟨hcrs, rfl, all_ieeeEq_self hnot⟩
    · exact fun heq hne => .inr ⟨heq, fun hcoords =>
        hne ⟨(valueEq_iff.1 heq).1, congrArg _ hcoords⟩⟩
    · rintro (⟨-, -, h⟩ | ⟨heq, hne⟩)
      · exact absurd h hnan
      · exact ⟨heq, fun h => hne (eq_of_map_totalKey hnot h.2)⟩

/-! ### Different classes -/

/-- The first byte of the equality key. -/
def canonicalTag : Value → UInt8
  | .integer i => if (ofInt i.toInt).toI64 = i.toInt then Tag.number else Numtag.integer
  | v => keyTag v

lemma head_of_encodeEqualityCanonical (h : encodeEqualityCanonical a = .ok k) :
    ∃ rest, k = canonicalTag a :: rest := by
  cases a with
  | integer i =>
    rw [encodeEqualityCanonical] at h
    rw [canonicalTag]
    split at h
    · exact ⟨_, by rw [if_pos ‹_›]; exact (ok.inj h).symm⟩
    · exact ⟨_, by rw [if_neg ‹_›]; exact (ok.inj h).symm⟩
  | float f => exact ⟨_, (isNan_of_encodeEqualityCanonical h).2⟩
  | _ =>
    have hk : encodeSingle _ = .ok k := h
    exact ⟨_, (encodeValue_ok hk).2⟩

/-- The rank of the class, read from the first byte. -/
def rankOfTag (tag : UInt8) : Nat :=
  match tag.toNat with
  | 0x08 => 5
  | 0x10 => 6
  | 0x11 => 7
  | 0x12 => 8
  | 0x13 => 9
  | 0x14 => 10
  | 0x15 => 11
  | 0x20 => 12
  | 0x28 => 13
  | 0x30 => 14
  | _ => 15

lemma rankOfTag_canonicalTag (h : encodeEqualityCanonical a = .ok k) :
    rankOfTag (canonicalTag a) = classRank a := by
  cases a with
  | null | list | map => exact nomatch h
  | integer i =>
    rw [canonicalTag]
    split <;> rfl
  | _ => rfl

lemma decides_of_classRank_ne (h : classRank a ≠ classRank b) : Decides a b False := by
  intro ka kb ha hb
  obtain ⟨ra, rfl⟩ := head_of_encodeEqualityCanonical ha
  obtain ⟨rb, rfl⟩ := head_of_encodeEqualityCanonical hb
  refine iff_of_true (iff_of_false (fun hk => h ?_) fun heq => h (classRank_eq_of_equals heq)) id
  rw [← rankOfTag_canonicalTag ha, ← rankOfTag_canonicalTag hb, (cons.inj hk).1]

lemma decides (a b : Value) : Decides a b (EqualityException a b) := by
  by_cases hrank : classRank a = classRank b
  · cases sameClass_of_classRank hrank with
    | nulls | lists | maps =>
      intro ka kb ha
      exact nomatch ha
    | integers => exact decides_integers
    | integerFloat => exact decides_integerFloat
    | floatInteger => exact decides_floatInteger
    | floats => exact decides_floats
    | booleans x y =>
      refine decides_structural rfl rfl rfl rfl rfl (fun _ => rfl) (iff_of_true ?_ id)
      cases x <;> cases y <;> decide
    | strings | byteStrings =>
      exact decides_structural rfl rfl rfl rfl rfl (fun _ => rfl)
        (iff_of_true (and_iff_right rfl) id)
    | dates x y | localTimes x y | localDateTimes x y =>
      refine decides_structural rfl rfl rfl rfl rfl (fun _ => rfl) (iff_of_true ?_ id)
      cases x
      cases y
      simp [indexNum, numKey, textKey, toInt_inj, UInt64.toNat_inj, UInt32.toNat_inj]
    | zonedTimes x y => exact decides_zonedTimes x y
    | zonedDateTimes x y => exact decides_zonedDateTimes x y
    | durations x y => exact decides_durations x y
    | points p q => exact decides_points p q
  · have hno : ¬ EqualityException a b := by
      cases a <;> cases b <;> first | exact id | exact absurd rfl hrank
    intro ka kb ha hb
    exact (decides_of_classRank_ne hrank ka kb ha hb).trans (not_congr (iff_of_false id hno))

end Decides

/-! ## The result -/

theorem equalityKeys_eq_iff {a b : Value} {ka kb : Bytes}
    (ha : encodeEqualityCanonical a = .ok ka) (hb : encodeEqualityCanonical b = .ok kb) :
    (ka = kb ↔ equals a b = .true) ↔ ¬ EqualityException a b :=
  decides a b ka kb ha hb

/-- `1` and `1.0` have one key, and they are equal. -/
theorem equalityKeys_eq_iff_one : ∃ k, encodeEqualityCanonical (.integer 1) = .ok k ∧
      encodeEqualityCanonical (.float ⟨0x3FF0000000000000⟩) = .ok k ∧
      equals (.integer 1) (.float ⟨0x3FF0000000000000⟩) = .true := by
  have hone : ofInt (1 : Int64).toInt = ⟨0x3FF0000000000000⟩ := by decide
  have hkey : encodeEqualityCanonical (.integer 1) =
    .ok (Tag.number :: encodeF64Bits ⟨0x3FF0000000000000⟩) := by
    rw [encodeEqualityCanonical,
      if_pos (toI64_ofInt_eq_iff.2 (.inl (units_ofInt_of_le (by decide))))]
    rfl
  have hnot : ¬ EqualityException (.integer 1) (.float ⟨0x3FF0000000000000⟩) := by
    rintro (⟨h, -⟩ | ⟨h, -⟩) <;> exact absurd h (by decide)
  exact ⟨_, hkey, rfl, ((equalityKeys_eq_iff hkey rfl).2 hnot).1 rfl⟩

/-- The zeros, `i64::MAX` with `2^63`, a month with its average length in seconds, and a point with
a NaN coordinate. -/
theorem equalityKeys_mismatch :
    (∃ ka kb, encodeEqualityCanonical (.float ⟨0x8000000000000000⟩) = .ok ka ∧
      encodeEqualityCanonical (.float ⟨0⟩) = .ok kb ∧ ka ≠ kb ∧
      equals (.float ⟨0x8000000000000000⟩) (.float ⟨0⟩) = .true) ∧
    (∃ k, encodeEqualityCanonical (.integer Int64.maxValue) = .ok k ∧
      encodeEqualityCanonical (.float twoPow63) = .ok k ∧
      equals (.integer Int64.maxValue) (.float twoPow63) = .false) ∧
    (∃ k, encodeEqualityCanonical (.duration ⟨1, 0, 0, 0⟩) = .ok k ∧
      encodeEqualityCanonical (.duration ⟨0, 0, 2629746, 0⟩) = .ok k ∧
      equals (.duration ⟨1, 0, 0, 0⟩) (.duration ⟨0, 0, 2629746, 0⟩) = .false) ∧
    (∃ k, encodeEqualityCanonical (.point ⟨.cartesian, [⟨0x7FF8000000000000⟩, ⟨0⟩], rfl⟩) = .ok k ∧
      equals (.point ⟨.cartesian, [⟨0x7FF8000000000000⟩, ⟨0⟩], rfl⟩)
        (.point ⟨.cartesian, [⟨0x7FF8000000000000⟩, ⟨0⟩], rfl⟩) = .false) := by
  refine ⟨⟨_, _, rfl, rfl, by decide +kernel, by decide +kernel⟩,
    ⟨Tag.number :: encodeF64Bits twoPow63, ?_, ?_, by decide +kernel⟩,
    ⟨_, rfl, by decide +kernel, by decide +kernel⟩, ⟨_, rfl, by decide +kernel⟩⟩
  · rw [encodeEqualityCanonical, if_pos (toI64_ofInt_eq_iff.2 (.inr rfl))]
    rfl
  · rfl

end Graphus
