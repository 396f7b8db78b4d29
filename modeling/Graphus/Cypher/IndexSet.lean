import Graphus.Index.Coarsening
import Graphus.Index.EqualitySeek
import Graphus.Lib.Dict

/-!
# Range predicates over an index

`seek_node_property_range` answers a range predicate with candidates, and its caller compares each
of them with the bounds. It widens what the index cannot express: an exclusive lower bound, an
inclusive upper bound, and an exclusive upper bound that is an integer of `2^53` or more in
magnitude.

**Theorem (`seekNodePropertyRange_complete`).** For indexable bounds, each present or not and
inclusive or not, the candidates have every record whose value is within the bounds.

Keys order a value by its double (the integer rounded) and then integers before floats; the
predicate compares exactly. Rounding is monotone, so the two differ in two places only, one on each
side:

* *lower bound*: a value at or above the bound can have a key below that of the bound, where both
  round to one double. Then the value is a zero, or an integer against a float, and one of the
  probes of the bound has a key that is low enough (`exists_probe_isLE`);
* *upper bound*: a value below the bound can have a key at or above that of the bound only where the
  bound is an integer that may be rounded (`indexCmp_eq_lt`). This is the case that is widened.
-/

namespace Graphus

open List Double
open Std.ReflOrd (compare_self)
open PropertyIndex (holds_iff lowerKey nextTokenLo seekRange)

open KeyOrder (be)

/-! ## The model -/

/-- A property index of a label; the state of its construction is not used by a seek. -/
structure NodePropertyIndex where
  index : PropertyIndex

/-- The indexes of node properties, by label and property. -/
structure IndexSet where
  nodeProps : Dict (UInt32 × UInt32) NodePropertyIndex

def isIndexEncodable (v : Value) : Bool :=
  match encodeSingle v with
  | .ok _ => true
  | .error _ => false

def lossyIntegerKeyMagnitude : Nat := 1 <<< 53

def exclusiveUpperKeyIsLossy : Value → Bool
  | .integer i => decide (lossyIntegerKeyMagnitude ≤ i.toInt.natAbs)
  | _ => false

def allCandidates (tree : Tree) (token : UInt32) : List UInt64 :=
  rids (tree.entries.filter fun e => e.1.take 4 == be 4 token.toNat)

namespace IndexSet

/-- The upper bound as the index takes it. -/
def upperKeyBound : Option (Value × Bool) → Option Value
  | some (v, false) => if !exclusiveUpperKeyIsLossy v then some v else none
  | some (_, true) => none
  | none => none

/-- A bound is a value, and whether it is inclusive. -/
def seekNodePropertyRange (set : IndexSet) (labelToken propKey : UInt32)
    (lower upper : Option (Value × Bool)) : Option (List UInt64) := do
  let np ← set.nodeProps.lookup (labelToken, propKey)
  if lower.any fun b => !isIndexEncodable b.1 then none
  else if upper.any fun b => !isIndexEncodable b.1 then none
  else
    let candidates := match lower with
      | some (v, _) => np.index.seekRange propKey v (upperKeyBound upper)
      | none => .ok (allCandidates np.index.tree propKey)
    match candidates with
    | .ok ids => some ids
    | .error _ => some []

end IndexSet

/-- Is the value at or above the bound, or above it where the bound is exclusive? -/
def satisfiesLower (v : Value) : Option (Value × Bool) → Prop
  | none => True
  | some (bound, inclusive) => compareValues v bound = some .gt ∨
      (inclusive = true ∧ compareValues v bound = some .eq)

def satisfiesUpper (v : Value) : Option (Value × Bool) → Prop
  | none => True
  | some (bound, inclusive) => compareValues v bound = some .lt ∨
      (inclusive = true ∧ compareValues v bound = some .eq)

/-! ## Numbers -/

/-- A number with its exact value, the double of its key, and the byte of its type. -/
inductive Number : Value → Int → Double → Nat → Prop
  | integer (i : Int64) : Number (.integer i) (i.toInt * scale) (ofInt i.toInt) 0
  | float (f : Double) (hf : f.isNan = false) : Number (.float f) f.units f 1

section Numbers

variable {a b : Value} {x y : Int} {d e : Double} {s t : Nat}

section

variable (h : Number a x d s)

include h

lemma Number.isNan : d.isNan = false := by
  cases h with
  | integer i => exact isNan_ofInt (natAbs_toInt_le i)
  | float f hf => exact hf

/-- Rounding does not cross a double. -/
lemma Number.units_le (hle : x ≤ e.units) : d.units ≤ e.units := by
  cases h with
  | integer i => exact units_ofInt_le (natAbs_toInt_le i) hle
  | float f hf => exact hle

lemma Number.le_units (hle : e.units ≤ x) : e.units ≤ d.units := by
  cases h with
  | integer i => exact le_units_ofInt (natAbs_toInt_le i) hle
  | float f hf => exact hle

/-- A number that rounds to a zero is a zero. -/
lemma Number.eq_zero (hd : d.units = 0) : x = 0 := by
  cases h with
  | float f hf => exact hd
  | integer i =>
    -- The doubles `1` and `-1` are between zero and every other integer.
    have hscale := intScale_pos
    have hunit : ∀ j : Int, j.natAbs ≤ 1 → (ofInt j).units = j * scale :=
      fun j hj => units_ofInt_of_le (by omega)
    rcases Int.lt_trichotomy i.toInt 0 with hi | hi | hi
    · have hle : (ofInt i.toInt).units ≤ (ofInt (-1)).units := by
        refine units_ofInt_le (natAbs_toInt_le i) ?_
        rw [hunit (-1) (by decide)]
        exact Int.mul_le_mul_of_nonneg_right (by omega) hscale.le
      rw [hunit (-1) (by decide)] at hle
      omega
    · rw [hi, Int.zero_mul]
    · have hle : (ofInt 1).units ≤ (ofInt i.toInt).units := by
        refine le_units_ofInt (natAbs_toInt_le i) ?_
        rw [hunit 1 (by decide)]
        exact Int.mul_le_mul_of_nonneg_right (by omega) hscale.le
      rw [hunit 1 (by decide)] at hle
      omega

end

lemma indexCmp_numbers (ha : Number a x d s) (hb : Number b y e t) :
    indexCmp a b = (compare d.totalKey e.totalKey).then (compare s t) := by
  cases ha <;> cases hb <;>
    simp only [indexCmp, classRank, indexNum, textKey, List.compare_cons_cons, compare_natCast,
      Ordering.then_eq, compare_self, Ordering.eq_then] <;> rfl

lemma compareValues_numbers (ha : Number a x d s) (hb : Number b y e t) :
    compareValues a b = some (compare x y) := by
  cases ha with
  | integer i =>
    cases hb with
    | integer j =>
      show some (compare i.toInt j.toInt) = _
      rcases Int.lt_trichotomy i.toInt j.toInt with h | h | h
      · rw [compare_lt_iff_lt.2 h, compare_lt_iff_lt.2 (Int.mul_lt_mul_of_pos_right h intScale_pos)]
      · rw [h, compare_self, compare_self]
      · rw [compare_gt_iff_gt.2 h, compare_gt_iff_gt.2 (Int.mul_lt_mul_of_pos_right h intScale_pos)]
    | float g hg => exact cmpIntFloat_eq hg
  | float f hf =>
    cases hb with
    | integer j =>
      show (cmpIntFloat j _).map Ordering.swap = _
      rw [cmpIntFloat_eq hf, Option.map_some, ← Std.OrientedOrd.eq_swap]
    | float g hg => exact partialCmp_of_not_isNan hf hg

end Numbers

/-- Comparable values are two numbers, or ordered as their keys. -/
inductive Comparable (a b : Value) (c : Ordering) : Prop
  | numbers {x y : Int} {d e : Double} {s t : Nat} : Number a x d s → Number b y e t →
      c = compare x y → Comparable a b c
  | keys : Indexable a → Indexable b → indexCmp a b = c → isNan b = false → Comparable a b c

variable {a b v u : Value} {c : Ordering}

lemma sameClass_of_compareValues (h : compareValues a b = some c) : SameClass a b := by
  cases a <;> cases b <;> first | constructor | exact nomatch h

lemma isNan_of_partialCmp {f g : Double} (h : f.partialCmp g = some c) :
    f.isNan = false ∧ g.isNan = false := by
  rw [partialCmp] at h
  split at h
  · cases h
  · exact Bool.or_eq_false_iff.1 (Bool.eq_false_iff.2 ‹_›)

lemma isNan_of_cmpIntFloat {i : Int64} {f : Double} (h : cmpIntFloat i f = some c) :
    f.isNan = false := by
  cases hf : f.isNan with
  | false => rfl
  | true =>
    rw [cmpIntFloat, hf] at h
    exact nomatch h

lemma comparable (ha : Indexable a) (hb : Indexable b) (h : compareValues a b = some c) :
    Comparable a b c := by
  have hnumbers : ∀ {x y : Int} {d e : Double} {s t : Nat}, Number a x d s → Number b y e t →
    Comparable a b c := by
    intro x y d e s t hna hnb
    rw [compareValues_numbers hna hnb] at h
    exact .numbers hna hnb (Option.some.inj h).symm
  -- Outside numbers, both the predicate and the key follow the order of values.
  have hkeys : cmpValues a b = c → indexNum a = numKey a → indexNum b = numKey b →
      isNan b = false → Comparable a b c := by
    intro hc hna hnb hnan
    refine .keys ha hb ?_ hnan
    rw [← hc, cmpValues_of_indexable ha hb, indexCmp, hna, hnb]
  cases sameClass_of_compareValues h with
  | nulls | lists | maps => exact ha.elim
  | integers i j => exact hnumbers (.integer i) (.integer j)
  | integerFloat i f => exact hnumbers (.integer i) (.float f (isNan_of_cmpIntFloat h))
  | floatInteger f i =>
    obtain ⟨c', hc', -⟩ := Option.map_eq_some_iff.1 h
    exact hnumbers (.float f (isNan_of_cmpIntFloat hc')) (.integer i)
  | floats f g =>
    obtain ⟨hf, hg⟩ := isNan_of_partialCmp h
    exact hnumbers (.float f hf) (.float g hg)
  | points p q =>
    rw [compareValues] at h
    split at h
    · exact hkeys (Option.some.inj h) rfl rfl rfl
    · cases h
  | booleans | strings | byteStrings | dates | localTimes | zonedTimes | localDateTimes
  | zonedDateTimes | durations => exact hkeys (Option.some.inj h) rfl rfl rfl

/-! ## The two sides of a range -/

/-- Below an upper bound whose key is not lossy, keys are below the key of the bound. -/
lemma indexCmp_eq_lt (hv : Indexable v) (hu : Indexable u)
    (hlossy : exclusiveUpperKeyIsLossy u = false) (h : compareValues v u = some .lt) :
    indexCmp v u = .lt := by
  cases comparable hv hu h with
  | keys _ _ hcmp _ => exact hcmp
  | numbers hna hnb hcmp =>
    have hlt := compare_lt_iff_lt.1 hcmp.symm
    have hkey := @totalKey_lt_of_units_lt _ _ hna.isNan hnb.isNan
    rw [indexCmp_numbers hna hnb]
    cases hnb with
    | integer j =>
      have hj : j.toInt.natAbs < 2 ^ 53 := not_le.1 (of_decide_eq_false hlossy)
      rw [compare_lt_iff_lt.2 (hkey ?_)]
      · rfl
      cases hna with
      | integer i =>
        exact units_ofInt_lt (natAbs_toInt_le i) hj.le (by omega)
          (Int.lt_of_mul_lt_mul_right hlt intScale_pos.le)
      | float f hf =>
        rw [units_ofInt_of_le hj.le]
        exact hlt
    | float g hg =>
      rcases (hna.units_le hlt.le).lt_or_eq with hunits | hunits
      · rw [compare_lt_iff_lt.2 (hkey hunits)]
        rfl
      -- An integer that rounds up to the bound: integers are before floats.
      cases hna with
      | float f hf => exact absurd hunits hlt.ne
      | integer i =>
        by_cases hzero : (ofInt i.toInt).units = 0
        · have hx := (Number.integer i).eq_zero hzero
          rw [← hunits, hzero, hx] at hlt
          exact absurd hlt (lt_irrefl _)
        · rw [eq_of_units_eq hunits hzero, compare_self]
          rfl

section Lower

variable {a b : Value} {x y : Int} {d e : Double} {s t : Nat}

lemma Number.isNan_value (h : Number a x d s) : Graphus.isNan a = false := by
  cases h with
  | integer i => rfl
  | float f hf => exact hf

/-- Rounding is monotone. -/
lemma Number.units_le_units (ha : Number a x d s) (hb : Number b y e t) (hle : y ≤ x) :
    e.units ≤ d.units := by
  cases ha with
  | float f hf => exact hb.units_le hle
  | integer i =>
    cases hb with
    | float g hg => exact (Number.integer i).le_units hle
    | integer j =>
      exact units_le_of_totalKey_le (isNan_ofInt (natAbs_toInt_le j))
        (isNan_ofInt (natAbs_toInt_le i)) (totalKey_ofInt_mono (natAbs_toInt_le j)
          (natAbs_toInt_le i) (Int.le_of_mul_le_mul_right hle intScale_pos))

/-- The zeros are the probes of a zero. -/
lemma mem_probes_of_zero (ha : Number a x d s) (hb : Number b y e t) (hx : x = 0) (hy : y = 0) :
    a ∈ numericEqualProbes b := by
  have hint : ∀ {i : Int64}, i.toInt * scale = 0 → i = 0 := fun h =>
    Int64.toInt_inj.1 ((Int.mul_eq_zero.1 h).resolve_right intScale_pos.ne')
  have hzero : isZero b = true := by
    cases hb with
    | integer j => rw [hint hy]; rfl
    | float g hg => exact (isZero_float hg).2 hy
  rw [numericEqualProbes_of_isZero hzero]
  cases ha with
  | integer i => rw [hint hx]; exact mem_cons_self
  | float f hf => exact float_mem_of_units_eq_zero hx

/-- A float at or below an integer that rounds to it has an integer as its sibling. -/
lemma exists_integer_probe {i : Int64} {g : Double} (hg : ofInt i.toInt = g)
    (hle : g.units ≤ i.toInt * scale) (hzero : g.units ≠ 0) :
    ∃ k : Int64, .integer k ∈ numericEqualProbes (.float g) ∧ ofInt k.toInt = g := by
  subst hg
  obtain ⟨k, hk⟩ := isWhole_ofInt (natAbs_toInt_le i)
  rw [Int.mul_comm] at hk
  have hlow : -2 ^ 63 ≤ k := by
    have hmin : (ofInt (-2 ^ 63)).units ≤ (ofInt i.toInt).units := by
      refine le_units_ofInt (natAbs_toInt_le i) ?_
      rw [units_ofInt_neg_two_pow]
      exact Int.mul_le_mul_of_nonneg_right i.le_toInt intScale_pos.le
    rw [units_ofInt_neg_two_pow, hk] at hmin
    exact Int.le_of_mul_le_mul_right hmin intScale_pos
  have hhigh : k < 2 ^ 63 := by
    rw [hk] at hle
    exact lt_of_le_of_lt (Int.le_of_mul_le_mul_right hle intScale_pos) i.toInt_lt
  have hto : (Int64.ofInt k).toInt = k := Int64.toInt_ofInt_of_le hlow hhigh
  have hunits : (ofInt i.toInt).units = (Int64.ofInt k).toInt * scale := by rw [hto, hk]
  refine ⟨Int64.ofInt k, mem_probes_integerFloat (isNan_ofInt (natAbs_toInt_le i)) hunits, ?_⟩
  rcases eq_ofInt_of_units_eq hunits with h | ⟨-, h⟩
  · exact h.symm
  · exact absurd (by rw [h]; rfl) hzero

/-- At or above a lower bound, some probe of the bound has a key at or below. -/
lemma exists_probe_isLE {v l : Value} {c : Ordering} (hv : Indexable v) (hl : Indexable l)
    (h : compareValues v l = some c) (hc : c ≠ .lt) :
    ∃ q ∈ numericEqualProbes l, (indexCmp q v).isLE = true := by
  cases comparable hv hl h with
  | keys _ _ hcmp hnan =>
    refine ⟨l, self_mem_numericEqualProbes hnan, ?_⟩
    rw [show indexCmp l v = (indexCmp v l).swap from Std.OrientedCmp.eq_swap, hcmp]
    cases c <;> first | rfl | exact absurd rfl hc
  | @numbers x y d e s t hna hnb hcmp =>
    have hle : y ≤ x := Int.not_lt.1 fun hlt => hc (hcmp.trans (compare_lt_iff_lt.2 hlt))
    have hself := self_mem_numericEqualProbes hnb.isNan_value
    have hcmpKeys := indexCmp_numbers hnb hna
    rcases (hna.units_le_units hnb hle).lt_or_eq with hunits | hunits
    · refine ⟨l, hself, ?_⟩
      rw [hcmpKeys, compare_lt_iff_lt.2 (totalKey_lt_of_units_lt hnb.isNan hna.isNan hunits)]
      rfl
    by_cases hzero : e.units = 0
    · refine ⟨v, mem_probes_of_zero hna hnb (hna.eq_zero (hunits ▸ hzero)) (hnb.eq_zero hzero), ?_⟩
      rw [indexCmp_numbers hna hna, compare_self, compare_self]
      rfl
    -- One double: the types decide, and only a float is above an integer.
    have hde : e = d := eq_of_units_eq hunits hzero
    rw [hde, compare_self] at hcmpKeys
    cases hna with
    | float f hf =>
      refine ⟨l, hself, ?_⟩
      rw [hcmpKeys]
      cases hnb <;> decide
    | integer i =>
      cases hnb with
      | integer j => exact ⟨_, hself, by rw [hcmpKeys]; decide⟩
      | float g hg =>
        obtain ⟨k, hmem, hk⟩ := exists_integer_probe hde.symm hle hzero
        refine ⟨.integer k, hmem, ?_⟩
        rw [indexCmp_integers, hk, hde, compare_self]
        rfl

end Lower

/-! ## The scan of a range -/

/-- The scan starts at or below the key of every probe. -/
lemma foldlM_lowerKey (token : UInt32) {probes : List Value} (hp : ∀ q ∈ probes, Indexable q) :
    ∀ lo : Option Bytes, ∃ res, probes.foldlM (fun lo probe => do
        let key := tokenValueLo token (← encodeOrStorageErr probe)
        return if lo.all fun cur => compare key cur == .lt then some key else lo) lo =
          (.ok res : Except GraphusError _) ∧
      (∀ k ∈ lo, ∃ r ∈ res, (compare r k).isLE = true) ∧
      ∀ q ∈ probes, ∃ r ∈ res, (compare r (tokenValueLo token (valueKey q))).isLE = true := by
  induction probes with
  | nil =>
    refine fun lo => ⟨lo, rfl, fun k hk => ⟨k, hk, ?_⟩, fun _ hq => absurd hq not_mem_nil⟩
    rw [compare_self]
    rfl
  | cons q probes ih =>
    intro lo
    obtain ⟨hq, hprobes⟩ := forall_mem_cons.1 hp
    -- The accumulator after this probe is at or below both.
    have hstep : ∃ acc, (if lo.all fun cur => compare (tokenValueLo token (valueKey q)) cur == .lt
          then some (tokenValueLo token (valueKey q)) else lo) = some acc ∧
        (∀ k ∈ lo, (compare acc k).isLE = true) ∧
        (compare acc (tokenValueLo token (valueKey q))).isLE = true := by
      cases lo with
      | none =>
        refine ⟨_, rfl, by simp, ?_⟩
        rw [compare_self]
        rfl
      | some cur =>
        rw [Option.all_some]
        cases hcmp : compare (tokenValueLo token (valueKey q)) cur with
        | lt =>
          refine ⟨_, rfl, fun k hk => ?_, ?_⟩
          · cases hk
            rw [hcmp]
            rfl
          · rw [compare_self]
            rfl
        | eq | gt =>
          refine ⟨_, rfl, fun k hk => ?_, ?_⟩
          · cases hk
            rw [compare_self]
            rfl
          · rw [Std.OrientedOrd.eq_swap, hcmp]
            rfl
    obtain ⟨acc, hacc, hlo, hkey⟩ := hstep
    obtain ⟨res, hres, hall, hrest⟩ := ih hprobes (some acc)
    obtain ⟨r, hr, hle⟩ := hall acc rfl
    refine ⟨res, ?_, fun k hk => ⟨r, hr, Std.TransCmp.isLE_trans hle (hlo k hk)⟩, ?_⟩
    · rw [foldlM_cons, encodeOrStorageErr_eq hq]
      show probes.foldlM _ _ = _
      rw [hacc]
      exact hres
    · exact forall_mem_cons.2 ⟨⟨r, hr, Std.TransCmp.isLE_trans hle hkey⟩, hrest⟩

section Scan

variable {ix : PropertyIndex} {token : UInt32} {v l : Value} {rid : UInt64}

/-- What a value needs to be visited by the scan. -/
lemma mem_seekRange (hold : ix.Holds token v rid) (hl : Indexable l) {hi : Option Value}
    (hhi : ∀ u ∈ hi, Indexable u ∧ indexCmp v u = .lt)
    (hlo : ∃ q ∈ numericEqualProbes l, (indexCmp q v).isLE = true) :
    ∃ ids, ix.seekRange token l hi = .ok ids ∧ rid ∈ ids := by
  have hv := hold.indexable
  have hvs : ∀ x ∈ [v], Indexable x := forall_mem_singleton.2 hv
  obtain ⟨q, hq, hqv⟩ := hlo
  have hqs : ∀ x ∈ [q], Indexable x := forall_mem_singleton.2 (indexable_of_mem_probes hl hq)
  have hlex : ∀ a b : Value, List.compareLex indexCmp [a] [b] = indexCmp a b := fun a b => by
    rw [List.compareLex_cons_cons, List.compareLex_nil_nil, Ordering.then_eq]
  obtain ⟨res, hres, -, hall⟩ :=
    foldlM_lowerKey token (fun q hq => indexable_of_mem_probes hl hq) none
  obtain ⟨lo, hlo, hle⟩ := hall q hq
  cases hlo
  have hlower : lowerKey token l = .ok (some lo) := hres
  have hfrom : (compare lo (tokenValueIdKey token (valueKey v) rid)).isLE = true := by
    refine Std.TransCmp.isLE_trans hle ?_
    have hkey := isLE_compare_lo hvs hqs rfl token rid
    rw [flatMap_singleton, flatMap_singleton, hlex] at hkey
    exact hkey.2 hqv
  rw [holds_iff hv] at hold
  rw [seekRange, hlower]
  cases hi with
  | none =>
    refine ⟨_, rfl, mem_rids_of_mem (OrderedMap.mem_scan.2 ⟨hold, hfrom, fun k hk => ?_⟩)⟩
    -- The next token is above every key of this one.
    rw [nextTokenLo] at hk
    split at hk
    case isTrue hnext =>
      cases hk
      have hcmp := @KeyOrder.compare_be_append 4 token.toNat (token.toNat + 1) token.toNat_lt hnext
        (valueKey v ++ be 8 rid.toNat) []
      rw [compare_lt_iff_lt.2 (Nat.lt_succ_self _)] at hcmp
      exact hcmp
    case isFalse => cases hk
  | some u =>
    obtain ⟨hu, hlt⟩ := hhi u rfl
    have hus : ∀ x ∈ [u], Indexable x := forall_mem_singleton.2 hu
    show ∃ ids, (do
      let hiTail ← encodeOrStorageErr u
      return rids (ix.tree.scan lo (some (tokenValueLo token hiTail)))) = Except.ok ids ∧ _
    rw [encodeOrStorageErr_eq hu]
    refine ⟨_, rfl, mem_rids_of_mem (OrderedMap.mem_scan.2 ⟨hold, hfrom, fun k hk => ?_⟩)⟩
    cases hk
    have hkey := compare_lo_eq_lt hvs hus rfl token rid
    rw [flatMap_singleton, flatMap_singleton, hlex] at hkey
    exact hkey.2 hlt

lemma mem_allCandidates (hold : ix.Holds token v rid) : rid ∈ allCandidates ix.tree token := by
  rw [holds_iff hold.indexable] at hold
  refine mem_rids_of_mem (mem_filter.2 ⟨hold, beq_iff_eq.2 ?_⟩)
  exact take_left' (KeyOrder.length_be 4 token.toNat)

end Scan

/-! ## The result -/

lemma isIndexEncodable_of_indexable (h : Indexable v) : isIndexEncodable v = true := by
  rw [isIndexEncodable, encodeSingle, encodeValue_eq h]

/-- The upper bound that reaches the index is above the value. -/
lemma indexCmp_upperKeyBound {upper : Option (Value × Bool)} (hv : Indexable v)
    (hupper : ∀ b ∈ upper, Indexable b.1) (h : satisfiesUpper v upper)
    (hu : u ∈ IndexSet.upperKeyBound upper) : Indexable u ∧ indexCmp v u = .lt := by
  match upper with
  | none | some (_, true) => exact nomatch hu
  | some (b, false) =>
    rw [IndexSet.upperKeyBound] at hu
    cases hlossy : exclusiveUpperKeyIsLossy b with
    | true =>
      rw [hlossy] at hu
      exact nomatch hu
    | false =>
      rw [hlossy] at hu
      cases hu
      have hlt := h.resolve_right fun h => nomatch h.1
      exact ⟨hupper _ rfl, indexCmp_eq_lt hv (hupper _ rfl) hlossy hlt⟩

theorem seekNodePropertyRange_complete {set : IndexSet} {labelToken propKey : UInt32}
    {np : NodePropertyIndex} {v : Value} {rid : UInt64} {lower upper : Option (Value × Bool)}
    (hnp : set.nodeProps.lookup (labelToken, propKey) = some np)
    (hold : np.index.Holds propKey v rid)
    (hlower : ∀ b ∈ lower, Indexable b.1) (hupper : ∀ b ∈ upper, Indexable b.1)
    (hlo : satisfiesLower v lower) (hhi : satisfiesUpper v upper) :
    ∃ ids, set.seekNodePropertyRange labelToken propKey lower upper = some ids ∧ rid ∈ ids := by
  have hencodable : ∀ {bound : Option (Value × Bool)}, (∀ b ∈ bound, Indexable b.1) →
      (bound.any fun b => !isIndexEncodable b.1) = false := by
    intro bound hbound
    cases bound with
    | none => rfl
    | some b => rw [Option.any_some, isIndexEncodable_of_indexable (hbound b rfl)]; rfl
  rw [IndexSet.seekNodePropertyRange, hnp]
  simp only [Option.bind_eq_bind, Option.bind_some, hencodable hlower, hencodable hupper,
    Bool.false_eq_true, if_false]
  match lower with
  | none => exact ⟨_, rfl, mem_allCandidates hold⟩
  | some (l, inclusive) =>
    have hl : Indexable l := hlower _ rfl
    have hprobe : ∃ q ∈ numericEqualProbes l, (indexCmp q v).isLE = true := by
      rcases hlo with hgt | ⟨-, heq⟩
      · exact exists_probe_isLE hold.indexable hl hgt (by decide)
      · exact exists_probe_isLE hold.indexable hl heq (by decide)
    obtain ⟨ids, hids, hmem⟩ := mem_seekRange hold hl
      (fun u hu => indexCmp_upperKeyBound hold.indexable hupper hhi hu) hprobe
    exact ⟨ids, by simp only [hids], hmem⟩

/-- A stored `2020` is found from `2020.0` on and below `2021`. Its key is below that of
`2020.0`. -/
theorem seekNodePropertyRange_complete_year :
    ∃ (set : IndexSet) (np : NodePropertyIndex) (ids : List UInt64),
      set.nodeProps.lookup (1, 3) = some np ∧ np.index.Holds 3 (.integer 2020) 7 ∧
      set.seekNodePropertyRange 1 3 (some (.float ⟨0x409F900000000000⟩, true))
        (some (.integer 2021, false)) = some ids ∧ 7 ∈ ids := by
  have hv : Indexable (.integer 2020) := trivial
  have hold : PropertyIndex.Holds ⟨single 3 [.integer 2020] 7⟩ 3 (.integer 2020) 7 :=
    (holds_iff hv).2 (mem_singleton.2 rfl)
  have hlookup : (AList.insert (1, 3) ⟨⟨single 3 [.integer 2020] 7⟩⟩ ∅ :
      Dict (UInt32 × UInt32) NodePropertyIndex).lookup (1, 3) =
        some ⟨⟨single 3 [.integer 2020] 7⟩⟩ := AList.lookup_insert _
  obtain ⟨ids, hids⟩ := @seekNodePropertyRange_complete ⟨_⟩ 1 3 _ _ _
    (some (.float ⟨0x409F900000000000⟩, true)) (some (.integer 2021, false)) hlookup hold
    (by simp [Indexable]) (by simp [Indexable]) (.inr ⟨rfl, by decide +kernel⟩)
    (.inl (by decide +kernel))
  exact ⟨_, _, ids, hlookup, hold, hids⟩

end Graphus
