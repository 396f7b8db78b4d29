import Graphus.Index.Kinds

/-!
# An equality seek finds what is equal

A seek returns candidates, and its caller compares each with the probe. A record that is equal and
is not among the candidates is lost.

**Theorem (`seekEq_complete_iff`).** Let a stored value be equal to the probe. Every index that
holds it returns its record, if and only if the two are not points with different coordinates. The
same holds for tuples, where no component may be such a pair.

The probes of a number are all the numbers equal to it (`mem_numericEqualProbes`). This rests on
`encode_equality_canonical` keeping the sibling: it does for each integer that is a double, and a
float with the value of an integer is the conversion of it, or a zero. Other values are their own
only probe. That is enough where equal values are the same, and points are the exception:
coordinates compare as floats, so that `0.0` and `-0.0` are equal, and their keys differ.
-/

namespace Graphus

open List Double
open CompositeIndex (combos holds_iff seekEq)

/-- Points with different coordinates. Where they are equal, they differ in the sign of a zero. -/
def SignedZeroPoints : Value → Value → Prop
  | .point p, .point q => p.coords ≠ q.coords
  | _, _ => False

/-! ## The probes of a value -/

section Probes

variable {i : Int64} {f : Double} {v p q : Value}

lemma numericEqualSibling_eq {k : Bytes} (h : siblingCandidate p = some q)
    (hp : encodeEqualityCanonical p = .ok k) (hq : encodeEqualityCanonical q = .ok k) :
    numericEqualSibling p = some q := by
  rw [numericEqualSibling, h]
  simp only [hp, hq, if_true]

lemma encodeEqualityCanonical_of_isDouble (h : IsDouble i) : encodeEqualityCanonical (.integer i) =
    .ok ([Tag.number] ++ encodeF64Bits (ofInt i.toInt)) := by
  rw [encodeEqualityCanonical, if_pos (toI64_ofInt_eq_iff.2 (.inl h))]

lemma encodeEqualityCanonical_ofInt (i : Int64) : encodeEqualityCanonical (.float (ofInt i.toInt)) =
      .ok ([Tag.number] ++ encodeF64Bits (ofInt i.toInt)) := by
  rw [encodeEqualityCanonical, isNan_ofInt (natAbs_toInt_le i)]
  rfl

lemma numericEqualSibling_integer (h : IsDouble i) :
    numericEqualSibling (.integer i) = some (.float (ofInt i.toInt)) :=
  numericEqualSibling_eq rfl (encodeEqualityCanonical_of_isDouble h)
    (encodeEqualityCanonical_ofInt i)

lemma numericEqualSibling_float (h : IsDouble i) :
    numericEqualSibling (.float (ofInt i.toInt)) = some (.integer i) := by
  have hback : Int64.ofInt (ofInt i.toInt).toI64 = i := by
    rw [toI64_ofInt_eq_iff.2 (.inl h), Int64.ofInt_toInt]
  refine numericEqualSibling_eq ?_ (encodeEqualityCanonical_ofInt i)
    (encodeEqualityCanonical_of_isDouble h)
  rw [siblingCandidate, isFinite_ofInt (natAbs_toInt_le i),
    decide_eq_true (isWhole_ofInt (natAbs_toInt_le i)), hback]
  rfl

lemma isZero_float (h : f.isNan = false) : isZero (.float f) = true ↔ f.units = 0 := by
  rw [isZero, ieeeEq_iff]
  exact ⟨fun h' => h'.2.2, fun h' => ⟨h, rfl, h'⟩⟩

lemma float_mem_of_units_eq_zero (h : f.units = 0) : (.float f : Value) ∈
    ([.integer 0, .float ⟨0⟩, .float ⟨0x8000000000000000⟩] : List Value) := by
  rcases eq_zero_of_units h with rfl | rfl <;> simp

lemma numericEqualProbes_of_isZero (h : isZero p = true) :
    numericEqualProbes p = [.integer 0, .float ⟨0⟩, .float ⟨0x8000000000000000⟩] := if_pos h

lemma sibling_mem (hz : isZero p = false) (h : numericEqualSibling p = some q) :
    q ∈ numericEqualProbes p := by
  rw [numericEqualProbes, hz, h]
  simp

lemma self_mem_numericEqualProbes (hnan : isNan p = false) : p ∈ numericEqualProbes p := by
  cases hz : isZero p with
  | false =>
    rw [numericEqualProbes, hz, if_neg Bool.false_ne_true]
    split <;> simp
  | true =>
    rw [numericEqualProbes_of_isZero hz]
    cases p with
    | integer i => rw [eq_of_beq hz]; simp
    | float f => exact float_mem_of_units_eq_zero ((isZero_float hnan).1 hz)
    | _ => exact nomatch hz

lemma mem_probes_integerFloat (hf : f.isNan = false) (h : f.units = i.toInt * scale) :
    .integer i ∈ numericEqualProbes (.float f) := by
  by_cases hzero : f.units = 0
  · have hi : i = 0 := by
      exact Int64.toInt_inj.1
        ((Int.mul_eq_zero.1 (h.symm.trans hzero)).resolve_right intScale_pos.ne')
    rw [numericEqualProbes_of_isZero ((isZero_float hf).2 hzero), hi]
    simp
  · have hz : isZero (.float f) = false :=
      Bool.eq_false_iff.2 fun hz => hzero ((isZero_float hf).1 hz)
    rcases eq_ofInt_of_units_eq h with rfl | ⟨rfl, rfl⟩
    · exact sibling_mem hz (numericEqualSibling_float (isDouble_of_units_eq h))
    · exact absurd rfl hzero

lemma mem_probes_floatInteger (h : f.units = i.toInt * scale) :
    .float f ∈ numericEqualProbes (.integer i) := by
  by_cases hi : i = 0
  · subst hi
    exact float_mem_of_units_eq_zero (h.trans (Int.zero_mul _))
  · rcases eq_ofInt_of_units_eq h with rfl | ⟨hi', -⟩
    · exact sibling_mem (beq_false_of_ne hi) (numericEqualSibling_integer (isDouble_of_units_eq h))
    · exact absurd hi' hi

lemma mem_probes_floats {g : Double} (h : f.ieeeEq g = true) :
    .float f ∈ numericEqualProbes (.float g) := by
  obtain ⟨-, hg, hunits⟩ := ieeeEq_iff.1 h
  by_cases hzero : f.units = 0
  · rw [numericEqualProbes_of_isZero ((isZero_float hg).2 (hunits.symm.trans hzero))]
    exact float_mem_of_units_eq_zero hzero
  · rw [eq_of_units_eq hunits hzero]
    exact self_mem_numericEqualProbes hg

/-- Values that are equal are among the probes. -/
lemma mem_numericEqualProbes (hv : Indexable v) (heq : equals v p = .true)
    (hno : ¬ SignedZeroPoints v p) : v ∈ numericEqualProbes p := by
  obtain ⟨hnv, hnp, hdeep⟩ := deepEquals_of_equals heq
  cases sameClass_of_equals heq with
  | nulls | lists | maps => exact hv.elim
  | integerFloat i f => exact mem_probes_integerFloat hnp ((equals_integerFloat hnp).1 heq)
  | floatInteger f i => exact mem_probes_floatInteger ((equals_floatInteger hnv).1 heq)
  | floats f g => exact mem_probes_floats ((equals_floats hnv hnp).1 heq)
  | points x y =>
    have hcrs := (valueEq_iff.1 (fromBool_eq_true.1 hdeep)).1
    have hcoords : x.coords = y.coords := Classical.not_not.1 hno
    cases x
    cases y
    cases hcrs
    cases hcoords
    exact self_mem_numericEqualProbes rfl
  | integers x y | booleans x y | strings x y | byteStrings x y | dates x y | localTimes x y
  | zonedTimes x y | localDateTimes x y | zonedDateTimes x y | durations x y =>
    cases eq_of_beq (fromBool_eq_true.1 hdeep)
    exact self_mem_numericEqualProbes rfl

lemma siblingCandidate_of_sibling (h : numericEqualSibling p = some q) :
    siblingCandidate p = some q := by
  rw [numericEqualSibling] at h
  split at h
  · exact nomatch h
  split at h
  · split at h
    · rw [← h]; assumption
    · exact nomatch h
  · exact nomatch h

lemma indexable_of_sibling (h : numericEqualSibling p = some q) : Indexable q := by
  have hc := siblingCandidate_of_sibling h
  cases p with
  | integer i => cases hc; trivial
  | float f =>
    rw [siblingCandidate] at hc
    split at hc
    · cases hc; trivial
    · exact nomatch hc
  | _ => exact nomatch hc

lemma indexable_of_mem_probes (hp : Indexable p) (hq : q ∈ numericEqualProbes p) : Indexable q := by
  rw [numericEqualProbes] at hq
  split at hq
  · simp only [mem_cons, not_mem_nil, or_false] at hq
    rcases hq with rfl | rfl | rfl <;> trivial
  split at hq
  case h_1 s hs =>
    simp only [mem_cons, not_mem_nil, or_false] at hq
    rcases hq with rfl | rfl
    · exact hp
    · exact indexable_of_sibling hs
  case h_2 => exact mem_singleton.1 hq ▸ hp

/-- Equal points with different coordinates have different keys, and one probe. -/
lemma valueKey_ne_of_signedZeroPoints (heq : equals v p = .true) (h : SignedZeroPoints v p)
    (hq : q ∈ numericEqualProbes p) : valueKey q ≠ valueKey v := by
  obtain ⟨-, -, hdeep⟩ := deepEquals_of_equals heq
  cases sameClass_of_equals heq with
  | points x y =>
    intro hkey
    obtain ⟨-, hlen, hall⟩ := valueEq_iff.1 (fromBool_eq_true.1 hdeep)
    rw [mem_singleton.1 hq, @valueKey_eq_iff (.point y) (.point x) trivial trivial] at hkey
    have hmap : (y.coords.map fun c => (c.totalKey : Int)) = x.coords.map fun c =>
      (c.totalKey : Int) :=
      (cons.inj hkey.2.1).2
    have hnat : x.coords.map totalKey = y.coords.map totalKey := by
      have hinj := map_injective_iff.2 @Int.ofNat.inj
      apply hinj
      rw [map_map, map_map]
      exact hmap.symm
    exact h (eq_of_map_totalKey (not_isNan_of_ieeeEq hlen hall) hnat)
  | _ => exact h.elim

end Probes

/-! ## The seeks -/

variable {token : UInt32}

variable {rid : UInt64}

/-- The record ids under one key. -/
abbrev ridsUnder (tree : Tree) (token : UInt32) (key : Bytes) : List UInt64 :=
  ridsInRange tree (tokenValueLo token key) (tokenValueHi token key)

lemma mem_sorted_iff {found : List UInt64} :
    (∃ ids, (Except.ok (sortDedup found) : Except GraphusError _) = .ok ids ∧ rid ∈ ids) ↔
    rid ∈ found := by
  constructor
  · rintro ⟨ids, hids, hmem⟩
    cases hids
    exact mem_sortDedup.1 hmem
  · exact fun hmem => ⟨_, rfl, mem_sortDedup.2 hmem⟩

lemma mem_seekEq_iff {ix : PropertyIndex} {p : Value} (hp : Indexable p) :
    (∃ ids, ix.seekEq token p = .ok ids ∧ rid ∈ ids) ↔
    ∃ q ∈ numericEqualProbes p, rid ∈ ridsUnder ix.tree token (valueKey q) := by
  have hloop := @foldlM_append_eq Value (fun out probe => do
      let ids ← ix.seekEqExact token probe
      return out ++ ids)
    (fun q => ridsUnder ix.tree token (valueKey q))
    (numericEqualProbes p) (fun q hq out => by
      rw [PropertyIndex.seekEqExact, encodeOrStorageErr_eq (indexable_of_mem_probes hp hq)]
      rfl) []
  rw [PropertyIndex.seekEq, hloop, ← mem_flatMap]
  exact mem_sorted_iff

lemma mem_combos_aux (ps : List Value) :
    ∀ (acc : List (List Value)) (c : List Value), c ∈ ps.foldl (fun combos v =>
      combos.flatMap fun c => (numericEqualProbes v).map fun a => c ++ [a]) acc ↔
    ∃ b ∈ acc, ∃ qs, List.Forall₂ (fun q p => q ∈ numericEqualProbes p) qs ps ∧ c = b ++ qs := by
  induction ps with
  | nil => simp
  | cons p ps ih =>
    intro acc c
    rw [foldl_cons, ih]
    constructor
    · rintro ⟨b, hb, qs, hqs, rfl⟩
      obtain ⟨b', hb', hmem⟩ := mem_flatMap.1 hb
      obtain ⟨q, hq, rfl⟩ := mem_map.1 hmem
      exact ⟨b', hb', q :: qs, .cons hq hqs, append_assoc ..⟩
    · rintro ⟨b, hb, qs, hqs, rfl⟩
      cases hqs with
      | @cons q _ qs _ hq hqs =>
        refine ⟨b ++ [q], mem_flatMap.2 ⟨b, hb, mem_map.2 ⟨q, hq, rfl⟩⟩, qs, hqs, ?_⟩
        rw [append_assoc]
        rfl

variable {ps qs vs : List Value}

/-- A combination has a probe for each component. -/
lemma mem_combos : qs ∈ combos ps ↔ List.Forall₂ (fun q p => q ∈ numericEqualProbes p) qs ps := by
  rw [combos, mem_combos_aux]
  simp

lemma indexable_of_mem_combos (hp : ∀ p ∈ ps, Indexable p) (h : qs ∈ combos ps) :
    ∀ q ∈ qs, Indexable q := by
  induction mem_combos.1 h with
  | nil => exact fun _ hq => absurd hq not_mem_nil
  | cons hq hqs ih =>
    obtain ⟨hp, hps⟩ := forall_mem_cons.1 hp
    exact forall_mem_cons.2 ⟨indexable_of_mem_probes hp hq, ih hps (mem_combos.2 hqs)⟩

lemma mem_compositeSeekEq_iff {ix : CompositeIndex} (hp : ∀ p ∈ ps, Indexable p)
    (harity : ps.length = ix.arity) :
    (∃ ids, ix.seekEq token ps = .ok ids ∧ rid ∈ ids) ↔
    ∃ qs ∈ combos ps, rid ∈ ridsUnder ix.tree token (qs.flatMap valueKey) := by
  have hcheck : ix.checkArity ps.length = .ok () := if_neg (Classical.not_not.2 harity)
  have hloop := @foldlM_append_eq (List Value) (fun out combo => do
      let tail ← compositeTail combo
      return out ++ ridsUnder ix.tree token tail)
    (fun qs => ridsUnder ix.tree token (qs.flatMap valueKey))
    (combos ps) (fun qs hqs out => by
      rw [compositeTail_eq (indexable_of_mem_combos hp hqs)]
      rfl) []
  rw [seekEq, hcheck, ← mem_flatMap]
  rw [hloop]
  exact mem_sorted_iff

/-! ## Visited entries -/

lemma mem_ridsUnder_of_mem {tree : Tree} (hv : ∀ v ∈ vs, Indexable v)
    (h : (tokenValueIdKey token (vs.flatMap valueKey) rid, ridPayload rid) ∈ tree.entries) :
    rid ∈ ridsUnder tree token (vs.flatMap valueKey) :=
  mem_rids_of_mem (mem_filter.2 ⟨h, (inRange_iff hv hv rfl token rid).2 rfl⟩)

/-- The tree with one entry. -/
def single (token : UInt32) (vs : List Value) (rid : UInt64) : Tree :=
  ⟨[(tokenValueIdKey token (vs.flatMap valueKey) rid, ridPayload rid)], pairwise_singleton _ _⟩

lemma keys_eq_of_mem_single {rid rid' : UInt64}
    (hv : ∀ v ∈ vs, Indexable v) (hq : ∀ v ∈ qs, Indexable v) (hlen : qs.length = vs.length)
    (h : rid' ∈ ridsUnder (single token vs rid) token (qs.flatMap valueKey)) :
    qs.flatMap valueKey = vs.flatMap valueKey := by
  obtain ⟨e, he, -⟩ := mem_filterMap.1 h
  obtain ⟨hmem, hin⟩ := mem_filter.1 he
  rw [mem_singleton.1 hmem] at hin
  exact (inRange_iff hv hq hlen token rid).1 hin

/-- The keys of a tuple can be read off its key. -/
lemma forall₂_valueKey_eq : ∀ {qs vs : List Value}, (∀ q ∈ qs, Indexable q) →
    (∀ v ∈ vs, Indexable v) → qs.length = vs.length → qs.flatMap valueKey = vs.flatMap valueKey →
    List.Forall₂ (fun q v => valueKey q = valueKey v) qs vs
  | [], [], _, _, _, _ => .nil
  | q :: qs, v :: vs, hq, hv, hlen, h => by
    obtain ⟨hq, hqs⟩ := forall_mem_cons.1 hq
    obtain ⟨hv, hvs⟩ := forall_mem_cons.1 hv
    have hcmp := faithful_valueKey q v hq hv (qs.flatMap valueKey) (vs.flatMap valueKey)
    rw [← flatMap_cons, ← flatMap_cons, h, Std.ReflOrd.compare_self] at hcmp
    obtain ⟨hhead, htail⟩ := Ordering.then_eq_eq.1 hcmp.symm
    exact .cons ((faithful_valueKey.eq_iff hq hv).2 hhead) (forall₂_valueKey_eq hqs hvs
      (Nat.succ.inj hlen) (Std.LawfulEqOrd.eq_of_compare htail))

/-- A combination with the key of the stored tuple leaves no component to the exception. -/
lemma not_signedZeroPoints_of_keys (heq : List.Forall₂ (fun v p => equals v p = .true) vs ps)
    (hqs : List.Forall₂ (fun q p => q ∈ numericEqualProbes p) qs ps)
    (hkeys : List.Forall₂ (fun q v => valueKey q = valueKey v) qs vs) :
    List.Forall₂ (fun v p => ¬ SignedZeroPoints v p) vs ps := by
  induction heq generalizing qs with
  | nil => exact .nil
  | cons hvp _ ih =>
    cases hqs with
    | cons hq hqs =>
      cases hkeys with
      | cons hkey hkeys =>
        exact .cons (fun h => valueKey_ne_of_signedZeroPoints hvp h hq hkey) (ih hqs hkeys)

lemma mem_combos_of_equals (hv : ∀ v ∈ vs, Indexable v)
    (heq : List.Forall₂ (fun v p => equals v p = .true) vs ps)
    (hno : List.Forall₂ (fun v p => ¬ SignedZeroPoints v p) vs ps) :
    vs ∈ combos ps := by
  rw [mem_combos]
  induction heq with
  | nil => exact .nil
  | cons hvp _ ih =>
    obtain ⟨hv, hvs⟩ := forall_mem_cons.1 hv
    cases hno with
    | cons hno hnos => exact .cons (mem_numericEqualProbes hv hvp hno) (ih hvs hnos)

/-! ## The result -/

/-- One value: the property index. -/
lemma propertySeekEq_complete_iff {v p : Value} (hv : Indexable v) (hp : Indexable p)
    (heq : equals v p = .true) :
    (∀ (ix : PropertyIndex) (token : UInt32) (rid : UInt64), ix.Holds token v rid →
      ∃ ids, ix.seekEq token p = .ok ids ∧ rid ∈ ids) ↔ ¬ SignedZeroPoints v p := by
  have hvs : ∀ x ∈ [v], Indexable x := forall_mem_singleton.2 hv
  constructor
  · intro hall hsigned
    -- The index with this entry only.
    have hholds : PropertyIndex.Holds ⟨single 0 [v] 0⟩ 0 v 0 := by
      rw [PropertyIndex.holds_iff hv, ← flatMap_singleton valueKey v]
      exact mem_singleton.2 rfl
    obtain ⟨q, hq, hmem⟩ := (mem_seekEq_iff hp).1 (hall _ 0 0 hholds)
    have hqs : ∀ x ∈ [q], Indexable x := forall_mem_singleton.2 (indexable_of_mem_probes hp hq)
    rw [← flatMap_singleton valueKey q] at hmem
    have hkey := keys_eq_of_mem_single hvs hqs rfl hmem
    rw [flatMap_singleton, flatMap_singleton] at hkey
    exact valueKey_ne_of_signedZeroPoints heq hsigned hq hkey
  · intro hno ix token rid hholds
    refine (mem_seekEq_iff hp).2 ⟨v, mem_numericEqualProbes hv heq hno, ?_⟩
    rw [PropertyIndex.holds_iff hv, ← flatMap_singleton valueKey v] at hholds
    rw [← flatMap_singleton valueKey v]
    exact mem_ridsUnder_of_mem hvs hholds

/-- Tuples: the composite index. -/
lemma compositeSeekEq_complete_iff (hv : ∀ v ∈ vs, Indexable v) (hp : ∀ p ∈ ps, Indexable p)
    (heq : List.Forall₂ (fun v p => equals v p = .true) vs ps) :
    (∀ (ix : CompositeIndex) (token : UInt32) (rid : UInt64), ix.Holds token vs rid →
      ∃ ids, ix.seekEq token ps = .ok ids ∧ rid ∈ ids) ↔
      List.Forall₂ (fun v p => ¬ SignedZeroPoints v p) vs ps := by
  constructor
  · intro hall
    rcases vs.eq_nil_or_concat with rfl | ⟨_, _, hvs⟩
    · cases heq
      exact .nil
    have hpos : 0 < vs.length := by rw [hvs, length_concat]; omega
    have hholds : CompositeIndex.Holds ⟨single 0 vs 0, vs.length, hpos⟩ 0 vs 0 :=
      (holds_iff hv).2 ⟨rfl, mem_singleton.2 rfl⟩
    obtain ⟨qs, hqs, hmem⟩ := (mem_compositeSeekEq_iff hp heq.length_eq.symm).1 (hall _ 0 0 hholds)
    have hlen : qs.length = vs.length := (mem_combos.1 hqs).length_eq.trans heq.length_eq.symm
    have hqi := indexable_of_mem_combos hp hqs
    exact not_signedZeroPoints_of_keys heq (mem_combos.1 hqs)
      (forall₂_valueKey_eq hqi hv hlen (keys_eq_of_mem_single hv hqi hlen hmem))
  · intro hno ix token rid hholds
    obtain ⟨harity, hmem⟩ := (holds_iff hv).1 hholds
    refine (mem_compositeSeekEq_iff hp (heq.length_eq.symm.trans harity)).2
      ⟨vs, mem_combos_of_equals hv heq hno, mem_ridsUnder_of_mem hv hmem⟩

theorem seekEq_complete_iff {v p : Value} {vs ps : List Value}
    (hv : Indexable v) (hp : Indexable p) (heq : equals v p = .true)
    (hvs : ∀ v ∈ vs, Indexable v) (hps : ∀ p ∈ ps, Indexable p)
    (heqs : List.Forall₂ (fun v p => equals v p = .true) vs ps) :
    ((∀ (ix : PropertyIndex) (token : UInt32) (rid : UInt64), ix.Holds token v rid →
      ∃ ids, ix.seekEq token p = .ok ids ∧ rid ∈ ids) ↔ ¬ SignedZeroPoints v p) ∧
    ((∀ (ix : CompositeIndex) (token : UInt32) (rid : UInt64), ix.Holds token vs rid →
      ∃ ids, ix.seekEq token ps = .ok ids ∧ rid ∈ ids) ↔
      List.Forall₂ (fun v p => ¬ SignedZeroPoints v p) vs ps) :=
  ⟨propertySeekEq_complete_iff hv hp heq, compositeSeekEq_complete_iff hvs hps heqs⟩

/-- A stored `1` is found with `1.0`, and the pair of `1` and `-0.0` with that of `1.0` and `0`. -/
theorem seekEq_complete_iff_one :
    (∃ (ix : PropertyIndex) (ids : List UInt64), ix.Holds 3 (.integer 1) 7 ∧
      ix.seekEq 3 (.float ⟨0x3FF0000000000000⟩) = .ok ids ∧ 7 ∈ ids) ∧
    (∃ (ix : CompositeIndex) (ids : List UInt64),
      ix.Holds 3 [.integer 1, .float ⟨0x8000000000000000⟩] 7 ∧
      ix.seekEq 3 [.float ⟨0x3FF0000000000000⟩, .integer 0] = .ok ids ∧ 7 ∈ ids) := by
  have hone : equals (.integer 1) (.float ⟨0x3FF0000000000000⟩) = .true := by decide +kernel
  have hzero : equals (.float ⟨0x8000000000000000⟩) (.integer 0) = .true := by decide +kernel
  have hv : Indexable (.integer 1) := trivial
  have hp : Indexable (.float ⟨0x3FF0000000000000⟩) := trivial
  have hvs : ∀ v ∈ [Value.integer 1, .float ⟨0x8000000000000000⟩], Indexable v := by
    simp [Indexable]
  have hps : ∀ v ∈ [Value.float ⟨0x3FF0000000000000⟩, .integer 0], Indexable v := by
    simp [Indexable]
  have hfound := seekEq_complete_iff hv hp hone hvs hps (.cons hone (.cons hzero .nil))
  constructor
  · have hholds : PropertyIndex.Holds ⟨single 3 [.integer 1] 7⟩ 3 (.integer 1) 7 :=
      (PropertyIndex.holds_iff hv).2 (mem_singleton.2 rfl)
    obtain ⟨ids, hids⟩ := hfound.1.2 id _ _ _ hholds
    exact ⟨_, ids, hholds, hids⟩
  · have hholds : CompositeIndex.Holds
      ⟨single 3 [.integer 1, .float ⟨0x8000000000000000⟩] 7, 2, by decide⟩ 3
        [.integer 1, .float ⟨0x8000000000000000⟩] 7 :=
      (CompositeIndex.holds_iff hvs).2 ⟨rfl, mem_singleton.2 rfl⟩
    obtain ⟨ids, hids⟩ := hfound.2.2 (.cons id (.cons id .nil)) _ _ _ hholds
    exact ⟨_, ids, hholds, hids⟩

/-- The point with coordinates `-0.0` and `1.0` is inserted and looked up as `0.0` and `1.0`. The
two are equal, and the seek returns nothing. -/
theorem seekEq_misses_point :
    equals (.point ⟨.cartesian, [⟨0x8000000000000000⟩, ⟨0x3FF0000000000000⟩], rfl⟩)
      (.point ⟨.cartesian, [⟨0⟩, ⟨0x3FF0000000000000⟩], rfl⟩) = .true ∧
    (∃ flag ix, PropertyIndex.insert ⟨OrderedMap.empty⟩ 3
        (.point ⟨.cartesian, [⟨0x8000000000000000⟩, ⟨0x3FF0000000000000⟩], rfl⟩) 7 =
        .ok (flag, ix) ∧
      ix.seekEq 3 (.point ⟨.cartesian, [⟨0⟩, ⟨0x3FF0000000000000⟩], rfl⟩) = .ok []) ∧
    ∃ flag ix, CompositeIndex.insert ⟨OrderedMap.empty, 1, Nat.one_pos⟩ 3
        [.point ⟨.cartesian, [⟨0x8000000000000000⟩, ⟨0x3FF0000000000000⟩], rfl⟩] 7 =
        .ok (flag, ix) ∧
      ix.seekEq 3 [.point ⟨.cartesian, [⟨0⟩, ⟨0x3FF0000000000000⟩], rfl⟩] = .ok [] :=
  ⟨by decide +kernel, ⟨_, _, rfl, by decide +kernel⟩, ⟨_, _, rfl, by decide +kernel⟩⟩

end Graphus
