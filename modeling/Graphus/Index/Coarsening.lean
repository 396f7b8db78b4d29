import Graphus.Index.KeyCodec

/-!
# Index order against orderability

Index keys leave out the exact value of a number. So the order of the keys and the order of
`cmpValues` part in two cases, both with an integer that rounds. Two integers that round to one
double have one key (`Merged`). And a double below an integer that rounds to it has the larger key,
because the type byte of a float is above that of an integer (`Inverted`).

**Theorem (`compositeKeys_coarsen`).** For two tuples of one arity whose lexicographic order is
"less", the keys are in order if and only if `Coarsens`: the first position at which the keys differ
is not decided by such a pair the wrong way round. Without integers of magnitude `2^53` or more the
order of the keys is the lexicographic order.

Coarsening in one field is enough to break the order of tuples: the merged field no longer decides,
and a later field can decide against it.
-/

namespace Graphus

open Double
open Std.ReflOrd (compare_self)
open Ordering (eq_then then_eq)
open List (compareLex compare_cons_cons forall_mem_cons mem_cons)

/-- Two integers that round to one double. -/
def Merged : Value → Value → Prop
  | .integer i, .integer j => i ≠ j ∧ ofInt i.toInt = ofInt j.toInt
  | _, _ => False

/-- A double below an integer that rounds to it. -/
def Inverted : Value → Value → Prop
  | .float f, .integer i => f = ofInt i.toInt ∧ cmpIntFloat i f = some .gt
  | _, _ => False

/-- The first position with different keys is in order: by the values, unless the pair is
inverted. -/
def Coarsens : List Value → List Value → Prop
  | x :: xs, y :: ys =>
    (cmpValues x y = .lt ∧ ¬ Merged x y ∧ ¬ Inverted x y) ∨ Inverted y x ∨
      ((cmpValues x y = .eq ∨ Merged x y) ∧ Coarsens xs ys)
  | _, _ => True

/-- An integer that may be rounded in its key. -/
def LargeInteger : Value → Prop
  | .integer i => 2 ^ 53 ≤ i.toInt.natAbs
  | _ => False

variable {a b : Value}

/-- An indexable value is ordered by its class and its keys. -/
lemma cmpValues_of_indexable (ha : Indexable a) (hb : Indexable b) :
    cmpValues a b = (compare (classRank a) (classRank b)).then
      ((compare (numKey a) (numKey b)).then (compare (textKey a) (textKey b))) := by
  have hscalar : ∀ {v : Value}, Indexable v → items v = [] ∧ sortedEntries v = [] := by
    intro v hv
    cases v <;> first | exact ⟨rfl, rfl⟩ | exact hv.elim
  refine (cmpValuesAt_succ 999 a b).trans ?_
  rw [keyCmp_of_nil (hscalar ha).1 (hscalar hb).1 (hscalar ha).2 (hscalar hb).2]

lemma cmpValues_of_rank_ne (ha : Indexable a) (hb : Indexable b) (h : classRank a ≠ classRank b) :
    cmpValues a b = indexCmp a b := by
  rw [cmpValues_of_indexable ha hb, indexCmp, then_of_ne h, then_of_ne h]

/-! ## Numbers -/

section Numbers

variable {i j : Int64} {f : Double}

lemma totalKey_ne_of_ofInt_ne (h : ofInt i.toInt ≠ f) :
    (ofInt i.toInt).totalKey ≠ f.totalKey := fun hkey =>
  h (eq_of_totalKey_eq (isNan_ofInt (natAbs_toInt_le i)) hkey)

lemma indexCmp_integers : indexCmp (.integer i) (.integer j) =
    compare (ofInt i.toInt).totalKey (ofInt j.toInt).totalKey := by
  simp only [indexCmp, classRank, indexNum, textKey, compare_cons_cons, compare_natCast,
    then_eq, compare_self, eq_then]

lemma cmpValues_integers : cmpValues (.integer i) (.integer j) = compare i.toInt j.toInt := rfl

lemma cmpValues_integerFloat : cmpValues (.integer i) (.float f) = cmpIntFloatOrdering i f := rfl

/-- A double that is the conversion of the integer. -/
lemma cmpIntFloatOrdering_ofInt : cmpIntFloatOrdering i (ofInt i.toInt) =
      if cmpIntFloat i (ofInt i.toInt) = some .gt then .gt else .lt := by
  have hsome := @cmpIntFloat_eq i _ (isNan_ofInt (natAbs_toInt_le i))
  rw [cmpIntFloatOrdering, totalF64, compare_self, hsome]
  cases compare (i.toInt * (scale : Int)) (ofInt i.toInt).units <;> rfl

lemma cmpIntFloatOrdering_of_ne (h : ofInt i.toInt ≠ f) :
    cmpIntFloatOrdering i f = compare (ofInt i.toInt).totalKey f.totalKey := by
  have hne := totalKey_ne_of_ofInt_ne h
  rw [cmpIntFloatOrdering, totalF64]
  rcases Nat.lt_or_gt_of_ne hne with hlt | hgt
  · rw [compare_lt_iff_lt.2 hlt]
  · rw [compare_gt_iff_gt.2 hgt]

lemma indexCmp_integerFloat : indexCmp (.integer i) (.float f) =
    (compare (ofInt i.toInt).totalKey f.totalKey).then .lt := by
  simp only [indexCmp, classRank, indexNum, textKey, compare_cons_cons, compare_natCast,
    then_eq, compare_self, eq_then]
  rfl

lemma indexCmp_integerFloat_of_ne (h : ofInt i.toInt ≠ f) :
    indexCmp (.integer i) (.float f) = cmpIntFloatOrdering i f := by
  rw [indexCmp_integerFloat, then_of_ne (totalKey_ne_of_ofInt_ne h), cmpIntFloatOrdering_of_ne h]

lemma indexCmp_integerFloat_ofInt : indexCmp (.integer i) (.float (ofInt i.toInt)) = .lt := by
  rw [indexCmp_integerFloat, compare_self]
  rfl

end Numbers

instance : Std.OrientedCmp indexCmp :=
  inferInstanceAs (Std.OrientedCmp (compareLex (compareOn classRank)
    (compareLex (compareOn indexNum) (compareOn textKey))))

/-! ## Where the two orders part -/

/-- The order of the keys is the order of the values, or one of the two exceptions applies. -/
inductive KeyVerdict (a b : Value) : Prop
  | agree : ¬ Merged a b → ¬ Inverted a b → ¬ Inverted b a → indexCmp a b = cmpValues a b →
      KeyVerdict a b
  | merged : Merged a b → indexCmp a b = .eq → KeyVerdict a b
  | inverted : Inverted a b → indexCmp a b = .gt → cmpValues a b = .lt → KeyVerdict a b
  | invertedBack : Inverted b a → indexCmp a b = .lt → cmpValues a b = .gt → KeyVerdict a b

lemma keyVerdict_integerFloat (i : Int64) (f : Double) : KeyVerdict (.integer i) (.float f) := by
  by_cases hf : ofInt i.toInt = f
  · subst hf
    by_cases hgt : cmpIntFloat i (ofInt i.toInt) = some .gt
    · refine .invertedBack ⟨rfl, hgt⟩ indexCmp_integerFloat_ofInt ?_
      rw [cmpValues_integerFloat, cmpIntFloatOrdering_ofInt, if_pos hgt]
    · refine .agree id id (fun h => hgt h.2) ?_
      rw [cmpValues_integerFloat, cmpIntFloatOrdering_ofInt, if_neg hgt,
        indexCmp_integerFloat_ofInt]
  · exact .agree id id (fun h => hf h.1.symm) (indexCmp_integerFloat_of_ne hf)

lemma merged_symm (h : Merged a b) : Merged b a := by
  cases a <;> cases b <;> first | exact h.elim | exact ⟨h.1.symm, h.2.symm⟩

lemma KeyVerdict.swap (h : KeyVerdict a b) (hm : ¬ Merged b a) : KeyVerdict b a := by
  have hidx : indexCmp b a = (indexCmp a b).swap := Std.OrientedCmp.eq_swap
  have hcmp : cmpValues b a = (cmpValues a b).swap :=
    have := transCmp_cmpValuesAt maxValueDepth
    @Std.OrientedCmp.eq_swap _ (cmpValuesAt maxValueDepth) _ b a
  cases h with
  | agree _ hab hba heq => exact .agree hm hba hab (by rw [hidx, hcmp, heq])
  | merged h => exact absurd (merged_symm h) hm
  | inverted h hgt hlt => exact .invertedBack h (by rw [hidx, hgt]; rfl) (by rw [hcmp, hlt]; rfl)
  | invertedBack h hlt hgt => exact .inverted h (by rw [hidx, hlt]; rfl) (by rw [hcmp, hgt]; rfl)

lemma keyVerdict_integers (i j : Int64) : KeyVerdict (.integer i) (.integer j) := by
  by_cases hround : ofInt i.toInt = ofInt j.toInt
  · by_cases hij : i = j
    · subst hij
      refine .agree (fun h => h.1 rfl) id id ?_
      rw [indexCmp_integers, cmpValues_integers, compare_self, compare_self]
    · exact .merged ⟨hij, hround⟩ (by rw [indexCmp_integers, hround, compare_self])
  · refine .agree (fun h => hround h.2) id id ?_
    rw [indexCmp_integers, cmpValues_integers, compare_integers, numKey, numKey,
      compare_cons_cons, compare_natCast, then_of_ne (totalKey_ne_of_ofInt_ne hround)]

lemma keyVerdict_floats (f g : Double) : KeyVerdict (.float f) (.float g) := by
  refine .agree id id id ?_
  show _ = totalF64 f g
  simp only [indexCmp, classRank, indexNum, textKey, compare_cons_cons, compare_natCast,
    then_eq, compare_self, eq_then, totalF64]

section

variable (ha : Indexable a) (hb : Indexable b)

include ha hb

lemma keyVerdict : KeyVerdict a b := by
  by_cases hrank : classRank a = classRank b
  · cases sameClass_of_classRank hrank with
    | integers i j => exact keyVerdict_integers i j
    | integerFloat i f => exact keyVerdict_integerFloat i f
    | floatInteger f i => exact (keyVerdict_integerFloat i f).swap id
    | floats f g => exact keyVerdict_floats f g
    | _ => exact .agree id id id (cmpValues_of_indexable ha hb).symm
  · have hne : ∀ {a b : Value}, classRank a ≠ classRank b → ¬ Merged a b ∧ ¬ Inverted a b := by
      intro a b h
      constructor <;> cases a <;> cases b <;> first | exact id | exact absurd rfl h
    exact .agree (hne hrank).1 (hne hrank).2 (hne (Ne.symm hrank)).2
      (cmpValues_of_rank_ne ha hb hrank).symm

lemma indexCmp_eq_iff :
    indexCmp a b = .eq ↔ cmpValues a b = .eq ∨ Merged a b := by
  cases keyVerdict ha hb with
  | agree hm _ _ heq => rw [heq, or_iff_left hm]
  | merged hm heq => exact ⟨fun _ => .inr hm, fun _ => heq⟩
  | inverted h hgt hlt | invertedBack h hlt hgt =>
    have hm : ¬ Merged a b := by cases a <;> cases b <;> first | exact h.elim | exact id
    rw [hgt, hlt, or_iff_left hm]
    decide

lemma indexCmp_lt_iff : indexCmp a b = .lt ↔
      (cmpValues a b = .lt ∧ ¬ Merged a b ∧ ¬ Inverted a b) ∨ Inverted b a := by
  cases keyVerdict ha hb with
  | agree hm hi hi' heq => rw [heq, or_iff_left hi', and_iff_left ⟨hm, hi⟩]
  | merged hm heq =>
    have hi : ¬ Inverted b a := by cases a <;> cases b <;> first | exact hm.elim | exact id
    refine ⟨fun h => absurd (heq.symm.trans h) (by decide), ?_⟩
    rintro (⟨-, hm', -⟩ | hi')
    · exact absurd hm hm'
    · exact absurd hi' hi
  | inverted h hgt =>
    have hi : ¬ Inverted b a := by cases a <;> cases b <;> first | exact h.elim | exact id
    refine ⟨fun h' => absurd (hgt.symm.trans h') (by decide), ?_⟩
    rintro (⟨-, -, h'⟩ | h')
    · exact absurd h h'
    · exact absurd h' hi
  | invertedBack h hlt => exact ⟨fun _ => .inr h, fun _ => hlt⟩

end

/-! ## Tuples -/

lemma isLE_compareLex_iff : ∀ {xs ys : List Value}, (∀ v ∈ xs, Indexable v) →
    (∀ v ∈ ys, Indexable v) → xs.length = ys.length →
    ((compareLex indexCmp xs ys).isLE = true ↔ Coarsens xs ys)
  | [], [], _, _, _ => iff_of_true rfl trivial
  | x :: xs, y :: ys, hx, hy, hlen => by
    have hx' := forall_mem_cons.1 hx
    have hy' := forall_mem_cons.1 hy
    have ih := isLE_compareLex_iff hx'.2 hy'.2 (Nat.succ.inj hlen)
    rw [List.compareLex_cons_cons, Coarsens, ← or_assoc, ← indexCmp_lt_iff hx'.1 hy'.1,
      ← indexCmp_eq_iff hx'.1 hy'.1, ← ih]
    cases indexCmp x y <;> simp

/-- Integers below `2^53` are neither merged nor inverted. -/
lemma indexCmp_of_not_largeInteger (ha : Indexable a) (hb : Indexable b) (hla : ¬ LargeInteger a)
    (hlb : ¬ LargeInteger b) : indexCmp a b = cmpValues a b := by
  have hnot : ∀ {a b : Value}, ¬ LargeInteger b → ¬ Inverted a b := by
    intro a b hlb h
    cases a <;> cases b <;> first | exact h.elim | skip
    case float.integer f i =>
      have hle : i.toInt.natAbs ≤ 2 ^ 53 := (not_le.1 hlb).le
      obtain ⟨rfl, hgt⟩ := h
      rw [cmpIntFloat_eq (isNan_ofInt (natAbs_toInt_le i)), units_ofInt_of_le hle,
        compare_self] at hgt
      exact nomatch hgt
  cases keyVerdict ha hb with
  | agree _ _ _ heq => exact heq
  | inverted h => exact absurd h (hnot hlb)
  | invertedBack h => exact absurd h (hnot hla)
  | merged h =>
    cases a <;> cases b <;> first | exact h.elim | skip
    case integer.integer i j =>
      have hunits := congrArg units h.2
      rw [units_ofInt_of_le (not_le.1 hla).le, units_ofInt_of_le (not_le.1 hlb).le] at hunits
      exact absurd (Int64.toInt_inj.1 (Int.eq_of_mul_eq_mul_right intScale_pos.ne' hunits)) h.1

lemma compareLex_indexCmp : ∀ {xs ys : List Value}, (∀ v ∈ xs, Indexable v) →
    (∀ v ∈ ys, Indexable v) → (∀ v ∈ xs, ¬ LargeInteger v) → (∀ v ∈ ys, ¬ LargeInteger v) →
    compareLex indexCmp xs ys = compareLex cmpValues xs ys
  | [], [], _, _, _, _ => rfl
  | [], _ :: _, _, _, _, _ => rfl
  | _ :: _, [], _, _, _, _ => rfl
  | x :: xs, y :: ys, hx, hy, hlx, hly => by
    have hx' := forall_mem_cons.1 hx
    have hy' := forall_mem_cons.1 hy
    have hlx' := forall_mem_cons.1 hlx
    have hly' := forall_mem_cons.1 hly
    rw [List.compareLex_cons_cons, List.compareLex_cons_cons,
      indexCmp_of_not_largeInteger hx'.1 hy'.1 hlx'.1 hly'.1,
      compareLex_indexCmp hx'.2 hy'.2 hlx'.2 hly'.2]

theorem compositeKeys_coarsen {xs ys : List Value} {kx ky : Bytes}
    (hx : encodeComposite xs = .ok kx) (hy : encodeComposite ys = .ok ky)
    (hlen : xs.length = ys.length) :
    (compareLex cmpValues xs ys = .lt → ((compare kx ky).isLE = true ↔ Coarsens xs ys)) ∧
    ((∀ v ∈ xs, ¬ LargeInteger v) → (∀ v ∈ ys, ¬ LargeInteger v) →
      compare kx ky = compareLex cmpValues xs ys) := by
  obtain ⟨hix, rfl⟩ := encodeComposite_ok hx
  obtain ⟨hiy, rfl⟩ := encodeComposite_ok hy
  rw [compare_compositeKeys hix hiy hlen]
  exact ⟨fun _ => isLE_compareLex_iff hix hiy hlen, compareLex_indexCmp hix hiy⟩

/-- The tuples `(1, "a")` and `(2.0, "")`: the keys are in order, and the order is the one of the
values. -/
theorem compositeKeys_coarsen_small : ∃ kx ky, encodeComposite [.integer 1, .string [97]] = .ok kx ∧
      encodeComposite [.float ⟨0x4000000000000000⟩, .string []] = .ok ky ∧
      (compare kx ky).isLE = true ∧ compare kx ky = .lt := by
  refine ⟨_, _, rfl, rfl, ?_⟩
  have hkeys := @compositeKeys_coarsen [.integer 1, .string [97]]
    [.float ⟨0x4000000000000000⟩, .string []] _ _ rfl rfl rfl
  have hlt : compareLex cmpValues [.integer 1, .string [97]]
      [.float ⟨0x4000000000000000⟩, .string []] = .lt := by decide +kernel
  have hsmall : ∀ v ∈ [Value.integer 1, .string [97]], ¬ LargeInteger v := by
    intro v hv
    rcases mem_cons.1 hv with rfl | hv
    · exact (by decide : ¬ 2 ^ 53 ≤ (1 : Int64).toInt.natAbs)
    · rw [List.mem_singleton.1 hv]
      exact id
  have hfloat : ∀ v ∈ [Value.float ⟨0x4000000000000000⟩, .string []], ¬ LargeInteger v := by
    intro v hv
    rcases mem_cons.1 hv with rfl | hv
    · exact id
    · rw [List.mem_singleton.1 hv]
      exact id
  refine ⟨(hkeys.1 hlt).2 (.inl ⟨?_, id, id⟩), (hkeys.2 hsmall hfloat).trans hlt⟩
  decide +kernel

/-- `2^53` as a float is less than `2^53 + 1` but has the larger key; and of the tuples
`(2^54 + 3, 5)` and `(2^54 + 5, 1)`, whose first fields have one key, the lesser has the larger
key. -/
theorem compositeKeys_contradict :
    (∃ kx ky, encodeComposite [.float ⟨0x4340000000000000⟩] = .ok kx ∧
      encodeComposite [.integer 9007199254740993] = .ok ky ∧
      compareLex cmpValues [.float ⟨0x4340000000000000⟩] [.integer 9007199254740993] = .lt ∧
      compare kx ky = .gt) ∧
    (∃ kx ky, encodeComposite [.integer 18014398509481987, .integer 5] = .ok kx ∧
      encodeComposite [.integer 18014398509481989, .integer 1] = .ok ky ∧
      compareLex cmpValues [.integer 18014398509481987, .integer 5]
        [.integer 18014398509481989, .integer 1] = .lt ∧
      compare kx ky = .gt) :=
  ⟨⟨_, _, rfl, rfl, by decide +kernel, by decide +kernel⟩,
    ⟨_, _, rfl, rfl, by decide +kernel, by decide +kernel⟩⟩

end Graphus
