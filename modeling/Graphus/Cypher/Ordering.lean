import Graphus.Core.Value
import Mathlib.Data.List.Sort

/-!
# Orderability

The comparator of `ORDER BY`, `min` and `max`, and the comparability behind `<` and `<=`. Values of
different classes compare by the rank of their class. Inside a class a comparator of its own
decides; lists and maps recurse, and the recursion stops at a depth limit where it reports
equality.

Every scalar comparator of the source is the lexicographic order of a list of integers (`numKey`)
followed by a byte string (`textKey`). For numbers the list is the place among the doubles, then the
exact value, then the type. So one comparison of two values is the rank, the two keys, the items of
a list and the sorted entries of a map, each compared only where the ones before it agree
(`cmpValuesAt_succ`).

**Theorem (`transCmp_cmpValuesAt`).** At every depth the comparison is a total preorder.

The proof is an induction on the depth that is left. Each of the five parts is a total preorder, the
last two because the comparison one level deeper is, and a lexicographic product of total preorders
is one.
-/

namespace Graphus

open List (compareLex compare_cons_cons map_cons)
open Ordering (eq_then swap then_eq)
open Double (intScale_pos ofInt scale)

/-! ## The comparator -/

/-- `MAX_VALUE_DEPTH`. -/
def maxValueDepth : Nat := 1000

/-- The rank of the class of a value. Ranks 1, 2 and 4 belong to nodes, relationships and paths,
which are no property values. -/
@[simp] def classRank : Value → Nat
  | .map _ => 0
  | .list _ => 3
  | .point _ => 5
  | .zonedDateTime _ => 6
  | .localDateTime _ => 7
  | .date _ => 8
  | .zonedTime _ => 9
  | .localTime _ => 10
  | .duration _ => 11
  | .string _ => 12
  | .bytes _ => 13
  | .boolean _ => 14
  | .integer _ | .float _ => 15
  | .null => 16

def cmpIntFloatOrdering (i : Int64) (f : Double) : Ordering :=
  match totalF64 (ofInt i.toInt) f with
  | .eq =>
    match cmpIntFloat i f with
    | some .lt => .lt
    | some .gt => .gt
    -- The same number: an integer comes before a float.
    | some .eq | none => .lt
  | byMagnitude => byMagnitude

/-- Two values of one temporal class. -/
def cmpSameTemporal : Value → Value → Ordering
  | .date x, .date y => compare x.daysSinceEpoch.toInt y.daysSinceEpoch.toInt
  | .localTime x, .localTime y => compare x.nanosOfDay.toNat y.nanosOfDay.toNat
  | .zonedTime x, .zonedTime y =>
    (compare x.instant.toInt y.instant.toInt).then
      (compare x.offsetSeconds.toInt y.offsetSeconds.toInt)
  | .localDateTime x, .localDateTime y =>
    (compare x.epochSeconds.toInt y.epochSeconds.toInt).then (compare x.nanos.toNat y.nanos.toNat)
  | .zonedDateTime x, .zonedDateTime y =>
    (compare x.utcSeconds y.utcSeconds).then
      ((compare x.localDateTime.nanos.toNat y.localDateTime.nanos.toNat).then
        ((compare x.offsetSeconds.toInt y.offsetSeconds.toInt).then (compare x.zoneId y.zoneId)))
  | .duration x, .duration y => compare (durationOrderNanos x) (durationOrderNanos y)
  -- Other pairs never get here.
  | _, _ => .eq

/-- Entries by their keys. -/
abbrev KeyLE (x y : Text × Value) : Prop := (compare x.1 y.1).isLE = true

/-- Entries in the order of their keys, those of one key in the order they came in: the result of
any stable sort. -/
def sortEntries (entries : Fields) : Fields :=
  entries.insertionSort KeyLE

/-- One entry of a map: the key, then the value. -/
def cmpEntry (cmp : Value → Value → Ordering) (x y : Text × Value) : Ordering :=
  (compare x.1 y.1).then (cmp x.2 y.2)

def cmpMaps (cmp : Value → Value → Ordering) (x y : Fields) : Ordering :=
  compareLex (cmpEntry cmp) (sortEntries x) (sortEntries y)

/-- Two values of one class, with the comparison of what they contain. -/
def cmpSameClass (cmp : Value → Value → Ordering) (a b : Value) : Ordering :=
  match a, b with
  | .null, .null => .eq
  | .boolean x, .boolean y => compare x y
  | .string x, .string y => compare x y
  | .bytes x, .bytes y => compare x y
  | .list x, .list y => compareLex cmp x y
  | .map x, .map y => cmpMaps cmp x y
  | .point x, .point y => x.totalCmp y
  | .date _, _ | .localTime _, _ | .zonedTime _, _ | .localDateTime _, _ | .zonedDateTime _, _
  | .duration _, _ => cmpSameTemporal a b
  | .integer x, .integer y => compare x.toInt y.toInt
  | .integer x, .float y => cmpIntFloatOrdering x y
  | .float x, .integer y => (cmpIntFloatOrdering y x).swap
  | .float x, .float y => totalF64 x y
  | _, _ => .eq

/-- The comparison with `left` levels left before the depth limit. -/
def cmpValuesAt : Nat → Value → Value → Ordering
  | 0, a, b => if classRank a ≠ classRank b then compare (classRank a) (classRank b) else .eq
  | left + 1, a, b =>
    if classRank a ≠ classRank b then compare (classRank a) (classRank b)
    else cmpSameClass (cmpValuesAt left) a b

def cmpValues (a b : Value) : Ordering := cmpValuesAt maxValueDepth a b

/-! ## Comparability -/

mutual

/-- The relation behind the inequality operators: none where two values are not comparable. -/
def compareValues : Value → Value → Option Ordering
  | .boolean x, .boolean y => some (compare x y)
  | .string x, .string y => some (compare x y)
  | .bytes x, .bytes y => some (compare x y)
  | .list x, .list y => compareLists x y
  | .point x, .point y => if x.crs = y.crs then some (x.totalCmp y) else none
  | .integer x, .integer y => some (compare x.toInt y.toInt)
  | .integer x, .float y => cmpIntFloat x y
  | .float x, .integer y => (cmpIntFloat y x).map swap
  | .float x, .float y => x.partialCmp y
  | .date x, .date y => some (cmpSameTemporal (.date x) (.date y))
  | .localTime x, .localTime y => some (cmpSameTemporal (.localTime x) (.localTime y))
  | .zonedTime x, .zonedTime y => some (cmpSameTemporal (.zonedTime x) (.zonedTime y))
  | .localDateTime x, .localDateTime y =>
    some (cmpSameTemporal (.localDateTime x) (.localDateTime y))
  | .zonedDateTime x, .zonedDateTime y =>
    some (cmpSameTemporal (.zonedDateTime x) (.zonedDateTime y))
  | .duration x, .duration y => some (cmpSameTemporal (.duration x) (.duration y))
  | _, _ => none

def compareLists : List Value → List Value → Option Ordering
  | x :: xs, y :: ys =>
    match compareValues x y with
    | some .eq => compareLists xs ys
    | decided => decided
  | [], [] => some .eq
  | [], _ :: _ => some .lt
  | _ :: _, [] => some .gt

end

/-! ## The order keys -/

/-- The exact value of a float; a NaN has none. -/
def floatUnits (f : Double) : Int := if f.isNan then 0 else f.units

/-- The numbers by which a value is ordered in its class. -/
def numKey : Value → List Int
  | .boolean b => [b.toNat]
  | .integer i => [(ofInt i.toInt).totalKey, i.toInt * scale, 0]
  | .float f => [f.totalKey, floatUnits f, 1]
  | .date d => [d.daysSinceEpoch.toInt]
  | .localTime t => [t.nanosOfDay.toNat]
  | .zonedTime t => [t.instant.toInt, t.offsetSeconds.toInt]
  | .localDateTime t => [t.epochSeconds.toInt, t.nanos.toNat]
  | .zonedDateTime t => [t.utcSeconds, t.localDateTime.nanos.toNat, t.offsetSeconds.toInt]
  | .duration d => [durationOrderNanos d]
  | .point p => p.crs.srid :: p.coords.map fun c => (c.totalKey : Int)
  | _ => []

/-- The text by which a value is ordered after its numbers. -/
def textKey : Value → Text
  | .string s => s
  | .bytes b => b
  | .zonedDateTime t => t.zoneId
  | _ => []

/-- The items of a list. -/
def items : Value → List Value
  | .list xs => xs
  | _ => []

/-- The entries of a map, sorted. -/
def sortedEntries : Value → Fields
  | .map es => sortEntries es
  | _ => []

lemma compare_natCast (m n : Nat) : compare (m : Int) n = compare m n := by
  rcases lt_trichotomy m n with h | rfl | h
  · rw [compare_lt_iff_lt.2 h, compare_lt_iff_lt.2 (Int.ofNat_lt.2 h)]
  · rw [compare_eq_iff_eq.2 rfl, compare_eq_iff_eq.2 rfl]
  · rw [compare_gt_iff_gt.2 h, compare_gt_iff_gt.2 (Int.ofNat_lt.2 h)]

/-- Comparing through a key, element by element. -/
lemma compareLex_eq_compare_map {α β : Type*} [Ord β] {cmp : α → α → Ordering} {key : α → β}
    (h : ∀ x y, cmp x y = compare (key x) (key y)) :
    ∀ xs ys : List α, compareLex cmp xs ys = compare (xs.map key) (ys.map key)
  | [], [] => rfl
  | [], _ :: _ => rfl
  | _ :: _, [] => rfl
  | x :: xs, y :: ys => by
    rw [List.compareLex_cons_cons, map_cons, map_cons, compare_cons_cons, h,
      compareLex_eq_compare_map h xs ys]

/-! ## Each comparator is the order of a key -/

lemma compare_integers (i j : Int64) :
    compare i.toInt j.toInt = compare (numKey (.integer i)) (numKey (.integer j)) := by
  have hmono : ∀ {i j : Int64}, i.toInt ≤ j.toInt → ((ofInt i.toInt).totalKey : Int) ≤
      (ofInt j.toInt).totalKey := fun h =>
    Int.ofNat_le.2 (Double.totalKey_ofInt_mono (natAbs_toInt_le _) (natAbs_toInt_le _) h)
  simp only [numKey, compare_cons_cons]
  rcases lt_trichotomy i.toInt j.toInt with h | h | h
  · -- Rounding keeps the order or merges the two; the exact values then decide.
    have hexact := Int.mul_lt_mul_of_pos_right h intScale_pos
    rw [compare_lt_iff_lt.2 h, compare_lt_iff_lt.2 hexact]
    rcases (hmono h.le).lt_or_eq with hkey | hkey
    · rw [compare_lt_iff_lt.2 hkey]
      rfl
    · rw [compare_eq_iff_eq.2 hkey]
      rfl
  · rw [h, compare_eq_iff_eq.2 rfl, compare_eq_iff_eq.2 rfl, compare_eq_iff_eq.2 rfl]
    rfl
  · have hexact := Int.mul_lt_mul_of_pos_right h intScale_pos
    rw [compare_gt_iff_gt.2 h, compare_gt_iff_gt.2 hexact]
    rcases (hmono h.le).lt_or_eq with hkey | hkey
    · rw [compare_gt_iff_gt.2 hkey]
      rfl
    · rw [compare_eq_iff_eq.2 hkey.symm]
      rfl

lemma totalF64_eq_compare (f g : Double) :
    totalF64 f g = compare (numKey (.float f)) (numKey (.float g)) := by
  simp only [numKey, compare_cons_cons, totalF64, compare_natCast]
  cases hkey : compare f.totalKey g.totalKey with
  | lt => rfl
  | gt => rfl
  | eq =>
    -- One place among the doubles: the same double, or two NaNs.
    have heq := compare_eq_iff_eq.1 hkey
    have hunits : floatUnits f = floatUnits g := by
      unfold floatUnits
      cases hf : f.isNan with
      | false =>
        obtain rfl := Double.eq_of_totalKey_eq hf heq
        rw [hf]
      | true =>
        cases hg : g.isNan with
        | false => exact absurd heq.symm (Double.totalKey_lt_of_isNan hg hf).ne
        | true => rfl
    rw [hunits, compare_eq_iff_eq.2 rfl]
    rfl

lemma cmpIntFloatOrdering_eq_compare (i : Int64) (f : Double) :
    cmpIntFloatOrdering i f = compare (numKey (.integer i)) (numKey (.float f)) := by
  simp only [numKey, compare_cons_cons, cmpIntFloatOrdering, totalF64, compare_natCast]
  cases hkey : compare (ofInt i.toInt).totalKey f.totalKey with
  | lt => rfl
  | gt => rfl
  | eq =>
    have hi := Double.isNan_ofInt (natAbs_toInt_le i)
    have hf : f.isNan = false := by
      rw [← Double.eq_of_totalKey_eq hi (compare_eq_iff_eq.1 hkey)]
      exact hi
    have hunits : floatUnits f = f.units := if_neg (by rw [hf]; decide)
    rw [cmpIntFloat_eq hf, hunits]
    cases compare (i.toInt * (scale : Int)) f.units <;> rfl

lemma totalCmp_eq_compare (p q : Point) :
    p.totalCmp q = compare (numKey (.point p)) (numKey (.point q)) := by
  have hkey : ∀ x y : Double, totalF64 x y = compare (x.totalKey : Int) y.totalKey := fun x y =>
    (compare_natCast x.totalKey y.totalKey).symm
  rw [Point.totalCmp, numKey, numKey, compare_cons_cons, compareLex_eq_compare_map hkey]

section SameClass

variable {cmp : Value → Value → Ordering} {a b : Value}

/-- What decides between two values of one class, in the order in which it does. -/
def keyCmp (cmp : Value → Value → Ordering) (a b : Value) : Ordering :=
  (compare (numKey a) (numKey b)).then
    ((compare (textKey a) (textKey b)).then
      ((compareLex cmp (items a) (items b)).then
        (compareLex (cmpEntry cmp) (sortedEntries a) (sortedEntries b))))

/-- A value without items and entries is decided by its keys. -/
lemma keyCmp_of_nil (ha : items a = []) (hb : items b = []) (ha' : sortedEntries a = [])
    (hb' : sortedEntries b = []) :
    keyCmp cmp a b = (compare (numKey a) (numKey b)).then (compare (textKey a) (textKey b)) := by
  rw [keyCmp, ha, hb, ha', hb', List.compareLex_nil_nil, List.compareLex_nil_nil, then_eq, then_eq]

lemma keyCmp_of_num (ha : items a = []) (hb : items b = []) (ha' : sortedEntries a = [])
    (hb' : sortedEntries b = []) (hta : textKey a = []) (htb : textKey b = []) :
    keyCmp cmp a b = compare (numKey a) (numKey b) := by
  rw [keyCmp_of_nil ha hb ha' hb', hta, htb, List.compare_nil_nil, then_eq]

/-- The pairs of values that share a rank. -/
inductive SameClass : Value → Value → Prop
  | nulls : SameClass .null .null
  | booleans (x y : Bool) : SameClass (.boolean x) (.boolean y)
  | integers (i j : Int64) : SameClass (.integer i) (.integer j)
  | integerFloat (i : Int64) (f : Double) : SameClass (.integer i) (.float f)
  | floatInteger (f : Double) (i : Int64) : SameClass (.float f) (.integer i)
  | floats (f g : Double) : SameClass (.float f) (.float g)
  | strings (s t : Text) : SameClass (.string s) (.string t)
  | byteStrings (s t : Bytes) : SameClass (.bytes s) (.bytes t)
  | lists (x y : List Value) : SameClass (.list x) (.list y)
  | maps (x y : Fields) : SameClass (.map x) (.map y)
  | dates (x y : Date) : SameClass (.date x) (.date y)
  | localTimes (x y : LocalTime) : SameClass (.localTime x) (.localTime y)
  | zonedTimes (x y : ZonedTime) : SameClass (.zonedTime x) (.zonedTime y)
  | localDateTimes (x y : LocalDateTime) : SameClass (.localDateTime x) (.localDateTime y)
  | zonedDateTimes (x y : ZonedDateTime) : SameClass (.zonedDateTime x) (.zonedDateTime y)
  | durations (x y : Duration) : SameClass (.duration x) (.duration y)
  | points (p q : Point) : SameClass (.point p) (.point q)

lemma sameClass_of_classRank (h : classRank a = classRank b) : SameClass a b := by
  cases a <;> cases b <;> first | constructor | exact absurd h (by simp)

lemma cmpSameClass_eq (h : SameClass a b) : cmpSameClass cmp a b = keyCmp cmp a b := by
  cases h with
  | nulls => rfl
  | booleans x y => cases x <;> cases y <;> rfl
  | integers i j =>
    rw [keyCmp_of_num rfl rfl rfl rfl rfl rfl]
    exact compare_integers i j
  | integerFloat i f =>
    rw [keyCmp_of_num rfl rfl rfl rfl rfl rfl]
    exact cmpIntFloatOrdering_eq_compare i f
  | floatInteger f i =>
    rw [keyCmp_of_num rfl rfl rfl rfl rfl rfl, Std.OrientedOrd.eq_swap]
    exact congrArg swap (cmpIntFloatOrdering_eq_compare i f)
  | floats f g =>
    rw [keyCmp_of_num rfl rfl rfl rfl rfl rfl]
    exact totalF64_eq_compare f g
  | strings | byteStrings =>
    rw [keyCmp_of_nil rfl rfl rfl rfl]
    rfl
  | lists x y => exact (@Ordering.then_eq (compareLex cmp x y)).symm
  | maps => rfl
  | dates | localTimes | zonedTimes | localDateTimes | durations =>
    rw [keyCmp_of_num rfl rfl rfl rfl rfl rfl]
    simp only [numKey, compare_cons_cons, List.compare_nil_nil, then_eq, cmpSameClass,
      cmpSameTemporal, compare_natCast]
  | zonedDateTimes =>
    rw [keyCmp_of_nil rfl rfl rfl rfl]
    simp only [numKey, textKey, compare_cons_cons, List.compare_nil_nil, then_eq,
      cmpSameClass, cmpSameTemporal, compare_natCast, Ordering.then_assoc]
  | points p q =>
    rw [keyCmp_of_num rfl rfl rfl rfl rfl rfl]
    exact totalCmp_eq_compare p q

end SameClass

/-! ## The total preorder -/

lemma then_of_ne {m n : Nat} {o : Ordering} (h : m ≠ n) : (compare m n).then o = compare m n := by
  rcases Nat.lt_or_gt_of_ne h with hlt | hgt
  · rw [compare_lt_iff_lt.2 hlt]
    rfl
  · rw [compare_gt_iff_gt.2 hgt]
    rfl

lemma cmpValuesAt_zero (a b : Value) : cmpValuesAt 0 a b = compare (classRank a) (classRank b) := by
  unfold cmpValuesAt
  split
  · rfl
  · exact (compare_eq_iff_eq.2 (not_not.1 ‹_›)).symm

lemma cmpValuesAt_succ (left : Nat) (a b : Value) : cmpValuesAt (left + 1) a b =
      (compare (classRank a) (classRank b)).then (keyCmp (cmpValuesAt left) a b) := by
  rw [cmpValuesAt]
  by_cases h : classRank a = classRank b
  · rw [if_neg (not_not.2 h), compare_eq_iff_eq.2 h, eq_then,
      cmpSameClass_eq (sameClass_of_classRank h)]
  · rw [if_pos h, then_of_ne h]

/-- A comparator read through a function. -/
lemma transCmp_on {α β : Type*} (cmp : β → β → Ordering) [Std.TransCmp cmp] (f : α → β) :
    Std.TransCmp fun x y => cmp (f x) (f y) where
  eq_swap := @fun a b => @Std.OrientedCmp.eq_swap _ cmp _ (f a) (f b)
  isLE_trans := @fun a b c => @Std.TransCmp.isLE_trans _ cmp _ (f a) (f b) (f c)

lemma transCmp_cmpEntry (cmp : Value → Value → Ordering) [Std.TransCmp cmp] :
    Std.TransCmp (cmpEntry cmp) :=
  have := transCmp_on cmp (Prod.snd : Text × Value → Value)
  inferInstanceAs
    (Std.TransCmp (compareLex (compareOn Prod.fst) fun x y : Text × Value => cmp x.2 y.2))

lemma transCmp_keyCmp (cmp : Value → Value → Ordering) [Std.TransCmp cmp] :
    Std.TransCmp (keyCmp cmp) :=
  have := transCmp_cmpEntry cmp
  have := transCmp_on (compareLex cmp) items
  have := transCmp_on (compareLex (cmpEntry cmp)) sortedEntries
  inferInstanceAs (Std.TransCmp (compareLex (compareOn numKey) (compareLex (compareOn textKey)
    (compareLex (fun a b => compareLex cmp (items a) (items b))
      fun a b => compareLex (cmpEntry cmp) (sortedEntries a) (sortedEntries b)))))

theorem transCmp_cmpValuesAt : ∀ left, Std.TransCmp (cmpValuesAt left)
  | 0 => by
    rw [show cmpValuesAt 0 = compareOn classRank from funext₂ cmpValuesAt_zero]
    infer_instance
  | left + 1 => by
    have := transCmp_cmpValuesAt left
    have := transCmp_keyCmp (cmpValuesAt left)
    rw [show cmpValuesAt (left + 1) = compareLex (compareOn classRank) (keyCmp (cmpValuesAt left))
      from funext₂ (cmpValuesAt_succ left)]
    infer_instance

end Graphus
