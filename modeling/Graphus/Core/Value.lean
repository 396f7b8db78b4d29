import Graphus.Lib.Bytes
import Graphus.Lib.Double

/-!
# Values

The value type of `graphus-core`: scalars, the temporal types with their components, points in a
coordinate reference system, and nested lists and maps. An `i64` is an `Int64`, an `f64` is a
`Double`, and a string is its UTF-8 bytes, which is how every comparison of the source reads it.

`cmpIntFloat` compares an integer with a double. The source does it in three pieces (exactly
converted integers, doubles out of range, and the integer part of the double);
`cmpIntFloat_eq` says that the pieces together compare the two exact values.
-/

namespace Graphus

open List
open Double (ge_iff isNan_ofInt lt_iff ofInt scale units_floor)

/-- A string, by its bytes. -/
abbrev Text := List UInt8

/-- The UTF-8 bytes of a literal. -/
def text (s : String) : Text := s.toUTF8.toList

/-- The errors of the engine. -/
inductive GraphusError where
  | storage (message : Text)
  | transaction (message : Text)
  | compile (message : Text)
  | runtime (message : Text)
  | protocol (message : Text)
  | security (message : Text)
  deriving DecidableEq

/-! ## Numbers -/

/-- The order of all doubles: negative zero below zero, every NaN last. -/
def totalF64 (a b : Double) : Ordering := compare a.totalKey b.totalKey

/-- Up to this magnitude every integer is a double. -/
def maxExactIntInF64 : Int := 2 ^ 53

/-- One past the largest `i64`. -/
def twoPow63 : Double := ofInt (2 ^ 63)

def negTwoPow63 : Double := ofInt (-2 ^ 63)

def cmpIntFloat (i : Int64) (f : Double) : Option Ordering :=
  if f.isNan then none
  else if -maxExactIntInF64 ≤ i.toInt ∧ i.toInt ≤ maxExactIntInF64 then
    (ofInt i.toInt).partialCmp f
  else if f.ge twoPow63 then some .lt
  else if f.lt negTwoPow63 then some .gt
  else
    let floor := f.floor
    some ((compare i.toInt floor.toI64).then (if floor.lt f then .lt else .eq))

lemma natAbs_toInt_le (i : Int64) : i.toInt.natAbs ≤ 2 ^ 63 := by
  have hlo := i.le_toInt
  have hhi := i.toInt_lt
  omega

section Floor

variable {i u k s : Int}

/-- Comparing with the integer part first, then with the rest. -/
lemma compare_mul_eq_then (hs : 0 < s) (hlo : k * s ≤ u) (hhi : u < (k + 1) * s) :
    compare (i * s) u = (compare i k).then (if k * s < u then .lt else .eq) := by
  rcases lt_trichotomy i k with hlt | rfl | hgt
  · have hmul := Int.mul_lt_mul_of_pos_right hlt hs
    rw [compare_lt_iff_lt.2 hlt, compare_lt_iff_lt.2 (by omega)]
    rfl
  · rw [compare_eq_iff_eq.2 rfl]
    split
    · exact compare_lt_iff_lt.2 ‹_›
    · exact compare_eq_iff_eq.2 (by omega)
  · have hmul := Int.mul_le_mul_of_nonneg_right (Int.add_one_le_of_lt hgt) hs.le
    rw [compare_gt_iff_gt.2 hgt, compare_gt_iff_gt.2 (by omega)]
    rfl

end Floor

/-- The comparison is the one of the exact values. -/
lemma cmpIntFloat_eq {i : Int64} {f : Double} (hf : f.isNan = false) :
    cmpIntFloat i f = some (compare (i.toInt * scale) f.units) := by
  have hscale : (0 : Int) < scale := Int.natCast_pos.2 Double.scale_pos
  have hmax : twoPow63.isNan = false := isNan_ofInt (by decide)
  have hmin : negTwoPow63.isNan = false := isNan_ofInt (by decide)
  have hlo := i.le_toInt
  have hhi := i.toInt_lt
  unfold cmpIntFloat
  rw [hf, if_neg (by decide)]
  split
  case isTrue hexact =>
    unfold maxExactIntInF64 at hexact
    rw [Double.partialCmp_of_not_isNan (isNan_ofInt (natAbs_toInt_le i)) hf,
      Double.units_ofInt_of_le (by omega)]
  case isFalse =>
    split
    case isTrue habove =>
      rw [ge_iff hf hmax, twoPow63, Double.units_ofInt_two_pow] at habove
      have hmul := Int.mul_lt_mul_of_pos_right hhi hscale
      rw [compare_lt_iff_lt.2 (hmul.trans_le habove)]
    case isFalse habove =>
      rw [ge_iff hf hmax, twoPow63, Double.units_ofInt_two_pow, not_le] at habove
      split
      case isTrue hbelow =>
        rw [lt_iff hf hmin, negTwoPow63, Double.units_ofInt_neg_two_pow] at hbelow
        have hmul := Int.mul_le_mul_of_nonneg_right hlo hscale.le
        rw [compare_gt_iff_gt.2 (hbelow.trans_le hmul)]
      case isFalse hbelow =>
        rw [lt_iff hf hmin, negTwoPow63, Double.units_ofInt_neg_two_pow, not_lt] at hbelow
        -- The integer part fits an `i64`, so its conversion is exact.
        have hklo := (Int.le_ediv_iff_mul_le hscale).2 hbelow
        have hkhi := (Int.ediv_lt_iff_lt_mul hscale).2 habove
        have hnan : f.floor.isNan = false := (Double.isNan_floor f).trans hf
        have hfloor : f.floor.toI64 = f.units / scale :=
          Double.toI64_eq hnan hklo hkhi (units_floor f)
        have hle := Int.ediv_mul_le f.units hscale.ne'
        have hlt := Int.lt_ediv_add_one_mul_self f.units hscale
        rw [compare_mul_eq_then hscale hle hlt]
        simp only [hfloor, lt_iff hnan hf, units_floor]

/-! ## Temporal values -/

structure Date where
  daysSinceEpoch : Int64
  deriving DecidableEq

structure LocalTime where
  nanosOfDay : UInt64
  deriving DecidableEq

structure ZonedTime where
  time : LocalTime
  offsetSeconds : Int32
  deriving DecidableEq

structure LocalDateTime where
  epochSeconds : Int64
  nanos : UInt32
  deriving DecidableEq

structure ZonedDateTime where
  localDateTime : LocalDateTime
  offsetSeconds : Int32
  zoneId : Text
  deriving DecidableEq

structure Duration where
  months : Int64
  days : Int64
  seconds : Int64
  nanos : Int32
  deriving DecidableEq

def nanosPerDay : Int := 86400000000000

/-- The average month, by the second and by the nanosecond. -/
def avgSecondsPerMonth : Int := 2629746

def avgNanosPerMonth : Int := avgSecondsPerMonth * 1000000000

/-- The instant of a time of day with an offset, in wrapping arithmetic. -/
def ZonedTime.instant (t : ZonedTime) : Int64 :=
  t.time.nanosOfDay.toInt64 - t.offsetSeconds.toInt64 * 1000000000

/-- `saturating_sub` of `i64`. -/
def saturatingSub (a b : Int) : Int := max (-2 ^ 63) (min (2 ^ 63 - 1) (a - b))

/-- The instant of a date-time with an offset, in saturating arithmetic. -/
def ZonedDateTime.utcSeconds (t : ZonedDateTime) : Int :=
  saturatingSub t.localDateTime.epochSeconds.toInt t.offsetSeconds.toInt

/-- The approximate length by which durations are ordered. -/
def durationOrderNanos (d : Duration) : Int :=
  d.months.toInt * avgNanosPerMonth + d.days.toInt * nanosPerDay +
    d.seconds.toInt * 1000000000 + d.nanos.toInt

/-! ## Points -/

/-- The coordinate reference systems. -/
inductive Crs where
  | cartesian
  | cartesian3D
  | wgs84
  | wgs84In3D
  deriving DecidableEq

namespace Crs

def srid : Crs → Int
  | cartesian => 7203
  | cartesian3D => 9157
  | wgs84 => 4326
  | wgs84In3D => 4979

def dimensions : Crs → Nat
  | cartesian | wgs84 => 2
  | cartesian3D | wgs84In3D => 3

lemma srid_injective : Function.Injective srid := by
  intro a b h
  cases a <;> cases b <;> first | rfl | exact absurd h (by decide)

end Crs

/-- A point has as many coordinates as its reference system has dimensions. -/
structure Point where
  crs : Crs
  coords : List Double
  length_coords : coords.length = crs.dimensions

namespace Point

/-- Equality of the evaluator: the standard's equality on each coordinate. -/
def valueEq (p q : Point) : Bool :=
  p.crs = q.crs && p.coords.length = q.coords.length && (p.coords.zip q.coords).all fun c =>
    c.1.ieeeEq c.2

def totalCmp (p q : Point) : Ordering :=
  (compare p.crs.srid q.crs.srid).then (List.compareLex totalF64 p.coords q.coords)

end Point

/-! ## Values -/

inductive Value where
  | null
  | boolean (b : Bool)
  | integer (i : Int64)
  | float (f : Double)
  | string (s : Text)
  | bytes (b : Bytes)
  | list (items : List Value)
  | map (entries : List (Text × Value))
  | date (d : Date)
  | localTime (t : LocalTime)
  | zonedTime (t : ZonedTime)
  | localDateTime (t : LocalDateTime)
  | zonedDateTime (t : ZonedDateTime)
  | duration (d : Duration)
  | point (p : Point)

/-- A map: its entries in order. -/
abbrev Fields := List (Text × Value)

namespace Value

mutual

/-- A value and all the values inside it. -/
def subvalues : Value → List Value
  | .list items => .list items :: subvaluesOfItems items
  | .map entries => .map entries :: subvaluesOfEntries entries
  | v => [v]

def subvaluesOfItems : List Value → List Value
  | [] => []
  | x :: xs => x.subvalues ++ subvaluesOfItems xs

def subvaluesOfEntries : List (Text × Value) → List Value
  | [] => []
  | (_, v) :: es => v.subvalues ++ subvaluesOfEntries es

end

lemma subvaluesOfItems_eq (items : List Value) :
    subvaluesOfItems items = items.flatMap subvalues := by
  induction items with
  | nil => rfl
  | cons x xs ih => rw [subvaluesOfItems, ih, flatMap_cons]

lemma subvaluesOfEntries_eq (entries : Fields) :
    subvaluesOfEntries entries = entries.flatMap fun e => e.2.subvalues := by
  induction entries with
  | nil => rfl
  | cons e es ih => rw [subvaluesOfEntries, ih, flatMap_cons]

lemma mem_subvalues_list {x : Value} {items : List Value} :
    x ∈ (list items).subvalues ↔ x = list items ∨ ∃ v ∈ items, x ∈ v.subvalues := by
  rw [subvalues, subvaluesOfItems_eq, mem_cons, mem_flatMap]

lemma mem_subvalues_map {x : Value} {entries : Fields} :
    x ∈ (map entries).subvalues ↔ x = map entries ∨ ∃ e ∈ entries, x ∈ e.2.subvalues := by
  rw [subvalues, subvaluesOfEntries_eq, mem_cons, mem_flatMap]

section Induction

variable {P : Value → Prop} (list : ∀ items, (∀ v ∈ items, P v) → P (list items))
  (map : ∀ entries, (∀ e ∈ entries, P e.2) → P (map entries))
  (leaf : ∀ v, (∀ items, v ≠ .list items) → (∀ entries, v ≠ .map entries) → P v)

include list map leaf

/-- Induction over lists and maps, whose parts are smaller values. -/
lemma induction_on_parts (v : Value) : P v := by
  cases v with
  | list items => exact list items fun v hv => induction_on_parts v
  | map entries => exact map entries fun e he => induction_on_parts e.2
  | _ => exact leaf _ nofun nofun
termination_by sizeOf v
decreasing_by
  · have := sizeOf_lt_of_mem hv
    rw [Value.list.sizeOf_spec]
    omega
  · have := sizeOf_lt_of_mem he
    obtain ⟨key, value⟩ := e
    rw [Prod.mk.sizeOf_spec] at this
    rw [Value.map.sizeOf_spec]
    dsimp only
    omega

end Induction

lemma self_mem_subvalues (v : Value) : v ∈ v.subvalues := by
  cases v <;> exact mem_cons_self

end Value

end Graphus
