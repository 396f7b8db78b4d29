import Graphus.Cypher.Ordering
import Graphus.Lib.KeyOrder

/-!
# Index keys

The order-preserving key of a value: a tag for its class, then the fields by which the class is
ordered, most significant first. Numbers of both types share one line: the place of the number among
the doubles, then one byte for the type. An integer is put on that line by its conversion, which
rounds from `2^53` on.

The bytes of a key are compared in the order of `indexCmp`: the rank of the class, the numbers
`indexNum` and the text `textKey`. These are the keys of `cmpValues` with one difference, the exact
value of a number is missing (`indexNum` against `numKey`).

**Theorem (`faithful_valueKey`).** Whatever bytes follow, comparing two keys compares the values by
`indexCmp`.
-/

namespace Graphus

open List
open Ordering (eq_then then_assoc then_eq)

open KeyOrder (be signFlip escaped Faithful)

/-! ## The encoders -/

/-- Why a value has no key. -/
inductive KeyEncodeError where
  | unindexable (type : String)
  deriving DecidableEq

namespace Tag

def point : UInt8 := 0x08
def zonedDateTime : UInt8 := 0x10
def localDateTime : UInt8 := 0x11
def date : UInt8 := 0x12
def zonedTime : UInt8 := 0x13
def localTime : UInt8 := 0x14
def duration : UInt8 := 0x15
def string : UInt8 := 0x20
def bytes : UInt8 := 0x28
def bool : UInt8 := 0x30
def number : UInt8 := 0x40

end Tag

namespace Numtag

def integer : UInt8 := 0x00
def float : UInt8 := 0x01

end Numtag

def encodeI64Bits (v : Int) : Bytes := be 8 (signFlip 64 v)

def encodeI32Bits (v : Int) : Bytes := be 4 (signFlip 32 v)

def encodeI128Bits (v : Int) : Bytes := be 16 (signFlip 128 v)

def encodeU64Bits (v : UInt64) : Bytes := be 8 v.toNat

def encodeU32Bits (v : UInt32) : Bytes := be 4 v.toNat

/-- The bits of a double in total order. Every NaN has one pattern. -/
def f64OrderBits (v : Double) : UInt64 :=
  let bits := if v.isNan then 0x7FF8000000000000 else v.bits
  let mask := if bits &&& 0x8000000000000000 ≠ 0 then 0xFFFFFFFFFFFFFFFF else 0x8000000000000000
  bits ^^^ mask

def encodeF64Bits (v : Double) : Bytes := be 8 (f64OrderBits v).toNat

def encodeInteger (into : Bytes) (v : Int64) : Bytes :=
  into ++ encodeF64Bits (Double.ofInt v.toInt) ++ [Numtag.integer]

def encodeFloat (into : Bytes) (v : Double) : Bytes :=
  into ++ encodeF64Bits v ++ [Numtag.float]

def encodeNumber (into : Bytes) : Value → Except KeyEncodeError Bytes
  | .integer i => .ok (encodeInteger into i)
  | .float f => .ok (encodeFloat into f)
  | _ => .error (.unindexable "non-number")

/-- Append a byte string, its zeros escaped, and a terminator. -/
def pushVar (into payload : Bytes) : Bytes :=
  payload.foldl (fun into b => if b = 0x00 then into ++ [0x00] ++ [0xFF] else into ++ [b]) into ++
    [0x00] ++ [0x00]

def encodeTemporal (into : Bytes) : Value → Except KeyEncodeError Bytes
  | .date d => .ok (into ++ encodeI64Bits d.daysSinceEpoch.toInt)
  | .localTime t => .ok (into ++ encodeU64Bits t.nanosOfDay)
  | .zonedTime t =>
      .ok (into ++ encodeI64Bits t.instant.toInt ++ encodeI32Bits t.offsetSeconds.toInt)
  | .localDateTime t => .ok (into ++ encodeI64Bits t.epochSeconds.toInt ++ encodeU32Bits t.nanos)
  | .zonedDateTime t =>
    .ok (pushVar (into ++ encodeI64Bits t.utcSeconds ++ encodeU32Bits t.localDateTime.nanos ++
      encodeI32Bits t.offsetSeconds.toInt) t.zoneId)
  | .duration d => .ok (into ++ encodeI128Bits (durationOrderNanos d))
  | _ => .error (.unindexable "non-temporal")

def encodePoint (into : Bytes) : Value → Except KeyEncodeError Bytes
  | .point p =>
    .ok (p.coords.foldl (fun into c => into ++ encodeF64Bits c) (into ++ encodeI64Bits p.crs.srid))
  | _ => .error (.unindexable "non-point")

def encodeValue (into : Bytes) (v : Value) : Except KeyEncodeError Bytes :=
  match v with
  | .boolean b => .ok (into ++ [Tag.bool] ++ [if b then 1 else 0])
  | .integer _ | .float _ => encodeNumber (into ++ [Tag.number]) v
  | .string s => .ok (pushVar (into ++ [Tag.string]) s)
  | .bytes b => .ok (pushVar (into ++ [Tag.bytes]) b)
  | .zonedDateTime _ => encodeTemporal (into ++ [Tag.zonedDateTime]) v
  | .localDateTime _ => encodeTemporal (into ++ [Tag.localDateTime]) v
  | .date _ => encodeTemporal (into ++ [Tag.date]) v
  | .zonedTime _ => encodeTemporal (into ++ [Tag.zonedTime]) v
  | .localTime _ => encodeTemporal (into ++ [Tag.localTime]) v
  | .duration _ => encodeTemporal (into ++ [Tag.duration]) v
  | .point _ => encodePoint (into ++ [Tag.point]) v
  | .null => .error (.unindexable "Null")
  | .list _ => .error (.unindexable "List")
  | .map _ => .error (.unindexable "Map")

def encodeSingle (v : Value) : Except KeyEncodeError Bytes := encodeValue [] v

def encodeComposite (fields : List Value) : Except KeyEncodeError Bytes :=
  fields.foldlM encodeValue []

def withTokenPrefix (token : UInt32) (encodedTail : Bytes) : Bytes :=
  be 4 token.toNat ++ encodedTail

/-- The key under which equality is looked up: numbers without the byte for their type. -/
def encodeEqualityCanonical (v : Value) : Except KeyEncodeError Bytes :=
  match v with
  | .integer i =>
    if (Double.ofInt i.toInt).toI64 = i.toInt then
      .ok ([Tag.number] ++ encodeF64Bits (Double.ofInt i.toInt))
    else .ok ([Numtag.integer] ++ encodeI64Bits i.toInt)
  | .float f =>
    if f.isNan then .error (.unindexable "NaN") else .ok ([Tag.number] ++ encodeF64Bits f)
  | v => encodeSingle v

/-! ## Keys as plain byte strings -/

/-- The values that have a key. -/
def Indexable : Value → Prop
  | .null | .list _ | .map _ => False
  | _ => True

def keyTag : Value → UInt8
  | .boolean _ => Tag.bool
  | .integer _ | .float _ => Tag.number
  | .string _ => Tag.string
  | .bytes _ => Tag.bytes
  | .zonedDateTime _ => Tag.zonedDateTime
  | .localDateTime _ => Tag.localDateTime
  | .date _ => Tag.date
  | .zonedTime _ => Tag.zonedTime
  | .localTime _ => Tag.localTime
  | .duration _ => Tag.duration
  | .point _ => Tag.point
  | .null | .list _ | .map _ => 0

/-- The key after its tag. -/
def keyBody : Value → Bytes
  | .boolean b => [if b then 1 else 0]
  | .integer i => encodeF64Bits (Double.ofInt i.toInt) ++ [Numtag.integer]
  | .float f => encodeF64Bits f ++ [Numtag.float]
  | .string s => escaped s
  | .bytes b => escaped b
  | .date d => encodeI64Bits d.daysSinceEpoch.toInt
  | .localTime t => encodeU64Bits t.nanosOfDay
  | .zonedTime t => encodeI64Bits t.instant.toInt ++ encodeI32Bits t.offsetSeconds.toInt
  | .localDateTime t => encodeI64Bits t.epochSeconds.toInt ++ encodeU32Bits t.nanos
  | .zonedDateTime t =>
    encodeI64Bits t.utcSeconds ++ (encodeU32Bits t.localDateTime.nanos ++
      (encodeI32Bits t.offsetSeconds.toInt ++ escaped t.zoneId))
  | .duration d => encodeI128Bits (durationOrderNanos d)
  | .point p => encodeI64Bits p.crs.srid ++ p.coords.flatMap encodeF64Bits
  | .null | .list _ | .map _ => []

def valueKey (v : Value) : Bytes := keyTag v :: keyBody v

lemma pushVar_eq (into payload : Bytes) : pushVar into payload = into ++ escaped payload := by
  unfold pushVar
  induction payload generalizing into with
  | nil => rw [append_assoc]; rfl
  | cons b payload ih =>
    rw [foldl_cons, ih, escaped]
    split
    · rw [append_assoc, append_assoc]
      rfl
    · rw [append_assoc]
      rfl

lemma foldl_append_eq_flatMap {α : Type*} (f : α → Bytes) (xs : List α) (into : Bytes) :
    xs.foldl (fun into x => into ++ f x) into = into ++ xs.flatMap f := by
  induction xs generalizing into with
  | nil => rw [foldl_nil, flatMap_nil, append_nil]
  | cons x xs ih => rw [foldl_cons, ih, flatMap_cons, append_assoc]

variable {v a b : Value}

lemma encodeValue_eq (h : Indexable v) (into : Bytes) :
    encodeValue into v = .ok (into ++ valueKey v) := by
  cases v with
  | null | list | map => exact h.elim
  | _ =>
    simp only [encodeValue, encodeNumber, encodeInteger, encodeFloat, encodeTemporal, encodePoint,
      pushVar_eq, foldl_append_eq_flatMap, valueKey, keyTag, keyBody, append_assoc,
      cons_append, nil_append]

variable {into key : Bytes}

lemma indexable_of_encodeValue (h : encodeValue into v = .ok key) : Indexable v := by
  cases v with
  | null | list | map => exact nomatch h
  | _ => exact trivial

lemma encodeValue_ok (h : encodeValue into v = .ok key) :
    Indexable v ∧ key = into ++ valueKey v := by
  have hv := indexable_of_encodeValue h
  rw [encodeValue_eq hv] at h
  exact ⟨hv, (Except.ok.inj h).symm⟩

/-! ## The fields of a key compare as what they encode -/

section Fields

variable (s t : Bytes)

lemma compare_encodeI64Bits {v u : Int} (hv : -2 ^ 63 ≤ v ∧ v < 2 ^ 63)
    (hu : -2 ^ 63 ≤ u ∧ u < 2 ^ 63) :
    compare (encodeI64Bits v ++ s) (encodeI64Bits u ++ t) = (compare v u).then (compare s t) :=
  @KeyOrder.compare_signFlip_append 8 63 v u rfl hv hu s t

lemma compare_encodeI32Bits (v u : Int32) :
    compare (encodeI32Bits v.toInt ++ s) (encodeI32Bits u.toInt ++ t) =
      (compare v.toInt u.toInt).then (compare s t) :=
  @KeyOrder.compare_signFlip_append 4 31 _ _ rfl ⟨v.le_toInt, v.toInt_lt⟩
    ⟨u.le_toInt, u.toInt_lt⟩ s t

lemma compare_encodeI128Bits {v u : Int} (hv : -2 ^ 127 ≤ v ∧ v < 2 ^ 127)
    (hu : -2 ^ 127 ≤ u ∧ u < 2 ^ 127) :
    compare (encodeI128Bits v ++ s) (encodeI128Bits u ++ t) = (compare v u).then (compare s t) :=
  @KeyOrder.compare_signFlip_append 16 127 v u rfl hv hu s t

lemma compare_encodeU64Bits (v u : UInt64) : compare (encodeU64Bits v ++ s) (encodeU64Bits u ++ t) =
      (compare v.toNat u.toNat).then (compare s t) :=
  KeyOrder.compare_be_append v.toNat_lt u.toNat_lt s t

lemma compare_encodeU32Bits (v u : UInt32) : compare (encodeU32Bits v ++ s) (encodeU32Bits u ++ t) =
      (compare v.toNat u.toNat).then (compare s t) :=
  KeyOrder.compare_be_append v.toNat_lt u.toNat_lt s t

/-- The sign bit, by its mask. -/
lemma and_signMask_eq_zero_iff (bits : UInt64) :
    bits &&& 0x8000000000000000 = 0 ↔ bits.toNat < 2 ^ 63 := by
  rw [← UInt64.toNat_inj]
  show bits.toNat &&& 2 ^ 63 = 0 ↔ _
  have hlt := bits.toNat_lt
  constructor
  · intro h
    by_contra hge
    have hbit : bits.toNat.testBit 63 = true := by
      rw [Nat.testBit_eq_decide_div_mod_eq, decide_eq_true_eq]
      omega
    have hand : (bits.toNat &&& 2 ^ 63).testBit 63 = true := by
      rw [Nat.testBit_and, hbit]
      rfl
    rw [h] at hand
    exact Bool.false_ne_true hand
  · intro h
    refine Nat.eq_of_testBit_eq fun j => ?_
    rw [Nat.testBit_and, Nat.testBit_two_pow, Nat.zero_testBit]
    by_cases hj : 63 = j
    · rw [← hj, Nat.testBit_lt_two_pow h, Bool.false_and]
    · rw [decide_eq_false hj, Bool.and_false]

lemma toNat_f64OrderBits (v : Double) :
    (f64OrderBits v).toNat = if v.isNan then 0xFFF8000000000000 else v.totalKey := by
  unfold f64OrderBits
  cases hnan : v.isNan with
  | true =>
    simp only [if_true]
    decide
  | false =>
    simp only [Bool.false_eq_true, if_false, Double.totalKey, hnan]
    cases hs : v.sign with
    | true =>
      have hle : 2 ^ 63 ≤ v.bits.toNat := of_decide_eq_true hs
      have hand : v.bits &&& 0x8000000000000000 ≠ 0 := fun h =>
        not_lt.2 hle ((and_signMask_eq_zero_iff v.bits).1 h)
      have hnot : (v.bits ^^^ 0xFFFFFFFFFFFFFFFF).toNat = 2 ^ 64 - 1 - v.bits.toNat := by
        show (v.bits.toBitVec ^^^ BitVec.allOnes 64).toNat = _
        rw [BitVec.xor_allOnes, BitVec.toNat_not]
        rfl
      rw [if_pos hand, if_pos rfl, hnot]
    | false =>
      have hlt : v.bits.toNat < 2 ^ 63 := not_le.1 (of_decide_eq_false hs)
      rw [if_neg (not_not.2 ((and_signMask_eq_zero_iff v.bits).2 hlt)), if_neg Bool.false_ne_true,
        UInt64.toNat_xor]
      exact (KeyOrder.xor_two_pow_of_lt hlt).trans (Nat.add_comm _ _)

/-- The bits are in the total order of the doubles. -/
lemma compare_f64OrderBits (x y : Double) :
    compare (f64OrderBits x).toNat (f64OrderBits y).toNat = totalF64 x y := by
  have hbound : ∀ {x : Double}, x.isNan = false → x.totalKey < 0xFFF8000000000000 := by
    intro x hx
    have hle := Double.magnitude_le_infMag hx
    rw [Double.totalKey_eq hx]
    unfold Double.infMag at hle
    split <;> omega
  rw [toNat_f64OrderBits, toNat_f64OrderBits, totalF64]
  cases hx : x.isNan <;> cases hy : y.isNan <;> simp only [Bool.false_eq_true, if_false, if_true]
  · rw [compare_lt_iff_lt.2 (hbound hx), compare_lt_iff_lt.2 (Double.totalKey_lt_of_isNan hx hy)]
  · rw [compare_gt_iff_gt.2 (hbound hy), compare_gt_iff_gt.2 (Double.totalKey_lt_of_isNan hy hx)]
  · rw [Double.totalKey_of_isNan hx, Double.totalKey_of_isNan hy, compare_eq_iff_eq.2 rfl,
      compare_eq_iff_eq.2 rfl]

lemma compare_encodeF64Bits (x y : Double) :
    compare (encodeF64Bits x ++ s) (encodeF64Bits y ++ t) = (totalF64 x y).then (compare s t) := by
  rw [encodeF64Bits, encodeF64Bits, KeyOrder.compare_be_append (f64OrderBits x).toNat_lt
    (f64OrderBits y).toNat_lt, compare_f64OrderBits]

end Fields

/-! ## The order of the keys -/

/-- The numbers by which keys are ordered: those of `numKey`, without the exact value of a
number. -/
def indexNum : Value → List Int
  | .integer i => [(Double.ofInt i.toInt).totalKey, 0]
  | .float f => [f.totalKey, 1]
  | v => numKey v

/-- The order of the keys. -/
def indexCmp (a b : Value) : Ordering :=
  (compare (classRank a) (classRank b)).then
    ((compare (indexNum a) (indexNum b)).then (compare (textKey a) (textKey b)))

lemma toInt_range (v : Int64) : -2 ^ 63 ≤ v.toInt ∧ v.toInt < 2 ^ 63 := ⟨v.le_toInt, v.toInt_lt⟩

lemma saturatingSub_range (a b : Int) :
    -2 ^ 63 ≤ saturatingSub a b ∧ saturatingSub a b < 2 ^ 63 := by
  unfold saturatingSub
  omega

lemma srid_range (c : Crs) : -2 ^ 63 ≤ c.srid ∧ c.srid < 2 ^ 63 := by
  cases c <;> decide

/-- The approximate length of a duration fits 128 bits. -/
lemma durationOrderNanos_range (d : Duration) :
    -2 ^ 127 ≤ durationOrderNanos d ∧ durationOrderNanos d < 2 ^ 127 := by
  have hm := toInt_range d.months
  have hd := toInt_range d.days
  have hs := toInt_range d.seconds
  have hlo := d.nanos.le_toInt
  have hhi := d.nanos.toInt_lt
  unfold durationOrderNanos avgNanosPerMonth avgSecondsPerMonth nanosPerDay
  omega

lemma compare_keyTag (ha : Indexable a) (hb : Indexable b) :
    compare (keyTag a) (keyTag b) = compare (classRank a) (classRank b) := by
  cases a <;> first
    | exact ha.elim
    | cases b <;> first | exact hb.elim | rfl

/-- The coordinates of two points of one system. -/
lemma compare_coords {p q : Point} (h : p.crs = q.crs) (s t : Bytes) :
    compare (p.coords.flatMap encodeF64Bits ++ s) (q.coords.flatMap encodeF64Bits ++ t) =
      (List.compareLex totalF64 p.coords q.coords).then (compare s t) := by
  have hfaithful : Faithful (fun _ : Double => True) totalF64 encodeF64Bits :=
    fun x y _ _ s t => compare_encodeF64Bits s t x y
  refine hfaithful.flatMap (fun _ _ => trivial) (fun _ _ => trivial) ?_ s t
  rw [p.length_coords, q.length_coords, h]

lemma compare_pointBody (p q : Point) (s t : Bytes) :
    compare (keyBody (.point p) ++ s)
    (keyBody (.point q) ++ t) = (p.totalCmp q).then (compare s t) := by
  rw [keyBody, keyBody, append_assoc, append_assoc,
    compare_encodeI64Bits _ _ (srid_range p.crs) (srid_range q.crs), Point.totalCmp,
    then_assoc]
  cases hcmp : compare p.crs.srid q.crs.srid with
  | lt => rfl
  | gt => rfl
  | eq =>
    have hcrs : p.crs = q.crs := Crs.srid_injective (compare_eq_iff_eq.1 hcmp)
    rw [eq_then, eq_then, compare_coords hcrs]

lemma compare_keyBody (h : SameClass a b) (ha : Indexable a) (s t : Bytes) :
    compare (keyBody a ++ s) (keyBody b ++ t) = (compare (indexNum a) (indexNum b)).then
        ((compare (textKey a) (textKey b)).then (compare s t)) := by
  cases h with
  | nulls | lists | maps => exact ha.elim
  | booleans x y => cases x <;> cases y <;> rfl
  | integers | integerFloat | floatInteger | floats =>
    simp only [keyBody, append_assoc, compare_encodeF64Bits, totalF64, indexNum,
      List.compare_cons_cons, compare_natCast, then_assoc]
    rfl
  | strings x y | byteStrings x y => exact KeyOrder.compare_escaped_append x y s t
  | dates x y =>
    simp only [keyBody, compare_encodeI64Bits _ _ (toInt_range _) (toInt_range _), indexNum, numKey,
      List.compare_cons_cons, then_assoc]
    rfl
  | localTimes x y =>
    simp only [keyBody, compare_encodeU64Bits, indexNum, numKey, List.compare_cons_cons,
      compare_natCast, then_assoc]
    rfl
  | zonedTimes x y =>
    simp only [keyBody, append_assoc, compare_encodeI64Bits _ _ (toInt_range _) (toInt_range _),
      compare_encodeI32Bits, indexNum, numKey, List.compare_cons_cons, then_assoc]
    rfl
  | localDateTimes x y =>
    simp only [keyBody, append_assoc, compare_encodeI64Bits _ _ (toInt_range _) (toInt_range _),
      compare_encodeU32Bits, indexNum, numKey, List.compare_cons_cons, compare_natCast,
      then_assoc]
    rfl
  | zonedDateTimes x y =>
    simp only [keyBody, append_assoc, ZonedDateTime.utcSeconds,
      compare_encodeI64Bits _ _ (saturatingSub_range _ _) (saturatingSub_range _ _),
      compare_encodeU32Bits, compare_encodeI32Bits, KeyOrder.compare_escaped_append,
        indexNum, numKey,
      List.compare_cons_cons, compare_natCast, then_assoc]
    rfl
  | durations x y =>
    simp only [keyBody,
      compare_encodeI128Bits _ _ (durationOrderNanos_range _)
        (durationOrderNanos_range _), indexNum,
      numKey, List.compare_cons_cons, then_assoc]
    rfl
  | points p q =>
    rw [compare_pointBody, totalCmp_eq_compare]
    rfl

theorem faithful_valueKey : Faithful Indexable indexCmp valueKey := by
  intro a b ha hb s t
  rw [valueKey, valueKey, List.cons_append, List.cons_append, List.compare_cons_cons,
    compare_keyTag ha hb, indexCmp]
  by_cases h : classRank a = classRank b
  · rw [compare_keyBody (sameClass_of_classRank h) ha, then_assoc, then_assoc]
  · rw [then_of_ne h, then_of_ne h, then_of_ne h]

/-! ## Composite keys -/

variable {fields : List Value}

lemma encodeComposite_ok_aux : ∀ {into key : Bytes}, fields.foldlM encodeValue into = .ok key →
    (∀ v ∈ fields, Indexable v) ∧ key = into ++ fields.flatMap valueKey := by
  induction fields with
  | nil =>
    intro into key h
    exact ⟨fun _ hv => absurd hv not_mem_nil, by
      rw [flatMap_nil, append_nil]
      exact (Except.ok.inj h).symm⟩
  | cons v fields ih =>
    intro into key h
    rw [foldlM_cons] at h
    cases hv : encodeValue into v with
    | error e =>
      rw [hv] at h
      exact nomatch h
    | ok next =>
      rw [hv] at h
      obtain ⟨hidx, rfl⟩ := encodeValue_ok hv
      obtain ⟨hall, rfl⟩ := ih h
      refine ⟨forall_mem_cons.2 ⟨hidx, hall⟩, ?_⟩
      rw [flatMap_cons, append_assoc]

lemma encodeComposite_ok (h : encodeComposite fields = .ok key) :
    (∀ v ∈ fields, Indexable v) ∧ key = fields.flatMap valueKey :=
  encodeComposite_ok_aux h

lemma encodeComposite_eq (h : ∀ v ∈ fields, Indexable v) :
    encodeComposite fields = .ok (fields.flatMap valueKey) := by
  have haux : ∀ into : Bytes, fields.foldlM encodeValue into =
    .ok (into ++ fields.flatMap valueKey) := by
    induction fields with
    | nil =>
      intro into
      rw [flatMap_nil, append_nil]
      rfl
    | cons v fields ih =>
      intro into
      rw [foldlM_cons, encodeValue_eq (h v mem_cons_self)]
      show fields.foldlM encodeValue (into ++ valueKey v) = _
      rw [ih (fun w hw => h w (mem_cons_of_mem v hw)), flatMap_cons, append_assoc]
  exact haux []

/-- Composite keys of one arity compare field by field. -/
lemma compare_compositeKeys {xs ys : List Value} (hx : ∀ v ∈ xs, Indexable v)
    (hy : ∀ v ∈ ys, Indexable v) (hlen : xs.length = ys.length) :
    compare (xs.flatMap valueKey) (ys.flatMap valueKey) = List.compareLex indexCmp xs ys := by
  have hcmp := faithful_valueKey.flatMap hx hy hlen [] []
  rw [List.append_nil, List.append_nil, List.compare_nil_nil, then_eq] at hcmp
  exact hcmp

end Graphus
