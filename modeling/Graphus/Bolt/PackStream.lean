import Graphus.Core.TemporalCalc
import Graphus.Lib.Hoare
import Graphus.Lib.KeyOrder

/-!
# PackStream

The codec of `packstream.rs`: `Packer` appends items to a buffer, `Unpacker` reads them back from
bytes a client has sent.

A decoding computation ends in a value, in an error of the source, in a panic (`DecodeFault.panics`:
a subtraction below zero, an index out of bounds, a failed `expect`), or out of levels
(`DecodeFault.outOfLevels`). The decoder recurses through `unpackValue`, so its model counts the
levels it may still go down. The source has no such count: it stops at `maxDecodeDepth`, which is as
many levels as the model starts with.

Beside the fields of the source, `Unpacker` records what a run has used: the deepest stack of calls
(`call` marks one), the end of the bytes looked at, the collection elements decoded and the
reservations made before any of their elements was there.
-/

namespace Graphus

open Int64 (ofInt ofNat)

/-! ## Text and points -/

/-- The ranges the bytes after the first byte of a character lie in; none if no character starts
so. -/
def utf8Tail (b : UInt8) : Option (List (UInt8 × UInt8)) :=
  if b < 0x80 then some []
  else if 0xC2 ≤ b ∧ b ≤ 0xDF then some [(0x80, 0xBF)]
  else if b = 0xE0 then some [(0xA0, 0xBF), (0x80, 0xBF)]
  else if b = 0xED then some [(0x80, 0x9F), (0x80, 0xBF)]
  else if 0xE1 ≤ b ∧ b ≤ 0xEF then some [(0x80, 0xBF), (0x80, 0xBF)]
  else if b = 0xF0 then some [(0x90, 0xBF), (0x80, 0xBF), (0x80, 0xBF)]
  else if 0xF1 ≤ b ∧ b ≤ 0xF3 then some [(0x80, 0xBF), (0x80, 0xBF), (0x80, 0xBF)]
  else if b = 0xF4 then some [(0x80, 0x8F), (0x80, 0xBF), (0x80, 0xBF)]
  else none

/-- One byte of a text, given the ranges the rest of its character is to lie in. -/
def utf8Step : List (UInt8 × UInt8) → UInt8 → Option (List (UInt8 × UInt8))
  | [], b => utf8Tail b
  | (lo, hi) :: rest, b => if lo ≤ b ∧ b ≤ hi then some rest else none

/-- The check of `String::from_utf8`. -/
def isUtf8 (s : Text) : Bool := s.foldlM utf8Step [] = some []

namespace Crs

def fromSrid (srid : Int) : Option Crs :=
  if srid = 7203 then some cartesian
  else if srid = 9157 then some cartesian3D
  else if srid = 4326 then some wgs84
  else if srid = 4979 then some wgs84In3D
  else none

def name : Crs → String
  | cartesian => "cartesian"
  | cartesian3D => "cartesian-3d"
  | wgs84 => "wgs-84"
  | wgs84In3D => "wgs-84-3d"

end Crs

namespace Point

def fromCrsCoords (crs : Crs) (coords : List Double) : Option Point :=
  if h : coords.length = crs.dimensions then some ⟨crs, coords, h⟩ else none

-- The source holds three coordinates, the third of them zero where there are two.
def x (p : Point) : Double := p.coords.getD 0 ⟨0⟩

def y (p : Point) : Double := p.coords.getD 1 ⟨0⟩

def z (p : Point) : Option Double :=
    if p.crs.dimensions = 3 then some (p.coords.getD 2 ⟨0⟩) else none

end Point

namespace Duration

/-- The seconds and nanoseconds of a duration share the sign of their total. -/
def fromMonthDayTotal (months days : Int64) (totalNanos : Int) : Except TemporalError Duration :=
  let seconds := totalNanos.tdiv 1000000000
  if -2 ^ 63 ≤ seconds ∧ seconds < 2 ^ 63 then
    .ok ⟨months, days, ofInt seconds, Int32.ofInt (totalNanos.tmod 1000000000)⟩
  else .error .overflow

def fromComponents (months days seconds nanos : Int64) : Except TemporalError Duration :=
  fromMonthDayTotal months days (seconds.toInt * 1000000000 + nanos.toInt)

end Duration

/-- The faults of a Bolt conversation. A message that prints a decoded value carries the value. -/
inductive BoltError where
  | encode (message : Text)
  | decode (message : Text)
  | decodeFound (message : Text) (found : Value)
  | decodeZone (message : Text) (e : TemporalError)
  | handshake (message : Text)
  | protocol (message : Text)
  | transport (message : Text)

namespace PackStream

open Hoare KeyOrder

/-! ## Markers and limits -/

namespace Marker

def null : UInt8 := 0xC0
def float64 : UInt8 := 0xC1
def false : UInt8 := 0xC2
def true : UInt8 := 0xC3
def int8 : UInt8 := 0xC8
def int16 : UInt8 := 0xC9
def int32 : UInt8 := 0xCA
def int64 : UInt8 := 0xCB
def bytes8 : UInt8 := 0xCC
def bytes16 : UInt8 := 0xCD
def bytes32 : UInt8 := 0xCE
def tinyStringBase : UInt8 := 0x80
def string8 : UInt8 := 0xD0
def string16 : UInt8 := 0xD1
def string32 : UInt8 := 0xD2
def tinyListBase : UInt8 := 0x90
def list8 : UInt8 := 0xD4
def list16 : UInt8 := 0xD5
def list32 : UInt8 := 0xD6
def tinyMapBase : UInt8 := 0xA0
def map8 : UInt8 := 0xD8
def map16 : UInt8 := 0xD9
def map32 : UInt8 := 0xDA
def tinyStructBase : UInt8 := 0xB0

end Marker

open Marker (bytes16 bytes32 bytes8 float64 int16 int32 int64 int8 list16 list32 list8 map16 map32
  map8 string16 string32 string8 tinyListBase tinyMapBase tinyStringBase tinyStructBase)

namespace Tag

def node : UInt8 := 0x4E
def relationship : UInt8 := 0x52
def unboundRelationship : UInt8 := 0x72
def path : UInt8 := 0x50
def date : UInt8 := 0x44
def time : UInt8 := 0x54
def localTime : UInt8 := 0x74
def dateTime : UInt8 := 0x49
def dateTimeZoneId : UInt8 := 0x69
def localDateTime : UInt8 := 0x64
def duration : UInt8 := 0x45
def point2D : UInt8 := 0x58
def point3D : UInt8 := 0x59

end Tag

def tinyIntMin : Int := -16
def tinyIntMax : Int := 127
def maxCollectionLen : Nat := 2147483647
def maxStructFields : Nat := 15
def maxStructTag : UInt8 := 0x7F
def maxPrealloc : Nat := 32
def maxDecodeDepth : Nat := 64
def maxDecodeElements : Nat := 4 * 1024 * 1024
def hashDedupThreshold : Nat := 32
def maxEncodeDepth : Nat := 1000
def maxTzOffsetSeconds : Nat := 18 * 60 * 60
def minEpochDay : Int := -365243219162
def maxEpochDay : Int := 365241780471

def preallocCap (wireLen remaining : Nat) : Nat := min (min wireLen remaining) maxPrealloc

variable (m : UInt8)

def isTinyInt : Bool := m ≤ 0x7F || 0xF0 ≤ m

/-- The marker of a short collection has its length in its low half. -/
def isTiny (base m : UInt8) : Bool := base ≤ m && m ≤ base + 0x0F

def isStringMarker : Bool :=
  isTiny tinyStringBase m || m = string8 || m = string16 || m = string32

def isListMarker : Bool :=
  isTiny tinyListBase m || m = list8 || m = list16 || m = list32

def isMapMarker : Bool :=
  isTiny tinyMapBase m || m = map8 || m = map16 || m = map32

def isStructMarker : Bool := isTiny tinyStructBase m

/-- The arms `unpack_value` chooses between by the first byte. -/
inductive Kind where
  | null | true | false | float | int | bytes | string | list | map | struct | unknown
  deriving DecidableEq

def kind : Kind :=
  if m = Marker.null then .null
  else if m = Marker.true then .true
  else if m = Marker.false then .false
  else if m = float64 then .float
  else if m = int8 || m = int16 || m = int32 || m = int64 then .int
  else if isTinyInt m then .int
  else if m = bytes8 || m = bytes16 || m = bytes32 then .bytes
  else if isStringMarker m then .string
  else if isListMarker m then .list
  else if isMapMarker m then .map
  else if isStructMarker m then .struct
  else .unknown

/-! ## Packing -/

structure Packer where
  buf : Bytes := []
  /-- The first collection length that was too large to write. -/
  overflow : Option Nat := none

/-- The `k` big-endian bytes of a signed integer. -/
def signedBe (k : Nat) (v : Int) : Bytes := be k (v % 256 ^ k).toNat

namespace Packer

variable (p : Packer)

def push (bs : Bytes) : Packer := { p with buf := p.buf ++ bs }

def markOverflow (len : Nat) :
    Packer := if p.overflow = none then { p with overflow := some len } else p

def writeNull : Packer := p.push [Marker.null]

def writeBool (b : Bool) : Packer := p.push [if b then Marker.true else Marker.false]

def writeInt (n : Int64) : Packer :=
  let v := n.toInt
  if tinyIntMin ≤ v ∧ v ≤ tinyIntMax then p.push (signedBe 1 v)
  else if -2 ^ 7 ≤ v ∧ v < 2 ^ 7 then p.push (int8 :: signedBe 1 v)
  else if -2 ^ 15 ≤ v ∧ v < 2 ^ 15 then p.push (int16 :: signedBe 2 v)
  else if -2 ^ 31 ≤ v ∧ v < 2 ^ 31 then p.push (int32 :: signedBe 4 v)
  else p.push (int64 :: signedBe 8 v)

def writeFloat (f : Double) : Packer := p.push (float64 :: be 8 f.bits.toNat)

def writeCollectionHeader (tinyBase m8 m16 m32 : UInt8) (len : Nat) : Packer :=
  if len ≤ 15 then p.push [tinyBase + UInt8.ofNat len]
  else if len < 2 ^ 8 then p.push (m8 :: be 1 len)
  else if len < 2 ^ 16 then p.push (m16 :: be 2 len)
  else if maxCollectionLen < len then p.markOverflow len
  else p.push (m32 :: be 4 len)

def writeString (s : Text) : Packer :=
  (p.writeCollectionHeader tinyStringBase string8 string16 string32 s.length).push s

def writeBytes (b : Bytes) : Packer :=
  if b.length < 2 ^ 8 then (p.push (bytes8 :: be 1 b.length)).push b
  else if b.length < 2 ^ 16 then (p.push (bytes16 :: be 2 b.length)).push b
  else if maxCollectionLen < b.length then p.markOverflow b.length
  else (p.push (bytes32 :: be 4 b.length)).push b

def writeListHeader (count : Nat) : Packer :=
  p.writeCollectionHeader tinyListBase list8 list16 list32 count

def writeMapHeader (count : Nat) : Packer :=
  p.writeCollectionHeader tinyMapBase map8 map16 map32 count

/-- The source refuses more than fifteen fields, and its callers `expect` that it did not. -/
def writeStructHeader (tag : UInt8) (fieldCount : Nat)
    (_ : fieldCount ≤ maxStructFields) : Packer :=
  p.push [tinyStructBase + UInt8.ofNat fieldCount, tag]

end Packer

def i64FromU64Saturating (n : UInt64) : Int64 := ofInt (min n.toNat (2 ^ 63 - 1))

section Encoders

variable (p : Packer)

def packDate (d : Date) :
    Packer := (p.writeStructHeader Tag.date 1 (by decide)).writeInt d.daysSinceEpoch

def packLocalTime (t : LocalTime) : Packer :=
  (p.writeStructHeader Tag.localTime 1 (by decide)).writeInt (i64FromU64Saturating t.nanosOfDay)

def packTime (t : ZonedTime) : Packer :=
  ((p.writeStructHeader Tag.time 2 (by decide)).writeInt
    (i64FromU64Saturating t.time.nanosOfDay)).writeInt t.offsetSeconds.toInt64

def packLocalDateTime (t : LocalDateTime) : Packer :=
  ((p.writeStructHeader Tag.localDateTime 2 (by decide)).writeInt t.epochSeconds).writeInt
    (ofNat t.nanos.toNat)

/-- The UTC seconds are those `utcSeconds` saturates to; a named zone takes the place of the
offset. -/
def packZonedDateTime (t : ZonedDateTime) : Packer :=
  let utcSecs := ofInt t.utcSeconds
  let nanos := ofNat t.localDateTime.nanos.toNat
  if t.zoneId.isEmpty then
    (((p.writeStructHeader Tag.dateTime 3 (by decide)).writeInt utcSecs).writeInt nanos).writeInt
      t.offsetSeconds.toInt64
  else
    (((p.writeStructHeader Tag.dateTimeZoneId 3 (by decide)).writeInt utcSecs).writeInt
      nanos).writeString t.zoneId

def packDuration (d : Duration) : Packer :=
  ((((p.writeStructHeader Tag.duration 4 (by decide)).writeInt d.months).writeInt d.days).writeInt
    d.seconds).writeInt d.nanos.toInt64

def packPoint2d (srid : Int64) (x y : Double) : Packer :=
  (((p.writeStructHeader Tag.point2D 3 (by decide)).writeInt srid).writeFloat x).writeFloat y

def packPoint3d (srid : Int64) (x y z : Double) : Packer :=
  ((((p.writeStructHeader Tag.point3D 4 (by decide)).writeInt srid).writeFloat x).writeFloat
    y).writeFloat z

def packPoint (q : Point) : Packer :=
  match q.z with
  | none => packPoint2d p (ofInt q.crs.srid) q.x q.y
  | some z => packPoint3d p (ofInt q.crs.srid) q.x q.y z

end Encoders

mutual

def packValueAt (depth : Nat) (value : Value) (p : Packer) : Packer :=
  if maxEncodeDepth < depth then p.writeNull
  else match value with
    | .null => p.writeNull
    | .boolean b => p.writeBool b
    | .integer n => p.writeInt n
    | .float f => p.writeFloat f
    | .string s => p.writeString s
    | .bytes b => p.writeBytes b
    | .list items => packItems depth items (p.writeListHeader items.length)
    | .map entries => packEntries depth entries (p.writeMapHeader entries.length)
    | .date d => packDate p d
    | .localTime t => packLocalTime p t
    | .zonedTime t => packTime p t
    | .localDateTime t => packLocalDateTime p t
    | .zonedDateTime t => packZonedDateTime p t
    | .duration d => packDuration p d
    | .point q => packPoint p q

def packItems (depth : Nat) : List Value → Packer → Packer
  | [], p => p
  | item :: items, p => packItems depth items (packValueAt (depth + 1) item p)

def packEntries (depth : Nat) : List (Text × Value) → Packer → Packer
  | [], p => p
  | (k, v) :: entries, p => packEntries depth entries (packValueAt (depth + 1) v (p.writeString k))

end

def packValue (value : Value) (p : Packer) : Packer := packValueAt 0 value p

/-! ## Unpacking -/

/-- Slots reserved before any element was there, and the bytes that were unread then. -/
structure Reservation where
  slots : Nat
  unread : Nat

structure Unpacker where
  buf : Bytes
  pos : Nat := 0
  depth : Nat := 0
  elementsRemaining : Nat := maxDecodeElements
  /-- The calls that have not returned, and the most there have been. -/
  frames : Nat := 0
  peak : Nat := 0
  /-- The end of the bytes looked at so far. -/
  reach : Nat := 0
  /-- The collection elements decoded so far. -/
  decoded : Nat := 0
  reserved : List Reservation := []
  /-- The slots reserved for the fields of the message, which no cap holds back. -/
  fieldSlots : Nat := 0

inductive DecodeFault where
  | error (e : BoltError)
  | panics
  | outOfLevels

abbrev Unpack := EStateM DecodeFault Unpacker

/-- The zone database: the id in its own spelling and the offset in effect at an instant. -/
abbrev TimeZones := Text → Int64 → Except TemporalError (Text × Int32)

section Readers

variable {α : Type}

/-- Run the body of a function as a call of its own. -/
def call (body : Unpack α) : Unpack α := do
  modify fun u => { u with frames := u.frames + 1, peak := max u.peak (u.frames + 1) }
  let a ← body
  modify fun u => { u with frames := u.frames - 1 }
  return a

def decodeError (message : String) : Unpack α := throw (.error (.decode (text message)))

/-- A check whose failure is a panic. -/
def expect (P : Prop) [Decidable P] : Unpack Unit := if P then pure () else throw .panics

end Readers

/-- A byte as `{:#04x}` prints it. -/
def hex (b : UInt8) : String :=
  "0x" ++ String.ofList [Nat.digitChar (b.toNat / 16), Nat.digitChar (b.toNat % 16)]

def enterNested : Unpack Unit := call do
  modify fun u => { u with depth := u.depth + 1 }
  let u ← get
  if maxDecodeDepth < u.depth then
    decodeError ("PackStream nesting depth exceeds the maximum of " ++ toString maxDecodeDepth)
  else pure ()

def leaveNested : Unpack Unit := call do
  let u ← get
  expect (0 < u.depth)
  modify fun u => { u with depth := u.depth - 1 }

def chargeElement : Unpack Unit := call do
  let u ← get
  if u.elementsRemaining = 0 then
    decodeError
      ("PackStream decoded element count exceeds the maximum of " ++ toString maxDecodeElements)
  else modify fun u => { u with elementsRemaining := u.elementsRemaining - 1 }

/-- An element has been decoded and is put into its collection. -/
def noteElement : Unpack Unit := modify fun u => { u with decoded := u.decoded + 1 }

def remaining : Unpack Nat := call do
  let u ← get
  expect (u.pos ≤ u.buf.length)
  return u.buf.length - u.pos

/-- `with_capacity` for a collection whose header announces `n` elements. -/
def reserve (n : Nat) : Unpack Unit := do
  let unread ← remaining
  modify fun u => { u with reserved := ⟨preallocCap n unread, unread⟩ :: u.reserved }

def readU8 : Unpack UInt8 := call do
  let u ← get
  match u.buf[u.pos]? with
  | some b =>
    modify fun u => { u with pos := u.pos + 1, reach := max u.reach (u.pos + 1) }
    return b
  | none => decodeError "unexpected end of PackStream input"

def readSlice (n : Nat) : Unpack Bytes := call do
  let u ← get
  if 2 ^ 64 ≤ u.pos + n then decodeError "PackStream length overflows the address space"
  else if u.pos + n ≤ u.buf.length then
    modify fun u => { u with pos := u.pos + n, reach := max u.reach (u.pos + n) }
    return (u.buf.drop u.pos).take n
  else decodeError "PackStream item truncated"

/-- The number of some big-endian bytes. -/
def ofBe (s : Bytes) : Nat := s.foldl (fun acc b => acc * 256 + b.toNat) 0

def readBeLen (width : Nat) : Unpack Nat := call do
  let bytes ← readSlice width
  return ofBe bytes

/-- The byte `offset` places ahead, without taking it. -/
def peek (offset : Nat) (message : String) : Unpack UInt8 := do
  let u ← get
  match u.buf[u.pos + offset]? with
  | some b =>
    modify fun u => { u with reach := max u.reach (u.pos + offset + 1) }
    return b
  | none => decodeError message

def peekMarker : Unpack UInt8 := call (peek 0 "unexpected end of PackStream input")

/-- The signed integer of `k` big-endian bytes, as an array of that length. -/
def signedOfBe (k : Nat) (s : Bytes) : Unpack Int64 := do
  expect (s.length = k)
  return ofInt (Int.bmod (ofBe s) (256 ^ k))

def readInt : Unpack Int64 := call do
  let m ← readU8
  if m = int8 then
    let b ← readU8
    signedOfBe 1 [b]
  else if m = int16 then
    let s ← readSlice 2
    signedOfBe 2 s
  else if m = int32 then
    let s ← readSlice 4
    signedOfBe 4 s
  else if m = int64 then
    let s ← readSlice 8
    signedOfBe 8 s
  else if isTinyInt m then signedOfBe 1 [m]
  else decodeError ("expected an integer marker, found " ++ hex m)

/-- The header of a collection: its length is in the marker or in the bytes behind it. -/
def readHeader (tinyBase m8 m16 m32 : UInt8) (what : String) : Unpack Nat := call do
  let m ← readU8
  if isTiny tinyBase m then return (m - tinyBase).toNat
  else if m = m8 then readBeLen 1
  else if m = m16 then readBeLen 2
  else if m = m32 then readBeLen 4
  else decodeError ("expected a " ++ what ++ " marker, found " ++ hex m)

def readStringHeader : Unpack Nat :=
  readHeader tinyStringBase string8 string16 string32 "string"

def readListHeader : Unpack Nat :=
  readHeader tinyListBase list8 list16 list32 "list"

def readMapHeader : Unpack Nat :=
  readHeader tinyMapBase map8 map16 map32 "map"

def readString : Unpack Text := call do
  let len ← readStringHeader
  let bytes ← readSlice len
  if isUtf8 bytes then return bytes
  else decodeError "PackStream string is not valid UTF-8"

def readStructHeader : Unpack (UInt8 × Nat) := call do
  let m ← readU8
  if isTiny tinyStructBase m then
    let fieldCount := (m - tinyStructBase).toNat
    expect (fieldCount ≤ maxStructFields)
    let tag ← readU8
    if maxStructTag < tag then
      decodeError
        ("structure signature " ++ hex tag ++ " is out of range: a PackStream signature is a " ++
        "signed byte and must be " ++ hex maxStructTag ++ " or below")
    else return (tag, fieldCount)
  else decodeError ("expected a structure marker, found " ++ hex m)

def expectFields (tag : UInt8) (got want : Nat) : Unpack Unit := call do
  if got = want then pure ()
  else decodeError ("structure " ++ hex tag ++ " expected " ++ toString want ++ " fields, found " ++
    toString got)

def readU64Field (what : String) : Unpack UInt64 := call do
  let n ← readInt
  if 0 ≤ n.toInt then return UInt64.ofNat n.toInt.toNat
  else decodeError (what ++ " is negative")

def readI32Field (what : String) : Unpack Int32 := call do
  let n ← readInt
  if -2 ^ 31 ≤ n.toInt ∧ n.toInt < 2 ^ 31 then return Int32.ofInt n.toInt
  else decodeError (what ++ " out of i32 range")

def checkedTzOffset (offset : Int32) (what : String) : Unpack Int32 := call do
  if maxTzOffsetSeconds < offset.toInt.natAbs then
    decodeError
      (what ++ " " ++ toString offset.toInt ++ " is out of range: a UTC offset may not exceed " ++
      "±" ++ toString maxTzOffsetSeconds ++ " seconds (18 hours)")
  else return offset

/-- The whole seconds of a nanosecond count and the rest, which is never negative. -/
def splitNanos (nanos : Int) : Unpack (Int × UInt32) := call do
  let carry := nanos / nanosPerSecond
  let sub := nanos % nanosPerSecond
  expect (0 ≤ sub ∧ sub < 2 ^ 32)
  return (carry, UInt32.ofNat sub.toNat)

def readNormalisedNanosI32 (what : String) : Unpack (Int × UInt32) := call do
  let raw ← readI32Field what
  splitNanos raw.toInt

def checkedSeconds (seconds : Int64) (carry : Int) (what : String) : Unpack Int64 := call do
  if -2 ^ 63 ≤ seconds.toInt + carry ∧ seconds.toInt + carry < 2 ^ 63 then
    return ofInt (seconds.toInt + carry)
  else decodeError (what ++
    ": the combination of seconds and nanoseconds overflows the representable range")

def zonedFromUtc (utcSecs : Int64) (nanos : UInt32) (offsetSeconds : Int32) (zoneId : Text) :
    Unpack ZonedDateTime := call do
  let localSecs := utcSecs.toInt + offsetSeconds.toInt
  if -2 ^ 63 ≤ localSecs ∧ localSecs < 2 ^ 63 then
    return ⟨⟨ofInt localSecs, nanos⟩, offsetSeconds, zoneId⟩
  else decodeError ("the local instant of a zoned date-time overflows the representable range " ++
    "(utc seconds " ++ toString utcSecs.toInt ++ ", offset " ++ toString offsetSeconds.toInt ++ ")")

def decodePoint (srid : Int64) (coords : List Double) : Unpack Value := call do
  match Crs.fromSrid srid.toInt with
  | none => decodeError ("unknown spatial SRID " ++ toString srid.toInt)
  | some crs =>
    match Point.fromCrsCoords crs coords with
    | some p => return .point p
    | none => decodeError ("SRID " ++ toString srid.toInt ++ " (" ++ crs.name ++ ") expects " ++
        toString crs.dimensions ++ " coordinates, found " ++ toString coords.length)

def unpackBytes : Unpack Value := call do
  let m ← readU8
  let len ← (if m = bytes8 then readBeLen 1
    else if m = bytes16 then readBeLen 2
    else if m = bytes32 then readBeLen 4
    else decodeError ("expected a bytes marker, found " ++ hex m))
  let bytes ← readSlice len
  return .bytes bytes

/-! ### Maps -/

/-- The entries of a map under construction, with an index by key once there are many. -/
structure MapAccumulator where
  entries : Fields := []
  index : Option (List (Text × Nat)) := none

/-- `entries[i].1 = value`, a panic out of bounds. -/
def setValue (entries : Fields) (i : Nat) (value : Value) : Option Fields :=
  entries[i]?.map fun e => entries.set i (e.1, value)

/-- The last value of a key wins, in the place of the first. -/
def MapAccumulator.insert (acc : MapAccumulator) (key : Text) (value : Value) :
    Option MapAccumulator :=
  match acc.index with
  | some index =>
    match index.lookup key with
    | some i => (setValue acc.entries i value).map fun entries => ⟨entries, some index⟩
    | none => some ⟨acc.entries ++ [(key, value)], some ((key, acc.entries.length) :: index)⟩
  | none =>
    match acc.entries.findIdx? fun e => e.1 = key with
    | some i => (setValue acc.entries i value).map fun entries => ⟨entries, none⟩
    | none =>
      let entries := acc.entries ++ [(key, value)]
      if hashDedupThreshold < entries.length then
        some ⟨entries, some ((entries.map Prod.fst).zipIdx)⟩
      else some ⟨entries, none⟩

def insertEntry (acc : MapAccumulator) (key : Text) (value : Value) :
    Unpack MapAccumulator := call do
  match acc.insert key value with
  | some acc => return acc
  | none => throw .panics

/-! ### Values -/

section Values

variable (tz : TimeZones) (recur : Unpack Value)

def readFloatField (what : String) : Unpack Double := call do
  let v ← recur
  match v with
  | .float f => return f
  | .integer i => return Double.ofInt i.toInt
  | other => throw (.error (.decodeFound (text (what ++ " must be a float, found ")) other))

variable (t : UInt8)

def unpackDate (fieldCount : Nat) : Unpack Value := do
  expectFields t fieldCount 1
  let days ← readInt
  if minEpochDay ≤ days.toInt ∧ days.toInt ≤ maxEpochDay then return .date ⟨days⟩
  else decodeError
        ("Date.days " ++ toString days.toInt ++ " is out of range: a date must fall in the " ++
    "proleptic-Gregorian years -999999999..=999999999 (" ++ toString minEpochDay ++ "..=" ++
    toString maxEpochDay ++ " days from the epoch)")

def unpackLocalTime (fieldCount : Nat) : Unpack Value := do
  expectFields t fieldCount 1
  let nanos ← readU64Field "LocalTime.nanoseconds"
  if nanosPerDay ≤ nanos.toNat then
    decodeError
      ("LocalTime.nanoseconds " ++ toString nanos.toNat ++ " is out of range: a time of day " ++
      "must be less than one day (" ++ toString nanosPerDay ++ " nanoseconds)")
  else return .localTime ⟨nanos⟩

def unpackTime (fieldCount : Nat) : Unpack Value := do
  expectFields t fieldCount 2
  let rawNanos ← readInt
  let raw ← readI32Field "Time.tz_offset_seconds"
  let offset ← checkedTzOffset raw "Time.tz_offset_seconds"
  expect (nanosPerDay < 2 ^ 63)
  let nanosOfDay := rawNanos.toInt % nanosPerDay
  expect (0 ≤ nanosOfDay)
  return .zonedTime ⟨⟨UInt64.ofNat nanosOfDay.toNat⟩, offset⟩

def unpackLocalDateTime (fieldCount : Nat) : Unpack Value := do
  expectFields t fieldCount 2
  let secs ← readInt
  let rawNanos ← readInt
  let (carry, nanos) ← splitNanos rawNanos.toInt
  let epochSeconds ← checkedSeconds secs carry "LocalDateTime"
  return .localDateTime ⟨epochSeconds, nanos⟩

def unpackDateTime (fieldCount : Nat) : Unpack Value := do
  expectFields t fieldCount 3
  let utcSecs ← readInt
  let (carry, nanos) ← readNormalisedNanosI32 "DateTime.nanoseconds"
  let raw ← readI32Field "DateTime.tz_offset_seconds"
  let offset ← checkedTzOffset raw "DateTime.tz_offset_seconds"
  let utcSecs ← checkedSeconds utcSecs carry "DateTime"
  let zoned ← zonedFromUtc utcSecs nanos offset []
  return .zonedDateTime zoned

def unpackDateTimeZoneId (fieldCount : Nat) : Unpack Value := do
  expectFields t fieldCount 3
  let utcSecs ← readInt
  let (carry, nanos) ← readNormalisedNanosI32 "DateTimeZoneId.nanoseconds"
  let zoneId ← readString
  let utcSecs ← checkedSeconds utcSecs carry "DateTimeZoneId"
  match tz zoneId utcSecs with
  | .error e => throw (.error (.decodeZone (text "DateTimeZoneId.tz_id: ") e))
  | .ok (canonical, offset) =>
    let zoned ← zonedFromUtc utcSecs nanos offset canonical
    return .zonedDateTime zoned

def unpackDuration (fieldCount : Nat) : Unpack Value := do
  expectFields t fieldCount 4
  let months ← readInt
  let days ← readInt
  let seconds ← readInt
  let rawNanos ← readInt
  let (carry, subNanos) ← splitNanos rawNanos.toInt
  let seconds ← checkedSeconds seconds carry "Duration"
  expect (subNanos.toNat < 2 ^ 31)
  return .duration ⟨months, days, seconds, Int32.ofNat subNanos.toNat⟩

def unpackPoint2d (fieldCount : Nat) : Unpack Value := do
  expectFields t fieldCount 3
  let srid ← readInt
  let x ← readFloatField recur "Point2D.x"
  let y ← readFloatField recur "Point2D.y"
  decodePoint srid [x, y]

def unpackPoint3d (fieldCount : Nat) : Unpack Value := do
  expectFields t fieldCount 4
  let srid ← readInt
  let x ← readFloatField recur "Point3D.x"
  let y ← readFloatField recur "Point3D.y"
  let z ← readFloatField recur "Point3D.z"
  decodePoint srid [x, y, z]

/-- The body of a structure, by its tag. -/
def unpackTagged (fieldCount : Nat) : Unpack Value :=
  if t = Tag.date then unpackDate t fieldCount
  else if t = Tag.localTime then unpackLocalTime t fieldCount
  else if t = Tag.time then unpackTime t fieldCount
  else if t = Tag.localDateTime then unpackLocalDateTime t fieldCount
  else if t = Tag.dateTime then unpackDateTime t fieldCount
  else if t = Tag.dateTimeZoneId then unpackDateTimeZoneId tz t fieldCount
  else if t = Tag.duration then unpackDuration t fieldCount
  else if t = Tag.point2D then unpackPoint2d recur t fieldCount
  else if t = Tag.point3D then unpackPoint3d recur t fieldCount
  else if t = Tag.node ∨ t = Tag.relationship ∨ t = Tag.unboundRelationship ∨ t = Tag.path then
    decodeError
      ("structure tag " ++ hex t ++ " (graph entity) has no `graphus_core::Value` variant yet " ++
      "(deferred per 04 §7.2); cannot decode into a Value")
  else decodeError ("unknown PackStream structure tag " ++ hex t)

def unpackStructuredValue : Unpack Value := call do
  let (t, fieldCount) ← readStructHeader
  unpackTagged tz recur t fieldCount

/-- One element of a list, charged before it is decoded. -/
def unpackElement {α : Type} (element : Unpack α) (items : List α) : Unpack (List α) := do
  chargeElement
  let item ← element
  noteElement
  return items ++ [item]

/-- One entry of a map. -/
def unpackEntry (acc : MapAccumulator) : Unpack MapAccumulator := do
  chargeElement
  let k ← readString
  let v ← recur
  noteElement
  insertEntry acc k v

def unpackEntries (n : Nat) : Unpack Fields := do
  enterNested
  reserve n
  let acc ← iterate n (unpackEntry recur) {}
  leaveNested
  return acc.entries

/-- `unpack_value`, with its recursive calls as an argument. -/
def unpackValueBody : Unpack Value := call do
  let marker ← peekMarker
  match kind marker with
  | .null =>
    let _ ← readU8
    return .null
  | .true =>
    let _ ← readU8
    return .boolean true
  | .false =>
    let _ ← readU8
    return .boolean false
  | .float =>
    let _ ← readU8
    let s ← readSlice 8
    expect (s.length = 8)
    return .float ⟨UInt64.ofNat (ofBe s)⟩
  | .int =>
    let n ← readInt
    return .integer n
  | .bytes => unpackBytes
  | .string =>
    let s ← readString
    return .string s
  | .list =>
    let n ← readListHeader
    enterNested
    reserve n
    let items ← iterate n (unpackElement recur) []
    leaveNested
    return .list items
  | .map =>
    let n ← readMapHeader
    let entries ← unpackEntries recur n
    return .map entries
  | .struct =>
    enterNested
    let v ← unpackStructuredValue tz recur
    leaveNested
    return v
  | .unknown => decodeError ("unknown PackStream marker " ++ hex marker)

end Values

/-- The decoder with `levels` nested calls left. -/
def unpackValueAt (tz : TimeZones) : Nat → Unpack Value
  | 0 => unpackValueBody tz (throw .outOfLevels)
  | levels + 1 => unpackValueBody tz (unpackValueAt tz levels)

def unpackValue (tz : TimeZones) : Unpack Value := unpackValueAt tz maxDecodeDepth

/-! ### Graph structures -/

structure WireElementIds where
  elementId : Text
  startElementId : Text
  endElementId : Text

structure BoltNode where
  id : Int64
  labels : List Text
  properties : Fields
  elementIds : Option WireElementIds

structure BoltRelationship where
  id : Int64
  start : Int64
  stop : Int64
  relType : Text
  properties : Fields
  elementIds : Option WireElementIds

structure BoltPath where
  nodes : List BoltNode
  rels : List BoltRelationship
  indices : List Int64

inductive BoltValue where
  | value (v : Value)
  | node (n : BoltNode)
  | relationship (r : BoltRelationship)
  | path (p : BoltPath)
  | list (items : List BoltValue)

section BoltValues

variable (recur : Unpack Value)

def unpackProperties : Unpack Fields := call do
  let n ← readMapHeader
  unpackEntries recur n

/-- A list inside a structure: its header, the reservation and its elements. -/
def unpackSequence {α : Type} (element : Unpack α) : Unpack (List α) := do
  let n ← readListHeader
  reserve n
  iterate n (unpackElement element) []

def unpackNode : Unpack BoltNode := call do
  let (t, fieldCount) ← readStructHeader
  expectFields t fieldCount 4
  let id ← readInt
  let labels ← unpackSequence readString
  let properties ← unpackProperties recur
  let elementId ← readString
  return ⟨id, labels, properties, some ⟨elementId, [], []⟩⟩

def unpackRelationship : Unpack BoltRelationship := call do
  let (t, fieldCount) ← readStructHeader
  expectFields t fieldCount 8
  let id ← readInt
  let start ← readInt
  let stop ← readInt
  let relType ← readString
  let properties ← unpackProperties recur
  let elementId ← readString
  let startElementId ← readString
  let endElementId ← readString
  return ⟨id, start, stop, relType, properties, some ⟨elementId, startElementId, endElementId⟩⟩

def unpackUnboundRelationship : Unpack BoltRelationship := call do
  let (t, fieldCount) ← readStructHeader
  expectFields t fieldCount 4
  let id ← readInt
  let relType ← readString
  let properties ← unpackProperties recur
  let elementId ← readString
  return ⟨id, 0, 0, relType, properties, some ⟨elementId, [], []⟩⟩

def unpackPath : Unpack BoltPath := call do
  let (t, fieldCount) ← readStructHeader
  expectFields t fieldCount 3
  let nodes ← unpackSequence (unpackNode recur)
  let rels ← unpackSequence (unpackUnboundRelationship recur)
  let indices ← unpackSequence readInt
  return ⟨nodes, rels, indices⟩

/-- `unpack_bolt_value`, with `unpack_value`, the values inside a structure and its own recursive
calls as arguments. -/
def unpackBoltValueBody (value : Unpack Value) (element : Unpack BoltValue) :
    Unpack BoltValue := call do
  let marker ← peekMarker
  if isStructMarker marker then
    let tag ← peek 1 "structure header truncated"
    if tag = Tag.node then
      let n ← unpackNode recur
      return .node n
    else if tag = Tag.relationship then
      let r ← unpackRelationship recur
      return .relationship r
    else if tag = Tag.path then
      let p ← unpackPath recur
      return .path p
    else
      let v ← value
      return .value v
  else if isListMarker marker then
    let n ← readListHeader
    enterNested
    reserve n
    let items ← iterate n (unpackElement element) []
    leaveNested
    return .list items
  else
    let v ← value
    return .value v

end BoltValues

def unpackBoltValueAt (tz : TimeZones) : Nat → Unpack BoltValue
  | 0 => unpackBoltValueBody (throw .outOfLevels) (unpackValueAt tz 0) (throw .outOfLevels)
  | levels + 1 =>
    unpackBoltValueBody (unpackValueAt tz levels) (unpackValueAt tz (levels + 1))
      (unpackBoltValueAt tz levels)

def unpackBoltValue (tz : TimeZones) : Unpack BoltValue := unpackBoltValueAt tz maxDecodeDepth

end PackStream

end Graphus
