import Mathlib.Data.List.Basic
import Graphus.Bolt.BoundedDecode
import Graphus.Core.TemporalShift

/-!
# The round trip of a value

What `packValue` writes, `unpackValue` reads back, whatever bytes follow, and it stops behind it.

`Writes w bs` says that a writer appends the bytes `bs`, and `Reads d d' n bs m a` that a reader
which finds `bs` next takes exactly those bytes and returns `a`, at the cost of `n` elements of the
budget and with the nesting taken from `d` to `d'`. Both compose, and every writer of the packer is
paired with its reader by the bytes they share.

**Theorem (`packValue_roundTrip_iff`).** A value the engine can construct comes back exactly if no
duration in it has negative nanoseconds.

The decoder carries a negative nanosecond count into the seconds, so that every duration it returns
has nanoseconds between zero and one second (`unpackValueAt_safe`). The engine's own normal form is
another: `Duration::from_components` gives the nanoseconds the sign of the total.
-/

namespace Graphus.PackStream

open Hoare KeyOrder List
open Marker (int16 int32 int64 int8 list16 list32 list8 map16 map32 map8 string16 string32 string8
  tinyListBase tinyMapBase tinyStructBase)
open UInt8 (ofNat)
open Prod (fst snd)
open Packer (push)

variable {α β : Type} {d d' d'' n n' : Nat} {bs bs' : Bytes}

/-! ## Writers and readers -/

def Writes (w : Packer → Packer) (bs : Bytes) : Prop := ∀ p, w p = p.push bs

lemma push_push (p : Packer) (bs bs' : Bytes) : (p.push bs).push bs' = p.push (bs ++ bs') := by
  rw [push, push, push, append_assoc]

/-- The state of a decoder at the position `p` of the bytes `b`. -/
structure At (b : Bytes) (p d k : Nat) (u : Unpacker) : Prop where
  buf : u.buf = b
  pos : u.pos = p
  depth : u.depth = d
  budget : u.elementsRemaining = k

variable {b trailing : Bytes} {p k fieldCount : Nat}

/-- The stack of calls is none of these. -/
lemma At.call {p' k' : Nat} {m : Unpack α} {Q : α → Prop} {E : DecodeFault → Unpacker → Prop}
    (h : Triple (At b p d k) m (fun r u => Q r ∧ At b p' d' k' u) E) :
    Triple (At b p d k) (call m) (fun r u => Q r ∧ At b p' d' k' u) E := by
  refine .bind (.modify fun u hu => ?_) fun _ => .bind h fun r =>
    .bind (.modify fun u hu => ?_) fun _ => .pure fun u hu => hu
  · exact ⟨hu.buf, hu.pos, hu.depth, hu.budget⟩
  · exact ⟨hu.1, hu.2.buf, hu.2.pos, hu.2.depth, hu.2.budget⟩

-- A structure, so that nothing unfolds it into the run of the reader.
structure Reads (d d' n : Nat) (bs : Bytes) (m : Unpack α) (a : α) : Prop where
  run : ∀ b p k t, b.length < 2 ^ 64 → p ≤ b.length → b.drop p = bs ++ t →
    Triple (At b p d (n + k)) m (fun r u => r = a ∧ At b (p + bs.length) d' k u) fun _ _ => False

lemma le_length_of_drop {bs t : Bytes} (hp : p ≤ b.length) (h : b.drop p = bs ++ t) :
    p + bs.length ≤ b.length := by
  have := congrArg length h
  rw [length_drop, length_append] at this
  omega

namespace Reads

variable {m : Unpack α} {a : α}

lemma pure (a : α) : Reads d d 0 [] (pure a) a := by
  constructor
  intro b p k t _ _ _
  exact .pure fun u hu => ⟨rfl, hu.buf, hu.pos, hu.depth, hu.budget.trans (Nat.zero_add k)⟩

variable {g : α → Unpack β}

lemma bind {c : β} (hm : Reads d d' n bs m a) (hg : Reads d' d'' n' bs' (g a) c) :
    Reads d d'' (n + n') (bs ++ bs') (m >>= g) c := by
  constructor
  intro b p k t hb hp hdrop
  rw [append_assoc] at hdrop
  have hnext : b.drop (p + bs.length) = bs' ++ t := by
    rw [← drop_drop, hdrop, drop_left]
  have hg := hg.run b (p + bs.length) k t hb (le_length_of_drop hp hdrop) hnext
  have hm := hm.run b p (n' + k) (bs' ++ t) hb hp hdrop
  rw [Nat.add_assoc n n' k, length_append, ← Nat.add_assoc p]
  refine .bind hm fun r => .assume fun hr => ?_
  rw [hr]
  exact hg

lemma call (h : Reads d d' n bs m a) : Reads d d' n bs (call m) a :=
  ⟨fun b p k t hb hp hdrop => At.call (h.run b p k t hb hp hdrop)⟩

lemma expect {P : Prop} [Decidable P] (h : P) : Reads d d 0 [] (expect P) () := by
  rw [PackStream.expect, if_pos h]
  exact pure ()

/-- A step that takes no bytes and charges nothing. -/
lemma bind_nil {c : β} (hm : Reads d d' 0 [] m a) (hg : Reads d' d'' n bs (g a) c) :
    Reads d d'' n bs (m >>= g) c := by
  have h := hm.bind hg
  rwa [Nat.zero_add] at h

/-- A step that charges nothing. -/
lemma bind_free {c : β} {t : Bytes} (hm : Reads d d' 0 bs m a)
    (hg : Reads d' d'' n t (g a) c) : Reads d d'' n (bs ++ t) (m >>= g) c := by
  have h := hm.bind hg
  rwa [Nat.zero_add] at h

/-- The last step that takes bytes. -/
lemma bind_last {c : β} (hm : Reads d d' n bs m a) (hg : Reads d' d'' 0 [] (g a) c) :
    Reads d d'' n bs (m >>= g) c := by
  have h := hm.bind hg
  rwa [append_nil] at h

/-- The last step before the result. -/
lemma map (h : Reads d d' n bs m a) (g : α → β) :
    Reads d d' n bs (m >>= fun a => Pure.pure (g a)) (g a) :=
  h.bind_last (pure (g a))

end Reads

/-! ## Bytes -/

lemma readU8_reads (x : UInt8) : Reads d d 0 [x] readU8 x := by
  refine .call ?_
  constructor
  intro b p k t _ _ hdrop
  refine .of_state fun u hu => .get_bind ?_
  have hget : u.buf[u.pos]? = some x := by
    rw [hu.buf, hu.pos, ← head?_drop, hdrop]
    rfl
  rw [hget]
  rintro _ rfl
  exact ⟨rfl, hu.buf, congrArg (· + 1) hu.pos, hu.depth, hu.budget.trans (Nat.zero_add k)⟩

/-- The next byte, then the rest. -/
lemma Reads.readU8 {x : UInt8} {g : UInt8 → Unpack β} {c : β} (h : Reads d d' n bs (g x) c) :
    Reads d d' n (x :: bs) (readU8 >>= g) c :=
  (readU8_reads x).bind_free h

lemma readSlice_reads (s : Bytes) : Reads d d 0 s (readSlice s.length) s := by
  refine .call ?_
  constructor
  intro b p k t hb hp hdrop
  refine .of_state fun u hu => .get_bind ?_
  have hle := le_length_of_drop hp hdrop
  rw [← hu.pos, ← hu.buf] at hle
  rw [if_neg (by rw [hu.buf] at hle; omega), if_pos hle]
  rintro u rfl
  refine ⟨?_, hu.buf, congrArg (· + s.length) hu.pos, hu.depth, hu.budget.trans (Nat.zero_add k)⟩
  rw [hu.buf, hu.pos, hdrop, take_left]

/-- Looking at the next byte takes nothing. -/
lemma Reads.peekMarker {x : UInt8} {g : UInt8 → Unpack β} {c : β}
    (h : Reads d d' n (x :: bs) (g x) c) : Reads d d' n (x :: bs) (peekMarker >>= g) c := by
  constructor
  intro b p k t hb hp hdrop
  have hpeek : Triple (At b p d (n + k)) PackStream.peekMarker
      (fun r u => r = x ∧ At b p d (n + k) u) fun _ _ => False := by
    refine At.call (.of_state fun u hu => .get_bind ?_)
    have hget : u.buf[u.pos + 0]? = some x := by
      rw [hu.buf, hu.pos, Nat.add_zero, ← head?_drop, hdrop]
      rfl
    rw [hget]
    rintro _ rfl
    exact ⟨rfl, hu.buf, hu.pos, hu.depth, hu.budget⟩
  refine .bind hpeek fun r => .assume fun hr => ?_
  rw [hr]
  exact h.run b p k t hb hp hdrop

lemma Reads.peekKind {K : Kind} {g : UInt8 → Unpack β} {c : β}
    (hbs : ∃ x xs, bs = x :: xs ∧ kind x = K)
    (h : ∀ x, kind x = K → Reads d d' n bs (g x) c) :
    Reads d d' n bs (PackStream.peekMarker >>= g) c := by
  obtain ⟨x, xs, rfl, hkind⟩ := hbs
  exact .peekMarker (h x hkind)

lemma foldl_be (k n acc : Nat) :
    (be k n).foldl (fun acc b => acc * 256 + b.toNat) acc = acc * 256 ^ k + n % 256 ^ k := by
  induction k generalizing acc with
  | zero => rw [be, foldl_nil, pow_zero, Nat.mul_one, Nat.mod_one, Nat.add_zero]
  | succ k ih =>
    have hbyte : (ofNat (n / 256 ^ k % 256)).toNat = n / 256 ^ k % 256 :=
      UInt8.toNat_ofNat_of_lt' (Nat.mod_lt _ (by decide))
    rw [be, foldl_cons, ih, hbyte, pow_succ, Nat.mod_mul]
    ring

lemma ofBe_be {n : Nat} (h : n < 256 ^ k) : ofBe (be k n) = n := by
  rw [ofBe, foldl_be, Nat.zero_mul, Nat.zero_add, Nat.mod_eq_of_lt h]

lemma length_signedBe (k : Nat) (v : Int) : (signedBe k v).length = k := length_be k _

lemma signedOfBe_reads {v : Int64} (hlo : -(256 ^ k : Nat) ≤ 2 * v.toInt)
    (hhi : 2 * v.toInt < (256 ^ k : Nat)) :
    Reads d d 0 [] (signedOfBe k (signedBe k v.toInt)) v := by
  have hcast : ((256 ^ k : Nat) : Int) = (256 : Int) ^ k := by push_cast; rfl
  have hnonneg := Int.emod_nonneg v.toInt (show (256 : Int) ^ k ≠ 0 by omega)
  refine .bind_nil (.expect (length_signedBe k v.toInt)) ?_
  rw [signedBe, ofBe_be (by omega), Int.toNat_of_nonneg hnonneg, ← hcast, Int.emod_bmod]
  rw [Int.bmod_eq_of_le_mul_two (by omega) (by omega)]
  rw [Int64.ofInt_toInt]
  exact .pure v

/-! ## Integers -/

lemma kind_tinyInt : ∀ k < 256, (k < 128 ∨ 240 ≤ k) → kind (ofNat k) = .int := by decide +kernel

lemma isTinyInt_ofNat : ∀ k < 256, (k < 128 ∨ 240 ≤ k) → isTinyInt (ofNat k) = true ∧
    ofNat k ≠ int8 ∧ ofNat k ≠ int16 ∧ ofNat k ≠ int32 ∧
      ofNat k ≠ int64 := by decide +kernel

/-- What `write_int` appends. -/
def intBytes (v : Int) : Bytes :=
  if tinyIntMin ≤ v ∧ v ≤ tinyIntMax then signedBe 1 v
  else if -2 ^ 7 ≤ v ∧ v < 2 ^ 7 then int8 :: signedBe 1 v
  else if -2 ^ 15 ≤ v ∧ v < 2 ^ 15 then int16 :: signedBe 2 v
  else if -2 ^ 31 ≤ v ∧ v < 2 ^ 31 then int32 :: signedBe 4 v
  else int64 :: signedBe 8 v

lemma writeInt_eq (p : Packer) (v : Int64) : p.writeInt v = p.push (intBytes v.toInt) := by
  unfold Packer.writeInt intBytes
  dsimp only
  split_ifs <;> rfl

/-- The one byte of a small integer. -/
lemma signedBe_tiny {v : Int} (hlo : tinyIntMin ≤ v) (hhi : v ≤ tinyIntMax) :
    ∃ k < 256, (k < 128 ∨ 240 ≤ k) ∧ signedBe 1 v = [ofNat k] := by
  unfold tinyIntMin at hlo
  unfold tinyIntMax at hhi
  refine ⟨(v % 256).toNat, by omega, by omega, ?_⟩
  have hlt : (v % 256).toNat % 256 = (v % 256).toNat := Nat.mod_eq_of_lt (by omega)
  rw [signedBe, pow_one, be, be, pow_zero, Nat.div_one, hlt]

lemma exists_intBytes (v : Int) : ∃ x bs, intBytes v = x :: bs ∧ kind x = .int := by
  unfold intBytes
  split_ifs with htiny
  · obtain ⟨k, hk, hrange, heq⟩ := signedBe_tiny htiny.1 htiny.2
    exact ⟨_, [], heq, kind_tinyInt k hk hrange⟩
  all_goals exact ⟨_, _, rfl, by decide⟩

/-- An integer behind its marker, `k` bytes wide. -/
lemma wideInt_reads {v : Int64} (hlo : -(256 ^ k : Nat) ≤ 2 * v.toInt)
    (hhi : 2 * v.toInt < (256 ^ k : Nat)) :
    Reads d d 0 (signedBe k v.toInt) (readSlice k >>= signedOfBe k) v := by
  have h := @readSlice_reads d (signedBe k v.toInt)
  rw [length_signedBe] at h
  exact h.bind_last (signedOfBe_reads hlo hhi)

lemma readInt_reads (v : Int64) : Reads d d 0 (intBytes v.toInt) readInt v := by
  have hlo := v.le_toInt
  have hhi := v.toInt_lt
  refine .call ?_
  unfold intBytes
  split_ifs with htiny h8 h16 h32
  · obtain ⟨k, hk, hrange, heq⟩ := signedBe_tiny htiny.1 htiny.2
    obtain ⟨htinyInt, h8, h16, h32, h64⟩ := isTinyInt_ofNat k hk hrange
    unfold tinyIntMin tinyIntMax at htiny
    have hread := @signedOfBe_reads d 1 v (by omega) (by omega)
    rw [heq] at hread ⊢
    refine .readU8 ?_
    rw [if_neg h8, if_neg h16, if_neg h32, if_neg h64, if_pos htinyInt]
    exact hread
  · refine .readU8 ?_
    have hread := @signedOfBe_reads d 1 v (by omega) (by omega)
    exact .readU8 hread
  · refine .readU8 ?_
    exact wideInt_reads (by omega) (by omega)
  · refine .readU8 ?_
    exact wideInt_reads (by omega) (by omega)
  · refine .readU8 ?_
    exact wideInt_reads (by omega) (by omega)

/-! ## Headers, text and bytes -/

/-- What `write_collection_header` appends for a length it can write. -/
def headerBytes (tinyBase m8 m16 m32 : UInt8) (len : Nat) : Bytes :=
  if len ≤ 15 then [tinyBase + ofNat len]
  else if len < 2 ^ 8 then m8 :: be 1 len
  else if len < 2 ^ 16 then m16 :: be 2 len
  else m32 :: be 4 len

/-- Four markers that the decoder tells apart, all of one kind. -/
structure HeaderMarkers (K : Kind) (tinyBase m8 m16 m32 : UInt8) : Prop where
  tiny : ∀ len < 16, kind (tinyBase + ofNat len) = K ∧
    isTiny tinyBase (tinyBase + ofNat len) = true ∧ (tinyBase + ofNat len - tinyBase).toNat = len
  wide8 : kind m8 = K ∧ isTiny tinyBase m8 = false
  wide16 : kind m16 = K ∧ isTiny tinyBase m16 = false ∧ m16 ≠ m8
  wide32 : kind m32 = K ∧ isTiny tinyBase m32 = false ∧ m32 ≠ m8 ∧ m32 ≠ m16

lemma stringMarkers : HeaderMarkers .string Marker.tinyStringBase string8 string16 string32 :=
  ⟨by decide +kernel, by decide, by decide, by decide⟩

lemma listMarkers : HeaderMarkers .list tinyListBase list8 list16 list32 :=
  ⟨by decide +kernel, by decide, by decide, by decide⟩

lemma mapMarkers : HeaderMarkers .map tinyMapBase map8 map16 map32 :=
  ⟨by decide +kernel, by decide, by decide, by decide⟩

section Headers

variable {K : Kind} {tinyBase m8 m16 m32 : UInt8} {len : Nat}

lemma writeCollectionHeader_eq (p : Packer) (h : len ≤ maxCollectionLen) :
    p.writeCollectionHeader tinyBase m8 m16 m32 len =
    p.push (headerBytes tinyBase m8 m16 m32 len) := by
  unfold Packer.writeCollectionHeader headerBytes
  rw [if_neg (not_lt.2 h)]
  split_ifs <;> rfl

lemma exists_headerBytes (hm : HeaderMarkers K tinyBase m8 m16 m32) (len : Nat) (rest : Bytes) :
    ∃ x bs, headerBytes tinyBase m8 m16 m32 len ++ rest = x :: bs ∧ kind x = K := by
  unfold headerBytes
  split_ifs with htiny
  · exact ⟨_, _, rfl, (hm.tiny len (Nat.lt_succ_of_le htiny)).1⟩
  · exact ⟨_, _, rfl, hm.wide8.1⟩
  · exact ⟨_, _, rfl, hm.wide16.1⟩
  · exact ⟨_, _, rfl, hm.wide32.1⟩

lemma readBeLen_reads {k : Nat} (h : len < 256 ^ k) : Reads d d 0 (be k len) (readBeLen k) len := by
  have hslice := @readSlice_reads d (be k len)
  rw [length_be] at hslice
  have h' := hslice.map ofBe
  rw [ofBe_be h] at h'
  exact .call h'

lemma readHeader_reads (hm : HeaderMarkers K tinyBase m8 m16 m32) {what : String}
    (h : len ≤ maxCollectionLen) :
    Reads d d 0 (headerBytes tinyBase m8 m16 m32 len)
    (readHeader tinyBase m8 m16 m32 what) len := by
  unfold maxCollectionLen at h
  refine .call ?_
  unfold headerBytes
  split_ifs with htiny h8 h16
  · obtain ⟨-, htinyMarker, hlen⟩ := hm.tiny len (Nat.lt_succ_of_le htiny)
    refine .readU8 ?_
    rw [if_pos htinyMarker, hlen]
    exact .pure len
  · refine .readU8 ?_
    rw [if_neg (Bool.eq_false_iff.1 hm.wide8.2), if_pos rfl]
    exact readBeLen_reads h8
  · refine .readU8 ?_
    rw [if_neg (Bool.eq_false_iff.1 hm.wide16.2.1), if_neg hm.wide16.2.2, if_pos rfl]
    exact readBeLen_reads h16
  · refine .readU8 ?_
    rw [if_neg (Bool.eq_false_iff.1 hm.wide32.2.1), if_neg hm.wide32.2.2.1,
      if_neg hm.wide32.2.2.2, if_pos rfl]
    exact readBeLen_reads (by omega)

end Headers

def stringBytes (s : Text) : Bytes :=
  headerBytes Marker.tinyStringBase string8 string16 string32 s.length ++ s

lemma writeString_eq (p : Packer) {s : Text} (h : s.length ≤ maxCollectionLen) :
    p.writeString s = p.push (stringBytes s) := by
  rw [Packer.writeString, writeCollectionHeader_eq p h, push_push, stringBytes]

lemma readString_reads {s : Text} (h : s.length ≤ maxCollectionLen) (hutf8 : isUtf8 s = true) :
    Reads d d 0 (stringBytes s) readString s := by
  refine .call ((readHeader_reads stringMarkers h).bind_free ((readSlice_reads s).bind_last ?_))
  rw [if_pos hutf8]
  exact .pure s

def byteArrayBytes (b : Bytes) : Bytes :=
  (if b.length < 2 ^ 8 then Marker.bytes8 :: be 1 b.length
    else if b.length < 2 ^ 16 then Marker.bytes16 :: be 2 b.length
    else Marker.bytes32 :: be 4 b.length) ++ b

lemma writeBytes_eq (p : Packer) (h : b.length ≤ maxCollectionLen) :
    p.writeBytes b = p.push (byteArrayBytes b) := by
  unfold Packer.writeBytes byteArrayBytes
  rw [if_neg (not_lt.2 h)]
  split_ifs <;> rw [push_push]

lemma exists_byteArrayBytes (b : Bytes) : ∃ x bs, byteArrayBytes b = x :: bs ∧ kind x = .bytes := by
  unfold byteArrayBytes
  split_ifs <;> exact ⟨_, _, rfl, by decide⟩

lemma unpackBytes_reads (h : b.length ≤ maxCollectionLen) :
    Reads d d 0 (byteArrayBytes b) unpackBytes (.bytes b) := by
  unfold maxCollectionLen at h
  refine .call ?_
  unfold byteArrayBytes
  have hbody := (@readSlice_reads d b).map Value.bytes
  split_ifs with h8 h16
  · refine .readU8 ?_
    exact (readBeLen_reads h8).bind_free hbody
  · refine .readU8 ?_
    exact (readBeLen_reads h16).bind_free hbody
  · refine .readU8 ?_
    exact (readBeLen_reads (by omega)).bind_free hbody

/-! ## Floats and structures -/

def floatBytes (x : Double) : Bytes := Marker.float64 :: be 8 x.bits.toNat

lemma writeFloat_eq (p : Packer) (x : Double) : p.writeFloat x = p.push (floatBytes x) := rfl

def structBytes (tag : UInt8) (fieldCount : Nat) : Bytes :=
  [tinyStructBase + ofNat fieldCount, tag]

lemma writeStructHeader_eq (p : Packer) (tag : UInt8) (h : fieldCount ≤ maxStructFields) :
    p.writeStructHeader tag fieldCount h = p.push (structBytes tag fieldCount) := rfl

lemma structMarker : ∀ k < 16, kind (tinyStructBase + ofNat k) = .struct ∧
    isTiny tinyStructBase (tinyStructBase + ofNat k) = true ∧
      (tinyStructBase + ofNat k - tinyStructBase).toNat = k := by decide +kernel

lemma readStructHeader_reads {tag : UInt8} (h : fieldCount ≤ maxStructFields)
    (htag : ¬ maxStructTag < tag) :
    Reads d d 0 (structBytes tag fieldCount) readStructHeader (tag, fieldCount) := by
  obtain ⟨-, htiny, hcount⟩ := structMarker fieldCount (Nat.lt_succ_of_le h)
  refine .call (.readU8 ?_)
  rw [if_pos htiny, hcount]
  refine (Reads.expect h).bind_nil (.readU8 ?_)
  rw [if_neg htag]
  exact .pure _

lemma expectFields_reads {tag : UInt8} : Reads d d 0 [] (expectFields tag k k) () := by
  refine .call ?_
  rw [if_pos rfl]
  exact .pure ()

lemma readU64Field_reads {v : Int64} {what : String} (h : 0 ≤ v.toInt) :
    Reads d d 0 (intBytes v.toInt) (readU64Field what) (UInt64.ofNat v.toInt.toNat) := by
  refine .call ((readInt_reads v).bind_last ?_)
  rw [if_pos h]
  exact .pure _

lemma readI32Field_reads (v : Int32) {what : String} :
    Reads d d 0 (intBytes v.toInt64.toInt) (readI32Field what) v := by
  refine .call ((readInt_reads v.toInt64).bind_last ?_)
  rw [Int32.toInt_toInt64, if_pos ⟨v.le_toInt, v.toInt_lt⟩, Int32.ofInt_toInt]
  exact .pure v

lemma checkedTzOffset_reads {offset : Int32} {what : String}
    (h : offset.toInt.natAbs ≤ maxTzOffsetSeconds) :
    Reads d d 0 [] (checkedTzOffset offset what) offset := by
  refine .call ?_
  rw [if_neg (not_lt.2 h)]
  exact .pure offset

/-- Nanoseconds below a second carry nothing. -/
lemma splitNanos_reads {nanos : UInt32} (h : nanos.toNat < nanosPerSecond) :
    Reads d d 0 [] (splitNanos nanos.toNat) (0, nanos) := by
  have hnonneg := Int.natCast_nonneg nanos.toNat
  have hlt : (nanos.toNat : Int) < nanosPerSecond := Int.ofNat_lt.2 h
  have hbound : (nanosPerSecond : Int) < 2 ^ 32 := by decide
  refine .call ?_
  rw [Int.ediv_eq_zero_of_lt hnonneg hlt, Int.emod_eq_of_lt hnonneg hlt]
  refine (Reads.expect ⟨hnonneg, hlt.trans hbound⟩).bind_nil ?_
  rw [Int.toNat_natCast, UInt32.ofNat_toNat]
  exact .pure _

lemma checkedSeconds_reads {seconds : Int64} {what : String} :
    Reads d d 0 [] (checkedSeconds seconds 0 what) seconds := by
  have hlo := seconds.le_toInt
  have hhi := seconds.toInt_lt
  refine .call ?_
  rw [Int.add_zero, if_pos ⟨hlo, hhi⟩, Int64.ofInt_toInt]
  exact .pure seconds

lemma zonedFromUtc_reads {utcSecs : Int64} {t : ZonedDateTime}
    (h : utcSecs.toInt + t.offsetSeconds.toInt = t.localDateTime.epochSeconds.toInt) :
    Reads d d 0 [] (zonedFromUtc utcSecs t.localDateTime.nanos t.offsetSeconds t.zoneId) t := by
  refine .call ?_
  rw [h, if_pos ⟨t.localDateTime.epochSeconds.le_toInt, t.localDateTime.epochSeconds.toInt_lt⟩,
    Int64.ofInt_toInt]
  exact .pure t

lemma fromSrid_srid (crs : Crs) : Crs.fromSrid crs.srid = some crs := by
  cases crs <;> rfl

lemma decodePoint_reads (q : Point) :
    Reads d d 0 [] (decodePoint (Int64.ofInt q.crs.srid) q.coords) (.point q) := by
  have hsrid : (Int64.ofInt q.crs.srid).toInt = q.crs.srid := by
    cases q.crs <;> rfl
  refine .call ?_
  rw [hsrid, fromSrid_srid]
  dsimp only
  rw [Point.fromCrsCoords, dif_pos q.length_coords]
  exact .pure _

/-! ## What the engine can construct -/

/-- The form of one value of the engine, whatever is inside it. A zone name is one that the zone
database knows, and its offset the one the database gives for the instant. -/
def NodeConstructible (tz : TimeZones) : Value → Prop
  | .string s => isUtf8 s = true
  | .map entries => (entries.map fst).Nodup ∧ ∀ e ∈ entries, isUtf8 e.1 = true
  | .date v => ∃ c, InYears c ∧ v.IsOn c
  | .localTime t => t.nanosOfDay.toNat < nanosPerDay
  | .zonedTime t =>
    t.time.nanosOfDay.toNat < nanosPerDay ∧ t.offsetSeconds.toInt.natAbs ≤ maxTzOffsetSeconds
  | .localDateTime t => ∃ c, InYears c ∧ t.IsOn c
  | .zonedDateTime t =>
    (∃ c, InYears c ∧ t.localDateTime.IsOn c) ∧ t.offsetSeconds.toInt.natAbs ≤ maxTzOffsetSeconds ∧
      isUtf8 t.zoneId = true ∧
      (t.zoneId ≠ [] → tz t.zoneId (Int64.ofInt t.utcSeconds) = .ok (t.zoneId, t.offsetSeconds))
  | .duration v => ∃ seconds nanos, Duration.fromComponents v.months v.days seconds nanos = .ok v
  | _ => True

def Constructible (tz : TimeZones) (v : Value) : Prop := ∀ x ∈ v.subvalues, NodeConstructible tz x

/-- Nothing in the value is longer than the lengths PackStream can write. -/
def NodeFits : Value → Prop
  | .string s => s.length ≤ maxCollectionLen
  | .bytes b => b.length ≤ maxCollectionLen
  | .map entries => ∀ e ∈ entries, e.1.length ≤ maxCollectionLen
  | .zonedDateTime t => t.zoneId.length ≤ maxCollectionLen
  | _ => True

def Fits (v : Value) : Prop := ∀ x ∈ v.subvalues, NodeFits x

/-- No duration with negative nanoseconds. -/
def NodeNonnegative : Value → Prop
  | .duration v => 0 ≤ v.nanos.toInt
  | _ => True

def Nonnegative (v : Value) : Prop := ∀ x ∈ v.subvalues, NodeNonnegative x

mutual

/-- The levels a decoder goes down for a value. -/
def nesting : Value → Nat
  | .list items => nestingOfItems items + 1
  | .map entries => nestingOfEntries entries + 1
  | .null | .boolean _ | .integer _ | .float _ | .string _ | .bytes _ => 0
  | .date _ | .localTime _ | .zonedTime _ | .localDateTime _ | .zonedDateTime _ | .duration
      _ | .point _ => 1

def nestingOfItems : List Value → Nat
  | [] => 0
  | x :: xs => max (nesting x) (nestingOfItems xs)

def nestingOfEntries : List (Text × Value) → Nat
  | [] => 0
  | (_, v) :: es => max (nesting v) (nestingOfEntries es)

end

mutual

/-- The collection elements inside a value. -/
def elements : Value → Nat
  | .list items => elementsOfItems items
  | .map entries => elementsOfEntries entries
  | _ => 0

def elementsOfItems : List Value → Nat
  | [] => 0
  | x :: xs => elements x + 1 + elementsOfItems xs

def elementsOfEntries : List (Text × Value) → Nat
  | [] => 0
  | (_, v) :: es => elements v + 1 + elementsOfEntries es

end

/-! ## Structures -/

section Structures

variable {tz : TimeZones} {recur : Unpack Value}

/-- A writer of a structure and the bytes it appends, which the decoder reads back as `v`. -/
def Structured (tz : TimeZones) (recur : Unpack Value) (d : Nat) (w : Packer → Packer)
    (v : Value) : Prop :=
  ∃ tag k bs, k ≤ maxStructFields ∧ ¬ maxStructTag < tag ∧ Writes w (structBytes tag k ++ bs) ∧
    Reads d d 0 bs (unpackTagged tz recur tag k) v

lemma structured_date {v : Date} (h : ∃ c, InYears c ∧ v.IsOn c) :
    Structured tz recur d (packDate · v) (.date v) := by
  obtain ⟨c, hc, hon⟩ := h
  have hrange : minEpochDay ≤ v.daysSinceEpoch.toInt ∧ v.daysSinceEpoch.toInt ≤ maxEpochDay := by
    have hday : v.daysSinceEpoch.toInt = c.dayNumber := hon
    have hlo := c.yearStart_le
    have hhi := c.lt_yearStart
    unfold InYears maxAbsYear at hc
    unfold Calendar.yearStart at hlo hhi
    unfold minEpochDay maxEpochDay
    omega
  refine ⟨Tag.date, 1, intBytes v.daysSinceEpoch.toInt, by decide, by decide, fun p => ?_, ?_⟩
  · simp only [packDate, writeStructHeader_eq, writeInt_eq, push_push]
  refine expectFields_reads.bind_nil ((readInt_reads _).bind_last ?_)
  rw [if_pos hrange]
  exact .pure _

lemma toInt_saturating {n : UInt64} (h : n.toNat < nanosPerDay) :
    (i64FromU64Saturating n).toInt = n.toNat := by
  unfold nanosPerDay at h
  unfold i64FromU64Saturating
  rw [Int.min_eq_left (by omega), Int64.toInt_ofInt_of_le (by omega) (by omega)]

lemma structured_localTime {t : LocalTime} (h : t.nanosOfDay.toNat < nanosPerDay) :
    Structured tz recur d (packLocalTime · t) (.localTime t) := by
  have hint := toInt_saturating h
  have hback : UInt64.ofNat (i64FromU64Saturating t.nanosOfDay).toInt.toNat = t.nanosOfDay := by
    rw [hint, Int.toNat_natCast, UInt64.ofNat_toNat]
  refine ⟨Tag.localTime, 1,
    intBytes (i64FromU64Saturating t.nanosOfDay).toInt, by decide, by decide, fun p => ?_, ?_⟩
  · simp only [packLocalTime, writeStructHeader_eq, writeInt_eq, push_push]
  have hread := @readU64Field_reads d (i64FromU64Saturating t.nanosOfDay) "LocalTime.nanoseconds"
    (hint ▸ Int.natCast_nonneg _)
  rw [hback] at hread
  refine expectFields_reads.bind_nil (hread.bind_last ?_)
  rw [if_neg (Int.not_le.2 h)]
  exact .pure _

lemma structured_zonedTime {t : ZonedTime} (h : t.time.nanosOfDay.toNat < nanosPerDay)
    (hoffset : t.offsetSeconds.toInt.natAbs ≤ maxTzOffsetSeconds) :
    Structured tz recur d (packTime · t) (.zonedTime t) := by
  have hint := toInt_saturating h
  have hmod : (t.time.nanosOfDay.toNat : Int) % nanosPerDay = t.time.nanosOfDay.toNat :=
    Int.emod_eq_of_lt (Int.natCast_nonneg _) h
  refine ⟨Tag.time, 2, intBytes (i64FromU64Saturating t.time.nanosOfDay).toInt ++
    intBytes t.offsetSeconds.toInt64.toInt, by decide, by decide, fun p => ?_, ?_⟩
  · simp only [packTime, writeStructHeader_eq, writeInt_eq, push_push, append_assoc]
  refine expectFields_reads.bind_nil
    ((readInt_reads _).bind_free ((readI32Field_reads _).bind_last ?_))
  refine (checkedTzOffset_reads hoffset).bind_nil ((Reads.expect (by decide)).bind_nil ?_)
  rw [hint, hmod]
  refine (Reads.expect (Int.natCast_nonneg _)).bind_nil ?_
  rw [Int.toNat_natCast, UInt64.ofNat_toNat]
  exact .pure _

lemma toInt_ofNat_nanos {nanos : UInt32} : (Int64.ofNat nanos.toNat).toInt = nanos.toNat :=
  Int64.toInt_ofNat_of_lt (by have := nanos.toNat_lt; omega)

lemma structured_localDateTime {t : LocalDateTime} (h : ∃ c, InYears c ∧ t.IsOn c) :
    Structured tz recur d (packLocalDateTime · t) (.localDateTime t) := by
  obtain ⟨c, -, -, hnanos⟩ := h
  refine ⟨Tag.localDateTime, 2, intBytes t.epochSeconds.toInt ++
    intBytes (Int64.ofNat t.nanos.toNat).toInt, by decide, by decide, fun p => ?_, ?_⟩
  · simp only [packLocalDateTime, writeStructHeader_eq, writeInt_eq, push_push, append_assoc]
  refine expectFields_reads.bind_nil ((readInt_reads _).bind_free ((readInt_reads _).bind_last ?_))
  rw [toInt_ofNat_nanos]
  refine (splitNanos_reads hnanos).bind_nil ?_
  exact checkedSeconds_reads.bind_nil (.pure _)

/-- The nanoseconds field of a zoned date-time. -/
lemma readNormalisedNanosI32_reads {nanos : UInt32} {what : String}
    (h : nanos.toNat < nanosPerSecond) :
    Reads d d 0 (intBytes (Int64.ofNat nanos.toNat).toInt) (readNormalisedNanosI32 what)
    (0, nanos) := by
  have hbound : nanos.toNat < 2 ^ 31 := h.trans (by decide)
  have hint : (Int32.ofNat nanos.toNat).toInt = nanos.toNat := Int32.toInt_ofNat_of_lt hbound
  have hread := @readI32Field_reads d (Int32.ofNat nanos.toNat) what
  rw [Int32.toInt_toInt64, hint] at hread
  rw [toInt_ofNat_nanos]
  refine .call (hread.bind_last ?_)
  rw [hint]
  exact splitNanos_reads h

lemma structured_zonedDateTime {t : ZonedDateTime} (h : NodeConstructible tz (.zonedDateTime t))
    (hfits : t.zoneId.length ≤ maxCollectionLen) :
    Structured tz recur d (packZonedDateTime · t) (.zonedDateTime t) := by
  obtain ⟨⟨c, hc, hon, hnanos⟩, hoffset, hutf8, hzone⟩ := h
  -- The instant is far inside the range of the seconds, so nothing saturates.
  have hutc : (Int64.ofInt t.utcSeconds).toInt + t.offsetSeconds.toInt =
    t.localDateTime.epochSeconds.toInt := by
    have hb := hc.bounds
    unfold LocalDateTime.instant nanosPerSecond nanosPerDay at hon
    unfold maxTzOffsetSeconds at hoffset
    unfold nanosPerSecond at hnanos
    have hsub : t.utcSeconds = t.localDateTime.epochSeconds.toInt - t.offsetSeconds.toInt := by
      unfold ZonedDateTime.utcSeconds saturatingSub
      omega
    rw [Int64.toInt_ofInt_of_le (by omega) (by omega), hsub, Int.sub_add_cancel]
  have hsecs := @checkedSeconds_reads d (Int64.ofInt t.utcSeconds)
  by_cases hempty : t.zoneId = []
  · refine ⟨Tag.dateTime, 3, intBytes (Int64.ofInt t.utcSeconds).toInt ++
      (intBytes (Int64.ofNat t.localDateTime.nanos.toNat).toInt ++
      intBytes t.offsetSeconds.toInt64.toInt),
      by decide, by decide, fun p => ?_, ?_⟩
    · simp only [packZonedDateTime, hempty, isEmpty_nil, if_true, writeStructHeader_eq,
        writeInt_eq, push_push, append_assoc]
    · rw [unpackTagged]
      iterate 4 rw [if_neg (by decide)]
      refine expectFields_reads.bind_nil ((readInt_reads _).bind_free ?_)
      refine (readNormalisedNanosI32_reads hnanos).bind_free ((readI32Field_reads _).bind_last ?_)
      refine (checkedTzOffset_reads hoffset).bind_nil (hsecs.bind_nil ?_)
      have hzoned := @zonedFromUtc_reads d (Int64.ofInt t.utcSeconds) t hutc
      rw [hempty] at hzoned
      exact hzoned.bind_nil (.pure _)
  · refine ⟨Tag.dateTimeZoneId, 3, intBytes (Int64.ofInt t.utcSeconds).toInt ++
      (intBytes (Int64.ofNat t.localDateTime.nanos.toNat).toInt ++ stringBytes t.zoneId),
      by decide, by decide, fun p => ?_, ?_⟩
    · have hne : t.zoneId.isEmpty = false := isEmpty_eq_false_iff.2 hempty
      simp only [packZonedDateTime, hne, Bool.false_eq_true, if_false,
        writeStructHeader_eq, writeInt_eq, writeString_eq _ hfits, push_push, append_assoc]
    · rw [unpackTagged]
      iterate 5 rw [if_neg (by decide)]
      refine expectFields_reads.bind_nil ((readInt_reads _).bind_free ?_)
      refine (readNormalisedNanosI32_reads hnanos).bind_free
        ((readString_reads hfits hutf8).bind_last ?_)
      refine hsecs.bind_nil ?_
      rw [hzone hempty]
      exact (zonedFromUtc_reads hutc).bind_nil (.pure _)

lemma structured_duration {v : Duration} (hlo : 0 ≤ v.nanos.toInt)
    (hhi : v.nanos.toInt.toNat < nanosPerSecond) :
    Structured tz recur d (packDuration · v) (.duration v) := by
  have hbound : v.nanos.toInt.toNat < 2 ^ 31 := hhi.trans (by decide)
  have hnat : (UInt32.ofNat v.nanos.toInt.toNat).toNat = v.nanos.toInt.toNat :=
    UInt32.toNat_ofNat_of_lt' (hbound.trans (by decide))
  have hint : v.nanos.toInt64.toInt = (UInt32.ofNat v.nanos.toInt.toNat).toNat := by
    rw [Int32.toInt_toInt64, hnat, Int.toNat_of_nonneg hlo]
  have hnanos : Int32.ofNat (UInt32.ofNat v.nanos.toInt.toNat).toNat = v.nanos := by
    rw [← Int32.toInt_inj, hnat, Int32.toInt_ofNat_of_lt hbound, Int.toNat_of_nonneg hlo]
  refine ⟨Tag.duration, 4, intBytes v.months.toInt ++
    (intBytes v.days.toInt ++ (intBytes v.seconds.toInt ++
    intBytes v.nanos.toInt64.toInt)), by decide, by decide, fun p => ?_, ?_⟩
  · simp only [packDuration, writeStructHeader_eq, writeInt_eq, push_push, append_assoc]
  rw [unpackTagged]
  iterate 6 rw [if_neg (by decide)]
  refine expectFields_reads.bind_nil ((readInt_reads _).bind_free ((readInt_reads _).bind_free ?_))
  refine (readInt_reads _).bind_free ((readInt_reads _).bind_last ?_)
  rw [hint]
  refine (splitNanos_reads (hnat.symm ▸ hhi)).bind_nil (checkedSeconds_reads.bind_nil ?_)
  refine (Reads.expect (hnat.symm ▸ hbound)).bind_nil ?_
  rw [hnanos]
  exact .pure _

/-- The normal form of the engine has less than a second of nanoseconds. -/
lemma fromComponents_nanos {months days seconds nanos : Int64} {v : Duration}
    (h : Duration.fromComponents months days seconds nanos = .ok v) :
    v.nanos.toInt.toNat < nanosPerSecond := by
  unfold Duration.fromComponents Duration.fromMonthDayTotal at h
  dsimp only at h
  split at h
  · cases h
    have hlt := Int.tmod_lt_of_pos (seconds.toInt * 1000000000 + nanos.toInt)
      (show (0 : Int) < 1000000000 by decide)
    have hlo := Int.lt_tmod_of_pos (seconds.toInt * 1000000000 + nanos.toInt)
      (show (0 : Int) < 1000000000 by decide)
    rw [Int32.toInt_ofInt_of_le (by omega) (by omega)]
    unfold nanosPerSecond
    omega
  · cases h

lemma structured_point (h : ∀ x, Reads d d 0 (floatBytes x) recur (.float x)) (q : Point) :
    Structured tz recur d (packPoint · q) (.point q) := by
  have hfield {x : Double} {what : String} : Reads d d 0 (floatBytes x)
    (readFloatField recur what) x :=
    .call ((h x).bind_last (.pure x))
  by_cases h3 : q.crs.dimensions = 3
  · obtain ⟨x, y, z, hcoords⟩ := length_eq_three.1 (q.length_coords.trans h3)
    refine ⟨Tag.point3D, 4, intBytes (Int64.ofInt q.crs.srid).toInt ++
      (floatBytes x ++ (floatBytes y ++ floatBytes z)), by decide, by decide, fun p => ?_, ?_⟩
    · simp only [packPoint, Point.x, Point.y, Point.z, if_pos h3, hcoords, packPoint3d,
        writeStructHeader_eq,
        writeInt_eq, writeFloat_eq, push_push, append_assoc, getD_cons_zero, getD_cons_succ]
    rw [unpackTagged]
    iterate 8 rw [if_neg (by decide)]
    refine expectFields_reads.bind_nil ((readInt_reads _).bind_free (hfield.bind_free ?_))
    exact hfield.bind_free (hfield.bind_last (hcoords ▸ decodePoint_reads q))
  · have h2 : q.crs.dimensions = 2 := by
      revert h3
      cases q.crs <;> decide
    obtain ⟨x, y, hcoords⟩ := length_eq_two.1 (q.length_coords.trans h2)
    refine ⟨Tag.point2D, 3, intBytes (Int64.ofInt q.crs.srid).toInt ++
      (floatBytes x ++ floatBytes y), by decide, by decide, fun p => ?_, ?_⟩
    · simp only [packPoint, Point.x, Point.y, Point.z, if_neg h3, hcoords, packPoint2d,
        writeStructHeader_eq,
        writeInt_eq, writeFloat_eq, push_push, append_assoc, getD_cons_zero, getD_cons_succ]
    rw [unpackTagged]
    iterate 7 rw [if_neg (by decide)]
    refine expectFields_reads.bind_nil ((readInt_reads _).bind_free (hfield.bind_free ?_))
    exact hfield.bind_last (hcoords ▸ decodePoint_reads q)

end Structures

/-! ## The steps of the decoder that take no bytes -/

lemma enterNested_reads (h : d < maxDecodeDepth) : Reads d (d + 1) 0 [] enterNested () := by
  refine .call ?_
  constructor
  intro b p k t _ _ _
  refine .of_state fun u hu => .modify_bind (.get_bind ?_)
  have hdepth : ¬ maxDecodeDepth < u.depth + 1 := not_lt.2 (hu.depth.symm ▸ h)
  rw [if_neg hdepth]
  rintro _ rfl
  exact ⟨rfl, hu.buf, hu.pos, congrArg (· + 1) hu.depth, hu.budget.trans (Nat.zero_add k)⟩

lemma leaveNested_reads : Reads (d + 1) d 0 [] leaveNested () := by
  refine .call ?_
  constructor
  intro b p k t _ _ _
  refine .of_state fun u hu => .get_bind ?_
  rw [expect, if_pos (hu.depth ▸ Nat.succ_pos d)]
  rintro _ rfl
  exact ⟨rfl, hu.buf, hu.pos, Nat.sub_eq_of_eq_add hu.depth, hu.budget.trans (Nat.zero_add k)⟩

lemma chargeElement_reads : Reads d d 1 [] chargeElement () := by
  refine .call ?_
  constructor
  intro b p k t _ _ _
  refine .of_state fun u hu => .get_bind ?_
  have hbudget := hu.budget
  rw [if_neg (by omega)]
  rintro _ rfl
  exact ⟨rfl, hu.buf, hu.pos, hu.depth, by dsimp only; omega⟩

lemma noteElement_reads : Reads d d 0 [] noteElement () := by
  constructor
  intro b p k t _ _ _ u hu
  exact ⟨rfl, hu.buf, hu.pos, hu.depth, hu.budget.trans (Nat.zero_add k)⟩

lemma reserve_reads : Reads d d 0 [] (reserve n) () := by
  constructor
  intro b p k t _ hp _
  have hremaining : Triple (At b p d (0 + k)) remaining (fun _ u => True ∧ At b p d (0 + k) u)
    fun _ _ => False := by
    refine At.call (.of_state fun u hu => .get_bind ?_)
    rw [expect, if_pos (hu.buf ▸ hu.pos ▸ hp)]
    rintro _ rfl
    exact ⟨trivial, hu⟩
  refine .bind hremaining fun unread => .modify fun u hu => ?_
  exact ⟨rfl, hu.2.buf, hu.2.pos, hu.2.depth, hu.2.budget.trans (Nat.zero_add k)⟩

/-! ## Values -/

section Values

variable {tz : TimeZones} {recur : Unpack Value}

lemma unpackValueBody_float (x : Double) :
    Reads d d 0 (floatBytes x) (unpackValueBody tz recur) (.float x) := by
  have hbits : x.bits.toNat < 256 ^ 8 := x.bits.toNat_lt
  have hslice := @readSlice_reads d (be 8 x.bits.toNat)
  refine .call (Reads.peekMarker ?_)
  refine .readU8 (hslice.bind_last ?_)
  refine (Reads.expect (length_be 8 _)).bind_nil ?_
  rw [ofBe_be hbits, UInt64.ofNat_toNat]
  exact .pure _

lemma unpackValueBody_null : Reads d d 0 [Marker.null] (unpackValueBody tz recur) .null := by
  refine .call (Reads.peekMarker ?_)
  exact .readU8 (.pure _)

lemma unpackValueBody_bool (b : Bool) :
    Reads d d 0 [if b then Marker.true else Marker.false] (unpackValueBody tz recur)
    (.boolean b) := by
  refine .call (Reads.peekMarker ?_)
  cases b with
  | true => exact .readU8 (.pure _)
  | false => exact .readU8 (.pure _)

lemma unpackValueBody_int (v : Int64) :
    Reads d d 0 (intBytes v.toInt) (unpackValueBody tz recur) (.integer v) := by
  refine .call (.peekKind (exists_intBytes v.toInt) fun x hkind => ?_)
  rw [hkind]
  exact (readInt_reads v).map Value.integer

lemma unpackValueBody_string {s : Text} (h : s.length ≤ maxCollectionLen)
    (hutf8 : isUtf8 s = true) :
    Reads d d 0 (stringBytes s) (unpackValueBody tz recur) (.string s) := by
  refine .call (.peekKind (exists_headerBytes stringMarkers s.length s) fun x hkind => ?_)
  rw [hkind]
  exact (readString_reads h hutf8).map Value.string

lemma unpackValueBody_bytes {b : Bytes} (h : b.length ≤ maxCollectionLen) :
    Reads d d 0 (byteArrayBytes b) (unpackValueBody tz recur) (.bytes b) := by
  refine .call (.peekKind (exists_byteArrayBytes b) fun x hkind => ?_)
  rw [hkind]
  exact unpackBytes_reads h

variable {v : Value}

/-- A structure one level down. -/
lemma unpackValueBody_struct {w : Packer → Packer} (hd : d < maxDecodeDepth)
    (h : Structured tz recur (d + 1) w v) :
    ∃ bs, Writes w bs ∧ Reads d d 0 bs (unpackValueBody tz recur) v := by
  obtain ⟨tag, k, bs, hk, htag, hw, hr⟩ := h
  refine ⟨structBytes tag k ++ bs, hw, .call (Reads.peekMarker ?_)⟩
  have hkind := (structMarker k (Nat.lt_succ_of_le hk)).1
  rw [hkind]
  refine (enterNested_reads hd).bind_nil ?_
  have hstruct : Reads (d + 1) (d + 1) 0 (structBytes tag k ++ bs)
    (unpackStructuredValue tz recur) v :=
    .call ((readStructHeader_reads hk htag).bind_free hr)
  exact hstruct.bind_last (leaveNested_reads.bind_nil (.pure v))

/-- The decoder calls itself, or with no level left an error. -/
lemma exists_unpackValueBody (tz : TimeZones) (l : Nat) :
    ∃ recur, unpackValueAt tz l = unpackValueBody tz recur := by
  cases l <;> exact ⟨_, rfl⟩

/-- What the codec needs of a value and of all the values inside it. -/
def Good (tz : TimeZones) (v : Value) : Prop :=
  ∀ x ∈ v.subvalues, NodeConstructible tz x ∧ NodeFits x ∧ NodeNonnegative x

lemma Good.item {items : List Value} (h : Good tz (.list items)) (hv : v ∈ items) : Good tz v :=
  fun x hx => h x (Value.mem_subvalues_list.2 (.inr ⟨v, hv, hx⟩))

lemma Good.entry {entries : Fields} (h : Good tz (.map entries)) {e : Text × Value}
    (he : e ∈ entries) : Good tz e.2 :=
  fun x hx => h x (Value.mem_subvalues_map.2 (.inr ⟨e, he, hx⟩))

/-- The value is written and read back at the nesting `d` and with `l` levels left. -/
def Codes (tz : TimeZones) (d l : Nat) (v : Value) : Prop :=
  ∃ bs, Writes (packValueAt d v) bs ∧ Reads d d (elements v) bs (unpackValueAt tz l) v

lemma not_lt_maxEncodeDepth (hd : d ≤ maxDecodeDepth) : ¬ maxEncodeDepth < d :=
  not_lt.2 (hd.trans (by decide))

/-! ### Collections -/

lemma unpackElement_reads {element : Unpack α} {a : α} (h : Reads d d n bs element a)
    (items : List α) : Reads d d (1 + n) bs (unpackElement element items) (items ++ [a]) :=
  chargeElement_reads.bind (h.bind_last (noteElement_reads.bind_nil (.pure _)))

lemma items_codes {l : Nat} {items : List Value} (h : ∀ v ∈ items, Codes tz (d + 1) l v)
    (acc : List Value) :
    ∃ bs, Writes (packItems d items) bs ∧ Reads (d + 1) (d + 1) (elementsOfItems items) bs
      (iterate items.length (unpackElement (unpackValueAt tz l)) acc) (acc ++ items) := by
  induction items generalizing acc with
  | nil =>
    refine ⟨[], fun p => ?_, ?_⟩
    · rw [packItems, push, append_nil]
    · rw [append_nil]
      exact .pure acc
  | cons x items ih =>
    obtain ⟨bs, hw, hr⟩ := h x mem_cons_self
    obtain ⟨bs', hws, hrs⟩ := ih (fun v hv => h v (mem_cons_of_mem x hv)) (acc ++ [x])
    refine ⟨bs ++ bs', fun p => ?_, ?_⟩
    · rw [packItems, hw, hws, push_push]
    have hstep := (unpackElement_reads hr acc).bind hrs
    rw [append_assoc] at hstep
    rw [elementsOfItems, Nat.add_comm (elements x) 1]
    exact hstep

lemma insertEntry_reads {acc : MapAccumulator} (hacc : acc.Ok fun _ => True) {key : Text}
    {value : Value}
    (hnew : key ∉ acc.entries.map fst) : ∃ acc' : MapAccumulator, acc'.Ok (fun _ => True) ∧
      acc'.entries = acc.entries ++ [(key, value)] ∧ Reads d d 0 []
        (insertEntry acc key value) acc' := by
  obtain ⟨acc', hinsert, hacc', hentries⟩ := @MapAccumulator.insert_eq _ acc key value hacc trivial
  have hposition : MapAccumulator.position acc.entries key = none := by
    rw [MapAccumulator.position, findIdx?_eq_none_iff]
    intro e he
    exact decide_eq_false fun heq => hnew (mem_map.2 ⟨e, he, heq⟩)
  rw [MapAccumulator.inserted, hposition] at hentries
  refine ⟨acc', hacc', hentries, .call ?_⟩
  rw [hinsert]
  exact .pure acc'

lemma entries_codes {l : Nat} {entries : Fields} (h : ∀ e ∈ entries, Codes tz (d + 1) l e.2)
    (hkeys : ∀ e ∈ entries, isUtf8 e.1 = true ∧ e.1.length ≤ maxCollectionLen)
    {acc : MapAccumulator}
    (hacc : acc.Ok fun _ => True) (hnodup : ((acc.entries ++ entries).map fst).Nodup) :
    ∃ bs, Writes (packEntries d entries) bs ∧ ∃ acc' : MapAccumulator,
      acc'.entries = acc.entries ++ entries ∧ Reads (d + 1) (d + 1) (elementsOfEntries entries) bs
        (iterate entries.length (unpackEntry (unpackValueAt tz l)) acc) acc' := by
  induction entries generalizing acc with
  | nil =>
    refine ⟨[], fun p => ?_, acc, (append_nil _).symm, .pure acc⟩
    rw [packEntries, push, append_nil]
  | cons e entries ih =>
    obtain ⟨key, value⟩ := e
    obtain ⟨hutf8, hlen⟩ := hkeys _ mem_cons_self
    obtain ⟨bs, hw, hr⟩ := h _ mem_cons_self
    have hnew : key ∉ acc.entries.map fst := by
      rw [map_append, nodup_append] at hnodup
      exact fun hmem => hnodup.2.2 key hmem key mem_cons_self rfl
    obtain ⟨acc1, hacc1, hentries1, hinsert⟩ := @insertEntry_reads (d + 1) acc hacc key value hnew
    obtain ⟨bs', hws, acc', hentries', hrs⟩ := ih (fun e he => h e (mem_cons_of_mem _ he))
      (fun e he => hkeys e (mem_cons_of_mem _ he)) hacc1 (by
        rw [hentries1, append_assoc]
        exact hnodup)
    refine ⟨(stringBytes key ++ bs) ++ bs', fun p => ?_, acc', ?_, ?_⟩
    · rw [packEntries, writeString_eq p hlen, hw, hws, push_push, push_push, append_assoc]
    · rw [hentries', hentries1, append_assoc]
      rfl
    · have hbody : Reads (d + 1) (d + 1) (1 + elements value) (stringBytes key ++ bs)
          (unpackEntry (unpackValueAt tz l) acc) acc1 :=
        chargeElement_reads.bind ((readString_reads hlen hutf8).bind_free
          (hr.bind_last (noteElement_reads.bind_nil hinsert)))
      rw [elementsOfEntries, Nat.add_comm (elements value) 1]
      exact hbody.bind hrs

/-! ### All values -/

lemma nesting_le_of_mem {items : List Value} (hv : v ∈ items) :
    nesting v ≤ nestingOfItems items ∧ elements v ≤ elementsOfItems items := by
  induction items with
  | nil => cases hv
  | cons x items ih =>
    rw [nestingOfItems, elementsOfItems]
    rcases mem_cons.1 hv with rfl | hv
    · omega
    · have := ih hv
      omega

lemma length_le_elementsOfItems (items : List Value) : items.length ≤ elementsOfItems items := by
  induction items with
  | nil => exact Nat.le_refl 0
  | cons x items ih =>
    rw [elementsOfItems, length_cons]
    omega

/-- A map nests as deep and has as many elements as the list of its values. -/
lemma ofEntries_eq (entries : Fields) :
    nestingOfEntries entries = nestingOfItems (entries.map snd) ∧
      elementsOfEntries entries = elementsOfItems (entries.map snd) := by
  induction entries with
  | nil => exact ⟨rfl, rfl⟩
  | cons e entries ih =>
    rw [nestingOfEntries, elementsOfEntries, ih.1, ih.2]
    exact ⟨rfl, rfl⟩

/-- The limits a value keeps within, at the nesting `d` and with `l` levels left. -/
structure Admissible (d l : Nat) (v : Value) : Prop where
  depth_le : d + nesting v ≤ maxDecodeDepth
  levels_le : nesting v ≤ l
  elements_le : elements v ≤ maxDecodeElements

/-- The limits of an item, one level down. -/
lemma admissible_item {l : Nat} {items : List Value}
    (hdepth : d + (nestingOfItems items + 1) ≤ maxDecodeDepth)
    (hlevels : nestingOfItems items + 1 ≤ l + 1) (hel : elementsOfItems items ≤ maxDecodeElements)
    (hv : v ∈ items) : Admissible (d + 1) l v := by
  have := nesting_le_of_mem hv
  exact ⟨by omega, by omega, by omega⟩

lemma codes_list {l : Nat} {items : List Value} (hv : Admissible d l (.list items))
    (h : ∀ v ∈ items, ∀ l, Admissible (d + 1) l v → Codes tz (d + 1) l v) :
    Codes tz d l (.list items) := by
  obtain ⟨hdepth, hlevels, hel⟩ := hv
  rw [nesting] at hdepth hlevels
  obtain ⟨l', rfl⟩ : ∃ l', l = l' + 1 := ⟨l - 1, by omega⟩
  have hlen : items.length ≤ maxCollectionLen :=
    (length_le_elementsOfItems items).trans (hel.trans (by decide))
  obtain ⟨bs, hw, hr⟩ :=
    @items_codes d tz l' items (fun v hv => h v hv l' (admissible_item hdepth hlevels hel hv)) []
  have hheader := @readHeader_reads d .list _ _ _ _ items.length listMarkers "list" hlen
  refine ⟨headerBytes tinyListBase list8 list16 list32 items.length ++ bs,
    fun p => ?_, ?_⟩
  · rw [packValueAt, if_neg (not_lt_maxEncodeDepth (by omega)), Packer.writeListHeader,
      writeCollectionHeader_eq p hlen, hw, push_push]
  refine .call (.peekKind (exists_headerBytes listMarkers items.length bs) fun x hkind => ?_)
  rw [hkind]
  refine hheader.bind_free ((enterNested_reads (by omega)).bind_nil (reserve_reads.bind_nil ?_))
  exact hr.bind_last (leaveNested_reads.bind_nil (.pure _))

lemma codes_map {l : Nat} {entries : Fields} (hv : Admissible d l (.map entries))
    (hkeys : ∀ e ∈ entries, isUtf8 e.1 = true ∧ e.1.length ≤ maxCollectionLen)
    (hnodup : (entries.map fst).Nodup)
    (h : ∀ e ∈ entries, ∀ l, Admissible (d + 1) l e.2 → Codes tz (d + 1) l e.2) :
    Codes tz d l (.map entries) := by
  obtain ⟨hdepth, hlevels, hel⟩ := hv
  rw [nesting, (ofEntries_eq entries).1] at hdepth hlevels
  rw [elements, (ofEntries_eq entries).2] at hel
  obtain ⟨l', rfl⟩ : ∃ l', l = l' + 1 := ⟨l - 1, by omega⟩
  have hlen := (length_le_elementsOfItems (entries.map snd)).trans
    (hel.trans (show _ ≤ maxCollectionLen by decide))
  rw [length_map] at hlen
  have hempty : MapAccumulator.Ok (fun _ => True) {} := ⟨nodup_nil, (fun _ _ => trivial), nofun⟩
  obtain ⟨bs, hw, acc, hacc, hr⟩ := @entries_codes d tz l' entries (fun e he =>
    h e he l' (admissible_item hdepth hlevels hel (mem_map_of_mem he))) hkeys {} hempty hnodup
  have hheader := @readHeader_reads d .map _ _ _ _ entries.length mapMarkers "map" hlen
  refine ⟨headerBytes tinyMapBase map8 map16 map32 entries.length ++ bs, fun p => ?_, ?_⟩
  · rw [packValueAt, if_neg (not_lt_maxEncodeDepth (by omega)), Packer.writeMapHeader,
      writeCollectionHeader_eq p hlen, hw, push_push]
  refine .call (.peekKind (exists_headerBytes mapMarkers entries.length bs) fun x hkind => ?_)
  rw [hkind]
  have hentries : Reads d d (elementsOfEntries entries) bs
      (unpackEntries (unpackValueAt tz l') entries.length) entries := by
    refine (enterNested_reads (by omega)).bind_nil (reserve_reads.bind_nil (hr.bind_last ?_))
    rw [show entries = acc.entries from hacc.symm]
    exact leaveNested_reads.bind_nil (.pure _)
  exact hheader.bind_free (hentries.map Value.map)

/-- A structure takes one level of nesting and no element. -/
lemma codes_struct {l : Nat} {w : Packer → Packer} (hv : Admissible d l v) (hnest : nesting v = 1)
    (hel : elements v = 0) (hw : ∀ p, packValueAt d v p = w p)
    (h : ∀ l', Structured tz (unpackValueAt tz l') (d + 1) w v) : Codes tz d l v := by
  obtain ⟨hdepth, hlevels, -⟩ := hv
  obtain ⟨l', rfl⟩ : ∃ l', l = l' + 1 := ⟨l - 1, by omega⟩
  obtain ⟨bs, hws, hr⟩ := unpackValueBody_struct (by omega) (h l')
  rw [Codes, hel]
  exact ⟨bs, fun p => (hw p).trans (hws p), hr⟩

/-- A value without parts takes no level, so any decoder will do. -/
lemma codes_leaf {l : Nat} (hel : elements v = 0) (hw : Writes (packValueAt d v) bs)
    (h : ∀ recur, Reads d d 0 bs (unpackValueBody tz recur) v) : Codes tz d l v := by
  obtain ⟨recur, heq⟩ := exists_unpackValueBody tz l
  rw [Codes, hel, heq]
  exact ⟨bs, hw, h recur⟩

/-- **Every good value within the limits is written and read back.** -/
lemma codes_of_good (v : Value) : ∀ d l, Good tz v → Admissible d l v → Codes tz d l v := by
  induction v using Value.induction_on_parts with
  | list items ih =>
    intro d l hgood hv
    exact codes_list hv fun v hmem l => ih v hmem (d + 1) l (hgood.item hmem)
  | map entries ih =>
    intro d l hgood hv
    obtain ⟨⟨hnodup, hutf8⟩, hfits, -⟩ := hgood _ (Value.self_mem_subvalues _)
    exact codes_map hv (fun e he => ⟨hutf8 e he, hfits e he⟩) hnodup fun e he l =>
      ih e he (d + 1) l (hgood.entry he)
  | leaf v hlist hmap =>
    intro d l hgood hv
    obtain ⟨hnode, hfits, hnonneg⟩ := hgood v v.self_mem_subvalues
    have hd := not_lt_maxEncodeDepth (Nat.le_of_add_right_le hv.depth_le)
    cases v with
    | list items => exact absurd rfl (hlist items)
    | map entries => exact absurd rfl (hmap entries)
    | null => exact codes_leaf rfl (fun _ => if_neg hd) fun _ => unpackValueBody_null
    | boolean b => exact codes_leaf rfl (fun _ => if_neg hd) fun _ => unpackValueBody_bool b
    | integer n => exact codes_leaf rfl (fun p => (if_neg hd).trans (writeInt_eq p n)) fun _ =>
        unpackValueBody_int n
    | float x => exact codes_leaf rfl (fun _ => if_neg hd) fun _ => unpackValueBody_float x
    | string s =>
      exact codes_leaf rfl (fun p => (if_neg hd).trans (writeString_eq p hfits)) fun _ =>
        unpackValueBody_string hfits hnode
    | bytes b =>
      exact codes_leaf rfl (fun p => (if_neg hd).trans (writeBytes_eq p hfits)) fun _ =>
        unpackValueBody_bytes hfits
    | date v => exact codes_struct hv rfl rfl (fun _ => if_neg hd) fun _ => structured_date hnode
    | localTime t =>
        exact codes_struct hv rfl rfl (fun _ => if_neg hd) fun _ => structured_localTime hnode
    | zonedTime t => exact codes_struct hv rfl rfl (fun _ => if_neg hd) fun _ =>
        structured_zonedTime hnode.1 hnode.2
    | localDateTime t =>
        exact codes_struct hv rfl rfl (fun _ => if_neg hd) fun _ => structured_localDateTime hnode
    | zonedDateTime t => exact codes_struct hv rfl rfl (fun _ => if_neg hd) fun _ =>
        structured_zonedDateTime hnode hfits
    | duration v =>
      obtain ⟨seconds, nanos, hcomponents⟩ := hnode
      exact codes_struct hv rfl rfl (fun _ => if_neg hd) fun _ =>
        structured_duration hnonneg (fromComponents_nanos hcomponents)
    | point q =>
      refine codes_struct hv rfl rfl (fun _ => if_neg hd) fun l' => structured_point (fun x => ?_) q
      obtain ⟨recur, heq⟩ := exists_unpackValueBody tz l'
      rw [heq]
      exact unpackValueBody_float x

end Values

/-! ## The round trip -/

/-- The value is read back exactly, and nothing behind it is touched. -/
def RoundTrips (tz : TimeZones) (v : Value) (trailing : Bytes) : Prop :=
  ∃ u, unpackValue tz { buf := (packValue v {}).buf ++ trailing } = .ok v u ∧
    u.pos = (packValue v {}).buf.length

lemma roundTrips_of_codes {tz : TimeZones} {v : Value} (h : Codes tz 0 maxDecodeDepth v)
    (hel : elements v ≤ maxDecodeElements)
    (hlen : ((packValue v {}).buf ++ trailing).length < 2 ^ 64) : RoundTrips tz v trailing := by
  obtain ⟨bs, hw, hr⟩ := h
  have hbuf : (packValue v {}).buf = bs := by
    rw [packValue, hw]
    rfl
  rw [RoundTrips, hbuf]
  rw [hbuf] at hlen
  have hstart : At (bs ++ trailing) 0 0 (elements v + (maxDecodeElements - elements v))
    { buf := bs ++ trailing } :=
    ⟨rfl, rfl, rfl, (Nat.add_sub_cancel' hel).symm⟩
  obtain ⟨a, u, hrun, rfl, hu⟩ :=
    (hr.run (bs ++ trailing) 0 _ trailing hlen (Nat.zero_le _) rfl).exists_ok hstart
  exact ⟨u, hrun, hu.pos.trans (Nat.zero_add _)⟩

/-- What is read back is accepted, so no duration in it has negative nanoseconds. -/
lemma nonnegative_of_roundTrips {tz : TimeZones} {v : Value} (h : RoundTrips tz v trailing) :
    Nonnegative v := by
  obtain ⟨u, hrun, -⟩ := h
  intro x hx
  have hnode := unpackValue_accepted hrun x hx
  cases x with
  | duration v => exact hnode.1
  | _ => trivial

/-- **A value comes back exactly if no duration in it has negative nanoseconds.** -/
theorem packValue_roundTrip_iff (tz : TimeZones) (v : Value) (trailing : Bytes)
    (hv : Constructible tz v)
    (hfits : Fits v) (hnesting : nesting v ≤ maxDecodeDepth)
    (helements : elements v ≤ maxDecodeElements)
    (hlen : ((packValue v {}).buf ++ trailing).length < 2 ^ 64) :
    RoundTrips tz v trailing ↔ Nonnegative v := by
  refine ⟨nonnegative_of_roundTrips, fun hnonneg => ?_⟩
  have hgood : Good tz v := fun x hx => ⟨hv x hx, hfits x hx, hnonneg x hx⟩
  exact roundTrips_of_codes
    (codes_of_good v 0 _ hgood ⟨(Nat.zero_add _).trans_le hnesting, hnesting, helements⟩)
    helements hlen

theorem packValue_roundTrip_list : RoundTrips (fun _ _ => .error .overflow)
    (.list [.integer 300, .duration ⟨1, 2, 3, 4⟩]) [0xC0] := by
  refine (packValue_roundTrip_iff _ _ _ ?_ ?_ (by decide) (by decide) (by decide)).2 ?_
  all_goals
    intro x hx
    simp only [Value.subvalues, Value.subvaluesOfItems, cons_append, nil_append, mem_cons,
      not_mem_nil, or_false] at hx
    rcases hx with rfl | rfl | rfl
  · trivial
  · trivial
  · exact ⟨3, 4, rfl⟩
  all_goals first | trivial | exact (by decide : (0 : Int) ≤ (4 : Int32).toInt)

/-- The duration a decoder has returned. -/
def decodedDuration : EStateM.Result DecodeFault Unpacker Value → Option Duration
  | .ok (.duration v) _ => some v
  | _ => none

/-- Half a second before zero: the engine has `-500000000` nanoseconds, and the decoder returns one
second less and `500000000` nanoseconds. -/
theorem packValue_negative_duration :
    Duration.fromComponents 0 0 0 (-500000000) = .ok ⟨0, 0, 0, -500000000⟩ ∧
      decodedDuration (unpackValue (fun _ _ => .error .overflow)
        { buf := (packValue (.duration ⟨0, 0, 0, -500000000⟩) {}).buf }) =
            some ⟨0, 0, -1, 500000000⟩ ∧
      ¬ RoundTrips (fun _ _ => .error .overflow) (.duration ⟨0, 0, 0, -500000000⟩) [] := by
  refine ⟨by decide, by decide +kernel, fun h => ?_⟩
  have hnonneg : (0 : Int) ≤ (-500000000 : Int32).toInt :=
    nonnegative_of_roundTrips h _ (Value.self_mem_subvalues _)
  exact absurd hnonneg (by decide)

end Graphus.PackStream
