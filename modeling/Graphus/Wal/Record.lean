import Mathlib.Data.Nat.Bitwise
import Graphus.Lib.Bytes

/-!
# Log records

The record format of `graphus-wal/src/record.rs`: a fixed prefix, two length-prefixed images and a
CRC32C over everything before it. A record decodes to itself whatever follows it, and a strict
prefix of a record is incomplete; neither needs anything of the checksum.
-/

namespace Graphus

open Bytes List

/-! ## CRC32C -/

/-- One bit of the reflected Castagnoli polynomial. -/
def crc32cBit (crc : Nat) : Nat := if crc % 2 = 1 then (crc / 2) ^^^ 0x82F63B78 else crc / 2

def crc32cByte (crc : Nat) (b : UInt8) : Nat :=
  (range 8).foldl (fun crc _ => crc32cBit crc) (crc ^^^ b.toNat)

/-- The CRC32C checksum, a 32-bit word. -/
def crc32c (bytes : Bytes) : Nat :=
  (bytes.foldl crc32cByte 0xFFFFFFFF ^^^ 0xFFFFFFFF) % 2 ^ 32

-- the check value of the CRC catalogues: the digits 1 to 9
example : crc32c [0x31, 0x32, 0x33, 0x34, 0x35, 0x36, 0x37, 0x38, 0x39] = 0xE3069283 := by
  decide +kernel

/-! ## Records -/

inductive RecordType where
  | begin
  | update
  | insert
  | delete
  | commit
  | abort
  | clr
  | checkpointBegin
  | checkpointEnd
  | fullPageImage
  | alloc
  | free
  deriving DecidableEq

namespace RecordType

def isPageChange : RecordType → Bool
  | .update | .insert | .delete | .clr | .fullPageImage | .alloc | .free => true
  | _ => false

/-- Must a record of this type be undone for a loser? -/
def isUndoableAction : RecordType → Bool
  | .update | .insert | .delete | .alloc | .free => true
  | _ => false

def toU8 : RecordType → UInt8
  | .begin => 1
  | .update => 2
  | .insert => 3
  | .delete => 4
  | .commit => 5
  | .abort => 6
  | .clr => 7
  | .checkpointBegin => 8
  | .checkpointEnd => 9
  | .fullPageImage => 10
  | .alloc => 11
  | .free => 12

def fromU8 (b : UInt8) : Option RecordType :=
  match b.toNat with
  | 1 => some .begin
  | 2 => some .update
  | 3 => some .insert
  | 4 => some .delete
  | 5 => some .commit
  | 6 => some .abort
  | 7 => some .clr
  | 8 => some .checkpointBegin
  | 9 => some .checkpointEnd
  | 10 => some .fullPageImage
  | 11 => some .alloc
  | 12 => some .free
  | _ => none

lemma fromU8_toU8 (t : RecordType) : fromU8 t.toU8 = some t := by
  cases t <;> rfl

end RecordType

structure LogRecord where
  lsn : Nat := 0
  prevLsn : Nat := 0
  txnId : Nat
  recType : RecordType
  pageId : Nat := 0
  undoNextLsn : Nat := 0
  redo : Bytes := []
  undo : Bytes := []
  deriving DecidableEq

/-- The records of a log, the oldest first. -/
abbrev Log := List LogRecord

inductive DecodeError where
  | incomplete
  | corrupt
  | badCrc
  deriving DecidableEq

/-- `REC_FIXED_PREFIX` -/
def recFixedPrefix : Nat := 4 + 8 + 8 + 8 + 1 + 8 + 8

/-- `MIN_RECORD_LEN` -/
def minRecordLen : Nat := recFixedPrefix + 4 + 4 + 4

namespace LogRecord

def encodedLen (r : LogRecord) : Nat := recFixedPrefix + 4 + r.redo.length + 4 + r.undo.length + 4

/-- The bytes the checksum covers. -/
def body (r : LogRecord) : Bytes :=
  le 4 r.encodedLen ++ le 8 r.lsn ++ le 8 r.prevLsn ++ le 8 r.txnId ++ [r.recType.toU8] ++
    le 8 r.pageId ++ le 8 r.undoNextLsn ++ le 4 r.redo.length ++ r.redo ++
    le 4 r.undo.length ++ r.undo

def encode (r : LogRecord) : Bytes := r.body ++ le 4 (crc32c r.body)

/-- The record at the start of `bytes` and the number of bytes it takes. -/
def decode (bytes : Bytes) : Except DecodeError (LogRecord × Nat) :=
  if bytes.length < recFixedPrefix + 8 then .error .incomplete
  else
    let total := field bytes 0 4
    if total < minRecordLen then .error .corrupt
    else if bytes.length < total then .error .incomplete
    else
      let record := bytes.take total
      if crc32c (record.take (total - 4)) ≠ field record (total - 4) 4 then .error .badCrc
      else
        match RecordType.fromU8 (record.getD 28 0) with
        | none => .error .corrupt
        | some recType =>
          let redoLen := field record 45 4
          let undoLenOff := 49 + redoLen
          if total < undoLenOff + 4 + 4 then .error .corrupt
          else
            let undoLen := field record undoLenOff 4
            let undoStart := undoLenOff + 4
            if undoStart + undoLen + 4 ≠ total then .error .corrupt
            else
              .ok ({ lsn := field record 4 8
                     prevLsn := field record 12 8
                     txnId := field record 20 8
                     recType
                     pageId := field record 29 8
                     undoNextLsn := field record 37 8
                     redo := (record.drop 49).take redoLen
                     undo := (record.drop undoStart).take undoLen }, total)

/-- The numbers of the record fit their fields. -/
structure Fits (r : LogRecord) : Prop where
  total : r.encodedLen < 2 ^ 32
  lsn : r.lsn < 2 ^ 64
  prevLsn : r.prevLsn < 2 ^ 64
  txnId : r.txnId < 2 ^ 64
  pageId : r.pageId < 2 ^ 64
  undoNextLsn : r.undoNextLsn < 2 ^ 64

variable {r : LogRecord}

lemma length_body : r.body.length = r.encodedLen - 4 := by
  simp [body, encodedLen, recFixedPrefix]
  omega

@[simp] lemma length_encode : r.encode.length = r.encodedLen := by
  simp [encode, length_body]
  unfold encodedLen
  omega

lemma encodedLen_ge : minRecordLen ≤ r.encodedLen := by
  unfold minRecordLen encodedLen
  omega

lemma crc32c_lt (bytes : Bytes) : crc32c bytes < 256 ^ 4 := Nat.mod_lt _ (by decide)

/-! ### The fields of an encoded record -/

lemma field_total (hr : r.Fits) (rest : Bytes) : field (r.encode ++ rest) 0 4 = r.encodedLen := by
  have hsplit : r.encode ++ rest = [] ++ (le 4 r.encodedLen ++ ((r.encode ++ rest).drop 4)) := by
    simp [encode, body]
  have hfield : field (r.encode ++ rest) 0 4 = toNat (le 4 r.encodedLen) :=
    field_of_split [] _ hsplit rfl (length_le ..)
  rw [hfield, toNat_le hr.total]

lemma take_encode (rest : Bytes) : (r.encode ++ rest).take r.encodedLen = r.encode := by
  rw [← length_encode, take_left]

lemma take_body : r.encode.take (r.encodedLen - 4) = r.body := by
  rw [encode, ← length_body, take_left]

lemma field_crc : field r.encode (r.encodedLen - 4) 4 = crc32c r.body := by
  have hsplit : r.encode = r.body ++ (le 4 (crc32c r.body) ++ []) := by simp [encode]
  rw [field_of_split _ _ hsplit length_body (length_le ..), toNat_le (crc32c_lt _)]

lemma getD_recType : r.encode.getD 28 0 = r.recType.toU8 := by
  have hsplit : r.encode = (le 4 r.encodedLen ++ le 8 r.lsn ++ le 8 r.prevLsn ++ le 8 r.txnId) ++
      r.recType.toU8 :: (le 8 r.pageId ++ le 8 r.undoNextLsn ++ le 4 r.redo.length ++ r.redo ++
        le 4 r.undo.length ++ r.undo ++ le 4 (crc32c r.body)) := by
    simp [encode, body]
  rw [hsplit, getD_append_right _ _ _ _ (by simp)]
  simp

section

variable (hr : r.Fits)

include hr

lemma field_lsn : field r.encode 4 8 = r.lsn := by
  rw [field_of_split (le 4 r.encodedLen) (le 8 r.lsn) (by simp [encode, body]; rfl)
    (length_le ..) (length_le ..), toNat_le hr.lsn]

lemma field_prevLsn : field r.encode 12 8 = r.prevLsn := by
  rw [field_of_split (le 4 r.encodedLen ++ le 8 r.lsn) (le 8 r.prevLsn)
    (by simp [encode, body]; rfl) (by simp) (length_le ..), toNat_le hr.prevLsn]

lemma field_txnId : field r.encode 20 8 = r.txnId := by
  rw [field_of_split (le 4 r.encodedLen ++ le 8 r.lsn ++ le 8 r.prevLsn) (le 8 r.txnId)
    (by simp [encode, body]; rfl) (by simp) (length_le ..), toNat_le hr.txnId]

lemma field_pageId : field r.encode 29 8 = r.pageId := by
  rw [field_of_split (le 4 r.encodedLen ++ le 8 r.lsn ++ le 8 r.prevLsn ++ le 8 r.txnId ++
    [r.recType.toU8]) (le 8 r.pageId) (by simp [encode, body]; rfl) (by simp) (length_le ..),
    toNat_le hr.pageId]

lemma field_undoNextLsn : field r.encode 37 8 = r.undoNextLsn := by
  rw [field_of_split (le 4 r.encodedLen ++ le 8 r.lsn ++ le 8 r.prevLsn ++ le 8 r.txnId ++
    [r.recType.toU8] ++ le 8 r.pageId) (le 8 r.undoNextLsn) (by simp [encode, body]; rfl)
    (by simp) (length_le ..), toNat_le hr.undoNextLsn]

end

/-- The prefix of an encoded record, up to the length of the redo image. -/
def headBytes (r : LogRecord) : Bytes :=
  le 4 r.encodedLen ++ le 8 r.lsn ++ le 8 r.prevLsn ++ le 8 r.txnId ++ [r.recType.toU8] ++
    le 8 r.pageId ++ le 8 r.undoNextLsn

lemma length_headBytes : r.headBytes.length = 45 := by
  simp [headBytes]

lemma encode_eq : r.encode = r.headBytes ++ (le 4 r.redo.length ++ (r.redo ++
    (le 4 r.undo.length ++ (r.undo ++ le 4 (crc32c r.body))))) := by
  simp [encode, body, headBytes]

lemma redo_lt (hr : r.Fits) : r.redo.length < 256 ^ 4 := by
  have := hr.total
  unfold encodedLen at this
  omega

lemma undo_lt (hr : r.Fits) : r.undo.length < 256 ^ 4 := by
  have := hr.total
  unfold encodedLen at this
  omega

lemma field_redoLen (hr : r.Fits) : field r.encode 45 4 = r.redo.length := by
  rw [field_of_split r.headBytes _ encode_eq length_headBytes (length_le ..), toNat_le (redo_lt hr)]

lemma take_redo : (r.encode.drop 49).take r.redo.length = r.redo :=
  take_drop_of_split (r.headBytes ++ le 4 r.redo.length) _
    (by rw [encode_eq, append_assoc]) (by simp [length_headBytes]) rfl

lemma field_undoLen (hr : r.Fits) : field r.encode (49 + r.redo.length) 4 = r.undo.length := by
  rw [field_of_split (r.headBytes ++ le 4 r.redo.length ++ r.redo) (le 4 r.undo.length)
    (by rw [encode_eq]; simp; rfl) (by simp [length_headBytes]; omega) (length_le ..),
    toNat_le (undo_lt hr)]

lemma take_undo : (r.encode.drop (49 + r.redo.length + 4)).take r.undo.length = r.undo :=
  take_drop_of_split (r.headBytes ++ le 4 r.redo.length ++ r.redo ++ le 4 r.undo.length) _
    (by rw [encode_eq]; simp; rfl) (by simp [length_headBytes]; omega) rfl

/-! ### Decoding -/

/-- **A record decodes to itself**, whatever follows it. -/
lemma decode_encode (hr : r.Fits) (rest : Bytes) :
    decode (r.encode ++ rest) = .ok (r, r.encodedLen) := by
  have hlen : r.encodedLen ≤ (r.encode ++ rest).length := by simp
  have hmin : minRecordLen ≤ r.encodedLen := encodedLen_ge
  have hlong : ¬ (r.encode ++ rest).length < recFixedPrefix + 8 := by
    unfold minRecordLen at hmin
    omega
  have hparts : r.encodedLen = 49 + r.redo.length + 4 + r.undo.length + 4 := by
    unfold encodedLen recFixedPrefix
    omega
  unfold decode
  rw [if_neg hlong]
  simp only [field_total hr, if_neg (not_lt.2 hmin), if_neg (not_lt.2 hlen),
    take_encode, take_body, field_crc, getD_recType, RecordType.fromU8_toU8, field_redoLen hr,
    field_undoLen hr, field_lsn hr, field_prevLsn hr, field_txnId hr, field_pageId hr,
    field_undoNextLsn hr, take_redo, take_undo]
  rw [if_neg (by simp), if_neg (by omega), if_neg (by omega)]

/-- **A torn record is incomplete.** -/
lemma decode_torn (hr : r.Fits) {torn rest : Bytes} (h : r.encode = torn ++ rest)
    (hrest : rest ≠ []) : decode torn = .error .incomplete := by
  have hlt : torn.length < r.encodedLen := by
    have hlen : r.encodedLen = torn.length + rest.length := by
      rw [← length_encode, h, length_append]
    have := length_pos_of_ne_nil hrest
    omega
  unfold decode
  by_cases hshort : torn.length < recFixedPrefix + 8
  · rw [if_pos hshort]
  have htotal : field torn 0 4 = r.encodedLen := by
    have h4 : 4 ≤ torn.length := by
      omega
    have hsame : field (torn ++ rest) 0 4 = field torn 0 4 := by
      simp [field, take_append_of_le_length h4]
    rw [← hsame, ← h, ← append_nil r.encode, field_total hr]
  rw [if_neg hshort]
  simp only [htotal, if_neg (not_lt.2 encodedLen_ge), if_pos hlt]

/-- What decodes has the length its images give, and fits. -/
lemma decode_ok {bytes : Bytes} {n : Nat} (h : decode bytes = .ok (r, n)) :
    n = r.encodedLen ∧ n ≤ bytes.length := by
  unfold decode at h
  split at h
  · cases h
  dsimp only at h
  split at h
  · cases h
  split at h
  · cases h
  rename_i hlen
  split at h
  · cases h
  split at h
  · cases h
  split at h
  · cases h
  split at h
  · cases h
  cases h
  have hle : field bytes 0 4 ≤ bytes.length := not_lt.1 hlen
  have hrec : (bytes.take (field bytes 0 4)).length = field bytes 0 4 := by
    rw [length_take, min_eq_left hle]
  refine ⟨?_, hle⟩
  simp only [encodedLen, recFixedPrefix, length_take, length_drop]
  omega

/-- Cutting the bytes short can only make a record incomplete. -/
lemma decode_take (bytes : Bytes) (k : Nat) :
    decode (bytes.take k) = .error .incomplete ∨ decode (bytes.take k) = decode bytes := by
  have hle : (bytes.take k).length ≤ bytes.length := length_take_le' k bytes
  by_cases hshort : (bytes.take k).length < recFixedPrefix + 8
  · exact .inl (by rw [decode, if_pos hshort])
  have hlong : ¬ bytes.length < recFixedPrefix + 8 := by omega
  have h4 : 4 ≤ k := by
    rw [length_take] at hshort
    omega
  have htotal : field (bytes.take k) 0 4 = field bytes 0 4 := by
    simp [field, take_take, min_eq_left h4]
  by_cases hcut : (bytes.take k).length < field bytes 0 4
  · by_cases hmin : field bytes 0 4 < minRecordLen
    · refine .inr ?_
      rw [decode, decode, if_neg hshort, if_neg hlong]
      simp only [htotal, if_pos hmin]
    · refine .inl ?_
      rw [decode, if_neg hshort]
      simp only [htotal, if_neg hmin, if_pos hcut]
  · have htake : (bytes.take k).take (field bytes 0 4) = bytes.take (field bytes 0 4) := by
      rw [take_take, min_eq_left]
      rw [length_take] at hcut
      omega
    refine .inr ?_
    rw [decode, decode, if_neg hshort, if_neg hlong]
    simp only [htotal, htake, if_neg hcut, if_neg (show ¬ bytes.length < field bytes 0 4 by omega)]

end LogRecord

end Graphus
