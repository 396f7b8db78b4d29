import Graphus.Wal.LogInvariant
import Graphus.Wal.Manager

/-!
# A log in bytes

A written log is its header and its records, each one standing at its LSN right behind the one
before. Cutting it anywhere leaves whole records and a torn one (`take_logBytes`): a strict prefix
of a record, in which nothing decodes at the start. `logRecords` reads the whole records back.
-/

namespace Graphus

open List LogRecord

/-! ## Records in bytes -/

def encodeAll (L : Log) : Bytes := L.flatMap encode

def logBytes (L : Log) : Bytes := WalManager.headerBytes ++ encodeAll L

/-- The records at the start of `bytes`, up to the first offset where none decodes. -/
def decodeAll : Nat → Bytes → Log
  | 0, _ => []
  | fuel + 1, bytes =>
    match decode bytes with
    | .ok (r, n) => r :: decodeAll fuel (bytes.drop n)
    | .error _ => []

/-- The whole records of a log. -/
def logRecords (bytes : Bytes) : Log :=
  decodeAll bytes.length (bytes.drop headerLen)

/-- Each record stands right behind the ones before it and fits its fields. -/
inductive Written : Log → Prop
  | nil : Written []
  | snoc {L : Log} {r : LogRecord} (hL : Written L) (hlsn : r.lsn = logEnd L)
      (hfits : r.Fits) : Written (L ++ [r])

/-- Each record stands right behind the ones before it, the first one at `start`. -/
inductive Placed (start : Nat) : Log → Prop
  | nil : Placed start []
  | snoc {C : Log} {c : LogRecord} (hC : Placed start C)
      (hlsn : c.lsn = start + (encodeAll C).length) : Placed start (C ++ [c])

/-- A strict prefix of a record: what a crash leaves of the record being written. -/
def Torn (torn : Bytes) : Prop :=
  ∃ r rest, LogRecord.Fits r ∧ r.encode = torn ++ rest ∧ rest ≠ []

section LogBytes

variable {bytes torn tail : Bytes} {L L' : Log} {r : LogRecord} {off stop : Nat}

lemma Torn.decode (h : Torn torn) : decode torn = .error .incomplete := by
  obtain ⟨r, rest, hfits, henc, hrest⟩ := h
  exact decode_torn hfits henc hrest

lemma Torn.nil : Torn [] := by
  refine ⟨{ recType := .begin, txnId := 0 }, _, ⟨?_, ?_, ?_, ?_, ?_, ?_⟩, rfl, ?_⟩ <;>
    decide +kernel

lemma encodeAll_append : encodeAll (L ++ L') = encodeAll L ++ encodeAll L' := flatMap_append

lemma logBytes_append : logBytes (L ++ L') = logBytes L ++ encodeAll L' := by
  rw [logBytes, encodeAll_append]
  rfl

lemma encodeAll_singleton : encodeAll [r] = r.encode := by simp [encodeAll]

lemma encodeAll_snoc : encodeAll (L ++ [r]) = encodeAll L ++ r.encode := by
  rw [encodeAll_append, encodeAll_singleton]

lemma logBytes_snoc : logBytes (L ++ [r]) = logBytes L ++ r.encode := by
  rw [logBytes_append, encodeAll_singleton]

lemma length_headerBytes : WalManager.headerBytes.length = headerLen := by
  rfl

lemma headerLen_le_length_logBytes : headerLen ≤ (logBytes L).length := by
  rw [logBytes, length_append]
  exact Nat.le_add_right ..

lemma Written.length_logBytes (h : Written L) : (logBytes L).length = logEnd L := by
  induction h with
  | nil => exact length_headerBytes
  | snoc _ hlsn hfits ih => rw [logBytes_snoc, length_append, ih, length_encode, logEnd_snoc, hlsn]

lemma Written.fits (h : Written L) (hr : r ∈ L) : r.Fits := by
  induction h with
  | nil => cases hr
  | snoc _ _ hfits ih => exact (mem_of_snoc hr).elim ih fun h => h ▸ hfits

lemma Placed.of_prefix {start : Nat} {C C' : Log} (h : Placed start C)
    (hpre : C' <+: C) : Placed start C' := by
  induction h with
  | nil =>
    rw [prefix_nil.1 hpre]
    exact .nil
  | @snoc C c hC hlsn ih =>
    rcases prefix_concat_iff.1 hpre with rfl | hpre
    · exact hC.snoc hlsn
    · exact ih hpre

lemma Placed.lsn_lt {start : Nat} {C : Log} (h : Placed start C) {c : LogRecord}
    (hc : c ∈ C) : c.lsn < start + (encodeAll C).length := by
  induction h with
  | nil => cases hc
  | @snoc C c' hC hlsn ih =>
    rw [encodeAll_snoc, length_append, length_encode]
    rcases mem_of_snoc hc with hc | rfl
    · have := ih hc
      omega
    · have : 0 < c.encodedLen := encodedLen_pos
      omega

lemma Written.append (h : Written L) {C : Log} (hC : Placed (logEnd L) C)
    (hfits : ∀ c ∈ C, c.Fits) : Written (L ++ C) := by
  induction hC with
  | nil => rwa [append_nil]
  | @snoc C c _ hlsn ih =>
    have hW := ih fun c hc => hfits c (mem_append_left _ hc)
    rw [← append_assoc]
    refine hW.snoc ?_ (hfits c (mem_append_right _ (mem_singleton_self c)))
    rw [hlsn, ← hW.length_logBytes, ← h.length_logBytes, logBytes_append, length_append]

/-- The bytes from the LSN of a record on. -/
lemma Written.drop_lsn (h : Written L) (hr : r ∈ L) (tail : Bytes) :
    ∃ rest, (logBytes L ++ tail).drop r.lsn = r.encode ++ rest := by
  induction h generalizing tail with
  | nil => cases hr
  | @snoc L r' hL hlsn hfits ih =>
    rw [logBytes_snoc, append_assoc]
    rcases mem_of_snoc hr with hr | rfl
    · exact ih hr _
    · rw [hlsn, ← hL.length_logBytes, drop_left]
      exact ⟨tail, rfl⟩

/-! ## Scanning a log -/

lemma Scans.snoc {mid n : Nat} (h : Scans bytes off L mid)
    (hr : decode (bytes.drop mid) = .ok (r, n)) : Scans bytes off (L ++ [r]) (mid + n) := by
  induction h with
  | nil => exact .cons hr (.nil _)
  | cons h _ ih => exact .cons h (ih hr)

lemma Written.scans (h : Written L) (tail : Bytes) :
    Scans (logBytes L ++ tail) headerLen L (logEnd L) := by
  induction h generalizing tail with
  | nil => exact .nil _
  | @snoc L r hL hlsn hfits ih =>
    rw [logBytes_snoc, append_assoc, logEnd_snoc, hlsn]
    refine (ih _).snoc ?_
    rw [← hL.length_logBytes, drop_left]
    exact decode_encode hfits tail

/-- Where the records end, nothing decodes if nothing decodes in the tail. -/
lemma Written.ends (h : Written L) {e : DecodeError} (htail : decode tail = .error e) :
    Ends (logBytes L ++ tail) (logEnd L) := by
  rw [← h.length_logBytes, Ends, drop_left]
  exact ⟨e, htail⟩

lemma decodeAll_of_scans {fuel : Nat} (hscan : Scans bytes off L stop) (hstop : Ends bytes stop)
    (hfuel : bytes.length - off ≤ fuel) : decodeAll fuel (bytes.drop off) = L := by
  induction hscan generalizing fuel with
  | nil off =>
    obtain ⟨e, he⟩ := hstop
    cases fuel with
    | zero => rfl
    | succ fuel => rw [decodeAll, he]
  | @cons off n stop r L h _ ih =>
    have hn := decode_pos h
    have hle := (decode_ok h).2
    rw [length_drop] at hle
    cases fuel with
    | zero => omega
    | succ fuel =>
      rw [decodeAll, h]
      dsimp only
      rw [drop_drop, ih hstop (by omega)]

/-- **Reading a log back** gives its whole records. -/
lemma logRecords_logBytes (h : Written L) (htorn : Torn torn) :
    logRecords (logBytes L ++ torn) = L :=
  decodeAll_of_scans (h.scans torn) (h.ends htorn.decode) (Nat.sub_le ..)

/-! ## Cutting a log -/

/-- **Cutting a log** anywhere behind its header leaves whole records and a torn one. -/
lemma Written.take_logBytes (h : Written L) {n : Nat} (hn : headerLen ≤ n) :
    ∃ L1 L2 torn, L = L1 ++ L2 ∧ Written L1 ∧ Torn torn ∧
    (logBytes L).take n = logBytes L1 ++ torn := by
  induction h with
  | nil =>
    refine ⟨[], [], [], rfl, .nil, .nil, ?_⟩
    rw [append_nil, take_of_length_le]
    exact hn
  | @snoc L r hL hlsn hfits ih =>
    by_cases hwhole : logEnd (L ++ [r]) ≤ n
    · refine ⟨L ++ [r], [], [], (append_nil _).symm, .snoc hL hlsn hfits, .nil, ?_⟩
      rw [append_nil, take_of_length_le]
      rw [(Written.snoc hL hlsn hfits).length_logBytes]
      exact hwhole
    · by_cases hbefore : logEnd L ≤ n
      · -- the cut goes through the last record
        refine ⟨L, [r], r.encode.take (n - logEnd L), rfl, hL, ?_, ?_⟩
        · refine ⟨r, r.encode.drop (n - logEnd L), hfits, (take_append_drop ..).symm, ?_⟩
          rw [logEnd_snoc] at hwhole
          rw [Ne, drop_eq_nil_iff, length_encode]
          omega
        · rw [logBytes_snoc, take_append, hL.length_logBytes,
            take_of_length_le (hL.length_logBytes ▸ hbefore)]
      · obtain ⟨L1, L2, torn, hsplit, hW, htorn, hbytes⟩ := ih
        refine ⟨L1, L2 ++ [r], torn, by rw [hsplit, append_assoc], hW, htorn, ?_⟩
        rw [logBytes_snoc, take_append_of_le_length, hbytes]
        rw [hL.length_logBytes]
        omega

end LogBytes

end Graphus
