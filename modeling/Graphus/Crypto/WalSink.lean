import Graphus.Wal.Sink

/-!
# The encrypted log sink

`EncryptedLogSink` shows a plaintext stream upward and keeps one sealed frame per sync in a backing
sink. The frame index maps plaintext offsets to frames. Opening reads the sink header, scans the
frames forward and drops everything behind the first bytes that are not a frame; it leaves those
bytes in the backing sink.

The cipher is a parameter, a sealed frame opens to its plaintext and nothing else opens
(`Aead`). The backing sink may free less than it is asked to: it keeps whole what one sync wrote
(`Backing.reclaim`).
-/

namespace Graphus

open Bytes (le field)

/-! ## The cipher and the key -/

def nonceLen : Nat := 12

def tagLen : Nat := 16

/-- A perfect cipher. `encrypt nonce aad plaintext` is the ciphertext with its tag. -/
structure Aead where
  encrypt : Bytes → Bytes → Bytes → Bytes
  decrypt : Bytes → Bytes → Bytes → Option Bytes
  length_encrypt : ∀ nonce aad plaintext, (encrypt nonce aad plaintext).length =
    plaintext.length + tagLen
  decrypt_encrypt : ∀ nonce aad plaintext, decrypt nonce aad (encrypt nonce aad plaintext) =
    some plaintext

/-- The WAL subkey: its cipher and its key-check value. -/
structure Keyring where
  cipher : Aead
  kcv : Bytes
  kcv_lt : kcv.length < 2 ^ 32

inductive SinkError where
  | createNotEmpty
  | tooShort
  | badMagic
  | unsupportedVersion (version : Nat)
  | unsupportedCipher (cipher : Nat)
  | kcvPastBacking
  | kcvMismatch
  | budgetExhausted
  | backingSync
  | frameTruncated
  | frameRejected
  | frameLength (got expected : Nat)
  /-- a loop of the model stopped early; the loops are given fuel for every iteration -/
  | outOfFuel

/-! ## The backing sink -/

/-- The backing sink. `ends` are the lengths it had after its syncs and when it was opened. -/
structure Backing where
  sink : LogSink := {}
  ends : List Nat := []

namespace Backing

def append (b : Backing) (bytes : Bytes) : Backing := { b with sink := b.sink.append bytes }

/-- A sync that fails keeps the bytes for the next one. -/
def sync (b : Backing) (ok : Bool) : Backing × Bool :=
  if ok then ({ sink := b.sink.sync, ends := b.sink.bufferedLen :: b.ends }, true) else (b, false)

/-- Free `[start, stop)`, or a part of it: nothing, or all bytes from `start` up to `freed`, where
the sink keeps together what one sync wrote. `none` is a choice that no sink makes. -/
def reclaim (b : Backing) (start stop : Nat) : Option Nat → Option Backing
  | none => some b
  | some freed =>
    if start ≤ freed ∧ freed ≤ stop ∧ b.sink.reclaimedFloor ≤ freed ∧
        (freed = stop ∨ freed ∈ b.ends) then
      some { b with sink := b.sink.free start freed }
    else none

/-- The process dies with `kept` of the pending bytes on disk, and the sink is opened again. -/
def crash (b : Backing) (kept : Nat) : Backing :=
  let sink := b.sink.crash kept
  { sink, ends := sink.durableLen :: b.ends }

end Backing

/-! ## Layout -/

/-- `WAL_SINK_MAGIC` -/
def walSinkMagic : Bytes := [0x47, 0x52, 0x41, 0x50, 0x48, 0x55, 0x53, 0x57]

/-- `WAL_SINK_VERSION` -/
def walSinkVersion : Nat := 5

/-- `WAL_CIPHER_AES_256_GCM` -/
def walCipherAes256Gcm : Nat := 1

/-- `HDR_PREFIX_LEN` -/
def hdrPrefixLen : Nat := 20

/-- `FRAME_MAGIC` -/
def frameMagic : Bytes := [0x47, 0x57, 0x46, 0x52]

/-- `FR_OFF_NONCE` -/
def frOffNonce : Nat := 36

/-- `FR_OFF_CIPHERTEXT` -/
def frOffCiphertext : Nat := frOffNonce + nonceLen

/-- `FRAME_OVERHEAD` -/
def frameOverhead : Nat := 4 + 8 + 8 + 8 + 8 + nonceLen + tagLen

/-- `HEADER_FRAME_MAX_PHYS` -/
def headerFrameMaxPhys : Nat := frameOverhead + 2 ^ 20

/-- `MAX_WRITES_PER_SUBKEY` -/
def maxWritesPerSubkey : Nat := 2 ^ 32

structure FrameLoc where
  logicalOffset : Nat
  logicalLen : Nat
  physOffset : Nat
  physLen : Nat
  writeCount : Nat

/-- The plaintext offset behind the frame. -/
def FrameLoc.logicalEnd (loc : FrameLoc) : Nat := loc.logicalOffset + loc.logicalLen

def encodeSinkHeader (kcv : Bytes) : Bytes :=
  walSinkMagic ++ le 4 walSinkVersion ++ le 4 walCipherAes256Gcm ++ le 4 kcv.length ++ kcv

def readSinkHeaderLen (b : Backing) : Except SinkError Nat :=
  let header := b.sink.readBounded 0 hdrPrefixLen
  if header.length < hdrPrefixLen then .error .tooShort
  else .ok (hdrPrefixLen + field header 16 4)

def parseAndVerifySinkHeader (physical : Bytes) (keyring : Keyring) : Except SinkError Nat :=
  if physical.length < hdrPrefixLen then .error .tooShort
  else if physical.take 8 ≠ walSinkMagic then .error .badMagic
  else if field physical 8 4 ≠ walSinkVersion then .error (.unsupportedVersion (field physical 8 4))
  else if field physical 12 4 ≠ walCipherAes256Gcm then
    .error (.unsupportedCipher (field physical 12 4))
  else
    let kcvEnd := hdrPrefixLen + field physical 16 4
    if physical.length < kcvEnd then .error .kcvPastBacking
    else if (physical.take kcvEnd).drop hdrPrefixLen ≠ keyring.kcv then .error .kcvMismatch
    else .ok kcvEnd

def frameAad (logicalOffset writeCount : Nat) : Bytes := le 8 logicalOffset ++ le 8 writeCount

/-- Seal `plaintext` into a frame at a plaintext offset. -/
def sealFrame (cipher : Aead) (nonce : Bytes) (logicalOffset writeCount : Nat)
    (plaintext : Bytes) : Bytes :=
  frameMagic ++ le 8 (frameOverhead + plaintext.length) ++ le 8 logicalOffset ++
    le 8 plaintext.length ++ le 8 writeCount ++ nonce ++
    cipher.encrypt nonce (frameAad logicalOffset writeCount) plaintext

/-- Decode the frame at `cursor` of `physical`, whose first byte is at the offset `base`. -/
def decodeAndAuthenticateFrame (cipher : Aead) (physical : Bytes) (cursor base : Nat) :
    Option FrameLoc :=
  if physical.length < cursor + frOffNonce then none
  else if (physical.drop cursor).take 4 ≠ frameMagic then none
  else
    let physLen := field physical (cursor + 4) 8
    let logicalOffset := field physical (cursor + 12) 8
    let logicalLen := field physical (cursor + 20) 8
    let writeCount := field physical (cursor + 28) 8
    -- the sum is checked: a claimed length near the top of the range overflows
    if 2 ^ 64 ≤ frameOverhead + logicalLen then none
    else if physLen ≠ frameOverhead + logicalLen then none
    else if physical.length < cursor + physLen then none
    else
      let frame := (physical.drop cursor).take physLen
      let nonce := (frame.drop frOffNonce).take nonceLen
      match cipher.decrypt nonce (frameAad logicalOffset writeCount)
        (frame.drop frOffCiphertext) with
      | some plaintext =>
        if plaintext.length = logicalLen then
          some { logicalOffset, logicalLen, physOffset := base + cursor, physLen, writeCount }
        else none
      | none => none

/-! ## The sink -/

structure EncryptedLogSink where
  backing : Backing
  frames : List FrameLoc := []
  logicalDurableLen : Nat := 0
  headerPhysLen : Nat
  pending : Bytes := []
  /-- the frames sealed under the subkey (`NonceBudget`) -/
  consumed : Nat := 0

namespace EncryptedLogSink

def create (backing : Backing) (keyring : Keyring) : Except SinkError EncryptedLogSink :=
  if backing.sink.bufferedLen ≠ 0 then .error .createNotEmpty
  else
    let header := encodeSinkHeader keyring.kcv
    .ok { backing := backing.append header, headerPhysLen := header.length }

/-- The frame right behind the sink header, which is never reclaimed. -/
def readHeaderFrame (cipher : Aead) (backing : Backing) (headerPhysLen : Nat) : Option FrameLoc :=
  let preamble := backing.sink.readBounded headerPhysLen (headerPhysLen + frOffCiphertext)
  if preamble.length < frOffCiphertext then none
  else if preamble.take 4 ≠ frameMagic then none
  else
    let physLen := field preamble 4 8
    if physLen < frameOverhead ∨ headerFrameMaxPhys < physLen then none
    else
      decodeAndAuthenticateFrame cipher
        (backing.sink.readBounded headerPhysLen (headerPhysLen + physLen)) 0 headerPhysLen

/-- The first offset at or behind `cursor` with a byte other than zero. -/
def skipZeros (physical : Bytes) (cursor : Nat) : Nat :=
  cursor + ((physical.drop cursor).takeWhile (· = 0)).length

/-- The forward scan: the frames found and the plaintext length they reach. -/
def scanFrames (cipher : Aead) (physical : Bytes) (base : Nat) :
    Nat → Nat → List FrameLoc → Nat → Except SinkError (List FrameLoc × Nat)
  | 0, _, _, _ => .error .outOfFuel
  | fuel + 1, cursor, frames, logicalLen =>
    let cursor := skipZeros physical cursor
    if physical.length ≤ cursor then .ok (frames, logicalLen)
    else
      match decodeAndAuthenticateFrame cipher physical cursor base with
      | none => .ok (frames, logicalLen)
      | some loc =>
        -- a frame that steps back is taken for a torn tail too
        if loc.logicalOffset < logicalLen then .ok (frames, logicalLen)
        else scanFrames cipher physical base fuel (loc.physOffset - base + loc.physLen)
          (frames ++ [loc]) loc.logicalEnd

def «open» (backing : Backing) (keyring : Keyring) : Except SinkError EncryptedLogSink := do
  let headerPhysLen ← readSinkHeaderLen backing
  let headerLen ← parseAndVerifySinkHeader (backing.sink.readBounded 0 headerPhysLen) keyring
  let base := max headerPhysLen backing.sink.reclaimedFloor
  let header :=
    if headerPhysLen < base then (readHeaderFrame keyring.cipher backing headerPhysLen).toList
    else []
  let physical := backing.sink.durable.drop base
  let (frames, logicalDurableLen) ← scanFrames keyring.cipher physical base (physical.length + 1) 0
    header ((header.getLast?.map FrameLoc.logicalEnd).getD 0)
  .ok { backing, frames, logicalDurableLen, headerPhysLen := headerLen
        consumed := (frames.getLast?.map FrameLoc.writeCount).getD 0 }

variable (s : EncryptedLogSink)

def append (bytes : Bytes) : EncryptedLogSink :=
  { s with pending := s.pending ++ bytes }

/-- Seal what is pending into one frame and sync the backing sink, which answers `ok`. -/
def sync (cipher : Aead) (s : EncryptedLogSink) (nonce : Bytes) (ok : Bool) :
    EncryptedLogSink × Except SinkError Unit :=
  if s.pending = [] then
    let (backing, synced) := s.backing.sync ok
    ({ s with backing }, if synced then .ok () else .error .backingSync)
  else if maxWritesPerSubkey ≤ s.consumed then (s, .error .budgetExhausted)
  else
    let writeCount := s.consumed + 1
    let frame := sealFrame cipher nonce s.logicalDurableLen writeCount s.pending
    let (backing, synced) := (s.backing.append frame).sync ok
    if synced then
      ({ s with
          backing
          pending := []
          consumed := writeCount
          frames := s.frames ++ [{
            logicalOffset := s.logicalDurableLen
            logicalLen := s.pending.length
            physOffset := s.backing.sink.bufferedLen
            physLen := frame.length
            writeCount }]
          logicalDurableLen := s.logicalDurableLen + s.pending.length }, .ok ())
    else ({ s with backing, pending := [], consumed := writeCount }, .error .backingSync)

def durableLen : Nat := s.logicalDurableLen

def bufferedLen : Nat := s.logicalDurableLen + s.pending.length

def retainedBase : Nat := max s.headerPhysLen s.backing.sink.reclaimedFloor

/-- The bytes of a frame. `physical` are the bytes of the backing sink from `base` on; a frame below
it is read on its own. -/
def frameBytesAt (physical : Bytes) (base : Nat) (loc : FrameLoc) :
    Except SinkError Bytes :=
  if base ≤ loc.physOffset then
    let start := loc.physOffset - base
    if physical.length < start + loc.physLen then .error .frameTruncated
    else .ok ((physical.take (start + loc.physLen)).drop start)
  else
    let buf := s.backing.sink.readBounded loc.physOffset (loc.physOffset + loc.physLen)
    if buf.length < loc.physLen then .error .frameTruncated else .ok buf

/-- The plaintext of a frame. -/
def decryptFrameAt (cipher : Aead) (s : EncryptedLogSink) (physical : Bytes) (base : Nat)
    (loc : FrameLoc) : Except SinkError Bytes := do
  let frame ← s.frameBytesAt physical base loc
  let nonce := (frame.drop frOffNonce).take nonceLen
  match cipher.decrypt nonce (frameAad loc.logicalOffset loc.writeCount)
      (frame.drop frOffCiphertext) with
  | none => .error .frameRejected
  | some plaintext =>
    if plaintext.length ≠ loc.logicalLen then .error (.frameLength plaintext.length loc.logicalLen)
    else .ok plaintext

def readDurable (cipher : Aead) (s : EncryptedLogSink) (start : Nat) :
    Except SinkError Bytes :=
  if s.logicalDurableLen ≤ start then .ok []
  else
    let base := s.retainedBase
    let physical := s.backing.sink.durable.drop base
    s.frames.foldlM (fun into loc =>
      if loc.logicalEnd ≤ start then .ok into
      else do
        let plaintext ← s.decryptFrameAt cipher physical base loc
        let skip := start - loc.logicalOffset
        if plaintext.length ≤ skip then .ok into
        else .ok (Bytes.place into (loc.logicalOffset + skip - start) (plaintext.drop skip)))
      (List.replicate (s.logicalDurableLen - start) 0)

/-- The extent with one more frame, if the frame ends behind `start` and is not below the retained
base. -/
def widen (start : Nat) (extent : Nat × Nat) (loc : FrameLoc) : Nat × Nat :=
  if loc.logicalEnd ≤ start then extent
  else if s.retainedBase ≤ loc.physOffset then
    (min extent.1 loc.physOffset, max extent.2 (loc.physOffset + loc.physLen))
  else extent

/-- The physical extent of the frames at or above the retained base that overlap the range. -/
def physicalExtent (start stop : Nat) : Nat × Nat :=
  (s.frames.takeWhile fun loc => loc.logicalOffset < stop).foldl (s.widen start) (2 ^ 64 - 1, 0)

def readBounded (cipher : Aead) (s : EncryptedLogSink) (start stop : Nat) :
    Except SinkError Bytes :=
  let stop := min stop s.logicalDurableLen
  if stop ≤ start then .ok []
  else
    let (lo, hi) := s.physicalExtent start stop
    let (physical, base) :=
      if lo < hi then (s.backing.sink.readBounded lo hi, lo) else ([], s.retainedBase)
    (s.frames.takeWhile fun loc => loc.logicalOffset < stop).foldlM (fun into loc =>
      let frameEnd := min loc.logicalEnd stop
      if frameEnd ≤ start then .ok into
      else do
        let plaintext ← s.decryptFrameAt cipher physical base loc
        let skip := start - loc.logicalOffset
        let taken := frameEnd - max loc.logicalOffset start
        if plaintext.length ≤ skip then .ok into
        else .ok (Bytes.place into (loc.logicalOffset + skip - start)
          ((plaintext.drop skip).take taken)))
      (List.replicate (stop - start) 0)

/-- Drop the frames wholly in `[start, stop)` behind the protected ones. `freed` is what the backing
sink frees of them. -/
def reclaim (s : EncryptedLogSink) (start stop : Nat) (freed : Option Nat) :
    Option EncryptedLogSink :=
  if s.frames.length ≤ 1 then some s
  else
    let kept := s.frames.takeWhile fun loc => loc.logicalOffset < start
    let rest := s.frames.drop kept.length
    -- the last frame is never reclaimed
    let cut := rest.dropLast.takeWhile fun loc => loc.logicalEnd ≤ stop
    let survivors := rest.drop cut.length
    match cut, survivors with
    | first :: _, next :: _ => do
      let backing ← s.backing.reclaim (max first.physOffset s.headerPhysLen) next.physOffset freed
      some { s with backing, frames := kept ++ survivors }
    | _, _ => some s

def reclaimedFloor : Nat :=
  match s.frames with
  | header :: next :: _ => if header.logicalEnd < next.logicalOffset then next.logicalOffset else 0
  | _ => 0

end EncryptedLogSink

end Graphus
