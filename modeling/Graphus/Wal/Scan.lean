import Mathlib.Tactic.Ring
import Graphus.Wal.Sink

/-!
# Scanning the log

The forward scan of `graphus-wal/src/recovery.rs`. The log is read in windows; a record that does
not fit its window is read again from its own start, in a larger window if it is the first one
there. Where no record decodes, the probe looks for a record further on that carries its own offset
as LSN: there is none after a torn tail, and one after interior corruption.

The scan of a log does not depend on the windows. `Scans bytes off rs stop` says that the records
`rs` stand one after the other from `off` to `stop`; `scanForward_eq` reads the windowed scan off
it.
-/

namespace Graphus

open List LogRecord LogSink
open LogRecord (decode)

/-- `RECOVERY_WINDOW_BYTES` -/
def recoveryWindowBytes : Nat := 4 * 1024 * 1024

/-- How a forward scan ended. -/
inductive ScanOutcome where
  | complete
  | tornTail
  | interiorCorruption (offset next : Nat)
  deriving DecidableEq

/-- `win.checked_mul(2)` -/
def doubled (win : Nat) (e : WalError) : Except WalError Nat :=
  if win * 2 < 2 ^ 64 then .ok (win * 2) else .error e

namespace LogSink

/-- Fuel for every iteration of a windowed loop over `len` bytes: each one moves on by a byte or
more, or enlarges the window. -/
def fuelFor (len : Nat) : Nat := (len + 1) * (len + 2)

/-- Does a record decode at `off`? -/
def recordDecodesAt (s : LogSink) (off durableLen : Nat) : Nat → Nat → Except WalError Bool
  | 0, _ => .error .outOfFuel
  | fuel + 1, win =>
    let winEnd := min (off + win) durableLen
    match decode (s.readBounded off winEnd) with
    | .ok _ => .ok true
    | .error .incomplete =>
      if winEnd = durableLen then .ok false
      else do s.recordDecodesAt off durableLen fuel (← doubled win .firstRecordOverflow)
    | .error _ => .ok false

/-- The offset of the first record at or after `off`, past a reclaimed prefix of zeros. A record can
itself begin with a zero byte of its length, so a leading zero run is decoded first. -/
def findFirstRecordOffset (s : LogSink) (durableLen window : Nat) :
    Nat → Nat → Except WalError (Option Nat)
  | 0, _ => .error .outOfFuel
  | fuel + 1, off =>
    if durableLen ≤ off then .ok none
    else
      let winEnd := min (off + window) durableLen
      let buf := s.readBounded off winEnd
      match buf.findIdx? (· ≠ 0) with
      | none => s.findFirstRecordOffset durableLen window fuel winEnd
      | some 0 => .ok (some off)
      | some pos => do
        if ← s.recordDecodesAt off durableLen (fuelFor durableLen) window then .ok (some off)
        else .ok (some (off + pos))

/-- The records of one window from `pos` on; the last component says that the scan ends there. -/
def scanWindow {σ : Type} (onRecord : σ → LogRecord → σ) (lastWindow : Bool)
    (buf : Bytes) : Nat → Nat → σ → σ × Nat × Bool
  | 0, pos, st => (st, pos, true)
  | fuel + 1, pos, st =>
    if buf.length ≤ pos then (st, pos, false)
    else
      match decode (buf.drop pos) with
      | .ok (r, n) =>
        scanWindow onRecord lastWindow buf fuel (pos + n) (onRecord st r)
      | .error .incomplete => (st, pos, lastWindow)
      | .error _ => (st, pos, true)

/-- The offset of the first self-consistent record of one window from `pos` on, or where the probe
of the window stopped. -/
def probeWindow (winStart : Nat) (lastWindow : Bool) (buf : Bytes) : Nat → Nat → Nat ⊕ Nat
  | 0, pos => .inr pos
  | fuel + 1, pos =>
    if buf.length ≤ pos then .inr pos
    else
      match decode (buf.drop pos) with
      | .ok (r, _) =>
        if r.lsn = winStart + pos then .inl (winStart + pos)
        else probeWindow winStart lastWindow buf fuel (pos + 1)
      | .error .incomplete =>
        if lastWindow then probeWindow winStart lastWindow buf fuel (pos + 1) else .inr pos
      | .error _ => probeWindow winStart lastWindow buf fuel (pos + 1)

def scanForSelfConsistent (s : LogSink) (durableLen window : Nat) :
    Nat → Nat → Nat → Except WalError (Option Nat)
  | 0, _, _ => .error .outOfFuel
  | fuel + 1, winStart, win =>
    if durableLen ≤ winStart then .ok none
    else
      let winEnd := min (winStart + win) durableLen
      let buf := s.readBounded winStart winEnd
      let lastWindow := winEnd = durableLen
      match probeWindow winStart lastWindow buf (buf.length + 1) 0 with
      | .inl next => .ok (some next)
      | .inr pos =>
        if lastWindow then .ok none
        else if pos = 0 then do
          s.scanForSelfConsistent durableLen window fuel winStart (← doubled win .probeOverflow)
        else s.scanForSelfConsistent durableLen window fuel (winStart + pos) window

/-- A torn tail or interior corruption, at the first undecodable offset. -/
def decideTail (s : LogSink) (badAt durableLen window : Nat) (probe : Bool) :
    Except WalError ScanOutcome :=
  if !probe then .ok .tornTail
  else do
    match ← s.scanForSelfConsistent durableLen window (fuelFor durableLen) (badAt + 1) window with
    | some next => .ok (.interiorCorruption badAt next)
    | none => .ok .tornTail

/-- Call `onRecord` for every record from `off` on, in log order. (Its second argument in the
source, the offset, is used by no caller.) -/
def scanForward {σ : Type} (s : LogSink) (durableLen window : Nat) (probe : Bool)
    (onRecord : σ → LogRecord → σ) : Nat → Nat → Nat → σ → Except WalError (σ × ScanOutcome)
  | 0, _, _, _ => .error .outOfFuel
  | fuel + 1, off, win, st =>
    if durableLen ≤ off then .ok (st, .complete)
    else
      let winEnd := min (off + win) durableLen
      let buf := s.readBounded off winEnd
      let lastWindow := winEnd = durableLen
      match scanWindow onRecord lastWindow buf (buf.length + 1) 0 st with
      | (st, pos, true) => do
        let outcome ← s.decideTail (off + pos) durableLen window probe
        .ok (st, outcome)
      | (st, pos, false) =>
        if pos = 0 ∧ ¬ lastWindow then do
          s.scanForward durableLen window probe onRecord fuel off (← doubled win .scanOverflow) st
        else s.scanForward durableLen window probe onRecord fuel (off + pos) window st

/-- The one record at `lsn`. -/
def readRecordAt (s : LogSink) (lsn : Nat) : Except WalError LogRecord :=
  let hdr := s.readBounded lsn (lsn + 4)
  if hdr.length < 4 then .error (.undoTruncated lsn)
  else
    match decode (s.readBounded lsn (lsn + Bytes.toNat hdr)) with
    | .ok (r, _) => .ok r
    | .error e => .error (.undoUndecodable lsn e)

end LogSink

/-! ## What the bytes say -/

/-- The records `rs` stand one after the other from `off` to `stop`. -/
inductive Scans (bytes : Bytes) : Nat → Log → Nat → Prop
  | nil (off : Nat) : Scans bytes off [] off
  | cons {off n stop : Nat} {r : LogRecord} {rs : Log}
      (h : decode (bytes.drop off) = .ok (r, n)) (tail : Scans bytes (off + n) rs stop) :
      Scans bytes off (r :: rs) stop

/-- No record decodes at `off`. -/
def Ends (bytes : Bytes) (off : Nat) : Prop :=
  ∃ e, decode (bytes.drop off) = .error e

instance (bytes : Bytes) (off : Nat) : Decidable (Ends bytes off) :=
  match h : decode (bytes.drop off) with
  | .ok _ => isFalse fun ⟨_, he⟩ => by cases h.symm.trans he
  | .error e => isTrue ⟨e, h⟩

/-- A record at `off` carries its own offset. -/
def SelfConsistentAt (bytes : Bytes) (off : Nat) : Prop :=
  ∃ r n, decode (bytes.drop off) = .ok (r, n) ∧ r.lsn = off

lemma not_ends_of_decode {bytes : Bytes} {p : Nat} {rn : LogRecord × Nat}
    (h : decode (bytes.drop p) = .ok rn) : ¬ Ends bytes p := by
  rintro ⟨e, he⟩
  cases h.symm.trans he

lemma Ends.not_selfConsistentAt {bytes : Bytes} {p : Nat} (h : Ends bytes p) :
    ¬ SelfConsistentAt bytes p := by
  rintro ⟨r, n, hdec, -⟩
  exact not_ends_of_decode hdec h

section Scan

variable {bytes : Bytes} {off pos winEnd stop n : Nat} {r : LogRecord} {rs : Log}
  {σ : Type} {onRecord : σ → LogRecord → σ} {window win fuel : Nat} {probe : Bool} {s : LogSink}

lemma decode_pos (h : decode bytes = .ok (r, n)) : 0 < n := by
  rw [(decode_ok h).1, encodedLen]
  omega

lemma length_readBounded (hend : winEnd ≤ s.durable.length) :
    (s.readBounded off winEnd).length = winEnd - off := by
  rw [readBounded, length_drop, length_take, min_eq_left hend]

/-- Decoding in a window gives what decoding in the log gives, or an incomplete record where the
window is not the last one. -/
lemma decode_window (s : LogSink) (off winEnd pos : Nat) :
    decode ((s.readBounded off winEnd).drop pos) = decode (s.durable.drop (off + pos)) ∨
      (winEnd ≠ s.durable.length ∧ decode ((s.readBounded off winEnd).drop pos) =
        .error .incomplete) := by
  rw [readBounded, drop_drop]
  by_cases hlast : winEnd = s.durable.length
  · rw [hlast, take_length]
    exact .inl rfl
  rw [drop_take]
  rcases decode_take (s.durable.drop (off + pos)) (winEnd - (off + pos)) with h | h
  · exact .inr ⟨hlast, h⟩
  · exact .inl h

/-- The scan of a window goes over some of the records that follow. It ends the whole scan only
behind the last one, and stops early only in a window that is not the last. -/
lemma scanWindow_spec (onRecord : σ → LogRecord → σ) (st : σ)
    (hscan : Scans s.durable (off + pos) rs stop) (hstop : Ends s.durable stop)
    (hend : winEnd ≤ s.durable.length) (hpos : off + pos ≤ winEnd)
    (hfuel : winEnd - (off + pos) < fuel) :
    ∃ rs1 rs2 pos' bad, rs = rs1 ++ rs2 ∧ off + pos' ≤ winEnd ∧
      LogSink.scanWindow onRecord (winEnd = s.durable.length)
        (s.readBounded off winEnd) fuel pos st = (rs1.foldl onRecord st, pos', bad) ∧
      Scans s.durable (off + pos') rs2 stop ∧
      (bad = true → off + pos' = stop ∧ rs2 = [] ∧ off + pos' < s.durable.length) ∧
      (bad = false → winEnd = s.durable.length → off + pos' = winEnd) := by
  induction fuel generalizing pos rs st with
  | zero => exact absurd hfuel (Nat.not_lt_zero _)
  | succ fuel ih =>
    have hlen : (s.readBounded off winEnd).length = winEnd - off := length_readBounded hend
    unfold scanWindow
    by_cases hdone : (s.readBounded off winEnd).length ≤ pos
    · refine ⟨[], rs, pos, false, rfl, hpos, by rw [if_pos hdone]; rfl, hscan, nofun, fun _ _ => ?_⟩
      omega
    · rw [if_neg hdone]
      rcases decode_window s off winEnd pos with hdec | ⟨hlast, hdec⟩
      · rw [hdec]
        cases hscan with
        | nil =>
          obtain ⟨e, he⟩ := hstop
          rw [he]
          -- nothing decodes here: an incomplete record ends the scan only in the last window
          cases e with
          | incomplete =>
            refine ⟨[], [], pos, winEnd = s.durable.length, rfl, hpos, rfl, .nil _,
              fun _ => ⟨rfl, rfl, by omega⟩, fun hbad heq => ?_⟩
            simp [heq] at hbad
          | corrupt | badCrc =>
            exact ⟨[], [], pos, true, rfl, hpos, rfl, .nil _, fun _ => ⟨rfl, rfl, by omega⟩, nofun⟩
        | @cons _ n _ r rs h tail =>
          rw [h]
          rw [h] at hdec
          have hn := decode_pos h
          have hle := (decode_ok hdec).2
          rw [length_drop] at hle
          have htail : Scans s.durable (off + (pos + n)) rs stop := Nat.add_assoc off pos n ▸ tail
          obtain ⟨rs1, rs2, pos', bad, hrs, hwin, hrun, hscan', hbad, hgood⟩ :=
            ih (onRecord st r) htail (by omega) (by omega)
          exact ⟨r :: rs1, rs2, pos', bad, by rw [hrs]; rfl, hwin, hrun, hscan', hbad, hgood⟩
      · rw [hdec]
        refine ⟨[], rs, pos, winEnd = s.durable.length, rfl, hpos, rfl, hscan,
          fun hbad => ?_, fun _ heq => absurd heq hlast⟩
        simp [hlast] at hbad

lemma doubled_eq {e : WalError} (h : win < 2 ^ 63) : doubled win e = .ok (win * 2) := by
  rw [doubled, if_pos (by omega)]

lemma doubled_overflow {e : WalError} (h : ¬ win < 2 ^ 63) : doubled win e = .error e := by
  rw [doubled, if_neg (by omega)]

section

variable (st : σ) (hscan : Scans s.durable off rs stop) (hstop : Ends s.durable stop)

include st hscan hstop

/-- The forward scan goes over the records that stand in the log and then decides on the tail,
whatever the windows; a log of `2^63` bytes or more may need a window that is too large. -/
lemma scanForward_cases (hoff : off ≤ s.durable.length) (hwindow : 0 < window)
    (hwin : 0 < win)
    (hfuel : (s.durable.length - off) * (s.durable.length + 1) + (s.durable.length - win) < fuel) :
    (s.scanForward s.durable.length window probe onRecord fuel off win st = .error .scanOverflow ∧
      2 ^ 63 ≤ s.durable.length) ∨
    s.scanForward s.durable.length window probe onRecord fuel off win st =
      if s.durable.length ≤ stop then .ok (rs.foldl onRecord st, .complete)
      else (s.decideTail stop s.durable.length window probe).map (rs.foldl onRecord st, ·) := by
  induction fuel generalizing off win rs st with
  | zero => exact absurd hfuel (Nat.not_lt_zero _)
  | succ fuel ih =>
    set len := s.durable.length with hlendef
    unfold scanForward
    by_cases hdone : len ≤ off
    · have hdrop : s.durable.drop off = [] := drop_eq_nil_of_le hdone
      cases hscan with
      | nil =>
        right
        rw [if_pos hdone, if_pos hdone]
        rfl
      | cons h tail =>
        rw [hdrop] at h
        cases h
    · set winEnd := min (off + win) len with hwinEnd
      have hend : winEnd ≤ len := min_le_right ..
      have hbuf : (s.readBounded off winEnd).length = winEnd - off := length_readBounded hend
      obtain ⟨rs1, rs2, pos, bad, hrs, hpos, hrun, hscan', hbad, hgood⟩ :=
        scanWindow_spec onRecord st hscan hstop hend (by omega)
          (show winEnd - (off + 0) < (s.readBounded off winEnd).length + 1 by omega)
      rw [if_neg hdone]
      dsimp only
      rw [hrun, hrs, foldl_append]
      cases bad with
      | true =>
        obtain ⟨hstop', rfl, hlt⟩ := hbad rfl
        right
        dsimp only
        rw [if_neg (by omega), hstop']
        cases s.decideTail stop len window probe <;> rfl
      | false =>
        dsimp only
        by_cases hgrow : pos = 0 ∧ ¬ winEnd = len
        · rw [if_pos hgrow]
          by_cases hfits : win < 2 ^ 63
          · rw [doubled_eq hfits]
            rw [hgrow.1] at hscan'
            exact ih _ hscan' hoff (by omega) (by omega)
          · rw [doubled_overflow hfits]
            exact .inl ⟨rfl, by omega⟩
        · have hadvance : 0 < pos := by
            by_contra hzero
            have hlast : winEnd = len := by
              by_contra hne
              exact hgrow ⟨by omega, hne⟩
            have := hgood rfl hlast
            omega
          rw [if_neg hgrow]
          refine ih _ hscan' (by omega) hwindow ?_
          have hmul : (len - (off + pos)) * (len + 1) + (len + 1) ≤ (len - off) * (len + 1) := by
            rw [← Nat.succ_mul]
            exact Nat.mul_le_mul_right _ (by omega)
          omega

/-- **The forward scan** goes over the records that stand in the log and then decides on the
tail. -/
lemma scanForward_eq (hoff : off ≤ s.durable.length) (hlen : s.durable.length < 2 ^ 63)
    (hwindow : 0 < window) (hwin : 0 < win)
    (hfuel : (s.durable.length - off) * (s.durable.length + 1) + (s.durable.length - win) < fuel) :
    s.scanForward s.durable.length window probe onRecord fuel off win st =
      if s.durable.length ≤ stop then .ok (rs.foldl onRecord st, .complete)
      else (s.decideTail stop s.durable.length window probe).map (rs.foldl onRecord st, ·) :=
  (scanForward_cases st hscan hstop hoff hwindow hwin hfuel).resolve_left fun h =>
    absurd hlen (not_lt.2 h.2)

end

/-! ### The probe -/

/-- What the probe of a window from `pos` on means: a self-consistent record, or that there is none
before the position it stopped at. In the last window it stops at the end only. -/
def ProbeMeans (bytes : Bytes) (off winEnd pos : Nat) : Nat ⊕ Nat → Prop
  | .inl next => off + pos ≤ next ∧ SelfConsistentAt bytes next
  | .inr pos' => pos ≤ pos' ∧ off + pos' ≤ winEnd ∧
      (∀ p, off + pos ≤ p → p < off + pos' → ¬ SelfConsistentAt bytes p) ∧
      (winEnd = bytes.length → off + pos' = winEnd)

lemma ProbeMeans.here (hpos : off + pos ≤ winEnd) (hlast : winEnd ≠ bytes.length) :
    ProbeMeans bytes off winEnd pos (.inr pos) :=
  ⟨le_rfl, hpos, fun _ h1 h2 => absurd h2 (not_lt.2 h1), fun h => absurd h hlast⟩

/-- Going on to the next position, when no self-consistent record is at this one. -/
lemma ProbeMeans.next {answer : Nat ⊕ Nat} (hnot : ¬ SelfConsistentAt bytes (off + pos))
    (h : ProbeMeans bytes off winEnd (pos + 1) answer) :
    ProbeMeans bytes off winEnd pos answer := by
  cases answer with
  | inl next => exact ⟨le_trans (by omega) h.1, h.2⟩
  | inr pos' =>
    obtain ⟨hle, hwin, hnone, hlast⟩ := h
    refine ⟨by omega, hwin, fun p h1 h2 => ?_, hlast⟩
    by_cases heq : p = off + pos
    · exact heq ▸ hnot
    · exact hnone p (by omega) h2

lemma probeWindow_spec (hend : winEnd ≤ s.durable.length) (hpos : off + pos ≤ winEnd)
    (hfuel : winEnd - (off + pos) < fuel) :
    ProbeMeans s.durable off winEnd pos
      (LogSink.probeWindow off (winEnd = s.durable.length)
        (s.readBounded off winEnd) fuel pos) := by
  induction fuel generalizing pos with
  | zero => exact absurd hfuel (Nat.not_lt_zero _)
  | succ fuel ih =>
    have hlen : (s.readBounded off winEnd).length = winEnd - off := length_readBounded hend
    unfold probeWindow
    by_cases hdone : (s.readBounded off winEnd).length ≤ pos
    · rw [if_pos hdone]
      exact ⟨le_rfl, hpos, fun _ h1 h2 => absurd h2 (not_lt.2 h1), fun _ => by omega⟩
    rw [if_neg hdone]
    have hlt : off + (pos + 1) ≤ winEnd := by
      omega
    have ih := ih hlt (by omega)
    rcases decode_window s off winEnd pos with hdec | ⟨hlast, hdec⟩
    · rw [hdec]
      cases hres : decode (s.durable.drop (off + pos)) with
      | ok rn =>
        obtain ⟨r, n⟩ := rn
        dsimp only
        split
        · exact ⟨le_rfl, r, n, hres, ‹_›⟩
        refine ih.next ?_
        rintro ⟨r', n', h', hlsn⟩
        cases hres.symm.trans h'
        exact absurd hlsn ‹_›
      | error e =>
        have hnot : ¬ SelfConsistentAt s.durable (off + pos) := by
          rintro ⟨r', n', h', -⟩
          cases hres.symm.trans h'
        cases e with
        | incomplete =>
          dsimp only
          split
          · exact ih.next hnot
          · rename_i hwend
            exact ProbeMeans.here hpos (of_decide_eq_false (Bool.eq_false_iff.2 hwend))
        | corrupt => exact ih.next hnot
        | badCrc => exact ih.next hnot
    · rw [hdec]
      simp only [hlast]
      exact ProbeMeans.here hpos hlast

/-- **The probe** answers whether a self-consistent record follows, whatever the windows; in a log
of `2^63` bytes or more it may need a window that is too large. -/
lemma scanForSelfConsistent_cases (hwindow : 0 < window) (hwin : 0 < win)
    (hfuel : (s.durable.length - off) * (s.durable.length + 1) + (s.durable.length - win) < fuel) :
    (s.scanForSelfConsistent s.durable.length window fuel off win = .error .probeOverflow ∧
      2 ^ 63 ≤ s.durable.length) ∨
    (∃ next, s.scanForSelfConsistent s.durable.length window fuel off win = .ok (some next) ∧
        off ≤ next ∧ SelfConsistentAt s.durable next) ∨
      (s.scanForSelfConsistent s.durable.length window fuel off win = .ok none ∧
        ∀ p, off ≤ p → ¬ SelfConsistentAt s.durable p) := by
  induction fuel generalizing off win with
  | zero => exact absurd hfuel (Nat.not_lt_zero _)
  | succ fuel ih =>
    set len := s.durable.length with hlendef
    have hbeyond : ∀ p, len ≤ p → ¬ SelfConsistentAt s.durable p := by
      rintro p hp ⟨r, n, h, -⟩
      rw [drop_eq_nil_of_le hp] at h
      cases h
    unfold scanForSelfConsistent
    by_cases hdone : len ≤ off
    · exact .inr (.inr ⟨by rw [if_pos hdone], fun p hp => hbeyond p (le_trans hdone hp)⟩)
    set winEnd := min (off + win) len with hwinEnd
    have hend : winEnd ≤ len := min_le_right ..
    have hbuf : (s.readBounded off winEnd).length = winEnd - off := length_readBounded hend
    rw [if_neg hdone]
    dsimp only
    have hprobe := probeWindow_spec hend (show off + 0 ≤ winEnd by omega)
      (show winEnd - (off + 0) < (s.readBounded off winEnd).length + 1 by omega)
    cases hrun : probeWindow off (winEnd = len) (s.readBounded off winEnd)
        ((s.readBounded off winEnd).length + 1) 0 with
    | inl next =>
      rw [hrun] at hprobe
      exact .inr (.inl ⟨next, rfl, hprobe⟩)
    | inr pos =>
      rw [hrun] at hprobe
      obtain ⟨-, hpos, hnone, hlast⟩ := hprobe
      dsimp only
      by_cases hwend : winEnd = len
      · rw [if_pos hwend]
        refine .inr (.inr ⟨rfl, fun p hp => ?_⟩)
        by_cases hin : p < len
        · exact hnone p hp (by rw [hlast hwend]; omega)
        · exact hbeyond p (not_lt.1 hin)
      · rw [if_neg hwend]
        by_cases hzero : pos = 0
        · rw [if_pos hzero]
          by_cases hfits : win < 2 ^ 63
          · rw [doubled_eq hfits]
            exact ih (by omega) (by omega)
          · rw [doubled_overflow hfits]
            exact .inl ⟨rfl, by omega⟩
        · rw [if_neg hzero]
          have hmul : (len - (off + pos)) * (len + 1) + (len + 1) ≤ (len - off) * (len + 1) := by
            rw [← Nat.succ_mul]
            exact Nat.mul_le_mul_right _ (by omega)
          have hless : (len - (off + pos)) * (len + 1) + (len - window) < fuel := by omega
          rcases ih hwindow hless with hover | ⟨next, h, hle, hsc⟩ | ⟨h, hnone'⟩
          · exact .inl hover
          · exact .inr (.inl ⟨next, h, by omega, hsc⟩)
          · refine .inr (.inr ⟨h, fun p hp => ?_⟩)
            by_cases hin : p < off + pos
            · exact hnone p hp hin
            · exact hnone' p (not_lt.1 hin)

lemma fuelFor_enough (len off win : Nat) :
    (len - off) * (len + 1) + (len - win) < LogSink.fuelFor len := by
  have h1 : (len - off) * (len + 1) ≤ len * (len + 1) := Nat.mul_le_mul_right _ (Nat.sub_le ..)
  have h2 : fuelFor len = len * (len + 1) + len + (len + 2) := by
    unfold fuelFor
    ring
  omega

lemma fuelFor_probe (len win : Nat) : len - win < LogSink.fuelFor len :=
  lt_of_le_of_lt (Nat.le_add_left _ _) (fuelFor_enough len 0 win)

lemma decideTail_tornTail (hlen : s.durable.length < 2 ^ 63) (hwindow : 0 < window) {badAt : Nat}
    (hnone : ∀ p, badAt < p → ¬ SelfConsistentAt s.durable p) :
    s.decideTail badAt s.durable.length window probe = .ok .tornTail := by
  unfold decideTail
  cases probe with
  | false => rfl
  | true =>
    rcases scanForSelfConsistent_cases (s := s) hwindow hwindow
      (fuelFor_enough _ (badAt + 1) window) with ⟨-, hover⟩ | ⟨next, -, hle, hsc⟩ | ⟨h, -⟩
    · omega
    · exact absurd hsc (hnone next hle)
    · rw [h]
      rfl

lemma decideTail_interior (hlen : s.durable.length < 2 ^ 63) (hwindow : 0 < window)
    {badAt p : Nat} (hp : badAt < p) (hsc : SelfConsistentAt s.durable p) :
    ∃ next, s.decideTail badAt s.durable.length window true =
    .ok (.interiorCorruption badAt next) := by
  unfold decideTail
  rcases scanForSelfConsistent_cases (s := s) hwindow hwindow
    (fuelFor_enough _ (badAt + 1) window) with ⟨-, hover⟩ | ⟨next, h, -⟩ | ⟨-, hnone⟩
  · omega
  · rw [h]
    exact ⟨next, rfl⟩
  · exact absurd hsc (hnone p hp)

/-! ### The first record -/

lemma recordDecodesAt_spec (hlen : s.durable.length < 2 ^ 63) (hwin : 0 < win)
    (hoff : off < s.durable.length) (hfuel : s.durable.length - win < fuel) :
    ∃ b, s.recordDecodesAt off s.durable.length fuel win = .ok b ∧
      (b = true ↔ ∃ rn, decode (s.durable.drop off) = .ok rn) := by
  induction fuel generalizing win with
  | zero => exact absurd hfuel (Nat.not_lt_zero _)
  | succ fuel ih =>
    set len := s.durable.length with hlendef
    set winEnd := min (off + win) len with hwinEnd
    unfold recordDecodesAt
    have hwindow := decode_window s off winEnd 0
    rw [drop_zero] at hwindow
    dsimp only
    rcases hwindow with hdec | ⟨hlast, hdec⟩
    · rw [hdec]
      cases hres : decode (s.durable.drop off) with
      | ok rn => exact ⟨true, rfl, fun _ => ⟨rn, rfl⟩, fun _ => rfl⟩
      | error e =>
        cases e with
        | incomplete =>
          by_cases hlast : winEnd = len
          · exact ⟨false, by rw [if_pos hlast], nofun, nofun⟩
          rw [if_neg hlast, doubled_eq (by omega)]
          obtain ⟨b, hb, hiff⟩ := ih (show 0 < win * 2 by omega) (by omega)
          rw [hres] at hiff
          exact ⟨b, hb, hiff⟩
        | corrupt | badCrc => exact ⟨false, rfl, nofun, nofun⟩
    · rw [hdec]
      rw [if_neg hlast, doubled_eq (by omega)]
      exact ih (by omega) (by omega)

/-- A record does not begin with four zero bytes. -/
lemma exists_ne_zero_of_decode (h : decode bytes = .ok (r, n)) :
    ∃ i < 4, ∃ b, bytes[i]? = some b ∧ b ≠ 0 := by
  by_contra! hnone
  have hzero : ∀ b ∈ bytes.take 4, b = 0 := by
    intro b hb
    obtain ⟨i, hi⟩ := mem_iff_getElem?.1 hb
    rw [getElem?_take] at hi
    split at hi
    · exact hnone i ‹_› b hi
    · cases hi
  have htotal : Bytes.field bytes 0 4 = 0 := by
    rw [Bytes.field, drop_zero]
    generalize bytes.take 4 = bs at hzero
    induction bs with
    | nil => rfl
    | cons b bs ih =>
      rw [Bytes.toNat, hzero b mem_cons_self, ih fun b hb => hzero b (mem_cons_of_mem _ hb)]
      rfl
  unfold decode at h
  split at h
  · cases h
  · rw [htotal] at h
    cases h

lemma getElem?_readBounded {start stop q : Nat} (hq : start + q < stop) :
    (s.readBounded start stop)[q]? = s.durable[start + q]? := by
  rw [readBounded, getElem?_drop, getElem?_take_of_lt hq]

/-- `p` is the offset of the first byte other than zero from `off` on. -/
structure FirstByte (bytes : Bytes) (off p : Nat) : Prop where
  le : off ≤ p
  byte : ∃ b, bytes[p]? = some b ∧ b ≠ 0
  first : ∀ q b, off ≤ q → bytes[q]? = some b → b ≠ 0 → p ≤ q

lemma FirstByte.lt_length {p : Nat} (h : FirstByte bytes off p) : p < bytes.length := by
  obtain ⟨b, hb, -⟩ := h.byte
  exact (List.getElem?_eq_some_iff.1 hb).1

/-- Where the first byte other than zero of a window is. -/
lemma findIdx?_readBounded (start : Nat) {stop : Nat} (hstop : stop ≤ s.durable.length) :
    match (s.readBounded start stop).findIdx? (· ≠ 0) with
    | none => ∀ q b, start ≤ q → s.durable[q]? = some b → b ≠ 0 → stop ≤ q
    | some pos => start + pos < stop ∧ FirstByte s.durable start (start + pos) := by
  -- a byte before `stop` is one of the window
  have hwindow : ∀ q b, start ≤ q → q < stop → s.durable[q]? = some b →
      (s.readBounded start stop)[q - start]? = some b := by
    intro q b hge hlt hb
    rw [getElem?_readBounded (by omega), Nat.add_sub_cancel' hge, hb]
  cases hidx : (s.readBounded start stop).findIdx? (· ≠ 0) with
  | none =>
    intro q b hge hb hne
    by_contra hlt
    have hmem := mem_of_getElem? (hwindow q b hge (not_le.1 hlt) hb)
    have hzero := findIdx?_eq_none_iff.1 hidx b hmem
    simp [hne] at hzero
  | some pos =>
    obtain ⟨hpos, hnz, hbefore⟩ := findIdx?_eq_some_iff_getElem.1 hidx
    have hlt : start + pos < stop := by
      rw [length_readBounded hstop] at hpos
      omega
    refine ⟨hlt, Nat.le_add_right .., ⟨_, ?_, of_decide_eq_true hnz⟩, fun q b hge hb hne => ?_⟩
    · rw [← getElem?_readBounded hlt]
      exact getElem?_eq_getElem hpos
    by_contra hq
    obtain ⟨_, hbyte⟩ := List.getElem?_eq_some_iff.1 (hwindow q b hge (by omega) hb)
    have hzero := hbefore (q - start) (by omega)
    rw [hbyte] at hzero
    simp [hne] at hzero

/-- What the search answers when the first byte other than zero is at `p`: the start of the window
that byte is in, if a record decodes there, and the byte itself otherwise. -/
def firstRecord (bytes : Bytes) (off window p : Nat) : Nat :=
  if Ends bytes (off + (p - off) / window * window) then p else off + (p - off) / window * window

lemma FirstByte.firstRecord_le {p : Nat} (h : FirstByte bytes off p) (window : Nat) :
    off ≤ firstRecord bytes off window p ∧ firstRecord bytes off window p ≤ p := by
  have hle := h.le
  have hstart := Nat.div_mul_le_self (p - off) window
  unfold firstRecord
  split <;> omega

/-- **The search for the first record** finds nothing in a log of zeros, and answers by the first
byte that is not zero otherwise. -/
lemma findFirstRecordOffset_cases (hlen : s.durable.length < 2 ^ 63) (hwindow : 0 < window)
    (hfuel : s.durable.length - off < fuel) :
    (s.findFirstRecordOffset s.durable.length window fuel off = .ok none ∧
      ∀ q b, off ≤ q → s.durable[q]? = some b → b = 0) ∨
    ∃ p, FirstByte s.durable off p ∧ s.findFirstRecordOffset s.durable.length window fuel off =
      .ok (some (firstRecord s.durable off window p)) := by
  induction fuel generalizing off with
  | zero => exact absurd hfuel (Nat.not_lt_zero _)
  | succ fuel ih =>
    unfold findFirstRecordOffset
    by_cases hdone : s.durable.length ≤ off
    · refine .inl ⟨if_pos hdone, fun q b hq hb => ?_⟩
      rw [getElem?_eq_none (by omega)] at hb
      cases hb
    set winEnd := min (off + window) s.durable.length with hwinEnd
    have hbytes := findIdx?_readBounded off (show winEnd ≤ s.durable.length by omega)
    rw [if_neg hdone]
    dsimp only
    cases hidx : (s.readBounded off winEnd).findIdx? (· ≠ 0) with
    | none =>
      rw [hidx] at hbytes
      rcases ih (show s.durable.length - winEnd < fuel by omega) with
        ⟨hfind, hzero⟩ | ⟨p, hp, hfind⟩
      · refine .inl ⟨hfind, fun q b hq hb => not_not.1 fun hne => ?_⟩
        exact hne (hzero q b (hbytes q b hq hb hne) hb)
      have hpast := hp.le
      have hlt := hp.lt_length
      have hend : winEnd = off + window := by omega
      refine .inr ⟨p, ⟨by omega, hp.byte, fun q b hq hb hne =>
        hp.first q b (hbytes q b hq hb hne) hb hne⟩, ?_⟩
      -- the window that `p` is in is the same one, counted from the next window on
      have hstart : off + window + (p - (off + window)) / window * window = off +
        (p - off) / window * window := by
        rw [Nat.div_eq_sub_div hwindow (show window ≤ p - off by omega), Nat.add_mul, Nat.sub_sub]
        omega
      rw [firstRecord, ← hstart, ← hend]
      exact hfind
    | some pos =>
      rw [hidx] at hbytes
      obtain ⟨hpos, hbyte⟩ := hbytes
      have hzero : off + (off + pos - off) / window * window = off := by
        rw [Nat.div_eq_of_lt (by omega), Nat.zero_mul, Nat.add_zero]
      refine .inr ⟨off + pos, hbyte, ?_⟩
      rw [firstRecord, hzero]
      cases pos with
      | zero => exact congrArg (Except.ok ∘ some) (ite_self _).symm
      | succ pos =>
        obtain ⟨d, hd, hiff⟩ := recordDecodesAt_spec hlen hwindow (not_le.1 hdone)
          (fuelFor_probe _ window)
        rw [hd]
        cases d with
        | true =>
          obtain ⟨rn, hrn⟩ := hiff.1 rfl
          rw [if_neg (not_ends_of_decode hrn)]
          rfl
        | false =>
          rw [if_pos]
          · rfl
          cases hdec : decode (s.durable.drop off) with
          | error e => exact ⟨e, hdec⟩
          | ok rn => cases hiff.2 ⟨rn, hdec⟩

/-- **The first record** is found at its own offset, with or without a leading zero byte. -/
lemma findFirstRecordOffset_of_decode (hlen : s.durable.length < 2 ^ 63) (hwindow : 4 ≤ window)
    (hfuel : s.durable.length - off < fuel) (h : decode (s.durable.drop off) = .ok (r, n)) :
    s.findFirstRecordOffset s.durable.length window fuel off = .ok (some off) := by
  obtain ⟨i, hi, b, hb, hne⟩ := exists_ne_zero_of_decode h
  rw [getElem?_drop] at hb
  rcases findFirstRecordOffset_cases hlen (show 0 < window by omega) hfuel with
    ⟨-, hzero⟩ | ⟨p, hp, hfind⟩
  · exact absurd (hzero _ b (Nat.le_add_right ..) hb) hne
  · have hle := hp.first _ b (Nat.le_add_right ..) hb hne
    rw [hfind, firstRecord, Nat.div_eq_of_lt (show p - off < window by omega),
      Nat.zero_mul, Nat.add_zero, if_neg (not_ends_of_decode h)]

lemma FirstByte.found {p : Nat} (hp : FirstByte s.durable off p) (hlen : s.durable.length < 2 ^ 63)
    (hwindow : 0 < window) (hfuel : s.durable.length - off < fuel) :
    s.findFirstRecordOffset s.durable.length window fuel off =
    .ok (some (firstRecord s.durable off window p)) := by
  obtain ⟨b, hb, hne⟩ := hp.byte
  rcases findFirstRecordOffset_cases hlen hwindow hfuel with ⟨-, hzero⟩ | ⟨p', hp', hfind⟩
  · exact absurd (hzero p b hp.le hb) hne
  · obtain ⟨c, hc, hc0⟩ := hp'.byte
    rwa [Nat.le_antisymm (hp'.first p b hp.le hb hne) (hp.first p' c hp'.le hc hc0)] at hfind

/-- The zero bytes a record begins with: the low bytes of its length. -/
def LogRecord.leadingZeros (r : LogRecord) : Nat := r.encode.findIdx (· ≠ 0)

variable {rest : Bytes}

lemma firstByte_of_zeros (hr : r.Fits) {zeros : Nat}
    (hlog : s.durable.drop off = replicate zeros 0 ++ (r.encode ++ rest)) :
    FirstByte s.durable off (off + (zeros + r.leadingZeros)) := by
  obtain ⟨i, -, b, hb, hne⟩ := exists_ne_zero_of_decode (decode_encode hr [])
  rw [append_nil] at hb
  have hlt : r.leadingZeros < r.encode.length :=
    findIdx_lt_length_of_exists ⟨b, mem_of_getElem? hb, by simpa using hne⟩
  have hat : ∀ i, s.durable[off + i]? = if i <
    zeros then some 0 else (r.encode ++ rest)[i - zeros]? := by
    intro i
    rw [← getElem?_drop, hlog, getElem?_append, length_replicate, getElem?_replicate]
    split <;> rfl
  refine ⟨Nat.le_add_right .., ⟨r.encode[r.leadingZeros], ?_, ?_⟩, fun q c hq hc hc0 => ?_⟩
  · rw [hat, if_neg (by omega), Nat.add_sub_cancel_left, getElem?_append_left hlt,
      getElem?_eq_getElem hlt]
  · exact of_decide_eq_true (findIdx_getElem (w := hlt))
  obtain ⟨i, rfl⟩ := Nat.exists_eq_add_of_le hq
  by_contra hbefore
  rw [hat] at hc
  split at hc
  · exact hc0 (Option.some.inj hc).symm
  · have hi : i - zeros < r.leadingZeros := by omega
    rw [getElem?_append_left (by omega), getElem?_eq_getElem (by omega)] at hc
    have := not_of_lt_findIdx hi
    rw [Option.some.inj hc] at this
    simp [hc0] at this

/-- **The first record behind a reclaimed prefix** is found exactly when a window of the search
starts at it and reaches the first byte of it that is not zero, or when its first byte is not zero
and no record decodes where the window with that byte starts. -/
theorem first_record_found_iff (hlen : s.durable.length < 2 ^ 63)
    (hwindow : 0 < window) (hr : r.Fits)
    {zeros : Nat} (hlog : s.durable.drop off = replicate zeros 0 ++ (r.encode ++ rest)) :
    s.findFirstRecordOffset s.durable.length window (fuelFor s.durable.length) off =
      .ok (some (off + zeros)) ↔ (zeros + r.leadingZeros) / window * window = zeros ∨
      r.leadingZeros = 0 ∧ Ends s.durable (off + zeros / window * window) := by
  rw [(firstByte_of_zeros hr hlog).found hlen hwindow (fuelFor_probe ..), firstRecord,
    Nat.add_sub_cancel_left, Except.ok.injEq, Option.some.injEq]
  have hrec : ¬ Ends s.durable (off + zeros) :=
    not_ends_of_decode (by rw [← drop_drop, hlog, drop_left' length_replicate, decode_encode hr])
  by_cases hat : (zeros + r.leadingZeros) / window * window = zeros
  · rw [hat, if_neg hrec]
    simp
  · rw [or_iff_right hat]
    split
    · rename_i hends
      constructor
      · intro heq
        have hzero : r.leadingZeros = 0 := by omega
        rw [hzero] at hends
        exact ⟨hzero, hends⟩
      · rintro ⟨hzero, -⟩
        rw [hzero]
        rfl
    · rename_i hdec
      refine iff_of_false (fun heq => hat (Nat.add_left_cancel heq)) ?_
      rintro ⟨hzero, hends⟩
      rw [hzero] at hdec
      exact hdec hends

/-! ### One record -/

lemma readRecordAt_of_decode (hr : r.Fits)
    (h : s.durable.drop off = r.encode ++ rest) : s.readRecordAt off = .ok r := by
  have hmin := encodedLen_ge (r := r)
  unfold minRecordLen recFixedPrefix at hmin
  have hhdr : s.readBounded off (off + 4) = (r.encode ++ rest).take 4 := by
    rw [readBounded, drop_take, h, Nat.add_sub_cancel_left]
  have htotal : Bytes.toNat ((r.encode ++ rest).take 4) = r.encodedLen := by
    have := field_total hr rest
    rwa [Bytes.field] at this
  have hrec : s.readBounded off (off + r.encodedLen) = r.encode ++ [] := by
    rw [readBounded, drop_take, h, Nat.add_sub_cancel_left, take_encode, append_nil]
  unfold readRecordAt
  dsimp only
  rw [hhdr, htotal, hrec, decode_encode hr]
  simp
  omega

end Scan

/-- A log header, `zeros` reclaimed bytes and one record. -/
def reclaimedLog (zeros : Nat) (r : LogRecord) : LogSink where
  durable := replicate (headerLen + zeros) 0 ++ r.encode

lemma drop_reclaimedLog (zeros : Nat) (r : LogRecord) :
    (reclaimedLog zeros r).durable.drop headerLen = replicate zeros 0 ++ (r.encode ++ []) := by
  rw [reclaimedLog, replicate_add, append_nil, append_assoc, drop_left' length_replicate]

theorem first_record_found_iff_three_zeros :
    (reclaimedLog 3 { lsn := 11, txnId := 1, recType := .begin }).findFirstRecordOffset 68
      recoveryWindowBytes (fuelFor 68) headerLen = .ok (some 11) := by
  refine (first_record_found_iff (s := reclaimedLog 3 { lsn := 11, txnId := 1, recType := .begin })
    (by decide +kernel) (by decide) ⟨?_, ?_, ?_, ?_, ?_, ?_⟩ (drop_reclaimedLog 3 _)).2
    (.inr ?_) <;> decide +kernel

/-- A record of 256 bytes begins with a zero byte: the search answers with the byte behind it. -/
theorem first_record_missed :
    (reclaimedLog 1
    { lsn := 9, txnId := 1, recType := .update, redo := replicate 199 7 }).findFirstRecordOffset 265
      recoveryWindowBytes (fuelFor 265) headerLen = .ok (some 10) := by
  decide +kernel

end Graphus
