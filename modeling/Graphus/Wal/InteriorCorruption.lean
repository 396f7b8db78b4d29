import Graphus.Wal.LogBytes

/-!
# A scan does not drop a record in silence

A forward scan stops at the first offset where no record decodes. If that is where a crash cut the
log, nothing is lost; if the bytes there were damaged, records follow that the scan did not see.

**Theorem (`scanForward_keeps_or_reports`).** For every log image and every start, the scan takes
the longest sequence of records that stand one after the other, and then, with the probe on, either
reports interior corruption, or no record with its own offset as LSN stands at any later position.

Nothing is assumed of the bytes, so that the image may be a log with any of its bytes changed, and
nothing of the checksum beyond what `decode` computes from it. Lengths are not bounded: a window
that would have to grow beyond 64 bits is an error (`scanOverflow`, `probeOverflow`).

The probe is an argument of the scan. With the probe off, damage looks like a torn tail
(`probe_off_drops_record`). The redo pass scans so after analysis has probed the same bytes, and the
search for the largest transaction id does.
-/

namespace Graphus

open List
open LogSink (fuelFor scanForward)

/-- The records `rs` stand from `off` to `stop`, and every sequence of records from `off` on is an
initial part of them. -/
structure MaximalPrefix (bytes : Bytes) (off : Nat) (rs : Log) (stop : Nat) : Prop where
  scans : Scans bytes off rs stop
  maximal : ∀ rs' stop', Scans bytes off rs' stop' → rs' <+: rs

section Prefix

variable {bytes : Bytes} {off stop stop' : Nat} {rs rs' : Log}

lemma exists_scans (bytes : Bytes) (off : Nat) :
    ∃ rs stop, Scans bytes off rs stop ∧ Ends bytes stop := by
  -- Each record takes some bytes of those that are left.
  induction hleft : bytes.length - off using Nat.strong_induction_on generalizing off with
  | _ left ih =>
    cases hdec : LogRecord.decode (bytes.drop off) with
    | error e => exact ⟨[], off, .nil off, e, hdec⟩
    | ok rn =>
      obtain ⟨r, n⟩ := rn
      have hpos := decode_pos hdec
      have hle := (LogRecord.decode_ok hdec).2
      rw [length_drop] at hle
      obtain ⟨rs, stop, hscan, hend⟩ := ih (bytes.length - (off + n)) (by omega) (off + n) rfl
      exact ⟨r :: rs, stop, .cons hdec hscan, hend⟩

/-- Records that stand in the bytes are determined by where they start. -/
lemma Scans.isPrefix (h : Scans bytes off rs stop) (hend : Ends bytes stop)
    (h' : Scans bytes off rs' stop') : rs' <+: rs := by
  induction h generalizing rs' with
  | nil off =>
    cases h' with
    | nil => exact prefix_rfl
    | cons hdec _ =>
      obtain ⟨e, he⟩ := hend
      cases he.symm.trans hdec
  | cons hdec _ ih =>
    cases h' with
    | nil => exact nil_prefix
    | cons hdec' htail' =>
      cases hdec.symm.trans hdec'
      exact cons_prefix_cons.2 ⟨rfl, ih hend htail'⟩

end Prefix

/-! ## The decision on the tail -/

/-- What a scan that stopped at `stop` says about the bytes from there on. -/
inductive TailVerdict (bytes : Bytes) (probe : Bool) (stop : Nat) : ScanOutcome → Prop
  | complete (hstop : bytes.length ≤ stop) : TailVerdict bytes probe stop .complete
  | tornTail (hstop : stop < bytes.length)
      (hnone : probe = true → ∀ p, stop ≤ p → ¬ SelfConsistentAt bytes p) :
      TailVerdict bytes probe stop .tornTail
  | interiorCorruption {next : Nat} (hprobe : probe = true) (hlt : stop < next)
      (hnext : SelfConsistentAt bytes next) :
      TailVerdict bytes probe stop (.interiorCorruption stop next)

lemma decideTail_verdict {s : LogSink} {window stop : Nat} (probe : Bool) (hwindow : 0 < window)
    (hend : Ends s.durable stop) (hstop : stop < s.durable.length) :
    (s.decideTail stop s.durable.length window probe = .error .probeOverflow ∧
      2 ^ 63 ≤ s.durable.length) ∨
    ∃ outcome, s.decideTail stop s.durable.length window probe = .ok outcome ∧
      TailVerdict s.durable probe stop outcome := by
  unfold LogSink.decideTail
  cases probe with
  | false => exact .inr ⟨.tornTail, rfl, .tornTail hstop nofun⟩
  | true =>
    rcases scanForSelfConsistent_cases hwindow hwindow (fuelFor_enough _ (stop + 1) window) with
      ⟨hrun, hlen⟩ | ⟨next, hrun, hle, hnext⟩ | ⟨hrun, hnone⟩
    · rw [hrun]
      exact .inl ⟨rfl, hlen⟩
    · rw [hrun]
      exact .inr ⟨_, rfl, .interiorCorruption rfl hle hnext⟩
    · rw [hrun]
      refine .inr ⟨_, rfl, .tornTail hstop fun _ p hp => ?_⟩
      rcases hp.eq_or_lt with rfl | hlt
      · exact hend.not_selfConsistentAt
      · exact hnone p hlt

/-! ## The result -/

theorem scanForward_keeps_or_reports {σ : Type} (s : LogSink) (off : Nat) {window : Nat}
    (hwindow : 0 < window) (probe : Bool) (onRecord : σ → LogRecord → σ) (st : σ) :
    ∃ rs stop, MaximalPrefix s.durable off rs stop ∧
      ((∃ e, s.scanForward s.durable.length window probe onRecord (fuelFor s.durable.length)
          off window st = .error e ∧ (e = .scanOverflow ∨ e = .probeOverflow) ∧
          2 ^ 63 ≤ s.durable.length) ∨
       ∃ outcome, s.scanForward s.durable.length window probe onRecord
          (fuelFor s.durable.length) off window st = .ok (rs.foldl onRecord st, outcome) ∧
          TailVerdict s.durable probe stop outcome) := by
  obtain ⟨rs, stop, hscan, hend⟩ := exists_scans s.durable off
  refine ⟨rs, stop, ⟨hscan, fun _ _ => hscan.isPrefix hend⟩, ?_⟩
  by_cases hoff : off ≤ s.durable.length
  · rcases @scanForward_cases off stop rs σ onRecord window window _ probe s st hscan hend hoff
      hwindow hwindow (fuelFor_enough _ off window) with ⟨hrun, hlen⟩ | hrun
    · exact .inl ⟨_, hrun, .inl rfl, hlen⟩
    · rw [hrun]
      by_cases hstop : s.durable.length ≤ stop
      · rw [if_pos hstop]
        exact .inr ⟨_, rfl, .complete hstop⟩
      rw [if_neg hstop]
      rcases decideTail_verdict probe hwindow hend (not_le.1 hstop) with
        ⟨htail, hlen⟩ | ⟨outcome, htail, hverdict⟩
      · rw [htail]
        exact .inl ⟨_, rfl, .inr rfl, hlen⟩
      · rw [htail]
        exact .inr ⟨outcome, rfl, hverdict⟩
  · -- A start past the end: there is nothing to read.
    have hpast : s.durable.length ≤ off := (not_le.1 hoff).le
    cases hscan with
    | cons hdec _ =>
      rw [drop_eq_nil_of_le hpast] at hdec
      cases hdec
    | nil =>
      refine .inr ⟨.complete, ?_, .complete hpast⟩
      rw [fuelFor, Nat.succ_mul]
      unfold scanForward
      rw [if_pos hpast]
      rfl

/-! ## Two records, the first of them damaged -/

/-- The start of transaction 2, at the offset behind that of transaction 1. -/
def secondBegin : LogRecord := { recType := .begin, txnId := 2, lsn := 65 }

/-- The header and the starts of two transactions, with the checksum of the first one zeroed. -/
def damagedImage : Bytes :=
  WalManager.headerBytes ++
    (LogRecord.body { recType := .begin, txnId := 1, lsn := 8 } ++ [0, 0, 0, 0]) ++
      secondBegin.encode

/-- The scan with the probe reports the record at 65. -/
theorem scanForward_keeps_or_reports_damaged :
    ∃ outcome, scanForward { durable := damagedImage } damagedImage.length 64 true
        (fun n _ => n + 1) (fuelFor damagedImage.length) 8 64 0 = .ok (0, outcome) ∧
      TailVerdict damagedImage true 8 outcome := by
  obtain ⟨rs, stop, hmax, hscan⟩ := scanForward_keeps_or_reports { durable := damagedImage } 8
    (show 0 < 64 by decide) true (fun n _ => n + 1) 0
  have hend : LogRecord.decode (damagedImage.drop 8) = .error .badCrc := by decide +kernel
  have hlen : damagedImage.length < 2 ^ 63 := by decide +kernel
  cases hmax.scans with
  | cons hdec _ => cases hend.symm.trans hdec
  | nil =>
    rcases hscan with ⟨e, -, -, hlong⟩ | ⟨outcome, hrun, hverdict⟩
    · exact absurd hlen (not_lt.2 hlong)
    · exact ⟨outcome, hrun, hverdict⟩

/-- Without the probe the same image is taken for a torn tail, and the intact record is dropped. -/
theorem probe_off_drops_record :
    scanForward { durable := damagedImage } damagedImage.length 64 false
      (fun n _ => n + 1) (fuelFor damagedImage.length) 8 64 0 = .ok (0, .tornTail) ∧
    SelfConsistentAt damagedImage 65 := by
  refine ⟨by decide +kernel, secondBegin, 57, ?_, rfl⟩
  decide +kernel

end Graphus
