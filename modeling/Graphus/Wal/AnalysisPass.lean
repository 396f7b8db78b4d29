import Graphus.Wal.LogBytes
import Graphus.Wal.Recovery

/-!
# What the analysis finds

**Theorem (`analyse_eq`).** On the bytes of a written log with a torn record behind it, the analysis
goes over exactly the whole records. What it has found then are the committed and the ended
transactions, and the last LSN of every other one, the losers.
-/

namespace Graphus

open List

namespace Analysis

/-- What the analysis knows behind the records of `L`. -/
def of (L : Log) : Analysis := L.foldl onRecord {}

lemma of_snoc (L : Log) (r : LogRecord) : of (L ++ [r]) = (of L).onRecord r := by
  rw [of, foldl_append]
  rfl

section OnRecord

variable (a : Analysis) (r : LogRecord)

/-- What a record adds to each of the books. -/
lemma onRecord_books : (a.onRecord r).committed =
        (if r.recType = .commit then a.committed.insert r.txnId else a.committed) ∧
      (a.onRecord r).ended = (if r.recType = .abort then a.ended.insert r.txnId else a.ended) ∧
      (a.onRecord r).txnLast = (if r.txnId ≠ 0 then a.txnLast.insert r.txnId r.lsn else a.txnLast) ∧
      (a.onRecord r).recordsScanned = a.recordsScanned + 1 := by
  rw [onRecord]
  cases r.recType <;> dsimp only <;> split <;> first
    | exact ⟨rfl, rfl, rfl, rfl⟩
    | (cases CheckpointSnapshot.decode r.redo <;> exact ⟨rfl, rfl, rfl, rfl⟩)

end OnRecord

variable {L : Log} {t : Nat}

lemma mem_committed : t ∈ (of L).committed ↔ CommitLogged L t := by
  induction L using reverseRecOn with
  | nil => simp [of, CommitLogged]
  | append_singleton L r ih =>
    rw [of_snoc, (onRecord_books _ r).1, commitLogged_snoc]
    split
    · rw [or_comm, eq_comm]
      simp [*]
    · simp [*]

lemma mem_ended : t ∈ (of L).ended ↔ AbortLogged L t := by
  induction L using reverseRecOn with
  | nil => simp [of, AbortLogged]
  | append_singleton L r ih =>
    rw [of_snoc, (onRecord_books _ r).2.1, abortLogged_snoc]
    split
    · rw [or_comm, eq_comm]
      simp [*]
    · simp [*]

lemma recordsScanned_of : (of L).recordsScanned = L.length := by
  induction L using reverseRecOn with
  | nil => rfl
  | append_singleton L r ih =>
    rw [of_snoc, (onRecord_books _ r).2.2.2, ih, length_append]
    rfl

lemma lookup_txnLast :
    (of L).txnLast.lookup t = if t ≠ 0 ∧ Started L t then some (lastLsnOf L t) else none := by
  induction L using reverseRecOn with
  | nil => simp [of, Started]
  | append_singleton L r ih =>
    rw [of_snoc, (onRecord_books _ r).2.2.1, lastLsnOf_snoc]
    simp only [started_snoc]
    by_cases h0 : r.txnId = 0
    · rw [if_neg (not_not.2 h0), ih]
      by_cases ht : t = 0
      · simp [ht]
      · have : r.txnId ≠ t := fun h => ht (h.symm.trans h0)
        simp [this]
    · rw [if_pos h0, Dict.lookup_insert, ih]
      by_cases ht : t = r.txnId
      · simp [ht, h0]
      · simp [ht, Ne.symm ht]

/-- **The losers** are the transactions with records but no end. -/
lemma mem_losers : t ∈ (of L).losers ↔ Loser L t := by
  rw [losers, mem_filter, decide_eq_true_iff, mem_committed, mem_ended, Dict.mem_keys_iff_lookup]
  simp [lookup_txnLast, Loser, finished_iff, and_assoc]

lemma nodup_losers : (of L).losers.Nodup := (AList.keys_nodup _).filter _

end Analysis

/-! ## The scans of a log -/

/-- Nothing behind the log can be taken for a record: none there names its own offset, and behind an
empty log, whose scan looks for the first record, none decodes. -/
def QuietTail (bytes : Bytes) (L : Log) : Prop :=
  ∀ p, logEnd L < p → ¬ SelfConsistentAt bytes p ∧ (L = [] → Ends bytes p)

/-- The sink holds the log `L` with a torn record behind it. -/
structure LogIn (s : LogSink) (L : Log) (torn : Bytes) : Prop where
  bytes : s.durable = logBytes L ++ torn
  written : Written L
  torn : Torn torn
  quiet : QuietTail s.durable L
  len : s.durable.length < 2 ^ 63
  floor : s.reclaimedFloor ≤ headerLen

section LogIn

variable {s : LogSink} {L : Log} {torn : Bytes} {window first : Nat} {σ : Type}

/-- The records of the log stand from `first` on. -/
structure StartsAt (s : LogSink) (L : Log) (first : Nat) : Prop where
  scans : ∃ stop, Scans s.durable first L stop ∧ Ends s.durable stop ∧ logEnd L ≤ stop
  le : first ≤ s.durable.length

/-- A forward scan of the log goes over its records and takes the rest for a torn tail. -/
lemma LogIn.scanForward_eq (h : LogIn s L torn) (probe : Bool) (onRecord : σ → LogRecord → σ)
    (hfirst : StartsAt s L first) (hwindow : 0 < window) (st : σ) :
    ∃ outcome, s.scanForward s.durable.length window probe onRecord
        (LogSink.fuelFor s.durable.length) first window st = .ok (L.foldl onRecord st, outcome) ∧
      (outcome = .complete ∨ outcome = .tornTail) := by
  obtain ⟨stop, hscan, hstop, hend⟩ := hfirst.scans
  rw [Graphus.scanForward_eq st hscan hstop hfirst.le h.len hwindow hwindow (fuelFor_enough ..)]
  split
  · exact ⟨_, rfl, .inl rfl⟩
  · refine ⟨.tornTail, ?_, .inr rfl⟩
    rw [decideTail_tornTail h.len hwindow fun p hp => (h.quiet p (lt_of_le_of_lt hend hp)).1]
    rfl

lemma LogIn.startsAt (h : LogIn s L torn) : StartsAt s L headerLen where
  scans := by
    rw [h.bytes]
    exact ⟨_, h.written.scans torn, h.written.ends h.torn.decode, le_rfl⟩
  le := by
    rw [h.bytes, length_append]
    exact Nat.le_add_right_of_le headerLen_le_length_logBytes

/-- The scans of a log without records may start inside the torn one. -/
lemma LogIn.startsAt_of_nil (h : LogIn s [] torn) (hge : headerLen ≤ first)
    (hle : first ≤ s.durable.length) : StartsAt s [] first := by
  refine ⟨⟨first, .nil _, ?_, hge⟩, hle⟩
  rcases Nat.eq_or_lt_of_le hge with rfl | hlt
  · rw [h.bytes]
    exact h.written.ends h.torn.decode
  · exact (h.quiet first hlt).2 rfl

/-- The first record of a log that has one. -/
lemma findFirstRecordOffset_of_scans {stop : Nat} (hlen : s.durable.length < 2 ^ 63)
    (hwindow : 4 ≤ window) (hscan : Scans s.durable headerLen L stop) (hne : L ≠ []) :
    s.findFirstRecordOffset s.durable.length window (LogSink.fuelFor s.durable.length) headerLen =
      .ok (some headerLen) := by
  cases hscan with
  | nil => exact absurd rfl hne
  | cons hdec _ => exact findFirstRecordOffset_of_decode hlen hwindow (fuelFor_probe ..) hdec

/-- Where the first record is found. -/
lemma LogIn.findFirstRecordOffset_eq (h : LogIn s L torn) (hwindow : 4 ≤ window) :
    ∃ first, s.findFirstRecordOffset s.durable.length window
        (LogSink.fuelFor s.durable.length) headerLen = .ok first ∧
      (first = none → L = []) ∧ (∀ f ∈ first, StartsAt s L f) ∧
      (L ≠ [] → first = some headerLen) := by
  cases L with
  | nil =>
    rcases findFirstRecordOffset_cases h.len (show 0 < window by omega)
      (fuelFor_probe _ headerLen) with
      ⟨hfind, -⟩ | ⟨p, hp, hfind⟩
    · exact ⟨none, hfind, fun _ => rfl, nofun, nofun⟩
    · refine ⟨_, hfind, fun _ => rfl, fun f hf => ?_, nofun⟩
      obtain ⟨hge, hle⟩ := hp.firstRecord_le window
      cases hf
      exact h.startsAt_of_nil hge (hle.trans hp.lt_length.le)
  | cons r L =>
    obtain ⟨stop, hscan, -⟩ := h.startsAt.scans
    refine ⟨some headerLen, findFirstRecordOffset_of_scans h.len hwindow hscan (cons_ne_nil r L),
      nofun, fun f hf => ?_, fun _ => rfl⟩
    cases hf
    exact h.startsAt

/-- The scans start right behind the header of the log. -/
lemma scanBase_eq (hfloor : s.reclaimedFloor ≤ headerLen) :
    max (max headerLen headerLen) s.reclaimedFloor = headerLen := by
  exact max_eq_left hfloor

/-- **The analysis** finds what the whole records of the log say. -/
theorem LogIn.analyse_eq (h : LogIn s L torn) (hwindow : 4 ≤ window) :
    ∃ first tail, analyse s headerLen window = .ok (first, Analysis.of L, tail) ∧
      (first = none → L = []) ∧ (∀ f ∈ first, StartsAt s L f) ∧
      (L ≠ [] → first = some headerLen) := by
  obtain ⟨first, hfirst, hnone, hstart, hsome⟩ := h.findFirstRecordOffset_eq hwindow
  unfold analyse LogSink.durableLen
  rw [scanBase_eq h.floor]
  dsimp only
  rw [hfirst]
  cases first with
  | none =>
    refine ⟨none, false, ?_, hnone, hstart, hsome⟩
    rw [hnone rfl]
    rfl
  | some f =>
    obtain ⟨outcome, hscan, hout⟩ := h.scanForward_eq true Analysis.onRecord (hstart f rfl)
      (show 0 < window by omega) {}
    dsimp only [bind, Except.bind]
    rw [hscan]
    rcases hout with rfl | rfl
    · exact ⟨_, _, rfl, hnone, hstart, hsome⟩
    · exact ⟨_, _, rfl, hnone, hstart, hsome⟩

/-- The redo pass goes over the same records. -/
lemma LogIn.redo_eq {γ : Type} (h : LogIn s L torn) (image : Bytes → γ → γ)
    (hwindow : 0 < window) {first : Option Nat} (hnone : first = none → L = [])
    (hstart : ∀ f ∈ first, StartsAt s L f) (redoStart : Nat) (pages : Pages γ) :
    redo image s window first redoStart pages =
    .ok (L.foldl (RedoState.onRecord image redoStart) { pages }) := by
  cases first with
  | none =>
    rw [hnone rfl]
    rfl
  | some f =>
    obtain ⟨outcome, hscan, -⟩ := h.scanForward_eq false
      (RedoState.onRecord image redoStart) (hstart f rfl) hwindow { pages }
    unfold redo LogSink.durableLen
    dsimp only
    rw [hscan]
    rfl

/-- Undo finds every record of the log at its LSN. -/
lemma LogIn.readRecordAt_eq (h : LogIn s L torn) {r : LogRecord} (hr : r ∈ L) :
    s.readRecordAt r.lsn = .ok r := by
  obtain ⟨rest, hrest⟩ := h.written.drop_lsn hr torn
  rw [← h.bytes] at hrest
  exact readRecordAt_of_decode (h.written.fits hr) hrest

end LogIn

end Graphus
