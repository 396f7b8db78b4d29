import Mathlib.Data.List.Infix
import Graphus.Wal.CommittedOrNothing

/-!
# Recovery can be restarted

**Theorem (`recovery_restartable`).** Recovery may be cut off at any of the states it passes through
(`recoveryTrace`), with any of its page versions on the device that the WAL rule allows, and run
again, any number of times; the first crash may also cut off a live rollback. As long as each
restart finds a log that ends at a record, the last recovery leaves the pages a single uninterrupted
one leaves, and no update has two compensation records.

What a rollback appends does not change the effect of the log (`RollsBack.effect_append`), and all
states of one recovery have logs that are prefixes of the final one, so a page version written at
one time reflects the log as it is cut off at another.
-/

namespace Graphus

open List

/-! ## The states of a recovery -/

/-- The states recovery passes through: in redo, in undo and while the ends are written. -/
def recoveryTrace {γ : Type} (image : Bytes → γ → γ) (wal : WalManager) (pages : Pages γ) :
    List (WalManager × Pages γ) :=
  match analyse wal.sink headerLen recoveryWindowBytes with
  | .error _ => [(wal, pages)]
  | .ok (first, a, _) =>
    let redoing := (logRecords wal.sink.durable).inits.map fun done =>
      (wal, (done.foldl (RedoState.onRecord image a.redoStart) { pages }).pages)
    match redo image wal.sink recoveryWindowBytes first a.redoStart pages with
    | .error _ => redoing
    | .ok redone =>
      let base := max (max headerLen headerLen) wal.sink.reclaimedFloor
      let heap := a.losers.foldl (fun heap t => pushLsn heap ((a.txnLast.lookup t).getD 0)) []
      let fuel := LogSink.fuelFor a.recordsScanned
      let st : UndoState γ := { wal, pages := redone.pages }
      let undoing := (undoTrace image (first.getD base) fuel heap st).map fun st =>
        (st.wal, st.pages)
      match undoLoop image (first.getD base) fuel heap st with
      | .error _ => redoing ++ undoing
      | .ok undone =>
        let ending := a.losers.inits.map fun ts =>
          (ts.foldl (fun wal t => (wal.writeEnd t).1) undone.wal, undone.pages)
        redoing ++ undoing ++ ending

/-- The log ends at a record. -/
def AtBoundary (bytes : Bytes) : Prop := logEnd (logRecords bytes) = bytes.length

instance (bytes : Bytes) : Decidable (AtBoundary bytes) :=
  inferInstanceAs (Decidable (logEnd (logRecords bytes) = bytes.length))

/-- A recovery cut off: the log has a prefix of what had been appended by then, and each page is on
the device in one of the versions it had, the record of its last change being in the log. -/
structure CutOff (image : Bytes → (Nat → UInt8) → Nat → UInt8)
    (before after : LogSink × Pages (Nat → UInt8)) : Prop where
  log : ∃ s ∈ recoveryTrace image { sink := before.1 } before.2, ∃ n,
    before.1.durable.length ≤ n ∧ s.1.sink.bufferedLen < 2 ^ 63 ∧
    after.1 = { durable := (s.1.sink.durable ++ s.1.sink.pending).take n }
  boundary : AtBoundary after.1.durable
  pages : ∀ p, ∃ s ∈ recoveryTrace image { sink := before.1 } before.2, after.2 p = s.2 p
  walRule : ∀ p, (after.2 p).lsn < logEnd (logRecords after.1.durable)

section Trace

variable {sem : ImageSemantics} {s0 : Store} {L C : Log} {wal : WalManager}
  {pages : Pages (Nat → UInt8)} {torn : Bytes}

/-- A state of a recovery of `L` that has appended `C`. -/
structure MidRecovery (sem : ImageSemantics) (s0 : Store) (sink : LogSink) (L C : Log)
    (s : WalManager × Pages (Nat → UInt8)) : Prop where
  sinkEq : s.1.sink = { sink with pending := encodeAll C }
  reflects : Reflects sem s0 (L ++ C) s.2
  lsnLt : ∀ p, (s.2 p).lsn < logEnd (L ++ C)
  upToDate : UpToDate L (Analysis.of L).redoStart s.2

lemma UndoInv.mid {st : UndoState (Nat → UInt8)} {sink : LogSink}
    (h : UndoInv sem s0 sink L C st) : MidRecovery sem s0 sink L C (st.wal, st.pages) where
  sinkEq := h.sinkEq
  reflects := h.pages.reflects
  lsnLt := h.pages.lsnLt
  upToDate r hr htouch _ := h.pages.done r (mem_append_left _ hr) htouch

/-- In the middle of redo. -/
lemma OnDevice.mid (hL : LogOk sem s0 L) (hpending : wal.sink.pending = [])
    (h : OnDevice sem s0 L pages) {done : Log} (hdone : done <+: L) :
    MidRecovery sem s0 wal.sink L []
      (wal, (done.foldl (RedoState.onRecord sem.apply (Analysis.of L).redoStart)
        { pages }).pages) := by
  have hredo := redo_prefix hL.inv.ascending h.reflects h.upToDate hdone
  refine ⟨?_, ?_, fun p => ?_, fun r hr htouch hlt => ?_⟩
  · cases wal with
    | mk sink active =>
      cases sink
      cases hpending
      rfl
  · rw [append_nil]
    exact hredo.reflects
  · rw [append_nil]
    rcases hredo.lsn p with heq | ⟨x, hx, heq⟩
    · exact heq ▸ h.lsnLt p
    · exact heq ▸ hL.inv.lsnLt (hdone.subset hx)
  · exact le_trans (h.upToDate r hr htouch hlt) (hredo.mono _)

/-- **The states of a recovery**: each one has appended a prefix of what the whole recovery
appends. -/
lemma recoveryTrace_spec (hin : LogIn wal.sink L torn) (hL : LogOk sem s0 L)
    (hpending : wal.sink.pending = []) (hpages : OnDevice sem s0 L pages) :
    ∃ C E report wal' pages', recover sem.apply wal pages = .ok (report, wal', pages') ∧
      Recovered sem s0 wal.sink L C E wal' pages' ∧
      ∀ s ∈ recoveryTrace sem.apply wal pages, ∃ C1, C1 <+: C ++ E ∧
        MidRecovery sem s0 wal.sink L C1 s := by
  obtain ⟨first, tail, hanalyse, hnone, hstart, hsome⟩ :=
    hin.analyse_eq (show 4 ≤ recoveryWindowBytes by decide)
  have hredo := hin.redo_eq sem.apply (show 0 < recoveryWindowBytes by decide) hnone hstart
    (Analysis.of L).redoStart pages
  obtain ⟨C, E, st, hloop, hrec, hundoing, hending⟩ := undo_states hin hL hpending rfl
    (hpages.redone hL) (floor_le hL.inv hsome)
  obtain ⟨report, hrun⟩ := recover_eq hanalyse hredo hloop
  refine ⟨C, E, report, _, st.pages, hrun, hrec, fun s hs => ?_⟩
  unfold recoveryTrace at hs
  rw [hanalyse] at hs
  dsimp only at hs
  rw [hredo] at hs
  dsimp only at hs
  rw [← undoHeap, hloop, mem_append, mem_append] at hs
  rcases hs with (hs | hs) | hs
  · obtain ⟨done, hdone, rfl⟩ := mem_map.1 hs
    have hdone : done <+: L := by
      rw [hin.bytes, logRecords_logBytes hin.written hin.torn] at hdone
      exact (mem_inits ..).1 hdone
    exact ⟨[], nil_prefix, hpages.mid hL hpending hdone⟩
  · obtain ⟨st1, hst1, rfl⟩ := mem_map.1 hs
    obtain ⟨C1, hi1, hC1⟩ := hundoing st1 hst1
    exact ⟨C1, hC1, hi1.mid⟩
  · obtain ⟨ts, hts, rfl⟩ := mem_map.1 hs
    obtain ⟨C1, hC1, hi1⟩ := hending ts ((mem_inits ..).1 hts)
    exact ⟨C1, hC1, hi1.mid⟩

end Trace

/-! ## Restarts -/

/-- A log and device pages that recovery can start from, without torn bytes. -/
structure RestartPoint (sem : ImageSemantics) (s0 : Store) (s : LogSink × Pages (Nat → UInt8))
    (L : Log) : Prop where
  sinkEq : s.1 = { durable := logBytes L }
  written : Written L
  logOk : LogOk sem s0 L
  device : OnDevice sem s0 L s.2
  len : (logBytes L).length < 2 ^ 63

section Restart

variable {sem : ImageSemantics} {s0 : Store} {L L1 C D R : Log}
  {s s' : LogSink × Pages (Nat → UInt8)} {bytes : Bytes} {n : Nat}

lemma RestartPoint.logIn (h : RestartPoint sem s0 s L) : LogIn s.1 L [] := by
  rw [h.sinkEq]
  refine ⟨(append_nil _).symm, h.written, .nil, .of_ends fun p hlt hp => ?_, h.len, Nat.zero_le _⟩
  exact absurd (h.written.length_logBytes ▸ hlt) (not_lt.2 (le_of_lt hp))

/-- A log cut at a record. -/
lemma Written.take_boundary (hW : Written L) (hn : headerLen ≤ n)
    (hbytes : bytes = (logBytes L).take n) (hboundary : AtBoundary bytes) :
    ∃ L2, L = logRecords bytes ++ L2 ∧ bytes = logBytes (logRecords bytes) ∧
    Written (logRecords bytes) := by
  obtain ⟨L1, L2, torn, hL, hW1, htorn, hcut⟩ := hW.take_logBytes hn
  rw [← hbytes] at hcut
  have hrec : logRecords bytes = L1 := hcut ▸ logRecords_logBytes hW1 htorn
  have htorn : torn = [] := by
    unfold AtBoundary at hboundary
    rw [hrec, hcut, length_append, hW1.length_logBytes] at hboundary
    exact length_eq_zero_iff.1 (by omega)
  rw [htorn, append_nil] at hcut
  rw [hrec]
  exact ⟨L2, hL, hcut, hW1⟩

/-- Records of a rollback do not move the redo start. -/
lemma RollsBack.redoStart_eq (h : RollsBack L D) :
    (Analysis.of (L ++ D)).redoStart = (Analysis.of L).redoStart := by
  have hsame : (Analysis.of (L ++ D)).lastCheckpoint = (Analysis.of L).lastCheckpoint ∧
      (Analysis.of (L ++ D)).lastCheckpointLsn = (Analysis.of L).lastCheckpointLsn := by
    induction D using reverseRecOn with
    | nil => simp
    | append_singleton D c ih =>
      have ih := ih (h.of_prefix (prefix_append ..))
      have hkind := (h.kind c (mem_append_right _ (mem_singleton_self c))).1
      rw [← append_assoc, Analysis.of_snoc, Analysis.onRecord]
      rcases hkind with hkind | hkind <;> rw [hkind] <;> dsimp only <;> split <;> exact ih
  unfold Analysis.redoStart
  rw [hsame.1, hsame.2]

/-- A page version from one state of the recovery, on the device when another part of the appended
records is. -/
lemma pageReflects_of_prefixes {page : Page (Nat → UInt8)} {p : Nat}
    (hL : LogOk sem s0 (L ++ R)) (hC : C <+: R) (hD : D <+: R)
    (h : PageReflects sem s0 (L ++ C) p page) (hC' : page.lsn < logEnd (L ++ C))
    (hD' : page.lsn < logEnd (L ++ D)) : PageReflects sem s0 (L ++ D) p page := by
  have hok : ∀ {M}, M <+: R → LogOk sem s0 (L ++ M) := by
    rintro M ⟨M', rfl⟩
    rw [← append_assoc] at hL
    exact hL.left
  rcases prefix_or_prefix_of_prefix hC hD with ⟨X, rfl⟩ | ⟨X, rfl⟩
  · have hX := hok hD
    rw [← append_assoc] at hX ⊢
    exact (pageReflects_append fun r hr => lt_of_lt_of_le hC' (hX.end_le.2 r hr)).2 h
  · have hX := hok hC
    rw [← append_assoc] at hX h
    exact (pageReflects_append fun r hr => lt_of_lt_of_le hD' (hX.end_le.2 r hr)).1 h

/-- Of two prefixes of a log the one that ends later is the longer one. -/
lemma prefix_of_end_le (hL : LogOk sem s0 L) (hsplit : L ++ C = L1 ++ R)
    (hle : logEnd L ≤ logEnd L1) : ∃ D, L1 = L ++ D := by
  rcases append_eq_append_iff.1 hsplit with ⟨D, hD, -⟩ | ⟨D, rfl, -⟩
  · exact ⟨D, hD⟩
  cases D with
  | nil => exact ⟨[], by simp⟩
  | cons d D =>
    have hd := hL.end_le.2 d mem_cons_self
    have := hL.inv.lsnLt (mem_append_right L1 mem_cons_self)
    omega

section

variable (h : RestartPoint sem s0 s L)

include h

/-- **A recovery cut off** leaves a point to restart from, with a part of the rollbacks logged. -/
lemma CutOff.restartPoint (hcut : CutOff sem.apply s s') :
    ∃ D, RestartPoint sem s0 s' (L ++ D) ∧ RollsBack L D := by
  have hin : LogIn ({ sink := s.1 } : WalManager).sink L [] := h.logIn
  obtain ⟨C, E, report, wal', pages', -, hrec, htrace⟩ := recoveryTrace_spec hin h.logOk
    (by dsimp only; rw [h.sinkEq]) h.device
  obtain ⟨m, hm, n, hn, hbuf, hafter⟩ := hcut.log
  obtain ⟨C1, hC1, hmid⟩ := htrace m hm
  have hstart : s.1.durable.length = logEnd L := by rw [h.sinkEq, h.written.length_logBytes]
  -- the bytes of the whole log at that state
  have hbytes : m.1.sink.durable ++ m.1.sink.pending = logBytes (L ++ C1) := by
    rw [hmid.sinkEq, logBytes_append]
    rw [h.sinkEq]
  have hplaced : Placed (logEnd L) C1 := hstart ▸ hrec.placed.of_prefix hC1
  have hlen : (logBytes (L ++ C1)).length < 2 ^ 63 := by
    rw [← hbytes, length_append]
    exact hbuf
  have hW : Written (L ++ C1) := by
    refine h.written.append hplaced fun c hc => hrec.fits c (hC1.subset hc) ?_
    have hlt := hplaced.lsn_lt hc
    rw [logBytes_append, length_append, h.written.length_logBytes] at hlen
    omega
  have hdurable : s'.1.durable = (logBytes (L ++ C1)).take n := by rw [hafter, hbytes]
  have hheader : headerLen ≤ n := le_trans h.logOk.inv.endGe (hstart ▸ hn)
  obtain ⟨L2, hsplit, hs', hW'⟩ := hW.take_boundary hheader hdurable hcut.boundary
  -- what had been durable still is
  have hkeep : logEnd L ≤ logEnd (logRecords s'.1.durable) := by
    have hle : logEnd L ≤ (logBytes (L ++ C1)).length := by
      rw [logBytes_append, length_append, h.written.length_logBytes]
      exact Nat.le_add_right ..
    rw [hcut.boundary, hdurable, length_take]
    exact Nat.le_min.2 ⟨hstart ▸ hn, hle⟩
  obtain ⟨D, hD⟩ := prefix_of_end_le h.logOk hsplit hkeep
  rw [hD] at hs' hW' hsplit
  have hDC : D <+: C ++ E := by
    rw [append_assoc] at hsplit
    have hDC1 : D <+: C1 := ⟨L2, (append_cancel_left hsplit).symm⟩
    exact hDC1.trans hC1
  have hrolls : RollsBack L D := hrec.rollsBack.of_prefix hDC
  have hlog : LogOk sem s0 (L ++ D) := by
    obtain ⟨X, hX⟩ := hDC
    have := hrec.logOk
    rw [← hX, ← append_assoc] at this
    exact this.left
  have hrule : ∀ p, (s'.2 p).lsn < logEnd (L ++ D) := hD ▸ hcut.walRule
  refine ⟨D, ⟨?_, hW', hlog, ⟨fun p => ?_, hrule, fun r hr htouch hlt => ?_, ?_⟩, ?_⟩, hrolls⟩
  · rw [hafter] at hs' ⊢
    exact congrArg (fun bytes => ({ durable := bytes } : LogSink)) hs'
  · obtain ⟨x, hx, hpage⟩ := hcut.pages p
    obtain ⟨C2, hC2, hmid2⟩ := htrace x hx
    have hreflects := hmid2.reflects p
    have hlsn := hmid2.lsnLt p
    rw [← hpage] at hreflects hlsn
    exact pageReflects_of_prefixes hrec.logOk hC2 hDC hreflects hlsn (hrule p)
  · rw [hrolls.redoStart_eq] at hlt
    rcases mem_append.1 hr with hr | hr
    · obtain ⟨x, hx, hpage⟩ := hcut.pages r.pageId
      obtain ⟨C2, -, hmid2⟩ := htrace x hx
      rw [hpage]
      exact hmid2.upToDate r hr htouch hlt
    · have := le_trans h.device.redoLe (hlog.end_le.2 r hr)
      omega
  · rw [hrolls.redoStart_eq]
    exact le_trans h.device.redoLe hlog.end_le.1
  · rw [← hs', hdurable]
    exact lt_of_le_of_lt (length_take_le' ..) hlen

/-- Any number of restarts. -/
lemma RestartPoint.restarts (hcuts : Relation.ReflTransGen (CutOff sem.apply) s s') :
    ∃ L', RestartPoint sem s0 s' L' ∧ effect L' sem s0 = effect L sem s0 := by
  induction hcuts with
  | refl => exact ⟨L, h, rfl⟩
  | tail _ hcut ih =>
    obtain ⟨L', h', heffect⟩ := ih
    obtain ⟨D, h'', hrolls⟩ := hcut.restartPoint h'
    exact ⟨L' ++ D, h'', (hrolls.effect_append h''.logOk).trans heffect⟩

/-- What one recovery from a restart point leaves. -/
lemma RestartPoint.recover :
    ∃ report wal pages, recover sem.apply { sink := s.1 } s.2 = .ok (report, wal, pages) ∧
      (∀ p i, (pages p).content i = effect L sem s0 (p, i)) ∧
      (wal.sink.durable.length < 2 ^ 63 → (logRecords wal.sink.durable).Pairwise fun c c' =>
        c.recType = .clr → c'.recType = .clr → c.prevLsn ≠ c'.prevLsn) := by
  have hin : LogIn ({ sink := s.1 } : WalManager).sink L [] := h.logIn
  obtain ⟨C, E, report, wal, pages, hrun, hrec⟩ :=
    recover_spec hin h.logOk (by dsimp only; rw [h.sinkEq]) h.device
  refine ⟨report, wal, pages, hrun, hrec.content_eq, fun hlen => ?_⟩
  have hdurable : wal.sink.durable = logBytes (L ++ (C ++ E)) := by
    rw [hrec.durable, logBytes_append]
    rw [h.sinkEq]
  have hplaced : Placed (logEnd L) (C ++ E) := by
    have := hrec.placed
    rwa [h.sinkEq, h.written.length_logBytes] at this
  have hW : Written (L ++ (C ++ E)) := by
    refine h.written.append hplaced fun c hc => hrec.fits c hc ?_
    have hlt := hplaced.lsn_lt hc
    rw [hdurable, logBytes_append, length_append, h.written.length_logBytes] at hlen
    omega
  have hrecords : logRecords wal.sink.durable = L ++ (C ++ E) := by
    have := logRecords_logBytes hW Torn.nil
    rwa [append_nil, ← hdurable] at this
  rw [hrecords]
  exact hrec.logOk.inv.undoneOnce

end

variable {w : WalManager}

/-- A crash of a run that cuts its log at a record. -/
lemma WalInv.restartPoint {pages : Pages (Nat → UInt8)} (h : WalInv sem s0 w L)
    (hlen : w.sink.bufferedLen < 2 ^ 63) (hn : headerLen ≤ n)
    (hbytes : bytes = (w.sink.durable ++ w.sink.pending).take n) (hboundary : AtBoundary bytes)
    (hpages : CrashedPages sem s0 w.records (logRecords bytes) pages) :
    RestartPoint sem s0 ({ durable := bytes }, pages) (logRecords bytes) ∧
    ∃ L2, L = logRecords bytes ++ L2 := by
  rw [h.logged.bytes] at hbytes
  obtain ⟨L2, hsplit, hcut, hW⟩ := h.logged.written.take_boundary hn hbytes hboundary
  have hlog := h.logged.logOk
  rw [h.logged.records_eq] at hpages
  rw [hsplit] at hlog hpages
  refine ⟨⟨congrArg (fun bytes => ({ durable := bytes } : LogSink)) hcut, hW, hlog.left,
    hpages.onDevice hlog, ?_⟩, L2, hsplit⟩
  rw [← hcut, hbytes]
  rw [h.logged.bufferedLen_eq, ← h.logged.written.length_logBytes] at hlen
  exact lt_of_le_of_lt (length_take_le' ..) hlen

/-- A live rollback cut off: the log of the running manager, `base`, has grown by a part of what the
rollback of `t` appends. -/
structure RollbackCutOff (sem : ImageSemantics) (s0 : Store) (w : WalManager) (t : Nat)
    (base bytes : Bytes) (pages : Pages (Nat → UInt8)) : Prop where
  baseEq : base = w.sink.durable ++ w.sink.pending
  log : ∃ n, base.length ≤ n ∧
    bytes = ((w.rollback t).sink.durable ++ (w.rollback t).sink.pending).take n
  len : (w.rollback t).sink.bufferedLen < 2 ^ 63
  boundary : AtBoundary bytes
  pages : CrashedPages sem s0 (w.rollback t).records (logRecords bytes) pages

lemma RollbackCutOff.restartPoint {t : Nat} {base : Bytes}
    {pages : Pages (Nat → UInt8)} (h : WalInv sem s0 w L)
    (hcut : RollbackCutOff sem s0 w t base bytes pages) :
    ∃ D, RestartPoint sem s0 ({ durable := bytes }, pages) (L ++ D) ∧ RollsBack L D := by
  obtain ⟨n, hn, hbytes⟩ := hcut.log
  obtain ⟨D, hD, hrolls⟩ := h.rollback (lt_trans hcut.len (by decide))
  have hend : base.length = logEnd L := by
    rw [hcut.baseEq, h.logged.bytes, h.logged.written.length_logBytes]
  have hheader : headerLen ≤ n := le_trans h.logged.logOk.inv.endGe (hend ▸ hn)
  obtain ⟨hpoint, L2, hsplit⟩ := hD.restartPoint hcut.len hheader hbytes hcut.boundary hcut.pages
  have hkeep : logEnd L ≤ logEnd (logRecords bytes) := by
    have hle := hD.logged.logOk.end_le.1
    rw [hcut.boundary, hbytes, hD.logged.bytes, length_take, hD.logged.written.length_logBytes]
    exact Nat.le_min.2 ⟨hend ▸ hn, hle⟩
  obtain ⟨D1, hD1⟩ := prefix_of_end_le h.logged.logOk hsplit hkeep
  rw [hD1] at hsplit hpoint
  rw [append_assoc] at hsplit
  exact ⟨D1, hpoint, hrolls.of_prefix ⟨L2, (append_cancel_left hsplit).symm⟩⟩

/-- **Recovery can be restarted.** -/
theorem recovery_restartable {ops : List WalOp}
    (hrun : Run.exec WalManager.step .fresh ops = some w)
    (hok : Run.Along WalManager.step (WalManager.Allowed sem s0) .fresh ops)
    {base : Bytes} {pages pages1 : Pages (Nat → UInt8)} (hn : headerLen ≤ n)
    (hbase : base = (w.sink.durable ++ w.sink.pending).take n) (hboundary : AtBoundary base)
    (hpages : CrashedPages sem s0 w.records (logRecords base) pages)
    (hfirst : (bytes = base ∧ pages1 = pages) ∨ ∃ t, RollbackCutOff sem s0 w t base bytes pages1)
    (hcuts : Relation.ReflTransGen (CutOff sem.apply) ({ durable := bytes }, pages1) s') :
    ∃ report wal once report' wal' last,
      Graphus.recover sem.apply { sink := { durable := base } } pages = .ok (report, wal, once) ∧
      Graphus.recover sem.apply { sink := s'.1 } s'.2 = .ok (report', wal', last) ∧
      (∀ p i, (last p).content i = (once p).content i) ∧
      (wal'.sink.durable.length < 2 ^ 63 → (logRecords wal'.sink.durable).Pairwise fun c c' =>
        c.recType = .clr → c'.recType = .clr → c.prevLsn ≠ c'.prevLsn) := by
  obtain ⟨⟨L, hL⟩, hlen⟩ := WalInv.of_exec hrun hok
  obtain ⟨hpoint, L2, hsplit⟩ := hL.restartPoint hlen hn hbase hboundary hpages
  have hfirst : ∃ L1, RestartPoint sem s0 ({ durable := bytes }, pages1) L1 ∧
      effect L1 sem s0 = effect (logRecords base) sem s0 := by
    rcases hfirst with ⟨rfl, rfl⟩ | ⟨t, hcut⟩
    · exact ⟨_, hpoint, rfl⟩
    obtain ⟨D, hD, hrolls⟩ := hcut.restartPoint hL
    have hall : logRecords base = L := by
      rw [hcut.baseEq]
      exact hL.logged.records_eq
    rw [hall]
    exact ⟨L ++ D, hD, hrolls.effect_append hD.logOk⟩
  obtain ⟨L1, hpoint1, heffect1⟩ := hfirst
  obtain ⟨L', hpoint', heffect⟩ := hpoint1.restarts hcuts
  obtain ⟨report, wal, once, honce, hcontent, -⟩ := hpoint.recover
  obtain ⟨report', wal', last, hlast, hcontent', hundone⟩ := hpoint'.recover
  refine ⟨report, wal, once, report', wal', last, honce, hlast, fun p i => ?_, hundone⟩
  rw [hcontent, hcontent', heffect, heffect1]

end Restart

/-! ## Runs -/

/-- The first state of a recovery is the one it is started in. -/
lemma mem_recoveryTrace {γ : Type} (image : Bytes → γ → γ) (wal : WalManager)
    (pages : Pages γ) : (wal, pages) ∈ recoveryTrace image wal pages := by
  unfold recoveryTrace
  have hstart : ∀ (a : Analysis) (records : Log), (wal, pages) ∈ records.inits.map
      fun done => (wal, (done.foldl (RedoState.onRecord image a.redoStart) { pages }).pages) :=
    fun a records => mem_map.2 ⟨[], (mem_inits ..).2 nil_prefix, rfl⟩
  split
  · exact mem_singleton_self _
  dsimp only
  split
  · exact hstart ..
  · split
    · exact mem_append_left _ (hstart ..)
    · exact mem_append_left _ (mem_append_left _ (hstart ..))

/-- Transaction 1 commits, transaction 2 is open. -/
def loserOps : List WalOp :=
  [.begin 1, .logUpdate 1 0 [3, 7] [3, 0], .commit 1 none, .begin 2, .logUpdate 2 0 [4, 9] [4, 0]]

/-- The recovery of `loserOps` cut off when the compensation record is durable and no page has been
written. -/
lemma loserOps_cutOff : ∃ bytes, bytes.length = 360 ∧
    CutOff bytePatch.apply ({ durable := afterCrash loserOps 301 }, zeroPages)
    ({ durable := bytes }, zeroPages) := by
  have hstate : ((recoveryTrace bytePatch.apply { sink := { durable := afterCrash loserOps 301 } }
      zeroPages)[7]?.map fun s => decide (s.1.sink.bufferedLen = 360 ∧
        AtBoundary ((s.1.sink.durable ++ s.1.sink.pending).take 360) ∧
        0 < logEnd (logRecords ((s.1.sink.durable ++ s.1.sink.pending).take 360)))) =
          some true := by
    decide +kernel
  obtain ⟨s, hs, hfacts⟩ := Option.map_eq_some_iff.1 hstate
  obtain ⟨hlen, hboundary, hend⟩ := of_decide_eq_true hfacts
  refine ⟨(s.1.sink.durable ++ s.1.sink.pending).take 360, ?_,
    ⟨s, mem_of_getElem? hs, 360, by decide +kernel, by omega, rfl⟩, hboundary,
    fun p => ⟨_, mem_recoveryTrace .., rfl⟩, fun p => hend⟩
  rw [length_take, length_append]
  exact Nat.min_eq_left (le_of_eq hlen.symm)

theorem recovery_restartable_loser : ∃ s, Relation.ReflTransGen (CutOff bytePatch.apply)
        ({ durable := afterCrash loserOps 301 }, zeroPages) s ∧ s.1.durable.length = 360 ∧
      ∃ report wal once report' wal' last,
        recover bytePatch.apply { sink := { durable := afterCrash loserOps 301 } } zeroPages =
          .ok (report, wal, once) ∧
        recover bytePatch.apply { sink := s.1 } s.2 = .ok (report', wal', last) ∧
        (∀ p i, (last p).content i = (once p).content i) ∧
        (wal'.sink.durable.length < 2 ^ 63 → (logRecords wal'.sink.durable).Pairwise fun c c' =>
          c.recType = .clr → c'.recType = .clr → c.prevLsn ≠ c'.prevLsn) := by
  obtain ⟨bytes, hlen, hcut⟩ := loserOps_cutOff
  have hcuts := Relation.ReflTransGen.single hcut
  exact ⟨_, hcuts, hlen, recovery_restartable rfl (tornLoser_allowed.take 5)
    (show headerLen ≤ 301 by decide) rfl (by decide +kernel)
    (zeroPages_crashed (by decide +kernel) (by decide +kernel) (by decide +kernel))
    (.inl ⟨rfl, rfl⟩) hcuts⟩

/-- Recover, and recover again from what that leaves. -/
def recoverTwice (bytes : Bytes) : Except WalError Bool := do
  let (_, wal, pages) ← recover bytePatch.apply { sink := { durable := bytes } } zeroPages
  let (report, _, _) ← recover bytePatch.apply { sink := wal.sink } pages
  .ok report.tailTruncated

/-- With a torn record in the log the compensation of the first recovery is appended behind it, and
the second one refuses the log. -/
theorem tornLoser_second_recovery_fails : recoveredByte (afterCrash tornLoserOps 321) 0 4 = .ok 0 ∧
      recoverTwice (afterCrash tornLoserOps 321) = .error (.interiorCorruption 301 321) :=
  ⟨by decide +kernel, by decide +kernel⟩

end Graphus
