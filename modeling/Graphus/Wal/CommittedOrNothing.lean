import Graphus.Wal.WalRun

/-!
# Committed or nothing

A run of the log manager is cut off anywhere behind the header of its log: what is left is a durable
prefix that may end in a torn record. The device pages reflect the log up to their page LSNs, which
lie in the durable prefix, and the last checkpoint has a dirty page table that covers what is not
yet on the device (`CrashedPages`).

**Theorem (`recover_committed_or_nothing`).** The log opens, recovery succeeds, and every page is
left at the effect of the durable records: the updates of committed transactions and the redo-only
updates, and those of transactions ended by a plain abort, which leaves them to its caller.
-/

namespace Graphus

open Function List Analysis
open WalManager (step)

/-! ## The device after a crash -/

/-- The dirty page table of the last checkpoint covers the device: a change logged before the
checkpoint is on its page, or the table has the page with a recovery LSN that is not behind the
change. -/
def DirtyPagesCover (L : Log) (pages : Pages (Nat → UInt8)) : Prop :=
  ∀ snapshot lsn, (of L).lastCheckpoint = some snapshot → (of L).lastCheckpointLsn = some lsn →
    (∀ e ∈ snapshot.dirtyPages, e.2 ≤ lsn) ∧
    ∀ r ∈ L, Touches r.pageId r → r.lsn < lsn → r.lsn ≤ (pages r.pageId).lsn ∨
      ∃ e ∈ snapshot.dirtyPages, e.1 = r.pageId ∧ e.2 ≤ r.lsn

/-- Device pages after a crash that keeps the records `L` of the log `full`. -/
structure CrashedPages (sem : ImageSemantics) (s0 : Store) (full L : Log)
    (pages : Pages (Nat → UInt8)) : Prop where
  reflects : Reflects sem s0 full pages
  walRule : ∀ p, (pages p).lsn < logEnd L
  dirty : DirtyPagesCover L pages

section Device

variable {sem : ImageSemantics} {s0 : Store} {L L2 : Log} {r : LogRecord}
  {pages : Pages (Nat → UInt8)}

lemma checkpoint_together (L : Log) :
    (of L).lastCheckpoint.isSome = (of L).lastCheckpointLsn.isSome := by
  induction L using reverseRecOn with
  | nil => rfl
  | append_singleton L r ih =>
    rw [of_snoc, onRecord]
    cases htype : r.recType <;> dsimp only <;> split <;> first
      | exact ih
      | (cases CheckpointSnapshot.decode r.redo <;> first | exact ih | rfl)

lemma checkpointLsn_mem {L : Log} {lsn : Nat}
    (h : (of L).lastCheckpointLsn = some lsn) : ∃ r ∈ L, r.lsn = lsn := by
  induction L using reverseRecOn with
  | nil => cases h
  | append_singleton L r ih =>
    have hstep : (of (L ++ [r])).lastCheckpointLsn = (of L).lastCheckpointLsn ∨
        (of (L ++ [r])).lastCheckpointLsn = some r.lsn := by
      rw [of_snoc, onRecord]
      cases htype : r.recType <;> dsimp only <;> split <;> first
        | exact .inl rfl
        | (cases CheckpointSnapshot.decode r.redo <;> first | exact .inl rfl | exact .inr rfl)
    rcases hstep with hstep | hstep
    · obtain ⟨x, hx, hlsn⟩ := ih (hstep ▸ h)
      exact ⟨x, mem_snoc hx, hlsn⟩
    · exact ⟨r, mem_append_right _ (mem_singleton_self r), Option.mem_unique hstep h⟩

/-- Where redo starts: at the first record, at the last checkpoint, or at the smallest recovery LSN
of its dirty pages. -/
lemma redoStart_cases (L : Log) : ((of L).redoStart = headerLen ∧ (of L).lastCheckpoint = none) ∨
    ∃ snapshot lsn, (of L).lastCheckpoint = some snapshot ∧ (of L).lastCheckpointLsn = some lsn ∧
      (snapshot.dirtyPages = [] ∧ (of L).redoStart = lsn ∨
      (∃ e ∈ snapshot.dirtyPages, (of L).redoStart = e.2) ∧
          ∀ e ∈ snapshot.dirtyPages, (of L).redoStart ≤ e.2) := by
  have htogether := checkpoint_together L
  unfold redoStart
  cases hsnap : (of L).lastCheckpoint with
  | none =>
    rw [hsnap] at htogether
    cases hlsn : (of L).lastCheckpointLsn with
    | none => exact .inl ⟨rfl, rfl⟩
    | some lsn =>
      rw [hlsn] at htogether
      cases htogether
  | some snapshot =>
    rw [hsnap] at htogether
    cases hlsn : (of L).lastCheckpointLsn with
    | none =>
      rw [hlsn] at htogether
      cases htogether
    | some lsn =>
      refine .inr ⟨snapshot, lsn, rfl, rfl, ?_⟩
      rw [Option.bind_some, CheckpointSnapshot.redoStart]
      cases hmin : (snapshot.dirtyPages.map Prod.snd).min? with
      | none =>
        have hnil := map_eq_nil_iff.1 (min?_eq_none_iff.1 hmin)
        exact .inl ⟨hnil, rfl⟩
      | some m =>
        obtain ⟨hmem, hle⟩ := min?_eq_some_iff.1 hmin
        obtain ⟨e, he, hem⟩ := mem_map.1 hmem
        exact .inr ⟨⟨e, he, hem.symm⟩, fun e he => hle e.2 (mem_map_of_mem he)⟩

/-- What redo leaves out is on its page. -/
lemma DirtyPagesCover.upToDate (hi : LogInv sem s0 L) (h : DirtyPagesCover L pages) :
    UpToDate L (of L).redoStart pages := by
  intro r hr htouch hlt
  rcases redoStart_cases L with ⟨hstart, -⟩ | ⟨snapshot, lsn, hsnap, hlsn, hstart⟩
  · exact absurd (hstart ▸ hlt) (not_lt.2 (hi.lsnGe hr))
  obtain ⟨hle, hcover⟩ := h snapshot lsn hsnap hlsn
  rcases hstart with ⟨hnil, hstart⟩ | ⟨⟨e, he, hstart⟩, hmin⟩
  · refine (hcover r hr htouch (hstart ▸ hlt)).resolve_right ?_
    rintro ⟨e, he, -⟩
    rw [hnil] at he
    cases he
  · refine (hcover r hr htouch (lt_of_lt_of_le hlt (hstart ▸ hle e he))).resolve_right ?_
    rintro ⟨e', he', -, hge⟩
    exact absurd (lt_of_lt_of_le hlt (hmin e' he')) (not_lt.2 hge)

lemma DirtyPagesCover.redoLe (hi : LogInv sem s0 L) (h : DirtyPagesCover L pages) :
    (of L).redoStart ≤ logEnd L := by
  rcases redoStart_cases L with ⟨hstart, -⟩ | ⟨snapshot, lsn, hsnap, hlsn, hstart⟩
  · exact hstart ▸ hi.endGe
  obtain ⟨x, hx, hxlsn⟩ := checkpointLsn_mem hlsn
  have hlt : lsn < logEnd L := hxlsn ▸ hi.lsnLt hx
  rcases hstart with ⟨-, hstart⟩ | ⟨⟨e, he, hstart⟩, -⟩
  · exact hstart ▸ le_of_lt hlt
  · exact hstart ▸ le_trans ((h snapshot lsn hsnap hlsn).1 e he) (le_of_lt hlt)

/-- The pages on the device reflect the durable records. -/
lemma CrashedPages.onDevice (hL : LogOk sem s0 (L ++ L2))
    (h : CrashedPages sem s0 (L ++ L2) L pages) : OnDevice sem s0 L pages where
  reflects p := (pageReflects_append fun r hr =>
    lt_of_lt_of_le (h.walRule p) (hL.end_le.2 r hr)).1 (h.reflects p)
  lsnLt := h.walRule
  upToDate := h.dirty.upToDate hL.left.inv
  redoLe := h.dirty.redoLe hL.left.inv

end Device

/-! ## The log after a crash -/

section Crash

variable {sem : ImageSemantics} {s0 : Store} {L : Log} {torn bytes : Bytes}
  {w : WalManager} {n : Nat}

lemma open_logBytes (L : Log) (torn : Bytes) :
    WalManager.open { durable := logBytes L ++ torn } =
    .ok { sink := { durable := logBytes L ++ torn } } := by
  have hlen : ¬ (logBytes L ++ torn).length < headerLen := by
    rw [logBytes, length_append, length_append, length_headerBytes]
    omega
  have hhdr : ((logBytes L ++ torn).take headerLen).drop 0 = WalManager.headerBytes := by
    rw [drop_zero, logBytes, append_assoc, take_append_of_le_length, take_of_length_le]
    · exact le_of_eq length_headerBytes
    · exact le_of_eq length_headerBytes.symm
  unfold WalManager.open LogSink.durableLen LogSink.readBounded
  rw [if_neg hlen]
  rw [hhdr, if_neg (by decide +kernel), if_neg (by decide +kernel)]

/-- A crash of a run cuts its log. -/
lemma WalInv.crash (h : WalInv sem s0 w L) (hn : headerLen ≤ n) :
    ∃ L1 L2 torn, L = L1 ++ L2 ∧ Written L1 ∧ Torn torn ∧
      (w.sink.durable ++ w.sink.pending).take n = logBytes L1 ++ torn := by
  rw [h.logged.bytes]
  exact h.logged.written.take_logBytes hn

/-- **Recovery of a durable prefix leaves committed work or nothing.** -/
theorem recover_committed_or_nothing {ops : List WalOp} (hrun : Run.exec step .fresh ops = some w)
    (hok : Run.Along step (WalManager.Allowed sem s0) .fresh ops)
    (hn : headerLen ≤ n) (hbytes : bytes = (w.sink.durable ++ w.sink.pending).take n)
    (hquiet : QuietTail bytes (logRecords bytes))
    {pages : Pages (Nat → UInt8)}
    (hpages : CrashedPages sem s0 w.records (logRecords bytes) pages) :
    ∃ wal report wal' pages', WalManager.open { durable := bytes } = .ok wal ∧
      recover sem.apply wal pages = .ok (report, wal', pages') ∧
      ∀ p i, (pages' p).content i = effect (logRecords bytes) sem s0 (p, i) := by
  obtain ⟨⟨L, hL⟩, hlen⟩ := WalInv.of_exec hrun hok
  have hlen : bytes.length < 2 ^ 63 := by
    refine lt_of_le_of_lt ?_ hlen
    rw [hbytes, LogSink.bufferedLen, ← length_append]
    exact length_take_le' ..
  obtain ⟨L1, L2, torn, rfl, hW, htorn, hcut⟩ := hL.crash hn
  rw [hL.logged.records_eq] at hpages
  rw [hcut] at hbytes
  have hrec : logRecords bytes = L1 := hbytes ▸ logRecords_logBytes hW htorn
  rw [hrec] at hquiet hpages ⊢
  subst hbytes
  let wal : WalManager := { sink := { durable := logBytes L1 ++ torn } }
  have hin : LogIn wal.sink L1 torn := ⟨rfl, hW, htorn, hquiet, hlen, Nat.zero_le _⟩
  obtain ⟨C, E, report, wal', pages', hrecover, hrecovered⟩ :=
    recover_spec hin hL.logged.logOk.left rfl (hpages.onDevice hL.logged.logOk)
  exact ⟨wal, report, wal', pages', open_logBytes L1 torn, hrecover, hrecovered.content_eq⟩

end Crash

/-! ## Runs -/

/-- An image of two bytes, an offset and a value: it sets one byte of the page. -/
def patchOffset : Bytes → Option Nat
  | [offset, _] => some offset.toNat
  | _ => none

def bytePatch : ImageSemantics where
  apply image c :=
    match image with
    | [offset, value] => update c offset.toNat value
    | _ => c
  footprint image := { i | patchOffset image = some i }
  frame image c i hi := by
    split
    · rename_i offset value
      have hne : i ≠ offset.toNat := fun h => hi (congrArg some h.symm)
      exact update_of_ne hne ..
    · rfl
  reads image c c' h i hi := by
    split
    · rename_i offset value
      obtain rfl : offset.toNat = i := Option.some.inj hi
      rw [update_self, update_self]
    · exact h i hi
  apply_nil _ := rfl

def zeroStore : Store := fun _ => 0

def zeroPages : Pages (Nat → UInt8) := fun _ => { lsn := 0, content := fun _ => 0 }

variable {offset value old : UInt8}

/-- Patching a byte and patching it back. -/
lemma bytePatch_inverts {s : Store} {t p : Nat} (h : s (p, offset.toNat) = old) :
    (bytePatch.entry (updateOf t p [offset, value] [offset, old])).Inverts s := by
  funext a
  obtain ⟨q, i⟩ := a
  change bytePatch.onPage p [offset, old] (bytePatch.onPage p [offset, value] s) (q, i) = s (q, i)
  unfold ImageSemantics.onPage bytePatch
  dsimp only
  by_cases hq : q = p
  · subst hq
    by_cases hi : i = offset.toNat
    · subst hi
      simp [h]
    · simp [update_of_ne hi]
  · simp [hq]

/-- Device pages that have none of the changes yet. -/
lemma zeroPages_crashed {full L : Log} (hfull : ∀ r ∈ full, 0 < r.lsn)
    (hend : 0 < logEnd L) (hck : (of L).lastCheckpoint = none) :
    CrashedPages bytePatch zeroStore full L zeroPages where
  reflects p i := by
    have : full.filter (fun r => decide (r.lsn ≤ (zeroPages p).lsn)) = [] :=
      filter_eq_nil_iff.2 fun r hr => by
        have := hfull r hr
        simp only [decide_eq_true_eq]
        exact not_le.2 this
    rw [this]
    rfl
  walRule _ := hend
  dirty snapshot lsn h := by
    rw [hck] at h
    cases h

/-- Transaction 1 commits; the crash comes with transaction 2 open and a begin record torn. -/
def tornLoserOps : List WalOp :=
  [.begin 1, .logUpdate 1 0 [3, 7] [3, 0], .commit 1 none, .begin 2, .logUpdate 2 0 [4, 9]
    [4, 0], .begin 3]

lemma UpdateAllowed.patch {L : Log} {t p : Nat}
    (h0 : t ≠ 0 ∧ t < 2 ^ 64 ∧ p < 2 ^ 64) (h : ¬ Finished L t ∧ ¬ RollingBack L t ∧
      bytePatch.replay L zeroStore (p, offset.toNat) = old ∧ ∀ x ∈ survivors L,
        Finished L x.txnId) :
    UpdateAllowed bytePatch zeroStore L (updateOf t p [offset, value] [offset, old]) where
  txn := h0.1
  «open» := h.1
  roll := h.2.1
  inverse _ := bytePatch_inverts h.2.2.1
  apart x hx _ hx' := absurd (h.2.2.2 x hx) hx'
  fitsTxn := h0.2.1
  fitsPage := h0.2.2
  fitsTotal := by simp [updateOf, LogRecord.encodedLen, recFixedPrefix]

lemma tornLoser_allowed :
    Run.Along step (WalManager.Allowed bytePatch zeroStore) .fresh tornLoserOps := by
  refine ⟨⟨show _ ∧ _ ∧ ¬ Started _ _ by decide +kernel, by decide +kernel⟩, fun w hw => ?_⟩
  cases hw
  refine ⟨⟨.patch (by decide) (by decide +kernel), by decide +kernel⟩, fun w hw => ?_⟩
  cases hw
  refine ⟨⟨show ¬ RollingBack _ _ by decide +kernel, by decide +kernel⟩, fun w hw => ?_⟩
  cases hw
  refine ⟨⟨show _ ∧ _ ∧ ¬ Started _ _ by decide +kernel, by decide +kernel⟩, fun w hw => ?_⟩
  cases hw
  refine ⟨⟨.patch (by decide) (by decide +kernel), by decide +kernel⟩, fun w hw => ?_⟩
  cases hw
  exact ⟨⟨show _ ∧ _ ∧ ¬ Started _ _ by decide +kernel, by decide +kernel⟩, fun _ _ => trivial⟩

/-- What is left of the log of a run that is cut off after `n` bytes. -/
def afterCrash (ops : List WalOp) (n : Nat) : Bytes :=
  ((Run.exec step .fresh ops).map fun w =>
    (w.sink.durable ++ w.sink.pending).take n).getD []

/-- Nothing decodes behind the end of the log. -/
lemma QuietTail.of_ends {bytes : Bytes} {L : Log}
    (h : ∀ p < bytes.length, logEnd L < p → Ends bytes p) : QuietTail bytes L := by
  intro p hp
  have hends : Ends bytes p := by
    by_cases hlt : p < bytes.length
    · exact h p hlt hp
    · exact ⟨.incomplete, by rw [drop_eq_nil_of_le (not_lt.1 hlt)]; rfl⟩
  exact ⟨hends.not_selfConsistentAt, fun _ => hends⟩

theorem recover_committed_or_nothing_tornLoser :
    logRecords (afterCrash tornLoserOps 321) ≠ [] ∧ afterCrash tornLoserOps 321 ≠ [] ∧
    ∃ wal report wal' pages', WalManager.open { durable := afterCrash tornLoserOps 321 } = .ok wal ∧
      recover bytePatch.apply wal zeroPages = .ok (report, wal', pages') ∧
      ∀ p i, (pages' p).content i = effect (logRecords (afterCrash tornLoserOps 321)) bytePatch
        zeroStore (p, i) :=
  ⟨by decide +kernel, by decide +kernel,
    recover_committed_or_nothing rfl tornLoser_allowed (by decide) rfl
      (.of_ends (by decide +kernel))
      (zeroPages_crashed (by decide +kernel) (by decide +kernel) (by decide +kernel))⟩

/-! ### What is neither committed nor undone -/

/-- The effect of the committed transactions and the redo-only updates. -/
def committedEffect (L : Log) (sem : ImageSemantics) (s0 : Store) : Store :=
  (L.filter fun x => decide (x.recType = .update ∧
    (x.undo = [] ∨ CommitLogged L x.txnId))).foldl (fun s x => sem.onPage x.pageId x.redo s) s0

/-- The byte of a page that recovery of the log leaves. -/
def recoveredByte (bytes : Bytes) (p i : Nat) : Except WalError UInt8 := do
  let wal ← WalManager.open { durable := bytes }
  let (_, _, pages) ← recover bytePatch.apply wal zeroPages
  .ok ((pages p).content i)

/-- A plain abort. -/
def abortedOps : List WalOp := [.begin 1, .logUpdate 1 0 [3, 7] [3, 0], .abort 1]

/-- A redo-only update over an undoable one of the same transaction. -/
def redoOverUndoOps : List WalOp :=
  [.begin 1, .logUpdate 1 0 [3, 7] [3, 0], .logUpdateRedoOnly 1 0 [3, 5]]

/-- An update whose image holds a record that names its own offset. -/
def embeddedOps : List WalOp :=
  [.begin 1, .logUpdate 1 0 (LogRecord.encode { recType := .begin, txnId := 9, lsn := 114 }) []]

lemma abortedOps_allowed :
    Run.Along step (WalManager.Allowed bytePatch zeroStore) .fresh abortedOps := by
  -- the first two calls are those of `tornLoserOps`
  refine ⟨tornLoser_allowed.1, fun w hw => ⟨(tornLoser_allowed.2 w hw).1, fun w' hw' => ?_⟩⟩
  cases hw
  cases hw'
  exact ⟨⟨trivial, by decide +kernel⟩, fun _ _ => trivial⟩

/-- An aborted update stands, an undone one takes a redo-only one of its transaction with it, and a
torn record with a record in its image is taken for corruption. -/
theorem aborted_update_stands :
    (Run.Along step (WalManager.Allowed bytePatch zeroStore) .fresh abortedOps ∧
      recoveredByte (afterCrash abortedOps 300) 0 3 = .ok 7 ∧
      committedEffect (logRecords (afterCrash abortedOps 300)) bytePatch zeroStore (0, 3) = 0) ∧
    (recoveredByte (afterCrash redoOverUndoOps 300) 0 3 = .ok 0 ∧
      committedEffect (logRecords (afterCrash redoOverUndoOps 300)) bytePatch
        zeroStore (0, 3) = 5) ∧
    recoveredByte (afterCrash embeddedOps 171) 0 3 = .error (.interiorCorruption 65 114) :=
  ⟨⟨abortedOps_allowed, by decide +kernel, by decide +kernel⟩,
    ⟨by decide +kernel, by decide +kernel⟩, by decide +kernel⟩

end Graphus
