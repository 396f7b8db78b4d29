import Graphus.Lib.Run
import Graphus.Wal.Effect

/-!
# The manager writes logs

Every run of the log manager whose calls respect its contract (`WalManager.Allowed`) leaves a log
that may be written.

**Theorem (`WalInv.of_exec`).** The bytes of the sink are those of a log `L` with `LogOk L`. For
every active transaction the manager's undo stack is the rest of the back-chain, up to updates that
have no undo image.
-/

namespace Graphus

open List WalManager
open LogRecord (encodedLen)

/-- The records in the log, durable or not. -/
def WalManager.records (w : WalManager) : Log :=
  logRecords (w.sink.durable ++ w.sink.pending)

/-! ## The contract -/

section Contract

variable (sem : ImageSemantics) (s0 : Store)

/-- The caller may log this update: its transaction is open and not being rolled back, its undo
image inverts its redo image here, and it stays off the bytes of undoable updates of other open
transactions. A redo-only update also stays off those of its own. -/
structure UpdateAllowed (L : Log) (r : LogRecord) : Prop where
  txn : r.txnId ≠ 0
  «open» : ¬ Finished L r.txnId
  roll : ¬ RollingBack L r.txnId
  inverse : r.undo ≠ [] → (sem.entry r).Inverts (sem.replay L s0)
  apart : ∀ x ∈ survivors L, x.undo ≠ [] → ¬ Finished L x.txnId →
    (r.txnId ≠ x.txnId ∨ r.undo = []) → Disjoint (sem.foot r) (sem.foot x)
  fitsTxn : r.txnId < 2 ^ 64
  fitsPage : r.pageId < 2 ^ 64
  fitsTotal : r.encodedLen < 2 ^ 32

/-- The update a call logs, before it has its LSN. -/
def updateOf (txnId pageId : Nat) (redo undo : Bytes) : LogRecord :=
  { recType := .update, txnId, pageId, redo, undo }

/-- What the caller has to respect. -/
def WalManager.CallAllowed (w : WalManager) : WalOp → Prop
  | .begin txn => txn ≠ 0 ∧ txn < 2 ^ 64 ∧ ¬ Started w.records txn
  | .logUpdate txn pageId redo undo =>
    UpdateAllowed sem s0 w.records (updateOf txn pageId redo undo)
  | .logUpdateRedoOnly txn pageId redo =>
    UpdateAllowed sem s0 w.records (updateOf txn pageId redo [])
  | .commit txn _ => ¬ RollingBack w.records txn
  | .checkpoint dirtyPages => 16 * (dirtyPages.length + w.active.entries.length) + 128 < 2 ^ 32
  | _ => True

/-- A call the manager may get, in a log that stays below eight exbibytes. -/
def WalManager.Allowed (w : WalManager) (op : WalOp) : Prop :=
  w.CallAllowed sem s0 op ∧ ∀ w' ∈ w.step op, w'.sink.bufferedLen < 2 ^ 63

end Contract

/-! ## The undo stack -/

def entryOf (x : LogRecord) : UndoEntry :=
  { lsn := x.lsn, pageId := x.pageId, undo := x.undo, prevLsn := x.prevLsn }

/-- The undo entries are the updates of the chain, less some that have no undo image. -/
inductive Covers : List UndoEntry → Log → Prop
  | nil : Covers [] []
  | skip {es : List UndoEntry} {x : LogRecord} {ch : Log} (hu : x.undo = [])
      (h : Covers es ch) : Covers es (x :: ch)
  | take {es : List UndoEntry} {x : LogRecord} {ch : Log} (h : Covers es ch) :
      Covers (entryOf x :: es) (x :: ch)

/-- The newest entry. -/
lemma Covers.cons {e : UndoEntry} {es : List UndoEntry} {ch : Log}
    (h : Covers (e :: es) ch) : ∃ newer x older, ch = newer ++ x :: older ∧
      (∀ y ∈ newer, y.undo = []) ∧ e = entryOf x ∧ Covers es older := by
  induction ch with
  | nil => cases h
  | cons y ch ih =>
    cases h with
    | skip hu h =>
      obtain ⟨newer, x, older, rfl, hnewer, he, hes⟩ := ih h
      refine ⟨y :: newer, x, older, rfl, fun z hz => ?_, he, hes⟩
      exact (mem_cons.1 hz).elim (fun h => h ▸ hu) (hnewer z)
    | take h => exact ⟨[], y, ch, rfl, nofun, rfl, h⟩

lemma Covers.undo_nil {ch : Log} (h : Covers [] ch) : ∀ x ∈ ch, x.undo = [] := by
  induction ch with
  | nil => exact nofun
  | cons y ch ih =>
    cases h with
    | skip hu h => exact fun x hx => (mem_cons.1 hx).elim (fun hxy => hxy ▸ hu) (ih h x)

/-! ## The invariant -/

/-- The sink holds the log `L`. -/
structure Logged (sem : ImageSemantics) (s0 : Store) (s : LogSink) (L : Log) : Prop where
  bytes : s.durable ++ s.pending = logBytes L
  written : Written L
  logOk : LogOk sem s0 L

/-- The entry of an active transaction agrees with the log. -/
structure TxnOk (L : Log) (t : Nat) (st : TxnState) : Prop where
  txn : t ≠ 0
  fits : t < 2 ^ 64
  started : Started L t
  «open» : ¬ Finished L t
  last : ¬ RollingBack L t → st.lastLsn = lastLsnOf L t
  lastLt : st.lastLsn < logEnd L
  undo : Covers st.undo (chain L t)

structure WalInv (sem : ImageSemantics) (s0 : Store) (w : WalManager) (L : Log) :
    Prop where
  logged : Logged sem s0 w.sink L
  active : ∀ {t st}, w.active.lookup t = some st → TxnOk L t st
  inactive : ∀ {t}, t ≠ 0 → w.active.lookup t = none → Started L t → Finished L t

section Append

variable {sem : ImageSemantics} {s0 : Store} {s : LogSink} {L : Log} {r : LogRecord}
  {w : WalManager} {t : Nat} {st : TxnState}

lemma Logged.bufferedLen_eq (h : Logged sem s0 s L) : s.bufferedLen = logEnd L := by
  rw [LogSink.bufferedLen, ← length_append, h.bytes, h.written.length_logBytes]

lemma Logged.records_eq (h : Logged sem s0 w.sink L) : w.records = L := by
  have := logRecords_logBytes h.written Torn.nil
  rwa [append_nil, ← h.bytes] at this

/-- A record that may follow, written at the end of the log. -/
lemma Logged.append (h : Logged sem s0 s L) (hlsn : r.lsn = logEnd L) (hfits : r.Fits)
    (hnext : CanFollow sem s0 L r) : Logged sem s0 (s.append r.encode) (L ++ [r]) where
  bytes := by
    rw [logBytes_snoc, ← h.bytes, append_assoc]
    rfl
  written := h.written.snoc hlsn hfits
  logOk := h.logOk.snoc (le_of_eq hlsn.symm) hnext

lemma Logged.sync (h : Logged sem s0 s L) : Logged sem s0 s.sync L :=
  { h with
    bytes := by
      rw [← h.bytes]
      simp [LogSink.sync] }

lemma WalInv.harden (h : WalInv sem s0 w L) : WalInv sem s0 w.harden L :=
  ⟨h.logged.sync, h.active, h.inactive⟩

/-- An active transaction none of whose records has been appended. -/
lemma TxnOk.snoc_other (h : TxnOk L t st) (hlsn : logEnd L ≤ r.lsn) (ht : r.txnId ≠ t) :
    TxnOk (L ++ [r]) t st where
  txn := h.txn
  fits := h.fits
  started := started_snoc.2 (.inl h.started)
  «open» hf := (finished_snoc.1 hf).elim h.open fun hf => ht hf.1
  last hr := by
    rw [lastLsnOf_snoc, if_neg ht]
    exact h.last fun h' => hr (rollingBack_snoc.2 (.inl h'))
  lastLt := lt_trans h.lastLt (logEnd_lt_snoc hlsn).1
  undo := by
    rw [chain_snoc, chainStep, if_neg ht]
    exact h.undo

/-- A record of `t` is appended and the entry of `t` becomes `st`. -/
lemma WalInv.append (h : WalInv sem s0 w L) (hlsn : r.lsn = logEnd L) (hfits : r.Fits)
    (hnext : CanFollow sem s0 L r) {w' : WalManager} (hsink : w'.sink = w.sink.append r.encode)
    (hothers : ∀ t, t ≠ r.txnId → w'.active.lookup t = w.active.lookup t)
    (hself : ∀ {st}, w'.active.lookup r.txnId = some st → TxnOk (L ++ [r]) r.txnId st)
    (hend : r.txnId ≠ 0 → w'.active.lookup r.txnId = none → Finished (L ++ [r]) r.txnId) :
    WalInv sem s0 w' (L ++ [r]) where
  logged := hsink ▸ h.logged.append hlsn hfits hnext
  active {t st} ht := by
    by_cases htr : t = r.txnId
    · subst htr
      exact hself ht
    · rw [hothers t htr] at ht
      exact (h.active ht).snoc_other (le_of_eq hlsn.symm) (Ne.symm htr)
  inactive {t} h0 ht hstart := by
    by_cases htr : t = r.txnId
    · subst htr
      exact hend h0 ht
    · rw [hothers t htr] at ht
      have hstart := (started_snoc.1 hstart).resolve_right (Ne.symm htr)
      exact finished_snoc.2 (.inl (h.inactive h0 ht hstart))

end Append

/-! ## The calls -/

section Calls

variable {sem : ImageSemantics} {s0 : Store} {L : Log} {w : WalManager} {t : Nat} {st : TxnState}

section

variable (h : WalInv sem s0 w L)

include h

/-- What the manager takes for the last LSN of an open transaction is that. -/
lemma WalInv.lastLsn_eq (h0 : t ≠ 0) (hopen : ¬ Finished L t) (hroll : ¬ RollingBack L t) :
    w.lastLsn t = lastLsnOf L t := by
  unfold lastLsn
  cases hst : w.active.lookup t with
  | some st => exact (h.active hst).last hroll
  | none =>
    rcases lastLsnOf_cases L t with ⟨hlast, -⟩ | ⟨r, hr, ht, -⟩
    · exact hlast.symm
    · exact absurd (h.inactive h0 hst ⟨r, hr, ht⟩) hopen

/-- A record of an open transaction, with its entry. -/
lemma WalInv.noted {r : LogRecord} (hlsn : r.lsn = logEnd L) (hfits : r.Fits)
    (hnext : CanFollow sem s0 L r)
    (h0 : r.txnId ≠ 0) (hopen : ¬ Finished L r.txnId)
    (htype : ¬ (r.recType = .commit ∨ r.recType = .abort))
    (hlast : ¬ RollingBack (L ++ [r]) r.txnId → st.lastLsn = r.lsn) (hle : st.lastLsn ≤ r.lsn)
    (hundo : Covers st.undo (chainStep r.txnId (chain L r.txnId) r)) :
    WalInv sem s0 { sink := w.sink.append r.encode, active := w.active.insert r.txnId st }
    (L ++ [r]) := by
  refine h.append hlsn hfits hnext rfl (fun t' ht' => ?_) (fun {st'} hst => ?_) fun _ hst => ?_
  · exact (Dict.lookup_insert ..).trans (if_neg ht')
  · obtain rfl : st = st' := Option.mem_unique (AList.lookup_insert _) hst
    refine ⟨h0, hfits.txnId, started_snoc.2 (.inr rfl), fun hf => ?_, fun hroll =>
      ?_, ?_, chain_snoc.symm ▸ hundo⟩
    · exact (finished_snoc.1 hf).elim hopen fun hf => htype hf.2
    · rw [lastLsnOf_snoc, if_pos rfl]
      exact hlast hroll
    · exact lt_of_le_of_lt hle (logEnd_lt_snoc (le_of_eq hlsn.symm)).2
  · cases (AList.lookup_insert _).symm.trans hst

lemma WalInv.begin (h0 : t ≠ 0) (hfits : t < 2 ^ 64) (hnew : ¬ Started L t)
    (hlen : logEnd L < 2 ^ 64) : ∃ L', WalInv sem s0 (w.begin t).1 L' := by
  let r : LogRecord := { recType := .begin, txnId := t, lsn := w.nextLsn }
  have hlsn : r.lsn = logEnd L := h.logged.bufferedLen_eq
  have hr : r.Fits := by
    refine ⟨?_, hlsn ▸ hlen, ?_, hfits, ?_, ?_⟩ <;> simp [r, encodedLen, recFixedPrefix]
  have hopen : ¬ Finished L t := by
    rintro ⟨x, hx, hxt, -⟩
    exact hnew ⟨x, hx, hxt⟩
  refine ⟨L ++ [r], h.noted hlsn hr (.begin rfl h0 hnew rfl) h0 hopen (by simp)
    (fun _ => rfl) le_rfl ?_⟩
  rw [chainStep, if_pos rfl]
  exact chain_of_not_started h.logged.logOk.inv hnew ▸ .nil

/-- Logging an update, with or without an undo entry. -/
lemma WalInv.noteUpdate (hlen : logEnd L < 2 ^ 64) {pageId : Nat} {redo undo : Bytes}
    (hok : UpdateAllowed sem s0 L (updateOf t pageId redo undo))
    (push : List UndoEntry → List UndoEntry)
    (hpush : ∀ es, push es = { lsn := w.nextLsn, pageId, undo, prevLsn := w.lastLsn t } :: es ∨
      undo = [] ∧ push es = es) :
    ∃ L', WalInv sem s0 ((w.append { updateOf t pageId redo undo with
      prevLsn := w.lastLsn t }).1.noteUpdate t w.nextLsn push) L' := by
  let r := { updateOf t pageId redo undo with prevLsn := w.lastLsn t, lsn := w.nextLsn }
  have hlsn : r.lsn = logEnd L := h.logged.bufferedLen_eq
  have hprev : r.prevLsn = lastLsnOf L t := h.lastLsn_eq hok.txn hok.open hok.roll
  have hfits : r.Fits := ⟨hok.fitsTotal, hlsn ▸ hlen,
    hprev ▸ lt_trans (lastLsnOf_lt h.logged.logOk.inv t) hlen, hok.fitsTxn, hok.fitsPage,
    by simp [r, updateOf]⟩
  have hnext : CanFollow sem s0 L r :=
    .update rfl hok.txn hok.open hok.roll hprev hok.inverse hok.apart
  -- the entry the update is noted in: the old one, or an empty one for an unknown transaction
  have hold : Covers ((w.active.lookup t).getD { firstLsn := w.nextLsn, lastLsn := w.nextLsn }).undo
    (chain L t) := by
    cases hlook : w.active.lookup t with
    | some st => exact (h.active hlook).undo
    | none =>
      have : ¬ Started L t := fun hs => hok.open (h.inactive hok.txn hlook hs)
      rw [chain_of_not_started h.logged.logOk.inv this]
      exact .nil
  refine ⟨L ++ [r], h.noted hlsn hfits hnext hok.txn hok.open (by simp [updateOf])
    (fun _ => rfl) le_rfl ?_⟩
  rw [show chainStep r.txnId (chain L r.txnId) r = r ::
    chain L t by rw [chainStep, if_pos rfl]; rfl]
  dsimp only [WalManager.append]
  rcases hpush ((w.active.lookup t).getD { firstLsn := w.nextLsn, lastLsn := w.nextLsn }).undo with
    hp | ⟨hu, hp⟩
  · rw [hp]
    exact @Covers.take _ r _ hold
  · rw [hp]
    exact .skip hu hold

/-- A record that ends its transaction. -/
lemma WalInv.finish {r : LogRecord} (hlsn : r.lsn = logEnd L) (hfits : r.Fits)
    (hnext : CanFollow sem s0 L r) (hend : r.recType = .commit ∨ r.recType = .abort) :
    WalInv sem s0 { sink := w.sink.append r.encode, active := w.active.erase r.txnId }
    (L ++ [r]) := by
  refine h.append hlsn hfits hnext rfl (fun t' ht' => ?_) (fun {st} hst => ?_) fun _ _ => ?_
  · exact (Dict.lookup_erase ..).trans (if_neg ht')
  · cases ((Dict.lookup_erase ..).trans (if_pos rfl)).symm.trans hst
  · exact finished_snoc.2 (.inr ⟨rfl, hend⟩)

lemma WalInv.commit (hroll : ¬ RollingBack L t) (hlen : logEnd L < 2 ^ 64) (commitTs : Option Nat) :
    ∃ L', WalInv sem s0 (w.commit t commitTs).1 L' := by
  unfold WalManager.commit
  cases hst : w.active.lookup t with
  | none => exact ⟨L, h⟩
  | some st =>
    have ht := h.active hst
    let r : LogRecord :=
      { recType := .commit, txnId := t, prevLsn := st.lastLsn
        redo := (commitTs.map (Bytes.le 8)).getD [], lsn := w.nextLsn }
    have hlsn : r.lsn = logEnd L := h.logged.bufferedLen_eq
    have hfits : r.Fits := by
      refine ⟨?_, hlsn ▸ hlen, lt_trans ht.lastLt hlen, ht.fits, ?_, ?_⟩
      · cases commitTs <;> simp [r, encodedLen, recFixedPrefix]
      · simp [r]
      · simp [r]
    exact ⟨_, (h.finish hlsn hfits (.commit rfl ht.txn ht.open hroll) (.inl rfl)).harden⟩

lemma WalInv.finishRollback (hlen : logEnd L < 2 ^ 64) :
    ∃ D, WalInv sem s0 (w.finishRollback t) (L ++ D) ∧
      (D = [] ∨ D = [endFor t w.nextLsn] ∧ ∃ st, w.active.lookup t = some st) := by
  unfold WalManager.finishRollback
  cases hst : w.active.lookup t with
  | none => exact ⟨[], by rwa [append_nil], .inl rfl⟩
  | some st =>
    have ht := h.active hst
    have hlsn : (endFor t w.nextLsn).lsn = logEnd L := h.logged.bufferedLen_eq
    have hfits : (endFor t w.nextLsn).Fits := by
      refine ⟨?_, hlsn ▸ hlen, ?_, ht.fits, ?_, ?_⟩ <;>
        simp [endFor, encodedLen, recFixedPrefix]
    exact ⟨_, (h.finish hlsn hfits (.abort rfl ht.txn ht.open) (.inr rfl)).harden,
      .inr ⟨rfl, st, rfl⟩⟩

lemma WalInv.compensateNext (hlen : logEnd L < 2 ^ 64) :
    ∃ D, WalInv sem s0 (w.compensateNext t).1 (L ++ D) ∧
      ∀ c ∈ D, c.recType = .clr ∧ c.txnId = t := by
  unfold WalManager.compensateNext
  cases hst : w.active.lookup t with
  | none => exact ⟨[], by rwa [append_nil], nofun⟩
  | some st =>
    have ht := h.active hst
    dsimp only
    cases hundo : st.undo with
    | nil => exact ⟨[], by rwa [append_nil], nofun⟩
    | cons e rest =>
      obtain ⟨newer, x, older, hchain, hnewer, rfl, hrest⟩ := (hundo ▸ ht.undo).cons
      have hi := h.logged.logOk.inv
      have hxc : x ∈ chain L t := hchain ▸ mem_append_right _ mem_cons_self
      have hxt : x.txnId = t := (hi.chainMem hxc).2
      let r := clrFor x w.nextLsn
      have hlsn : r.lsn = logEnd L := h.logged.bufferedLen_eq
      have hfits : r.Fits := by
        rw [← hlsn] at hlen
        exact clrFor_fits (h.logged.written.fits (hi.chain_mem hxc)) hlen
      have hnext : CanFollow sem s0 L r :=
        .clr rfl (hxt ▸ ht.txn)
          (hxt ▸ ht.open) x newer older (hxt.symm ▸ hchain) hnewer rfl rfl rfl rfl
      subst hxt
      refine ⟨[r], h.noted hlsn hfits hnext ht.txn ht.open (by simp)
        (absurd <| rollingBack_snoc.2 (.inr ⟨rfl, rfl⟩)) (hlsn ▸ ht.lastLt.le) ?_,
        fun c hc => mem_singleton.1 hc ▸ ⟨rfl, rfl⟩⟩
      rw [chainStep, if_pos rfl]
      exact (hi.chain_drop hchain).symm ▸ hrest

end

lemma bufferedLen_append (s : LogSink) (bytes : Bytes) :
    s.bufferedLen ≤ (s.append bytes).bufferedLen := by
  simp [LogSink.bufferedLen, LogSink.append]

lemma bufferedLen_compensateNext (w : WalManager) (t : Nat) :
    w.sink.bufferedLen ≤ (w.compensateNext t).1.sink.bufferedLen := by
  unfold compensateNext
  cases w.active.lookup t with
  | none => exact le_rfl
  | some st =>
    dsimp only
    cases st.undo with
    | nil => exact le_rfl
    | cons e rest => exact bufferedLen_append ..

lemma bufferedLen_compensateAll (w : WalManager) (t n : Nat) :
    w.sink.bufferedLen ≤ (w.compensateAll t n).sink.bufferedLen := by
  induction n generalizing w with
  | zero => exact le_rfl
  | succ n ih => exact le_trans (bufferedLen_compensateNext w t) (ih _)

lemma bufferedLen_harden (w : WalManager) : w.harden.sink.bufferedLen = w.sink.bufferedLen := by
  simp [harden, LogSink.sync, LogSink.bufferedLen]

lemma bufferedLen_finishRollback (w : WalManager) (t : Nat) :
    w.sink.bufferedLen ≤ (w.finishRollback t).sink.bufferedLen := by
  unfold finishRollback
  cases w.active.lookup t with
  | none => exact le_rfl
  | some st =>
    rw [bufferedLen_harden]
    exact bufferedLen_append ..

lemma lookup_compensateNext (w : WalManager) (t : Nat) : (w.compensateNext t).1.active.lookup t =
      (w.active.lookup t).map fun st => { st with undo := st.undo.tail } := by
  unfold compensateNext
  cases hst : w.active.lookup t with
  | none => exact hst
  | some st =>
    dsimp only
    cases hundo : st.undo with
    | nil =>
      rw [hst]
      cases st
      cases hundo
      rfl
    | cons e rest =>
      refine (AList.lookup_insert _).trans ?_
      simp [hundo]

lemma lookup_compensateAll (w : WalManager) (t n : Nat) : (w.compensateAll t n).active.lookup t =
      (w.active.lookup t).map fun st => { st with undo := st.undo.drop n } := by
  induction n generalizing w with
  | zero => simp [compensateAll]
  | succ n ih =>
    rw [compensateAll, ih, lookup_compensateNext]
    simp [Function.comp_def]

lemma WalInv.compensateAll (h : WalInv sem s0 w L) (n : Nat)
    (hlen : (w.compensateAll t n).sink.bufferedLen < 2 ^ 64) :
    ∃ D, WalInv sem s0 (w.compensateAll t n) (L ++ D) ∧ ∀ c ∈ D, c.recType = .clr ∧
    c.txnId = t := by
  induction n generalizing w L with
  | zero => exact ⟨[], by rwa [append_nil], nofun⟩
  | succ n ih =>
    have hle := le_trans (bufferedLen_compensateNext w t)
      (bufferedLen_compensateAll (w.compensateNext t).1 t n)
    obtain ⟨D, h', hD⟩ :=
      h.compensateNext (t := t) (h.logged.bufferedLen_eq ▸ lt_of_le_of_lt hle hlen)
    obtain ⟨D', h'', hD'⟩ := ih h' hlen
    rw [append_assoc] at h''
    exact ⟨D ++ D', h'', fun c hc => (mem_append.1 hc).elim (hD c) (hD' c)⟩

/-- **A rollback** appends the compensations of its transaction and its end. -/
lemma WalInv.rollback (h : WalInv sem s0 w L) (hlen : (w.rollback t).sink.bufferedLen < 2 ^ 64) :
    ∃ D, WalInv sem s0 (w.rollback t) (L ++ D) ∧ RollsBack L D := by
  unfold WalManager.rollback at hlen ⊢
  cases hst : w.active.lookup t with
  | none =>
    refine ⟨[], ?_, nofun, fun A e B hsplit => by simp at hsplit⟩
    have hnone : w.finishRollback t = w := by
      unfold WalManager.finishRollback
      rw [hst]
    rw [append_nil]
    exact hnone.symm ▸ h
  | some st =>
    rw [hst] at hlen
    have hall := lt_of_le_of_lt (bufferedLen_finishRollback ..) hlen
    have ht := h.active hst
    have hlose : Loser L t := ⟨ht.txn, ht.started, ht.open⟩
    obtain ⟨D, h', hD⟩ := h.compensateAll _ hall
    obtain ⟨D', h'', hD'⟩ := h'.finishRollback (t := t) (h'.logged.bufferedLen_eq ▸ hall)
    rw [append_assoc] at h''
    refine ⟨D ++ D', h'', fun c hc => ?_, fun A e B hsplit htype => ?_⟩
    · rcases mem_append.1 hc with hc | hc
      · exact ⟨.inl (hD c hc).1, (hD c hc).2.symm ▸ hlose⟩
      · rcases hD' with rfl | ⟨rfl, -⟩
        · cases hc
        · rw [mem_singleton.1 hc]
          exact ⟨.inr rfl, hlose⟩
    · -- the end record is the last one, with an empty undo stack before it
      have hnot : e ∉ D := fun he => by cases htype.symm.trans (hD e he).1
      have he : e ∈ D' :=
        (mem_append.1 (hsplit ▸ mem_append_right A mem_cons_self)).resolve_left hnot
      rcases hD' with rfl | ⟨rfl, -⟩
      · cases he
      obtain rfl := mem_singleton.1 he
      have hB : B = [] := by
        rcases eq_nil_or_concat B with rfl | ⟨B', b, rfl⟩
        · rfl
        · rw [concat_eq_append, ← cons_append, ← append_assoc] at hsplit
          have hD := (append_inj' hsplit rfl).1
          exact absurd (hD ▸ mem_append_right A mem_cons_self) hnot
      subst hB
      obtain rfl : D = A := (append_inj' hsplit rfl).1
      have hlook := lookup_compensateAll w t st.undo.length
      rw [hst, Option.map_some, drop_length] at hlook
      exact (h'.active hlook).undo.undo_nil

/-- A record of no transaction. -/
lemma WalInv.appendNull (h : WalInv sem s0 w L) {r : LogRecord} (htxn : r.txnId = 0)
    (htype : r.recType = .checkpointBegin ∨ r.recType = .checkpointEnd) (hlsn : r.lsn = logEnd L)
    (hfits : r.Fits) : WalInv sem s0 { w with sink := w.sink.append r.encode } (L ++ [r]) := by
  refine h.append hlsn hfits (.checkpoint htype htxn) rfl (fun _ _ => rfl) (fun {st} hst => ?_)
    fun h0 => absurd htxn h0
  exact absurd htxn (h.active hst).txn

lemma length_encodePairs (ps : List (Nat × Nat)) :
    (CheckpointSnapshot.encodePairs ps).length = 4 + 16 * ps.length := by
  rw [CheckpointSnapshot.encodePairs, length_append]
  congr 1
  induction ps with
  | nil => rfl
  | cons p ps ih =>
    rw [flatMap_cons, length_append, length_append, Bytes.length_le, Bytes.length_le, length_cons]
    omega

lemma WalInv.checkpoint (h : WalInv sem s0 w L) {dirtyPages : List (Nat × Nat)}
    (hsize : 16 * (dirtyPages.length + w.active.entries.length) + 128 < 2 ^ 32)
    (hlen : (w.checkpoint dirtyPages).1.sink.bufferedLen < 2 ^ 64) :
    ∃ L', WalInv sem s0 (w.checkpoint dirtyPages).1 L' := by
  let b : LogRecord := { recType := .checkpointBegin, txnId := 0, lsn := w.nextLsn }
  let w1 : WalManager := { w with sink := w.sink.append b.encode }
  let snapshot : CheckpointSnapshot :=
    { dirtyPages, activeTxns := (w.active.entries.map fun e => (e.1, e.2.lastLsn)).insertionSort
        fun a b => a.1 ≤ b.1 }
  let e : LogRecord :=
    { recType := .checkpointEnd, txnId := 0, redo := snapshot.encode, lsn := w1.nextLsn }
  have hrun : (w.checkpoint dirtyPages).1 =
    ({ w1 with sink := w1.sink.append e.encode } : WalManager).harden := rfl
  rw [hrun, bufferedLen_harden] at hlen
  have hlen1 : w1.sink.bufferedLen < 2 ^ 64 := lt_of_le_of_lt (bufferedLen_append ..) hlen
  have hlen0 : w.sink.bufferedLen < 2 ^ 64 := lt_of_le_of_lt (bufferedLen_append ..) hlen1
  have hb : b.Fits := by
    refine ⟨?_, hlen0, ?_, ?_, ?_, ?_⟩ <;> simp [b, encodedLen, recFixedPrefix]
  have h1 : WalInv sem s0 w1 (L ++ [b]) := h.appendNull rfl (.inl rfl) h.logged.bufferedLen_eq hb
  have he : e.Fits := by
    refine ⟨?_, hlen1, ?_, ?_, ?_, ?_⟩
    · have hsnap : snapshot.encode.length = 8 +
        16 * (dirtyPages.length + w.active.entries.length) := by
        rw [CheckpointSnapshot.encode, length_append, length_encodePairs, length_encodePairs]
        simp only [snapshot, length_insertionSort, length_map]
        omega
      simp only [e, encodedLen, recFixedPrefix, length_nil]
      omega
    all_goals simp [e]
  exact ⟨_, (h1.appendNull rfl (.inr rfl) h1.logged.bufferedLen_eq he).harden⟩

/-! ## Runs -/

lemma bufferedLen_step {op : WalOp} {w' : WalManager} (hstep : w.step op = some w') :
    w.sink.bufferedLen ≤ w'.sink.bufferedLen := by
  cases op <;> cases hstep
  case begin | logUpdate | logUpdateRedoOnly => exact bufferedLen_append ..
  case commit t ts =>
    unfold commit
    cases w.active.lookup t with
    | none => exact le_rfl
    | some st =>
      rw [bufferedLen_harden]
      exact bufferedLen_append ..
  case compensateNext => exact bufferedLen_compensateNext ..
  case finishRollback | abort => exact bufferedLen_finishRollback ..
  case rollback => exact le_trans (bufferedLen_compensateAll ..) (bufferedLen_finishRollback ..)
  case checkpoint =>
    unfold checkpoint
    rw [bufferedLen_harden]
    exact le_trans (bufferedLen_append ..) (bufferedLen_append ..)
  case flush => exact le_of_eq (bufferedLen_harden w).symm

/-- **One call** leaves a log that may be written. -/
lemma WalInv.step (h : WalInv sem s0 w L) {op : WalOp} (hok : w.Allowed sem s0 op)
    {w' : WalManager} (hstep : w.step op = some w') : ∃ L', WalInv sem s0 w' L' := by
  obtain ⟨hcall, hlen⟩ := hok
  have hlen' : w'.sink.bufferedLen < 2 ^ 64 := lt_trans (hlen w' hstep) (by decide)
  have hlenL : logEnd L < 2 ^ 64 :=
    h.logged.bufferedLen_eq ▸ lt_of_le_of_lt (bufferedLen_step hstep) hlen'
  have hrec : w.records = L := h.logged.records_eq
  unfold WalManager.CallAllowed at hcall
  rw [hrec] at hcall
  cases op <;> cases hstep
  case begin => exact h.begin hcall.1 hcall.2.1 hcall.2.2 hlenL
  case logUpdate => exact h.noteUpdate hlenL hcall _ fun _ => .inl rfl
  case logUpdateRedoOnly => exact h.noteUpdate hlenL hcall id fun _ => .inr ⟨rfl, rfl⟩
  case commit t ts => exact h.commit hcall hlenL ts
  case compensateNext => exact (h.compensateNext hlenL).imp' _ fun _ h => h.1
  case finishRollback | abort => exact (h.finishRollback hlenL).imp' _ fun _ h => h.1
  case rollback => exact (h.rollback hlen').imp' _ fun _ h => h.1
  case checkpoint => exact h.checkpoint hcall hlen'
  case flush => exact ⟨L, h.harden⟩

lemma WalInv.fresh : WalInv sem s0 .fresh [] where
  logged := ⟨rfl, .nil, .nil⟩
  active h := by cases h
  inactive _ _ h := by
    obtain ⟨r, hr, -⟩ := h
    cases hr

/-- **Every run of the manager** leaves a log that may be written, and of bounded length. -/
theorem WalInv.of_exec {ops : List WalOp} {w : WalManager}
    (hrun : Run.exec WalManager.step .fresh ops = some w)
    (hok : Run.Along WalManager.step (WalManager.Allowed sem s0) .fresh ops) :
    (∃ L, WalInv sem s0 w L) ∧ w.sink.bufferedLen < 2 ^ 63 := by
  refine Run.exec_preserves (I := fun w => (∃ L, WalInv sem s0 w L) ∧ w.sink.bufferedLen < 2 ^ 63)
    (fun {w op w'} h hok hstep => ?_) ⟨⟨[], WalInv.fresh⟩, by decide +kernel⟩ hok hrun
  obtain ⟨⟨L, h⟩, -⟩ := h
  exact ⟨h.step hok hstep, hok.2 w' hstep⟩

end Calls

end Graphus
