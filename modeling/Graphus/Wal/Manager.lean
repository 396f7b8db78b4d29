import Mathlib.Data.List.Sort
import Graphus.Lib.Dict
import Graphus.Wal.Checkpoint
import Graphus.Wal.Scan

/-!
# The log manager

`WalManager` (`graphus-wal/src/manager.rs`): it assigns LSNs, links each transaction's records,
keeps the undo entries of active transactions in memory, and writes compensation records on
rollback. A failed sync ends the process, so `harden` makes every appended byte durable. The page a
compensating image is applied to is the caller's; the manager hands the image out.
-/

namespace Graphus

/-- One undoable action of an active transaction. -/
structure UndoEntry where
  lsn : Nat
  pageId : Nat
  undo : Bytes
  prevLsn : Nat

/-- The state of an active transaction. -/
structure TxnState where
  firstLsn : Nat
  lastLsn : Nat
  /-- newest first -/
  undo : List UndoEntry := []

structure WalManager where
  sink : LogSink
  active : Dict Nat TxnState := ∅

namespace WalManager

def headerBytes : Bytes := Bytes.le 4 walMagic ++ Bytes.le 4 walVersion

variable (w : WalManager)

def nextLsn : Nat := w.sink.bufferedLen

/-- Append a record at the end of the log; its LSN is its offset. -/
def append (w : WalManager) (r : LogRecord) : WalManager × Nat :=
  let r := { r with lsn := w.nextLsn }
  ({ w with sink := w.sink.append r.encode }, r.lsn)

def harden : WalManager := { w with sink := w.sink.sync }

def create (sink : LogSink) : Except WalError WalManager :=
  if sink.bufferedLen ≠ 0 then .error .createNotEmpty
  else .ok (harden { sink := sink.append headerBytes })

/-- Open an existing log; no transaction is active. -/
def «open» (sink : LogSink) : Except WalError WalManager :=
  if sink.durableLen < headerLen then .error .tooShort
  else
    let hdr := sink.readBounded 0 headerLen
    if Bytes.field hdr 0 4 ≠ walMagic then .error .badMagic
    else if Bytes.field hdr 4 4 ≠ walVersion then
      .error (.unsupportedVersion (Bytes.field hdr 4 4))
    else .ok { sink }

def begin (w : WalManager) (txn : Nat) : WalManager × Nat :=
  let (w, lsn) := w.append { recType := .begin, txnId := txn }
  ({ w with active := w.active.insert txn { firstLsn := lsn, lastLsn := lsn } }, lsn)

/-- The last LSN of an active transaction, or the null LSN. -/
def lastLsn (w : WalManager) (txn : Nat) : Nat := ((w.active.lookup txn).map (·.lastLsn)).getD 0

/-- Note a logged update in the transaction's entry, made if there is none. -/
def noteUpdate (txn lsn : Nat) (push : List UndoEntry → List UndoEntry) :
    WalManager :=
  let st := (w.active.lookup txn).getD { firstLsn := lsn, lastLsn := lsn }
  { w with active := w.active.insert txn { st with lastLsn := lsn, undo := push st.undo } }

/-- Log an update with its inverse (`log_update_borrowed`; every durable sink retains undo). -/
def logUpdate (txn pageId : Nat) (redo undo : Bytes) : WalManager × Nat :=
  let prevLsn := w.lastLsn txn
  let (w, lsn) := w.append { recType := .update, txnId := txn, pageId, prevLsn, redo, undo }
  (w.noteUpdate txn lsn fun entries => { lsn, pageId, undo, prevLsn } :: entries, lsn)

/-- Log an update that has no physical inverse. -/
def logUpdateRedoOnly (txn pageId : Nat) (redo : Bytes) : WalManager × Nat :=
  let prevLsn := w.lastLsn txn
  let (w, lsn) := w.append { recType := .update, txnId := txn, pageId, prevLsn, redo }
  (w.noteUpdate txn lsn id, lsn)

/-- `commit`, and `commit_at` with the eight bytes of the timestamp as payload. -/
def commit (w : WalManager) (txn : Nat) (commitTs : Option Nat) :
    WalManager × Except WalError Nat :=
  match w.active.lookup txn with
  | none => (w, .error (.commitInactive txn))
  | some st =>
    let redo := (commitTs.map (Bytes.le 8)).getD []
    let (w, lsn) := w.append { recType := .commit, txnId := txn, prevLsn := st.lastLsn, redo }
    (harden { w with active := w.active.erase txn }, .ok lsn)

def writeClr (txn pageId compensatedLsn : Nat) (image : Bytes)
    (undoNext : Nat) : WalManager × Nat :=
  w.append { recType := .clr, txnId := txn, pageId, prevLsn := compensatedLsn,
             undoNextLsn := undoNext, redo := image }

def writeEnd (txn : Nat) : WalManager × Nat :=
  w.append { recType := .abort, txnId := txn }

/-- Compensate the newest undo entry of `txn`; the page, LSN and image to apply, if there was
one. -/
def compensateNext (txn : Nat) :
    WalManager × Option (Nat × Nat × Bytes) :=
  match w.active.lookup txn with
  | none => (w, none)
  | some st =>
    match st.undo with
    | [] => (w, none)
    | entry :: rest =>
      let w := { w with active := w.active.insert txn { st with undo := rest } }
      let (w, clrLsn) := w.writeClr txn entry.pageId entry.lsn entry.undo entry.prevLsn
      (w, some (entry.pageId, clrLsn, entry.undo))

/-- End `txn` as aborted: the tail of a rollback, and the whole of a plain abort, which leaves the
transaction's changes to its caller. -/
def finishRollback (txn : Nat) : WalManager :=
  match w.active.lookup txn with
  | none => w
  | some _ =>
    let w := { w with active := w.active.erase txn }
    (w.writeEnd txn).1.harden

def abort (txn : Nat) : WalManager := w.finishRollback txn

/-- Compensate `n` entries, newest first. -/
def compensateAll (w : WalManager) (txn : Nat) : Nat → WalManager
  | 0 => w
  | n + 1 => (w.compensateNext txn).1.compensateAll txn n

/-- Roll `txn` back: compensate every undo entry, then end it. -/
def rollback (txn : Nat) : WalManager :=
  let entries := ((w.active.lookup txn).map (·.undo.length)).getD 0
  (w.compensateAll txn entries).finishRollback txn

/-- A fuzzy checkpoint with the caller's dirty page table. -/
def checkpoint (w : WalManager) (dirtyPages : List (Nat × Nat)) : WalManager × Nat :=
  let (w, _) := w.append { recType := .checkpointBegin, txnId := 0 }
  let snapshot : CheckpointSnapshot :=
    { dirtyPages, activeTxns := (w.active.entries.map fun e => (e.1, e.2.lastLsn)).insertionSort
        fun a b => a.1 ≤ b.1 }
  let (w, lsn) := w.append { recType := .checkpointEnd, txnId := 0, redo := snapshot.encode }
  (w.harden, lsn)

end WalManager

/-! ## Runs -/

/-- A call of the manager. -/
inductive WalOp where
  | begin (txn : Nat)
  | logUpdate (txn pageId : Nat) (redo undo : Bytes)
  | logUpdateRedoOnly (txn pageId : Nat) (redo : Bytes)
  | commit (txn : Nat) (commitTs : Option Nat)
  | compensateNext (txn : Nat)
  | finishRollback (txn : Nat)
  | rollback (txn : Nat)
  | abort (txn : Nat)
  | checkpoint (dirtyPages : List (Nat × Nat))
  | flush

/-- The manager accepts every call. -/
def WalManager.step (w : WalManager) : WalOp → Option WalManager
  | .begin txn => some (w.begin txn).1
  | .logUpdate txn pageId redo undo => some (w.logUpdate txn pageId redo undo).1
  | .logUpdateRedoOnly txn pageId redo => some (w.logUpdateRedoOnly txn pageId redo).1
  | .commit txn commitTs => some (w.commit txn commitTs).1
  | .compensateNext txn => some (w.compensateNext txn).1
  | .finishRollback txn => some (w.finishRollback txn)
  | .rollback txn => some (w.rollback txn)
  | .abort txn => some (w.abort txn)
  | .checkpoint dirtyPages => some (w.checkpoint dirtyPages).1
  | .flush => some w.harden

/-- A fresh log. -/
def WalManager.fresh : WalManager := { sink := { durable := headerBytes } }

end Graphus
