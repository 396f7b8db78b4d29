import Graphus.Wal.Manager

/-!
# Recovery

The three passes of `recover_from_windowed` (`graphus-wal/src/recovery.rs`): analysis finds the
committed and ended transactions and the last checkpoint, redo repeats history on the pages, and
undo rolls the losers back in descending LSN order, writing a compensation record for every action.
What an image means for a page is a parameter (`ApplyTarget`), taken to succeed.
-/

namespace Graphus

/-- A page with the LSN of the last change on it. -/
structure Page (γ : Type) where
  lsn : Nat := 0
  content : γ

/-- The pages of an `ApplyTarget`. -/
abbrev Pages (γ : Type) := Nat → Page γ

/-- `ApplyTarget::apply`: change the page and stamp it. -/
def Pages.apply {γ : Type} (image : Bytes → γ → γ) (pages : Pages γ) (pageId lsn : Nat)
    (bytes : Bytes) : Pages γ :=
  Function.update pages pageId { lsn, content := image bytes (pages pageId).content }

/-! ## Analysis -/

structure Analysis where
  committed : List Nat := []
  ended : List Nat := []
  /-- transaction ↦ LSN of its last record -/
  txnLast : Dict Nat Nat := ∅
  lastCheckpoint : Option CheckpointSnapshot := none
  lastCheckpointLsn : Option Nat := none
  recordsScanned : Nat := 0

namespace Analysis

def onRecord (a : Analysis) (r : LogRecord) : Analysis :=
  let a := { a with recordsScanned := a.recordsScanned + 1 }
  let a :=
    match r.recType with
    | .commit => { a with committed := a.committed.insert r.txnId }
    | .abort => { a with ended := a.ended.insert r.txnId }
    | .checkpointEnd =>
      match CheckpointSnapshot.decode r.redo with
      | some snapshot =>
        { a with lastCheckpoint := some snapshot, lastCheckpointLsn := some r.lsn }
      | none => a
    | _ => a
  if r.txnId ≠ 0 then { a with txnLast := a.txnLast.insert r.txnId r.lsn } else a

/-- Where redo starts: the smallest recovery LSN of the checkpoint, its own LSN when no page was
dirty, or the first record. -/
def redoStart (a : Analysis) : Nat :=
  ((a.lastCheckpoint.bind CheckpointSnapshot.redoStart).or a.lastCheckpointLsn).getD headerLen

/-- The transactions with neither a commit nor an abort record. -/
def losers (a : Analysis) : List Nat :=
  a.txnLast.keys.filter fun t => decide (t ∉ a.committed ∧ t ∉ a.ended)

end Analysis

/-! ## Redo -/

structure RedoState (γ : Type) where
  pages : Pages γ
  applied : Nat := 0

/-- Apply a page change that is not yet on its page. -/
def RedoState.onRecord {γ : Type} (image : Bytes → γ → γ) (redoStart : Nat) (st : RedoState γ)
    (r : LogRecord) : RedoState γ :=
  if redoStart ≤ r.lsn ∧ r.recType.isPageChange = true ∧ r.redo ≠ [] ∧
      (st.pages r.pageId).lsn < r.lsn then
    { pages := st.pages.apply image r.pageId r.lsn r.redo, applied := st.applied + 1 }
  else st

/-! ## Undo -/

structure UndoState (γ : Type) where
  wal : WalManager
  pages : Pages γ
  clrsWritten : Nat := 0

/-- Push an LSN on the heap, unless it is the null LSN. -/
def pushLsn (heap : List Nat) (lsn : Nat) : List Nat := if lsn ≠ 0 then lsn :: heap else heap

/-- One turn of the loop: the record at the greatest LSN of the heap. Nothing is left to do when the
heap is empty. -/
def undoStep {γ : Type} (image : Bytes → γ → γ) (undoFloor : Nat) (heap : List Nat)
    (st : UndoState γ) : Except WalError (Option (List Nat × UndoState γ)) :=
  match heap.max? with
  | none => .ok none
  | some lsn =>
    let heap := heap.erase lsn
    if lsn < undoFloor then .ok (some (heap, st))
    else do
      let r ← st.wal.sink.readRecordAt lsn
      if r.recType = .clr then
        -- undone already: resume at the next LSN to undo
        .ok (some (pushLsn heap r.undoNextLsn, st))
      else if r.recType.isUndoableAction = true then
        let (wal, clrLsn) := st.wal.writeClr r.txnId r.pageId r.lsn r.undo r.prevLsn
        let pages := if r.undo ≠ [] then st.pages.apply image r.pageId clrLsn r.undo else st.pages
        .ok (some (pushLsn heap r.prevLsn, { wal, pages, clrsWritten := st.clrsWritten + 1 }))
      else .ok (some (pushLsn heap r.prevLsn, st))

/-- Undo from the greatest LSN of the heap down. -/
def undoLoop {γ : Type} (image : Bytes → γ → γ) (undoFloor : Nat) :
    Nat → List Nat → UndoState γ → Except WalError (UndoState γ)
  | 0, _, _ => .error .outOfFuel
  | fuel + 1, heap, st => do
    match ← undoStep image undoFloor heap st with
    | none => .ok st
    | some (heap, st) => undoLoop image undoFloor fuel heap st

/-- The states the loop passes through. -/
def undoTrace {γ : Type} (image : Bytes → γ → γ) (undoFloor : Nat) :
    Nat → List Nat → UndoState γ → List (UndoState γ)
  | 0, _, st => [st]
  | fuel + 1, heap, st =>
    st :: match undoStep image undoFloor heap st with
      | .ok (some (heap, st)) => undoTrace image undoFloor fuel heap st
      | _ => []

/-! ## The three passes -/

structure RecoveryReport where
  recordsScanned : Nat
  redoStart : Nat
  redoApplied : Nat
  losers : Nat
  clrsWritten : Nat
  tailTruncated : Bool

/-- Phase 1. The offset of the first record, what the scan found, and whether the tail is torn. -/
def analyse (s : LogSink) (scanStart window : Nat) :
    Except WalError (Option Nat × Analysis × Bool) := do
  let base := max (max scanStart headerLen) s.reclaimedFloor
  let fuel := LogSink.fuelFor s.durableLen
  match ← s.findFirstRecordOffset s.durableLen window fuel base with
  | none => .ok (none, {}, false)
  | some first =>
    match ← s.scanForward s.durableLen window true Analysis.onRecord fuel first window {} with
    | (_, .interiorCorruption offset next) => .error (.interiorCorruption offset next)
    | (a, .complete) => .ok (some first, a, false)
    | (a, .tornTail) => .ok (some first, a, true)

/-- Phase 2. -/
def redo {γ : Type} (image : Bytes → γ → γ) (s : LogSink) (window : Nat) (first : Option Nat)
    (redoStart : Nat) (pages : Pages γ) : Except WalError (RedoState γ) :=
  match first with
  | none => .ok { pages }
  | some first => do
    let (st, _) ← s.scanForward s.durableLen window false (RedoState.onRecord image redoStart)
      (LogSink.fuelFor s.durableLen) first window { pages }
    .ok st

/-- Phase 3. -/
def undo {γ : Type} (image : Bytes → γ → γ) (wal : WalManager) (a : Analysis)
    (undoFloor : Nat) (pages : Pages γ) : Except WalError (UndoState γ) := do
  let heap := a.losers.foldl (fun heap t => pushLsn heap ((a.txnLast.lookup t).getD 0)) []
  let st ← undoLoop image undoFloor (LogSink.fuelFor a.recordsScanned) heap { wal, pages }
  let wal := a.losers.foldl (fun wal t => (wal.writeEnd t).1) st.wal
  .ok { st with wal := wal.harden }

def recoverFromWindowed {γ : Type} (image : Bytes → γ → γ) (wal : WalManager) (pages : Pages γ)
    (scanStart window : Nat) : Except WalError (RecoveryReport × WalManager × Pages γ) := do
  let (first, a, tailTruncated) ← analyse wal.sink scanStart window
  let redone ← redo image wal.sink window first a.redoStart pages
  let base := max (max scanStart headerLen) wal.sink.reclaimedFloor
  let undone ← undo image wal a (first.getD base) redone.pages
  .ok ({ recordsScanned := a.recordsScanned
         redoStart := a.redoStart
         redoApplied := redone.applied
         losers := a.losers.length
         clrsWritten := undone.clrsWritten
         tailTruncated }, undone.wal, undone.pages)

/-- Replay the durable log against the pages, leaving only committed work applied. -/
def recover {γ : Type} (image : Bytes → γ → γ) (wal : WalManager) (pages : Pages γ) :
    Except WalError (RecoveryReport × WalManager × Pages γ) :=
  recoverFromWindowed image wal pages headerLen recoveryWindowBytes

end Graphus
