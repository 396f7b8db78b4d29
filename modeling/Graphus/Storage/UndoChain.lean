import Graphus.Core.Version
import Graphus.Lib.Dict
import Graphus.Lib.LinkedChain
import Graphus.Lib.Run

/-!
# Undo chains and their writers

Every versioned entity has a chain of undo deltas, the newest at the head. A delta names the commit
slot of its transaction, which holds an in-flight stamp until the commit publishes a timestamp in
it.

`link_delta` reads the head, checks that no other transaction holds it, writes its delta with the
head as its next one, and publishes the delta by a compare-and-publish of the head. If the head has
moved, it reads the head again, checks again and links again. The check reads the delta at the head,
then its commit slot, then the active table; these are three steps here. A commit issues its
timestamp, publishes the slot and leaves the active table. A logical rollback takes the deltas of
its transaction off the head of each chain, frees them and the slot, and leaves the active table.
Freed ids are used again.

What the deltas record and what a rollback restores is not part of this model. An entity is any key,
and an id is taken from the free ones or is the next fresh one.
-/

namespace Graphus

open Function

/-- The null id. -/
def nullDelta : Nat := 0

/-- A commit slot. -/
structure CommitSlot where
  inUse : Bool
  txnId : Nat
  commitTs : VersionStamp
  deriving DecidableEq

/-- The transaction of a live slot that has not published a timestamp. -/
def openWriterOf (slot : CommitSlot) : Option Nat :=
  if slot.inUse then
    match slot.commitTs with
    | .inFlight w => some w
    | .committed _ | .none => none
  else none

/-- `CommandId::next`: the counter of a transaction's statements is a u32 that saturates. -/
def nextCommandId (command : Nat) : Nat := if command < 2 ^ 32 - 1 then command + 1 else command

lemma le_nextCommandId (command : Nat) : command ≤ nextCommandId command := by
  unfold nextCommandId
  split <;> omega

/-- An undo delta, without its action. -/
structure UndoDelta where
  inUse : Bool
  commitInfo : Nat
  next : Nat
  commandId : Nat

structure UndoLink (Entity : Type) where
  entity : Entity
  delta : Nat
  deriving DecidableEq

/-- Where a transaction is. In the phases of `link_delta`, `entry` is the delta it has written. -/
inductive WriterPhase (Entity : Type) where
  | idle
  /-- It has read the head of the chain. -/
  | headRead (entity : Entity) (entry : Option Nat) (head : Nat)
  /-- It has read a live delta at the head. -/
  | deltaRead (entity : Entity) (entry : Option Nat) (head commitInfo : Nat)
  | slotRead (entity : Entity) (entry : Option Nat) (head : Nat) (slot : CommitSlot)
  /-- The check has passed. -/
  | unheld (entity : Entity) (entry : Option Nat) (head : Nat)
  /-- Its delta is linked to the head. -/
  | publishing (entity : Entity) (entry head : Nat)
  | refused (entity : Entity) (entry : Nat)
  /-- Its delta is published and not registered. -/
  | published (entity : Entity) (entry : Nat)
  /-- It has its commit timestamp. -/
  | committing (ts : Nat)
  | slotPublished
  /-- The chains that a rollback has still to visit, and the deltas it has detached. -/
  | detaching (todo : List Entity) (detached : List Nat)
  /-- A rollback has walked past its deltas on one chain. -/
  | walked (entity : Entity) (observed head : Nat) (todo : List Entity) (detached : List Nat)
  /-- The deltas that a rollback has still to free. -/
  | freeing (todo : List (UndoLink Entity)) (detached : List Nat)
  | slotFreed
  /-- A rollback that has met an error. -/
  | failed
  deriving DecidableEq

/-- An entry of the active table. -/
structure WriterTxn (Entity : Type) where
  beginTs : Nat
  command : Nat := 0
  commitSlot : Option Nat := none
  undoLinks : List (UndoLink Entity) := []
  phase : WriterPhase Entity := .idle

/-- The undo area. `clock` is the last commit timestamp issued, and `begun` records the begin
timestamps of all transactions. -/
structure UndoArea (Entity : Type) where
  undoPtr : Entity → Nat := fun _ => nullDelta
  delta : Nat → Option UndoDelta := fun _ => none
  slot : Nat → Option CommitSlot := fun _ => none
  freeDeltas : List Nat := []
  deltaHw : Nat := 0
  freeSlots : List Nat := []
  slotHw : Nat := 0
  active : Dict Nat (WriterTxn Entity) := ∅
  clock : Nat := 0
  begun : Nat → Option Nat := fun _ => none

namespace UndoArea

variable {Entity : Type} [DecidableEq Entity] (s : UndoArea Entity)

omit [DecidableEq Entity] in
/-- The next delta of a chain. -/
def next (id : Nat) : Nat := ((s.delta id).map UndoDelta.next).getD nullDelta

omit [DecidableEq Entity] in
def setWriter (txn : Nat) (w : WriterTxn Entity) : UndoArea Entity :=
  { s with active := s.active.insert txn w }

/-! ## Linking a delta -/

/-- The error of `link_delta`: a delta that is written and not published is retired. -/
def refuse (txn : Nat) (w : WriterTxn Entity) (entry : Option Nat) : UndoArea Entity :=
  { s.setWriter txn { w with phase := .idle } with
    delta := match entry with
      | some id => update s.delta id ((s.delta id).map fun d => { d with inUse := false })
      | none => s.delta }

/-- The last step of `ensure_chain_head_unheld`, with the slot it has read. -/
def slotUnheld (txn : Nat) (w : WriterTxn Entity) (slot : CommitSlot) : Bool :=
  (match openWriterOf slot with
    | some holder => !(holder ≠ txn ∧ holder ∈ s.active)
    | none => true) &&
  match slot.commitTs with
  | .committed ts => !(slot.txnId ≠ txn ∧ w.beginTs < ts)
  | .inFlight _ | .none => true

/-- The steps of `link_delta`. -/
inductive LinkOp (Entity : Type) where
  | readHead (entity : Entity)
  | readDelta
  | readSlot
  | checkActive
  /-- A delta is allocated and written. -/
  | writeDelta (id : Nat)
  | relink
  | compareAndPublish
  | reread
  | register
  /-- `MAX_ATTEMPTS` publications were refused. -/
  | exhausted

/-- Whether an id can be allocated. -/
def allocatable (free : List Nat) (hw id : Nat) : Prop := id ∈ free ∨ id = hw + 1

instance (free : List Nat) (hw id : Nat) : Decidable (allocatable free hw id) :=
  inferInstanceAs (Decidable (id ∈ free ∨ id = hw + 1))

def linkStep (txn : Nat) (w : WriterTxn Entity) : LinkOp Entity → Option (UndoArea Entity)
  | .readHead entity =>
    if w.phase = .idle ∧ w.commitSlot.isSome then
      some (s.setWriter txn { w with phase := .headRead entity none (s.undoPtr entity) })
    else none
  | .readDelta =>
    match w.phase with
    | .headRead entity entry head =>
      if head = nullDelta then some (s.setWriter txn { w with phase := .unheld entity entry head })
      else
        match s.delta head with
        | none => some (s.refuse txn w entry)
        | some d =>
          if d.inUse then
            some (s.setWriter txn { w with phase := .deltaRead entity entry head d.commitInfo })
          else some (s.setWriter txn { w with phase := .unheld entity entry head })
    | _ => none
  | .readSlot =>
    match w.phase with
    | .deltaRead entity entry head commitInfo =>
      match s.slot commitInfo with
      | none => some (s.refuse txn w entry)
      | some slot => some (s.setWriter txn { w with phase := .slotRead entity entry head slot })
    | _ => none
  | .checkActive =>
    match w.phase with
    | .slotRead entity entry head slot =>
      if s.slotUnheld txn w slot then
        some (s.setWriter txn { w with phase := .unheld entity entry head })
      else some (s.refuse txn w entry)
    | _ => none
  | .writeDelta id =>
    match w.phase, w.commitSlot with
    | .unheld entity none head, some slot =>
      if allocatable s.freeDeltas s.deltaHw id then
        some { s.setWriter txn { w with phase := .publishing entity id head } with
          delta := update s.delta id (some ⟨true, slot, head, w.command⟩)
          freeDeltas := s.freeDeltas.erase id
          deltaHw := max s.deltaHw id }
      else none
    | _, _ => none
  | .relink =>
    match w.phase with
    | .unheld entity (some id) head =>
      some { s.setWriter txn { w with phase := .publishing entity id head } with
        delta := update s.delta id ((s.delta id).map fun d => { d with next := head }) }
    | _ => none
  | .compareAndPublish =>
    match w.phase with
    | .publishing entity id head =>
      if s.undoPtr entity = head then
        some { s.setWriter txn { w with phase := .published entity id } with
          undoPtr := update s.undoPtr entity id }
      else some (s.setWriter txn { w with phase := .refused entity id })
    | _ => none
  | .reread =>
    match w.phase with
    | .refused entity id =>
      some (s.setWriter txn { w with phase := .headRead entity (some id) (s.undoPtr entity) })
    | _ => none
  | .register =>
    match w.phase with
    | .published entity id =>
      some (s.setWriter txn { w with phase := .idle, undoLinks := w.undoLinks ++ [⟨entity, id⟩] })
    | _ => none
  | .exhausted =>
    match w.phase with
    | .refused _ id => some (s.refuse txn w (some id))
    | _ => none

/-! ## Commits and rollbacks -/

/-- The walk of `detach_own_deltas` past the deltas of a slot: the head it reaches and the deltas it
passes. `none` is a malformed chain. -/
def walkOwn (slot : Nat) : Nat → Nat → List Nat → Option (Nat × List Nat)
  | fuel, head, detached =>
    if head = nullDelta then some (head, detached)
    else
      match fuel with
      | 0 => none
      | fuel + 1 =>
        match s.delta head with
        | none => none
        | some d =>
          if d.commitInfo = slot then walkOwn slot fuel d.next (detached ++ [head]) else some
            (head, detached)

/-- The steps that open the slot, advance the statement counter, and end a transaction. -/
inductive EndOp where
  | openSlot (id : Nat)
  | nextCommand
  | issueTs
  | publishCommitSlot
  | settle
  | beginRollback
  | walk
  | detach
  | freeDelta
  | freeSlot
  | endRollback

def endStep (txn : Nat) (w : WriterTxn Entity) : EndOp → Option (UndoArea Entity)
  | .openSlot id =>
    if w.phase = .idle ∧ w.commitSlot = none ∧ allocatable s.freeSlots s.slotHw id then
      some { s.setWriter txn { w with commitSlot := some id } with
        slot := update s.slot id (some ⟨true, txn, .inFlight txn⟩)
        freeSlots := s.freeSlots.erase id
        slotHw := max s.slotHw id }
    else none
  | .nextCommand =>
    if w.phase = .idle then some (s.setWriter txn { w with command := nextCommandId w.command })
    else none
  | .issueTs =>
    if w.phase = .idle then
      some { s.setWriter txn { w with phase := .committing (s.clock + 1) } with
        clock := s.clock + 1 }
    else none
  | .publishCommitSlot =>
    match w.phase with
    | .committing ts =>
      some { s.setWriter txn { w with phase := .slotPublished } with
        slot := match w.commitSlot with
          | some id =>
            update s.slot id ((s.slot id).map fun sl => { sl with commitTs := .committed ts })
          | none => s.slot }
    | _ => none
  | .settle =>
    if w.phase = .slotPublished then some { s with active := s.active.erase txn } else none
  | .beginRollback =>
    if w.phase = .idle ∧ w.commitSlot.isSome then
      some (s.setWriter txn
        { w with phase := .detaching (w.undoLinks.map UndoLink.entity).dedup [] })
    else none
  | .walk =>
    match w.phase, w.commitSlot with
    | .detaching (entity :: todo) detached, some slot =>
      match s.walkOwn slot (s.deltaHw + 1) (s.undoPtr entity) detached with
      | some (head, detached) =>
        some (s.setWriter txn
          { w with phase := .walked entity (s.undoPtr entity) head todo detached })
      | none => some (s.setWriter txn { w with phase := .failed })
    | .detaching [] detached, some _ =>
      some (s.setWriter txn { w with phase := .freeing w.undoLinks.reverse detached })
    | _, _ => none
  | .detach =>
    match w.phase with
    | .walked entity observed head todo detached =>
      if head = observed then some (s.setWriter txn { w with phase := .detaching todo detached })
      else if s.undoPtr entity = observed then
        some { s.setWriter txn { w with phase := .detaching todo detached } with
          undoPtr := update s.undoPtr entity head }
      else some (s.setWriter txn { w with phase := .failed })
    | _ => none
  | .freeDelta =>
    match w.phase with
    | .freeing (link :: todo) detached =>
      if link.delta ∈ detached then
        some { s.setWriter txn { w with phase := .freeing todo detached } with
          delta := update s.delta link.delta
            ((s.delta link.delta).map fun d => { d with inUse := false })
          freeDeltas := link.delta :: s.freeDeltas }
      else some (s.setWriter txn { w with phase := .failed })
    | _ => none
  | .freeSlot =>
    match w.phase, w.commitSlot with
    | .freeing [] _, some slot =>
      some { s.setWriter txn { w with phase := .slotFreed } with
        slot := update s.slot slot ((s.slot slot).map fun sl => { sl with inUse := false })
        freeSlots := slot :: s.freeSlots }
    | _, _ => none
  | .endRollback =>
    if w.phase = .slotFreed then some { s with active := s.active.erase txn } else none

/-! ## Runs -/

inductive Op (Entity : Type) where
  /-- A transaction begins, with a snapshot no newer than the last commit timestamp. -/
  | start (txn beginTs : Nat)
  | link (txn : Nat) (op : LinkOp Entity)
  | finish (txn : Nat) (op : EndOp)

def step : Op Entity → Option (UndoArea Entity)
  | .start txn beginTs =>
    if s.begun txn = none ∧ beginTs ≤ s.clock then
      some { s.setWriter txn { beginTs := beginTs } with
        begun := update s.begun txn (some beginTs) }
    else none
  | .link txn op => (s.active.lookup txn).bind fun w => s.linkStep txn w op
  | .finish txn op => (s.active.lookup txn).bind fun w => s.endStep txn w op

end UndoArea

end Graphus
