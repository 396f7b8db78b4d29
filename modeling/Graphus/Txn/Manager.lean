import Graphus.Txn.Oracle
import Graphus.Txn.Ssi
import Graphus.Txn.Store

/-!
# The transaction manager

`TxnManager` (`graphus-txn/src/manager.rs`) over the in-memory version store. Every operation
returns the new state and a result; an error can still change the state (a refused write keeps the
write claim it took, a refused commit rolls the transaction back). The durability hook is outside
the manager: a commit carries its answer. The idle-timeout clock, which none of these operations
reads, is left out.
-/

namespace Graphus

/-- The errors of the manager. -/
inductive TxnError where
  | admissionLimit (max : Nat)
  | txnIdsExhausted
  | timestampsExhausted
  | readInactive (txn : Nat)
  | writeInactive (txn : Nat)
  | commitInactive (txn : Nat)
  | rollbackInactive (txn : Nat)
  | serializationFailure (txn : Nat)
  | writeWriteConflict (key holder : Nat)
  | firstCommitterWins (key : Nat)
  | noLiveHead (key : Nat)
  | durability
  deriving DecidableEq

/-- The state of an in-flight transaction. -/
structure ActiveTxn where
  snapshot : Snapshot
  isolation : IsolationLevel
  /-- the keys it has claimed for writing -/
  written : List Nat := []

structure GcReport where
  lowWater : Option Nat
  versionsReclaimed : Nat
  txnsPruned : Nat
  deriving DecidableEq

structure TxnManager where
  oracle : TimestampOracle := {}
  registry : CommitRegistry := {}
  ssi : SsiTracker := {}
  store : MemVersionedStore := {}
  active : Dict Nat ActiveTxn := ∅
  nextTxnId : Nat := 0
  /-- `DEFAULT_MAX_ACTIVE_TXNS` unless configured -/
  maxActiveTxns : Nat := 100000

namespace TxnManager

variable (m : TxnManager)

/-- Begin a transaction: a fresh id, a begin timestamp, and an entry in every table. -/
def beginTxn (isolation : IsolationLevel) : TxnManager × Except TxnError Nat :=
  if m.maxActiveTxns ≤ m.active.keys.length then (m, .error (.admissionLimit m.maxActiveTxns))
  else if maxTimestamp < m.nextTxnId + 1 then (m, .error .txnIdsExhausted)
  else
    match m.oracle.beginTs with
    | none => (m, .error .timestampsExhausted)
    | some (oracle, ts) =>
      let txn := m.nextTxnId + 1
      ({ m with
          oracle
          nextTxnId := txn
          registry := m.registry.registerBegin txn
          ssi := m.ssi.register txn ts
          active := m.active.insert txn { snapshot := ⟨txn, ts⟩, isolation } }, .ok txn)

/-- Discard the writes of `txn` and forget it. -/
def abortInternal (txn : Nat) : TxnManager :=
  { m with
    store := m.store.abortWriter txn
    registry := m.registry.recordAbort txn
    ssi := m.ssi.forget txn
    active := m.active.erase txn
    oracle :=
      match m.active.lookup txn with
      | none => m.oracle
      | some a => (m.oracle.releaseBegin a.snapshot.ts).1 }

def read (m : TxnManager) (txn key : Nat) :
    TxnManager × Except TxnError (Option Bytes) :=
  match m.active.lookup txn with
  | none => (m, .error (.readInactive txn))
  | some a =>
    ({ m with ssi := m.ssi.recordRead txn key },
      .ok (m.store.readVisible key a.snapshot m.registry))

/-- Another active transaction that has claimed the key. -/
def holder (txn key : Nat) : Option Nat :=
  m.active.keys.find? fun t =>
    decide (t ≠ txn) && (m.active.lookup t).any fun a => a.written.contains key

/-- Claim the key, unless another active transaction holds it. -/
def acquireWrite (txn key : Nat) : TxnManager × Except TxnError Unit :=
  match m.holder txn key with
  | some h => (m, .error (.writeWriteConflict key h))
  | none =>
    ({ m with
        active := m.active.modify txn fun a => { a with written := a.written.insert key } }, .ok ())

/-- Refuse when the head version was created by a commit above the snapshot. -/
def ensureNoConcurrentCommittedWrite (txn key : Nat) : Except TxnError Unit :=
  match m.active.lookup txn with
  | none => .error (.writeInactive txn)
  | some a =>
    match m.store.headXmin key with
    | some (.committed ts) =>
        if a.snapshot.ts < ts then .error (.firstCommitterWins key) else .ok ()
    | _ => .ok ()

/-- The checks a write and a delete share; then `change` is applied to the store. -/
def modifyKey (txn key : Nat)
    (change : MemVersionedStore → Except TxnError MemVersionedStore) :
    TxnManager × Except TxnError Unit :=
  match m.active.lookup txn with
  | none => (m, .error (.writeInactive txn))
  | some _ =>
    match m.acquireWrite txn key with
    | (m, .error e) => (m, .error e)
    | (m, .ok ()) =>
      match m.ensureNoConcurrentCommittedWrite txn key with
      | .error e => (m, .error e)
      | .ok () =>
        match change m.store with
        | .error e => (m, .error e)
        | .ok store => ({ m with store, ssi := m.ssi.recordWrite txn key }, .ok ())

/-- Write a new version of the key. -/
def write (txn key : Nat) (payload : Bytes) :
    TxnManager × Except TxnError Unit :=
  m.modifyKey txn key fun store => .ok (store.createVersion key txn payload)

/-- Expire the live head version of the key. -/
def delete (txn key : Nat) : TxnManager × Except TxnError Unit :=
  m.modifyKey txn key fun store =>
    match store.expireVersion key txn with
    | none => .error (.noLiveHead key)
    | some store => .ok store

/-- The SSI victim of a commit, if the isolation level asks. -/
def ssiVictim (isolation : IsolationLevel) (txn : Nat) : Option Nat :=
  if isolation.runsSsi then m.ssi.detectPivotAbort txn else none

/-- Stamp the versions, record the outcome and free the snapshot. -/
def publish (txn ts : Nat) : TxnManager :=
  { m with
    store := m.store.commitWriter txn ts
    registry := m.registry.recordCommit txn ts
    ssi := m.ssi.recordCommit txn ts
    active := m.active.erase txn
    oracle :=
      match m.active.lookup txn with
      | none => m.oracle
      | some a => (m.oracle.releaseBegin a.snapshot.ts).1 }

/-- Assign the commit timestamp, harden, publish; `durable` is the hook's answer. -/
def hardenAndPublish (txn : Nat) (durable : Bool) :
    TxnManager × Except TxnError Nat :=
  match m.oracle.commitTs with
  | none => (m.abortInternal txn, .error .timestampsExhausted)
  | some (oracle, ts) =>
    let m := { m with oracle }
    if durable then (m.publish txn ts, .ok ts)
    else (m.abortInternal txn, .error .durability)

/-- Commit: validate, abort the victim, then assign, harden and publish. -/
def commit (m : TxnManager) (txn : Nat) (durable : Bool) : TxnManager × Except TxnError Nat :=
  match m.active.lookup txn with
  | none => (m, .error (.commitInactive txn))
  | some a =>
    match m.ssiVictim a.isolation txn with
    | none => m.hardenAndPublish txn durable
    | some victim =>
      if victim = txn then (m.abortInternal txn, .error (.serializationFailure txn))
      else (m.abortInternal victim).hardenAndPublish txn durable

def rollback (m : TxnManager) (txn : Nat) : TxnManager × Except TxnError Unit :=
  match m.active.lookup txn with
  | none => (m, .error (.rollbackInactive txn))
  | some _ => (m.abortInternal txn, .ok ())

/-- One garbage-collection pass at the current low-water mark. -/
def runGc : TxnManager × GcReport :=
  let lowWater := m.oracle.lowWaterMark
  let (store, versionsReclaimed) := m.store.gc lowWater m.registry
  let (registry, txnsPruned) := m.registry.pruneSettled lowWater
  ({ m with store, registry, ssi := (m.ssi.pruneCommitted lowWater).1 },
    { lowWater, versionsReclaimed, txnsPruned })

end TxnManager

/-! ## Sessions -/

/-- A call of the manager's interface. -/
inductive Call where
  | begin (isolation : IsolationLevel)
  | read (txn key : Nat)
  | write (txn key : Nat) (payload : Bytes)
  | delete (txn key : Nat)
  | commit (txn : Nat) (durable : Bool)
  | rollback (txn : Nat)
  | runGc
  deriving DecidableEq

/-- What a call answers. -/
inductive Reply where
  | began (txn : Nat)
  | value (payload : Option Bytes)
  | done
  | committed (ts : Nat)
  | gc (report : GcReport)
  | refused (e : TxnError)
  deriving DecidableEq

/-- The reply of a result. -/
def Reply.ofExcept {α : Type} (f : α → Reply) : Except TxnError α → Reply
  | .ok a => f a
  | .error e => .refused e

def TxnManager.call (m : TxnManager) : Call → TxnManager × Reply
  | .begin isolation => (m.beginTxn isolation).map id (.ofExcept .began)
  | .read txn key => (m.read txn key).map id (.ofExcept .value)
  | .write txn key payload => (m.write txn key payload).map id (.ofExcept fun _ => .done)
  | .delete txn key => (m.delete txn key).map id (.ofExcept fun _ => .done)
  | .commit txn durable => (m.commit txn durable).map id (.ofExcept .committed)
  | .rollback txn => (m.rollback txn).map id (.ofExcept fun _ => .done)
  | .runGc => m.runGc.map id .gc

/-- A manager with the calls made so far and their replies, oldest first. -/
structure Session where
  mgr : TxnManager
  log : List (Call × Reply) := []

/-- The manager accepts every call. -/
def Session.step (s : Session) (c : Call) : Option Session :=
  some ⟨(s.mgr.call c).1, s.log ++ [(c, (s.mgr.call c).2)]⟩

end Graphus
