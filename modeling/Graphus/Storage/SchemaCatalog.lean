import Graphus.Lib.Dict
import Graphus.Lib.Generations
import Graphus.Lib.Run
import Mathlib.Data.List.Sort

/-!
# The schema catalog and its counters

The catalog is shared by all transactions: one map of schema entries and the counters of the live
records. Neither is in the log. A transaction changes both in place and keeps in its active-set
entry what it takes to withdraw its changes: for a schema entry the value and the generation it has
found there (`SchemaUndo`), for the counters their net change.

`rollback_logical` withdraws the changes of its transaction. A schema entry that another transaction
has written since is left alone, and the undo entry is spliced out of what the open transactions
remember. `committed_statistics` withdraws the changes of all other open transactions from a copy,
which is what a commit persists.

A commit has three critical sections here: the `COMMIT` record is appended, the count delta is
retired, and the active-set entry is removed. Schema keys and values are arbitrary; a counter is a
natural number that stops at zero.
-/

namespace Graphus

open Generations Function

/-! ## Counters -/

/-- The six kinds of live-record counters. -/
inductive CountKey where
  | totalNodes
  | totalRelationships
  | label (token : Nat)
  | relType (token : Nat)
  | startLabelType (label ty : Nat)
  | typeEndLabel (ty label : Nat)
  deriving DecidableEq

/-- The net change of a transaction to each counter. -/
abbrev CountDelta := CountKey → Int

/-- The counters are of type u64. -/
def countMax : Nat := 2 ^ 64 - 1

/-- `add_total` and `add_keyed`: a counter that would leave its range stops at the end of it. -/
def addCount (count : Nat) (delta : Int) : Nat :=
  if 0 ≤ delta then min (count + delta.natAbs) countMax else count - delta.natAbs

/-- The catalog that a checkpoint persists. -/
structure Statistics (Key Val : Type) where
  schema : Key → Option Val
  counts : CountKey → Nat

namespace Statistics

variable {Key Val : Type} [DecidableEq Key] (st : Statistics Key Val)

omit [DecidableEq Key] in
def applyCountDelta (key : CountKey) (delta : Int) : Statistics Key Val :=
  { st with counts := update st.counts key (addCount (st.counts key) delta) }

def schemaPut (key : Key) (value : Option Val) : Statistics Key Val :=
  { st with schema := update st.schema key value }

end Statistics

/-- Un-apply a count delta. -/
def CountDelta.withdrawFrom {Key Val : Type} (delta : CountDelta) (st : Statistics Key Val) :
    Statistics Key Val :=
  { st with counts := fun key => addCount (st.counts key) (-(delta key)) }

/-! ## Transactions -/

/-- What a transaction remembers of a schema entry it has written. -/
structure SchemaUndo (Key Val : Type) where
  seq : Nat
  prevSeq : Nat
  key : Key
  prev : Option Val

/-- How far a commit has come. -/
inductive CommitStage where
  | running
  /-- Its `COMMIT` record is in the log. -/
  | logged
  /-- Its count delta is retired. -/
  | retired
  deriving DecidableEq

/-- An active-set entry. -/
structure CatalogTxn (Key Val : Type) where
  schemaUndo : List (SchemaUndo Key Val) := []
  counts : CountDelta := fun _ => 0
  stage : CommitStage := .running

inductive Outcome where
  | unused
  | running
  | committed
  | rolledBack
  deriving DecidableEq

/-- The catalog state and the active set. The last three fields only record what has happened: the
mutations of schema entries, the newest first, the count bumps, and how transactions have ended. -/
structure CatalogState (Tid Key Val : Type) where
  statistics : Statistics Key Val
  schemaSeq : Nat := 0
  /-- The generation that has written an entry last, and zero if none has. -/
  schemaLastSeq : Key → Nat := fun _ => 0
  active : Dict Tid (CatalogTxn Key Val) := ∅
  mutations : List (Write Tid Key (Option Val)) := []
  bumps : List (Tid × CountKey × Int) := []
  outcome : Tid → Outcome := fun _ => .unused

namespace CatalogState

variable {Tid Key Val : Type} [DecidableEq Tid] [DecidableEq Key]

/-! ## Mutating -/

/-- The undo entries of a mutation, from the values and generations before it. -/
def undoEntries (schema : Key → Option Val) (lastSeq : Key → Nat) :
    Nat → List (Key × Option Val) → List (SchemaUndo Key Val)
  | _, [] => []
  | seq, (key, _) :: writes =>
    ⟨seq + 1, lastSeq key, key, schema key⟩ :: undoEntries schema lastSeq (seq + 1) writes

/-- The mutations that are recorded, the oldest first. -/
def recorded (txn : Tid) : Nat → List (Key × Option Val) → List (Write Tid Key (Option Val))
  | _, [] => []
  | seq, (key, value) :: writes => ⟨seq + 1, txn, key, value⟩ :: recorded txn (seq + 1) writes

variable (c : CatalogState Tid Key Val)

/-- `with_schema_undo` for a mutation that leaves the listed values in its keys. -/
def withSchemaUndo (txn : Tid) (writes : List (Key × Option Val)) :
    CatalogState Tid Key Val :=
  let entries := undoEntries c.statistics.schema c.schemaLastSeq c.schemaSeq writes
  { c with
    statistics := writes.foldl (fun st w => st.schemaPut w.1 w.2) c.statistics
    schemaSeq := c.schemaSeq + writes.length
    schemaLastSeq := entries.foldl (fun lastSeq e => update lastSeq e.key e.seq) c.schemaLastSeq
    active := c.active.modify txn fun a => { a with schemaUndo := a.schemaUndo ++ entries }
    mutations := (recorded txn c.schemaSeq writes).reverse ++ c.mutations }

def countBump (txn : Tid) (key : CountKey) (increment : Bool) :
    CatalogState Tid Key Val :=
  let delta : Int := if increment then 1 else -1
  { c with
    statistics := c.statistics.applyCountDelta key delta
    active := c.active.modify txn fun a =>
      { a with counts := update a.counts key (a.counts key + delta) }
    bumps := (txn, key, delta) :: c.bumps }

/-! ## Undoing -/

/-- The schema and the generations that an undo works on. -/
structure Entries (Key Val : Type) where
  schema : Key → Option Val
  lastSeq : Key → Nat

/-- Restore an entry, if its transaction is still the last to have written it. -/
def undoSchemaEntry (entries : Entries Key Val) (e : SchemaUndo Key Val) : Entries Key Val × Bool :=
  if entries.lastSeq e.key = e.seq then
    ({ schema := update entries.schema e.key e.prev
       lastSeq := update entries.lastSeq e.key e.prevSeq }, true)
  else (entries, false)

/-- What a transaction remembers, with a dead mutation taken out of the chain. -/
def CatalogTxn.splice (dead : SchemaUndo Key Val) (a : CatalogTxn Key Val) : CatalogTxn Key Val :=
  { a with
    schemaUndo := a.schemaUndo.map fun successor =>
      if successor.prevSeq =
        dead.seq then { successor with prev := dead.prev, prevSeq := dead.prevSeq }
      else successor }

def spliceSchemaPredecessor (live : Dict Tid (CatalogTxn Key Val)) (dead : SchemaUndo Key Val) :
    Dict Tid (CatalogTxn Key Val) :=
  live.mapVal (CatalogTxn.splice dead)

/-- Undo one entry of a transaction that rolls back. -/
def applyUndoEntry (r : Entries Key Val × Dict Tid (CatalogTxn Key Val)) (e : SchemaUndo Key Val) :
    Entries Key Val × Dict Tid (CatalogTxn Key Val) :=
  match undoSchemaEntry r.1 e with
  | (entries, true) => (entries, r.2)
  | (entries, false) => (entries, spliceSchemaPredecessor r.2 e)

def applySchemaUndo (entries : Entries Key Val) (live : Dict Tid (CatalogTxn Key Val))
    (undo : List (SchemaUndo Key Val)) : Entries Key Val × Dict Tid (CatalogTxn Key Val) :=
  undo.reverse.foldl applyUndoEntry (entries, live)

/-- The part of `rollback_logical` that is about the catalog. -/
def rollbackLogical (txn : Tid) (a : CatalogTxn Key Val) :
    CatalogState Tid Key Val :=
  let statistics := CountDelta.withdrawFrom a.counts c.statistics
  let (entries, active) :=
    applySchemaUndo ⟨statistics.schema, c.schemaLastSeq⟩ (c.active.erase txn) a.schemaUndo
  { c with
    statistics := { statistics with schema := entries.schema }
    schemaLastSeq := entries.lastSeq
    active := active
    outcome := update c.outcome txn .rolledBack }

/-! ## The committed image -/

/-- The active-set entries of the other transactions. -/
def others (committing : Tid) : List (CatalogTxn Key Val) :=
  (c.active.entries.filter fun e => e.1 ≠ committing).map fun e => e.2

def committedStatistics (committing : Tid) : Statistics Key Val :=
  let committed :=
    (c.others committing).foldl (fun st a => CountDelta.withdrawFrom a.counts st) c.statistics
  let pending := ((c.others committing).flatMap fun a => a.schemaUndo).insertionSort fun e e' =>
    e'.seq ≤ e.seq
  let entries := pending.foldl (fun entries e => (undoSchemaEntry entries e).1)
    ⟨committed.schema, c.schemaLastSeq⟩
  { committed with schema := entries.schema }

/-! ## Runs -/

inductive Op (Tid Key Val : Type) where
  | start (txn : Tid)
  | withSchemaUndo (txn : Tid) (writes : List (Key × Option Val))
  | countBump (txn : Tid) (key : CountKey) (increment : Bool)
  /-- `commit_at_no_sync`. -/
  | appendCommit (txn : Tid)
  /-- The count delta is set to its default. -/
  | retireCounts (txn : Tid)
  | settle (txn : Tid)
  | rollbackLogical (txn : Tid)

/-- A catalog with no transactions. -/
def init (schema : Key → Option Val) (counts : CountKey → Nat) : CatalogState Tid Key Val where
  statistics := ⟨schema, counts⟩

/-- The stage of the commit moves on. -/
def setStage (txn : Tid) (a : CatalogTxn Key Val) (stage : CommitStage) :
    CatalogState Tid Key Val :=
  { c with active := c.active.insert txn { a with stage := stage } }

/-- One operation. A transaction begins once, works while it is running, and lists each key of a
mutation once. -/
def step : Op Tid Key Val → Option (CatalogState Tid Key Val)
  | .start txn =>
    if c.outcome txn = .unused then
      some { c with active := c.active.insert txn {}, outcome := update c.outcome txn .running }
    else none
  | .withSchemaUndo txn writes =>
    match c.active.lookup txn with
    | some a =>
      if a.stage = .running ∧
        (writes.map Prod.fst).Nodup then some (c.withSchemaUndo txn writes) else none
    | none => none
  | .countBump txn key increment =>
    match c.active.lookup txn with
    | some a => if a.stage = .running then some (c.countBump txn key increment) else none
    | none => none
  | .appendCommit txn =>
    match c.active.lookup txn with
    | some a =>
      if a.stage = .running then
        some { c.setStage txn a .logged with outcome := update c.outcome txn .committed }
      else none
    | none => none
  | .retireCounts txn =>
    match c.active.lookup txn with
    | some a =>
      if a.stage =
        .logged then some (c.setStage txn { a with counts := fun _ => 0 } .retired) else none
    | none => none
  | .settle txn =>
    match c.active.lookup txn with
    | some a => if a.stage = .retired then some { c with active := c.active.erase txn } else none
    | none => none
  | .rollbackLogical txn =>
    match c.active.lookup txn with
    | some a => if a.stage = .running then some (c.rollbackLogical txn a) else none
    | none => none

end CatalogState

end Graphus
