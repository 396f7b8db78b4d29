import Graphus.Lib.Dict

/-!
# The SSI conflict tracker

`SsiTracker` (`graphus-txn/src/ssi.rs`) keeps, for every in-flight and recently committed
transaction, what it read and wrote and the rw-antidependency edges to and from it. Reads and
writes are recorded per key and per predicate. The four recording functions run the same code on
four pairs of a set and a reverse index, so they are one definition over an `Access` (read or
write) and a `Marker` (key or predicate).

A `HashSet` is a list used up to membership, and a reverse index is a function to such a list
(the empty list stands for a missing entry). A `HashMap` that is iterated over is a `Dict`.
-/

namespace Graphus

/-- A predicate a scan reads, or that an inserted or modified entity satisfies. -/
inductive PredicateRead where
  | allNodes
  | label (id : Nat)
  | equality (label property : Nat) (value : List UInt8)
  | anyRel
  | relType (id : Nat)
  | relEquality (relType property : Nat) (value : List UInt8)
  deriving DecidableEq

/-- What a SIREAD marker or a write footprint is about. -/
inductive Marker where
  | key (k : Nat)
  | predicate (p : PredicateRead)

/-- A SIREAD marker is taken by a read; a write announces its footprint. -/
inductive Access where
  | read
  | write

/-- The access that conflicts. -/
def Access.other : Access → Access
  | .read => .write
  | .write => .read

/-- Of the transaction that makes the access and a holder of the conflicting one: the reader. -/
def Access.reader : Access → Nat → Nat → Nat
  | .read, txn, _ => txn
  | .write, _, holder => holder

/-- And the writer. -/
def Access.writer : Access → Nat → Nat → Nat
  | .read, _, holder => holder
  | .write, txn, _ => txn

/-- One transaction's SSI bookkeeping. -/
structure TxnConflict where
  reads : List Nat := []
  predicateReads : List PredicateRead := []
  writes : List Nat := []
  predicateWrites : List PredicateRead := []
  inConflict : Bool := false
  outConflict : Bool := false
  outEdges : List Nat := []
  inEdges : List Nat := []
  commitTs : Option Nat := none
  beginTs : Nat

namespace TxnConflict

variable (t : TxnConflict)

/-- Is the marker in the transaction's read set, or in its write footprint? -/
def has : Access → Marker → Prop
  | .read, .key k => k ∈ t.reads
  | .read, .predicate p => p ∈ t.predicateReads
  | .write, .key k => k ∈ t.writes
  | .write, .predicate p => p ∈ t.predicateWrites

def insert : Access → Marker → TxnConflict
  | .read, .key k => { t with reads := t.reads.insert k }
  | .read, .predicate p => { t with predicateReads := t.predicateReads.insert p }
  | .write, .key k => { t with writes := t.writes.insert k }
  | .write, .predicate p => { t with predicateWrites := t.predicateWrites.insert p }

def insertOutEdge (target : Nat) : TxnConflict :=
  { t with outConflict := true, outEdges := t.outEdges.insert target }

def insertInEdge (source : Nat) : TxnConflict :=
  { t with inConflict := true, inEdges := t.inEdges.insert source }

/-- Drop the edge to a forgotten transaction; the flag follows the edges that remain. -/
def removeOutEdge (target : Nat) : TxnConflict :=
  { t with
    outEdges := t.outEdges.filter (· ≠ target)
    outConflict := !(t.outEdges.filter (· ≠ target)).isEmpty }

def removeInEdge (source : Nat) : TxnConflict :=
  { t with
    inEdges := t.inEdges.filter (· ≠ source)
    inConflict := !(t.inEdges.filter (· ≠ source)).isEmpty }

end TxnConflict

/-- The conflict graph over all in-flight and recently committed transactions. -/
structure SsiTracker where
  txns : Dict Nat TxnConflict := ∅
  readersOf : Nat → List Nat := fun _ => []
  predicateReadersOf : PredicateRead → List Nat := fun _ => []
  writersOf : Nat → List Nat := fun _ => []
  predicateWritersOf : PredicateRead → List Nat := fun _ => []
  doomed : List Nat := []

namespace SsiTracker

/-- An empty tracker. -/
def new : SsiTracker := {}

variable (s : SsiTracker)

/-- Register a transaction that began at `beginTs`; an id already present keeps its entry. -/
def register (txn beginTs : Nat) : SsiTracker :=
  match s.txns.lookup txn with
  | some _ => s
  | none => { s with txns := s.txns.insert txn { beginTs } }

/-- Neither transaction committed at or before the other's begin timestamp. -/
def areConcurrent (a b : Nat) : Bool :=
  match s.txns.lookup a, s.txns.lookup b with
  | some ta, some tb =>
    let aBeforeB := ta.commitTs.any (· ≤ tb.beginTs)
    let bBeforeA := tb.commitTs.any (· ≤ ta.beginTs)
    !aBeforeB && !bBeforeA
  | _, _ => false

/-- `p` has both an inbound and an outbound edge and has committed. -/
def pivotCommitted (p : Nat) : Bool :=
  (s.txns.lookup p).any fun t => t.inConflict && t.outConflict && t.commitTs.isSome

def isActive (p : Nat) : Bool :=
  (s.txns.lookup p).any fun t => t.commitTs.isNone

def doomIf (c : Bool) (victim : Nat) : SsiTracker :=
  if c then { s with doomed := s.doomed.insert victim } else s

/-- Add the edge `source → target`. If an endpoint is now a pivot that has already committed, the
other endpoint, still active, is doomed. -/
def addEdge (source target : Nat) : SsiTracker :=
  if source = target then s
  else
    let s := { s with txns := s.txns.modify source (·.insertOutEdge target) }
    let s := { s with txns := s.txns.modify target (·.insertInEdge source) }
    let s := s.doomIf (s.pivotCommitted target && s.isActive source) source
    s.doomIf (s.pivotCommitted source && s.isActive target) target

/-- The reverse index entry of a marker: the transactions that read it, or that wrote it. -/
def holders : Access → Marker → List Nat
  | .read, .key k => s.readersOf k
  | .read, .predicate p => s.predicateReadersOf p
  | .write, .key k => s.writersOf k
  | .write, .predicate p => s.predicateWritersOf p

/-- Insert `txn` into one entry of a reverse index. -/
def enter {κ : Type} [DecidableEq κ] (index : κ → List Nat) (k : κ) (txn : Nat) : κ → List Nat :=
  Function.update index k ((index k).insert txn)

/-- Put the marker into the transaction's own set and the transaction into the reverse index. -/
def mark (a : Access) (txn : Nat) (m : Marker) : SsiTracker :=
  let s := { s with txns := s.txns.modify txn (·.insert a m) }
  match a, m with
  | .read, .key k => { s with readersOf := enter s.readersOf k txn }
  | .read, .predicate p => { s with predicateReadersOf := enter s.predicateReadersOf p txn }
  | .write, .key k => { s with writersOf := enter s.writersOf k txn }
  | .write, .predicate p => { s with predicateWritersOf := enter s.predicateWritersOf p txn }

/-- Record an access: mark it, then add an edge, from the reader to the writer, for every
concurrent transaction that made the conflicting access to the same marker. -/
def record (a : Access) (txn : Nat) (m : Marker) : SsiTracker :=
  let s := s.mark a txn m
  let concurrent := (s.holders a.other m).filter fun o =>
    decide (o ≠ txn) && s.areConcurrent (a.reader txn o) (a.writer txn o)
  concurrent.foldl (fun s o => s.addEdge (a.reader txn o) (a.writer txn o)) s

def recordRead (reader key : Nat) : SsiTracker :=
  s.record .read reader (.key key)

def recordWrite (writer key : Nat) : SsiTracker :=
  s.record .write writer (.key key)

def recordPredicateRead (reader : Nat) (predicate : PredicateRead) : SsiTracker :=
  s.record .read reader (.predicate predicate)

/-- Every marker of the footprint is recorded in turn. -/
def recordPredicateWrite (writer : Nat) (footprint : List PredicateRead) :
    SsiTracker :=
  footprint.foldl (fun s p => s.record .write writer (.predicate p)) s

/-- Condemn `victim` to abort at its own commit; `false` when there is nothing to condemn. -/
def doom (s : SsiTracker) (victim : Nat) : SsiTracker × Bool :=
  if (s.txns.lookup victim).all fun t => t.commitTs.isSome then (s, false)
  else ({ s with doomed := s.doomed.insert victim }, true)

/-- Can some outbound partner of the pivot `t` close a cycle: committed, or still concurrent? -/
def closes (txn : Nat) (t : TxnConflict) : Bool :=
  t.outEdges.any fun out =>
    (s.txns.lookup out).any fun o => o.commitTs.isSome || s.areConcurrent txn out

/-- The still running pivots with an edge to `txn`. -/
def runningPivotsInto (txn : Nat) : List Nat :=
  s.txns.keys.filter fun pid =>
    (s.txns.lookup pid).any fun p =>
      decide (pid ≠ txn) && p.inConflict && p.outConflict && p.outEdges.contains txn &&
        p.commitTs.isNone

/-- The transaction to abort so that committing `txn` closes no dangerous structure. -/
def detectPivotAbort (txn : Nat) : Option Nat :=
  if txn ∈ s.doomed then some txn
  else
    match s.txns.lookup txn with
    | none => none
    | some t =>
      -- read-only optimization
      if t.writes.isEmpty && !t.outConflict then none
      -- case A: the committing transaction is itself the pivot
      else if t.inConflict && t.outConflict && s.closes txn t then some txn
      -- case B: the lowest-id running pivot whose outbound partner is the committing one
      else (s.runningPivotsInto txn).min?

def recordCommit (txn commitTs : Nat) : SsiTracker :=
  { s with txns := s.txns.modify txn fun t => { t with commitTs := some commitTs } }

/-- Remove `txn` from the reverse index entries of its own markers. -/
def purge {κ : Type} [DecidableEq κ] (index : κ → List Nat) (own : List κ) (txn : Nat) :
    κ → List Nat :=
  fun k => if k ∈ own then (index k).filter (· ≠ txn) else index k

/-- Forget `txn`: aborted, or retired by garbage collection. -/
def forget (txn : Nat) : SsiTracker :=
  let s := { s with doomed := s.doomed.filter (· ≠ txn) }
  match s.txns.lookup txn with
  | none => s
  | some t =>
    let txns := s.txns.erase txn
    let txns := t.outEdges.foldl (fun m target => Dict.modify m target (·.removeInEdge txn)) txns
    let txns := t.inEdges.foldl (fun m source => Dict.modify m source (·.removeOutEdge txn)) txns
    { s with
      txns
      readersOf := purge s.readersOf t.reads txn
      predicateReadersOf := purge s.predicateReadersOf t.predicateReads txn
      writersOf := purge s.writersOf t.writes txn
      predicateWritersOf := purge s.predicateWritersOf t.predicateWrites txn }

/-- Is a transaction that committed at `c` settled under the low-water mark? -/
def settledBy (lowWater : Option Nat) (c : Nat) : Bool := lowWater.all (c ≤ ·)

/-- The committed transactions at or below the low-water mark. -/
def settled (lowWater : Option Nat) : List Nat :=
  s.txns.keys.filter fun id => (s.txns.lookup id).any fun t => t.commitTs.any (settledBy lowWater)

/-- Forget every settled transaction; `none` means that no transaction is active. -/
def pruneCommitted (lowWater : Option Nat) : SsiTracker × Nat :=
  ((s.settled lowWater).foldl forget s, (s.settled lowWater).length)

end SsiTracker

end Graphus
