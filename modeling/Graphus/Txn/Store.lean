import Graphus.Core.Version
import Graphus.Lib.Bytes
import Graphus.Lib.Dict

/-!
# Snapshots, the commit registry and the version store

The models of `snapshot.rs`, `visibility.rs` and the `MemVersionedStore` of `store.rs` in
`graphus-txn`. A version keeps its two header words in decoded form (`VersionStamp`).
-/

namespace Graphus

/-- Which side of the commit a transaction runs at: SSI validation or plain snapshots. -/
inductive IsolationLevel where
  | serializable
  | snapshot
  deriving DecidableEq

def IsolationLevel.runsSsi : IsolationLevel → Bool
  | .serializable => true
  | .snapshot => false

/-- A read snapshot: its owner and the owner's begin timestamp. -/
structure Snapshot where
  owner : Nat
  ts : Nat

/-! ## The commit registry -/

inductive TxnOutcome where
  | inFlight
  | committed (ts : Nat)
  | aborted
  deriving DecidableEq

structure CommitRegistry where
  outcomes : Dict Nat TxnOutcome := ∅

namespace CommitRegistry

variable (r : CommitRegistry)

def registerBegin (txn : Nat) : CommitRegistry :=
  ⟨r.outcomes.insert txn .inFlight⟩

def recordCommit (txn ts : Nat) : CommitRegistry :=
  ⟨r.outcomes.insert txn (.committed ts)⟩

def recordAbort (txn : Nat) : CommitRegistry :=
  ⟨r.outcomes.insert txn .aborted⟩

/-- An unknown id counts as aborted. -/
def outcome (r : CommitRegistry) (txn : Nat) : TxnOutcome :=
  (r.outcomes.lookup txn).getD .aborted

/-- The writers recorded as committed. -/
def committedWriters : List Nat :=
  r.outcomes.keys.filter fun txn => match r.outcome txn with
    | .committed _ => true
    | .inFlight | .aborted => false

def forget (txn : Nat) : CommitRegistry := ⟨r.outcomes.erase txn⟩

/-- Does the entry stay when everything settled below the mark is pruned? -/
def retains (lowWater : Option Nat) : TxnOutcome → Bool
  | .inFlight => true
  | .aborted => false
  | .committed ts => lowWater.any (· < ts)

def pruneSettled (lowWater : Option Nat) : CommitRegistry × Nat :=
  let kept := r.outcomes.retain (retains lowWater)
  (⟨kept⟩, r.outcomes.keys.length - kept.keys.length)

/-- The commit timestamp of a stamp's writer, if it has committed. -/
def resolveCommitTs : VersionStamp → Option Nat
  | .none => none
  | .committed ts => some ts
  | .inFlight txn =>
    match r.outcome txn with
    | .committed ts => some ts
    | .inFlight | .aborted => none

end CommitRegistry

/-! ## Visibility -/

variable (snap : Snapshot)

/-- The stamp's transaction counts for the snapshot: it is the owner itself, or it committed at or
before the snapshot timestamp. Both clauses of the visibility rule ask this. -/
def countsFor (stamp : VersionStamp) (r : CommitRegistry) : Bool :=
  match stamp with
  | .none => false
  | .committed ts => ts ≤ snap.ts
  | .inFlight writer =>
    if writer = snap.owner then true
    else
      match r.outcome writer with
      | .committed ts => ts ≤ snap.ts
      | .inFlight | .aborted => false

def creatorVisible (xmin : VersionStamp) (r : CommitRegistry) : Bool :=
  countsFor snap xmin r

def expirerHides (xmax : VersionStamp) (r : CommitRegistry) : Bool :=
  countsFor snap xmax r

def isVisible (xmin xmax : VersionStamp) (r : CommitRegistry) : Bool :=
  creatorVisible snap xmin r && !expirerHides snap xmax r

/-! ## The version store -/

/-- One version of a record. -/
structure Version where
  xmin : VersionStamp
  xmax : VersionStamp
  payload : Bytes

/-- Each key's versions, newest first. -/
structure MemVersionedStore where
  chains : Dict Nat (List Version) := ∅

namespace MemVersionedStore

/-- The version chain of a key, empty when there is none. -/
def chain (s : MemVersionedStore) (key : Nat) : List Version := (s.chains.lookup key).getD []

/-- Mark the head, if it is live, as superseded by `writer`. -/
def supersede (writer : Nat) : List Version → List Version
  | [] => []
  | head :: rest =>
    (if head.xmax = .none then { head with xmax := .inFlight writer } else head) :: rest

def createVersion (s : MemVersionedStore) (key writer : Nat) (payload : Bytes) :
    MemVersionedStore :=
  ⟨s.chains.insert key (⟨.inFlight writer, .none, payload⟩ :: supersede writer (s.chain key))⟩

/-- Expire the live head; `none` when the key has no live head. -/
def expireVersion (s : MemVersionedStore) (key writer : Nat) : Option MemVersionedStore :=
  match s.chain key with
  | [] => none
  | head :: rest =>
    if head.xmax = .none then
      some ⟨s.chains.insert key ({ head with xmax := .inFlight writer } :: rest)⟩
    else none

/-- The payload of the newest visible version. -/
def readVisible (s : MemVersionedStore) (key : Nat) (snap : Snapshot) (r : CommitRegistry) :
    Option Bytes :=
  ((s.chain key).find? fun v => isVisible snap v.xmin v.xmax r).map Version.payload

/-- Replace an in-flight stamp of `writer` by the commit timestamp. -/
def stampCommitted (writer ts : Nat) (stamp : VersionStamp) : VersionStamp :=
  if stamp = .inFlight writer then .committed ts else stamp

def commitVersion (writer ts : Nat) (v : Version) : Version :=
  { v with xmin := stampCommitted writer ts v.xmin, xmax := stampCommitted writer ts v.xmax }

def commitWriter (s : MemVersionedStore) (writer ts : Nat) : MemVersionedStore :=
  ⟨s.chains.mapVal fun c => c.map (commitVersion writer ts)⟩

/-- Drop what `writer` created and revive what it expired. -/
def abortChain (writer : Nat) (c : List Version) : List Version :=
  (c.filter fun v => v.xmin ≠ .inFlight writer).map fun v =>
    if v.xmax = .inFlight writer then { v with xmax := .none } else v

def abortWriter (s : MemVersionedStore) (writer : Nat) : MemVersionedStore :=
  ⟨(s.chains.mapVal (abortChain writer)).retain fun c => !c.isEmpty⟩

/-- Is the version kept: not expired by a transaction that committed at or below the mark? -/
def keeps (lowWater : Option Nat) (r : CommitRegistry) (v : Version) : Bool :=
  match r.resolveCommitTs v.xmax with
  | none => true
  | some ts => lowWater.any (· < ts)

def gc (s : MemVersionedStore) (lowWater : Option Nat) (r : CommitRegistry) :
    MemVersionedStore × Nat :=
  let kept := s.chains.mapVal fun c => c.filter (keeps lowWater r)
  let size := fun m : Dict Nat (List Version) => (m.entries.map fun e => e.2.length).sum
  (⟨kept.retain fun c => !c.isEmpty⟩, size s.chains - size kept)

def headXmin (s : MemVersionedStore) (key : Nat) : Option VersionStamp :=
  (s.chain key).head?.map Version.xmin

/-! ### The chain of a key after each operation -/

variable {s : MemVersionedStore} {key k writer ts : Nat}

lemma chain_createVersion {payload : Bytes} : (s.createVersion key writer payload).chain k =
      if k = key then ⟨.inFlight writer, .none, payload⟩ :: supersede writer (s.chain key)
      else s.chain k := by
  unfold createVersion
  rw [chain, Dict.lookup_insert]
  split <;> rfl

lemma expireVersion_eq_some {s' : MemVersionedStore} (h : s.expireVersion key writer = some s') :
    ∃ head rest, s.chain key = head :: rest ∧ head.xmax = .none ∧ ∀ k, s'.chain k =
      if k = key then { head with xmax := .inFlight writer } :: rest else s.chain k := by
  unfold expireVersion at h
  split at h
  · cases h
  rename_i head rest hc
  split at h
  · rename_i hx
    cases h
    refine ⟨head, rest, hc, hx, fun k => ?_⟩
    rw [chain, Dict.lookup_insert]
    split <;> rfl
  · cases h

lemma chain_commitWriter :
    (s.commitWriter writer ts).chain k = (s.chain k).map (commitVersion writer ts) := by
  unfold commitWriter chain
  rw [Dict.lookup_mapVal]
  cases s.chains.lookup k <;> rfl

/-- Dropping empty chains does not change what a chain is. -/
lemma getD_filter_isEmpty (o : Option (List Version)) :
    (o.filter fun c => !c.isEmpty).getD [] = o.getD [] := by
  cases o with
  | none => rfl
  | some c => cases c <;> rfl

lemma chain_abortWriter : (s.abortWriter writer).chain k = abortChain writer (s.chain k) := by
  unfold abortWriter chain
  rw [Dict.lookup_retain, getD_filter_isEmpty, Dict.lookup_mapVal]
  cases s.chains.lookup k <;> rfl

lemma chain_gc {lowWater : Option Nat} {r : CommitRegistry} :
    (s.gc lowWater r).1.chain k = (s.chain k).filter (keeps lowWater r) := by
  unfold gc chain
  rw [Dict.lookup_retain, getD_filter_isEmpty, Dict.lookup_mapVal]
  cases s.chains.lookup k <;> rfl

end MemVersionedStore

end Graphus
