import Graphus.Core.Version
import Graphus.Lib.Threads

/-!
# The commit path

`commit_prepare` of several transactions at once, with the readers of what it publishes. A committer
issues its timestamp, persists the catalog, publishes its commit slot, appends its `COMMIT` record,
enters the commit registry, publishes the timestamp, and queues the place of its record for the
bookmark of later readers. Each of these is one action, at the latch that guards it, and actions of
other transactions come in between. The first three may fail; the timestamp is then abandoned. A
transaction that has written nothing publishes its timestamp at once.

The log is a list of records with their places. A harden makes a prefix of it durable that ends
where a record ends. `snapshot_ts` is one action. `durable_write_commit_ts` is three: it samples the
durable length, drains the queue under its latch, and reads what the queue has left under the latch
again.

The transactions that own a commit slot are those that have created a delta.
-/

namespace Graphus

namespace CommitPath

/-- A record of the log: where it begins, its length, and the timestamp of a `COMMIT` record. -/
structure LogEntry where
  lsn : Nat
  len : Nat
  commitTs : Option Nat := none

def LogEntry.stop (e : LogEntry) : Nat := e.lsn + e.len

/-- What the transactions share. -/
structure Shared (Tid : Type) where
  /-- The allocation clock. -/
  commitTsHw : Nat
  /-- The commit-visibility horizon. -/
  commitVisibleHw : Nat
  /-- The sequencer: timestamps issued and neither published nor abandoned. -/
  pending : List Nat := []
  /-- The clock in the catalog that was persisted last. -/
  metaTsHw : Nat
  /-- The commit slots that carry a commit timestamp. -/
  slots : List (Tid × Nat) := []
  /-- The commit registry. -/
  registry : List (Tid × Nat) := []
  log : List LogEntry := []
  bufferedLen : Nat
  durableLen : Nat
  /-- The `COMMIT` records that wait for a harden. -/
  pendingWriteCommits : List (Nat × Nat) := []
  durableWriteCommitTsHw : Nat

/-- Where a transaction is in `commit_prepare`, or what a reader has been given. -/
inductive Phase where
  | idle
  | issued (ts : Nat)
  | persisted (ts : Nat)
  | slotted (ts : Nat)
  | logged (ts lsn : Nat)
  | recorded (ts lsn : Nat)
  | published (ts lsn : Nat)
  /-- `commit_prepare` has returned the place of the `COMMIT` record. -/
  | prepared (ts lsn : Nat)
  /-- `commit_prepare` has returned from the read-only path. -/
  | readOnly (ts : Nat)
  /-- A step has failed, and the timestamp is still to be abandoned. -/
  | failed (ts : Nat)
  | abandoned (ts : Nat)
  /-- `snapshot_ts` has returned. -/
  | snapshot (ts : Nat)
  /-- `durable_write_commit_ts` has read the durable length. -/
  | sampled (durable : Nat)
  /-- `durable_write_commit_ts` has drained the queue. -/
  | drained
  /-- `durable_write_commit_ts` has returned. -/
  | bookmark (ts : Nat)
  deriving DecidableEq

inductive Action where
  | nextCommitTs
  /-- The read-only path: publish the timestamp and return. -/
  | finishReadOnly
  | checkpointMeta (ok : Bool)
  | publishCommitSlot (ok : Bool)
  | commitAtNoSync (ok : Bool) (len : Nat)
  | recordCommit
  | publishCommitTs
  | queueCommit
  | abandonCommitTs
  | reloadCatalog
  | logUpdate (len : Nat)
  | harden (durable : Nat)
  | snapshotTs
  | sampleDurable
  | drainQueue
  | readBookmark
  deriving DecidableEq

namespace Shared

variable {Tid : Type} (s : Shared Tid)

/-- A store that is opened with a clock and a log of a given length, all of it durable. -/
def start (commitTsHw len : Nat) : Shared Tid where
  commitTsHw := commitTsHw
  commitVisibleHw := commitTsHw
  metaTsHw := commitTsHw
  bufferedLen := len
  durableLen := len
  durableWriteCommitTsHw := commitTsHw

/-! ## The sequencer -/

def republishVisibleHorizon : Shared Tid :=
  { s with
    commitVisibleHw := max s.commitVisibleHw ((s.pending.min?.map (· - 1)).getD s.commitTsHw) }

/-- `publish_commit_ts` and `abandon_commit_ts` do the same. -/
def releaseCommitTs (ts : Nat) : Shared Tid :=
  { s with pending := s.pending.erase ts }.republishVisibleHorizon

/-- Issue a timestamp and register it as pending, in one critical section. -/
def issue : Shared Tid :=
  { s with commitTsHw := s.commitTsHw + 1, pending := s.pending.insert (s.commitTsHw + 1) }

/-! ## The log -/

def append (len : Nat) (commitTs : Option Nat) : Shared Tid :=
  { s with log := s.log ++ [⟨s.bufferedLen, len, commitTs⟩], bufferedLen := s.bufferedLen + len }

/-! ## The bookmark queue -/

/-- Pop the commits whose record begins at or below the durable length. -/
def drain (durable : Nat) : List (Nat × Nat) → Nat → List (Nat × Nat) × Nat
  | [], hw => ([], hw)
  | (lsn, ts) :: queue, hw =>
    if lsn ≤ durable then drain durable queue (max hw ts) else ((lsn, ts) :: queue, hw)

def advanceDurableWriteWatermark (durable : Nat) : Shared Tid :=
  let (queue, hw) := drain durable s.pendingWriteCommits s.durableWriteCommitTsHw
  { s with pendingWriteCommits := queue, durableWriteCommitTsHw := hw }

end Shared

variable {Tid : Type} (ownsSlot : Tid → Bool)

/-- One action of a transaction. An action that does not fit its phase is refused, and so is a
timestamp beyond the last one, where the code panics. -/
def act (t : Tid) (s : Shared Tid) : Phase → Action → Option (Shared Tid × Phase)
  | .idle, .nextCommitTs =>
    if s.commitTsHw + 1 ≤ maxTimestamp then some (s.issue, .issued (s.commitTsHw + 1)) else none
  | .issued ts, .finishReadOnly => some (s.releaseCommitTs ts, .readOnly ts)
  | .issued ts, .checkpointMeta ok =>
    if ok then some ({ s with metaTsHw := s.commitTsHw }, .persisted ts) else some (s, .failed ts)
  | .persisted ts, .publishCommitSlot ok =>
    if ok then
      some ({ s with slots := if ownsSlot t then (t, ts) :: s.slots else s.slots }, .slotted ts)
    else some (s, .failed ts)
  | .slotted ts, .commitAtNoSync ok len =>
    if ok then
      if 0 < len then some (s.append len (some ts), .logged ts s.bufferedLen) else none
    else some (s, .failed ts)
  | .logged ts lsn, .recordCommit =>
    some ({ s with registry := (t, ts) :: s.registry }, .recorded ts lsn)
  | .recorded ts lsn, .publishCommitTs => some (s.releaseCommitTs ts, .published ts lsn)
  | .published ts lsn, .queueCommit =>
    some ({ s with pendingWriteCommits := s.pendingWriteCommits ++ [(lsn, ts)] }, .prepared ts lsn)
  | .failed ts, .abandonCommitTs => some (s.releaseCommitTs ts, .abandoned ts)
  | .idle, .reloadCatalog =>
    some ({ s with commitTsHw := max s.commitTsHw s.metaTsHw }.republishVisibleHorizon, .idle)
  | .idle, .logUpdate len => if 0 < len then some (s.append len none, .idle) else none
  | .idle, .harden durable =>
    if s.durableLen ≤ durable ∧ (s.log.any fun e => e.stop == durable) then
      some ({ s with durableLen := durable }, .idle)
    else none
  | .idle, .snapshotTs => some (s, .snapshot s.commitVisibleHw)
  | .idle, .sampleDurable => some (s, .sampled s.durableLen)
  | .sampled durable, .drainQueue => some (s.advanceDurableWriteWatermark durable, .drained)
  | .drained, .readBookmark => some (s, .bookmark s.durableWriteCommitTsHw)
  | _, _ => none

/-- What an action does, case by case. -/
inductive Acts (t : Tid) (s : Shared Tid) : Phase → Action → Shared Tid → Phase → Prop
  | nextCommitTs : Acts t s .idle .nextCommitTs s.issue (.issued (s.commitTsHw + 1))
  | finishReadOnly (ts) : Acts t s (.issued ts) .finishReadOnly (s.releaseCommitTs ts)
      (.readOnly ts)
  | checkpointMeta (ts) :
    Acts t s (.issued ts) (.checkpointMeta true) { s with metaTsHw := s.commitTsHw } (.persisted ts)
  | checkpointMetaFailed (ts) : Acts t s (.issued ts) (.checkpointMeta false) s (.failed ts)
  | publishCommitSlot (ts) : Acts t s (.persisted ts) (.publishCommitSlot true)
    { s with slots := if ownsSlot t then (t, ts) :: s.slots else s.slots } (.slotted ts)
  | publishCommitSlotFailed (ts) : Acts t s (.persisted ts)
      (.publishCommitSlot false) s (.failed ts)
  | commitAtNoSync (ts len) : Acts t s (.slotted ts) (.commitAtNoSync true len)
    (s.append len (some ts)) (.logged ts s.bufferedLen)
  | commitAtNoSyncFailed (ts len) : Acts t s (.slotted ts)
      (.commitAtNoSync false len) s (.failed ts)
  | recordCommit (ts lsn) : Acts t s (.logged ts lsn) .recordCommit
    { s with registry := (t, ts) :: s.registry } (.recorded ts lsn)
  | publishCommitTs (ts lsn) :
    Acts t s (.recorded ts lsn) .publishCommitTs (s.releaseCommitTs ts) (.published ts lsn)
  | queueCommit (ts lsn) : Acts t s (.published ts lsn) .queueCommit
    { s with pendingWriteCommits := s.pendingWriteCommits ++ [(lsn, ts)] } (.prepared ts lsn)
  | abandonCommitTs (ts) : Acts t s (.failed ts) .abandonCommitTs (s.releaseCommitTs ts)
      (.abandoned ts)
  | reloadCatalog : Acts t s .idle .reloadCatalog
    { s with commitTsHw := max s.commitTsHw s.metaTsHw }.republishVisibleHorizon .idle
  | logUpdate (len) : Acts t s .idle (.logUpdate len) (s.append len none) .idle
  | harden (e) (he : e ∈ s.log) (hle : s.durableLen ≤ e.stop) :
    Acts t s .idle (.harden e.stop) { s with durableLen := e.stop } .idle
  | snapshotTs : Acts t s .idle .snapshotTs s (.snapshot s.commitVisibleHw)
  | sampleDurable : Acts t s .idle .sampleDurable s (.sampled s.durableLen)
  | drainQueue (durable) :
    Acts t s (.sampled durable) .drainQueue (s.advanceDurableWriteWatermark durable) .drained
  | readBookmark : Acts t s .drained .readBookmark s (.bookmark s.durableWriteCommitTsHw)

variable {ownsSlot} in
lemma act_cases {t : Tid} {s s' : Shared Tid} {p p' : Phase} {a : Action}
    (h : act ownsSlot t s p a = some (s', p')) : Acts ownsSlot t s p a s' p' := by
  unfold act at h
  split at h
  case h_5 ok len =>
    cases ok with
    | true =>
      obtain ⟨-, ⟨⟩⟩ := Run.guarded h
      constructor
    | false =>
      cases h
      constructor
  case h_3 ok | h_4 ok => cases ok <;> cases h <;> constructor
  case h_1 | h_11 =>
    obtain ⟨-, ⟨⟩⟩ := Run.guarded h
    constructor
  case h_12 =>
    obtain ⟨⟨hle, hany⟩, h⟩ := Option.ite_none_right_eq_some.1 h
    obtain ⟨e, he, hstop⟩ := List.any_eq_true.1 hany
    cases h
    obtain rfl := beq_iff_eq.1 hstop
    exact .harden e he hle
  all_goals
    cases h
    try constructor

/-- Every transaction at the beginning. -/
def start (commitTsHw len : Nat) : Threads Tid (Shared Tid) Phase :=
  ⟨.start commitTsHw len, fun _ => .idle⟩

variable [DecidableEq Tid]

def step :
    Threads Tid (Shared Tid) Phase → Tid × Action → Option (Threads Tid (Shared Tid) Phase) :=
  Threads.step (act ownsSlot)

end CommitPath

end Graphus
