import Graphus.Txn.Store

/-!
# The freeze sweep

A committed writer's stamps stay in flight until a garbage-collection pass freezes them. The pass
loads the frontier of a store, reads every record from there to the high-water mark, freezes the
stamps of committed writers, finds the lowest record whose writer is still open, and raises the
frontier to it by a compare-and-swap. A writer that has stamped a record lowers the frontier to it.
After the sweeps the pass captures the committed writers; when it commits it forgets them, and when
it is rolled back its freezes are undone and the frontier is lowered to the savepoint.

Several writers and one pass run at once. A step of `RecordStore.step` is one atomic access of one
of them: a write of a header word, a descend, a lookup in the registry or the active table, the read
of one record.
-/

namespace Graphus

/-! ## The frontier -/

/-- The smallest id that may still carry an in-flight stamp. Every method is one atomic access. -/
structure FreezeFloor where
  cell : Nat

namespace FreezeFloor

variable (f : FreezeFloor)

def get : Nat := f.cell

def descend (candidate : Nat) : FreezeFloor := ⟨min f.cell candidate⟩

/-- The floor rises only if it still holds `start`. -/
def tryRaise (start target : Nat) : FreezeFloor × Bool :=
  if f.cell = start then (⟨target⟩, true) else (f, false)

end FreezeFloor

/-! ## Record headers -/

/-- The record stores with version stamps. -/
inductive StoreKind where
  | node
  | rel
  | prop
  deriving DecidableEq

/-- A word of a record header. -/
inductive HeaderWord where
  | created
  | expired
  deriving DecidableEq

structure MvccHeader where
  created : VersionStamp
  expired : VersionStamp := .none

namespace MvccHeader

def get (h : MvccHeader) : HeaderWord → VersionStamp
  | .created => h.created
  | .expired => h.expired

def set (h : MvccHeader) (word : HeaderWord) (stamp : VersionStamp) : MvccHeader :=
  match word with
  | .created => { h with created := stamp }
  | .expired => { h with expired := stamp }

end MvccHeader

/-- The word to freeze `word` to: it is the in-flight stamp of a committed writer. -/
def frozenWord (r : CommitRegistry) : VersionStamp → Option VersionStamp
  | .inFlight writer =>
    match r.outcome writer with
    | .committed ts => some (.committed ts)
    | .inFlight | .aborted => none
  | .none | .committed _ => none

/-- Is the word the in-flight stamp of a writer that is still open? -/
def isInflightOfInflightWriter (active : List Nat) : VersionStamp → Bool
  | .inFlight writer => active.contains writer
  | .none | .committed _ => false

/-! ## A garbage-collection pass -/

/-- Where the sweep of one store is. -/
inductive SweepStage where
  | loaded
  | bounded
  | scanning
  /-- the freeze of the first record's `created` word is next -/
  | created
  | expired
  /-- the test whether the writer of the first record's `created` word is open is next -/
  | openCreated
  | openExpired
  deriving DecidableEq

/-- The locals of `freeze_store_headers_incremental`. -/
structure Sweep where
  kind : StoreKind
  /-- the frontier as it was loaded (`from`) -/
  start : Nat
  highWater : Nat := 0
  /-- the end of the scan, which reads the high-water mark again -/
  stop : Nat := 0
  /-- the record that the scan reads next -/
  next : Nat := 0
  /-- the records that were read and not handled yet -/
  inUse : List (Nat × MvccHeader) := []
  newLow : Nat := 0
  stage : SweepStage := .loaded

/-- A header word that the pass has frozen, with the writer of the stamp it replaced. -/
structure FrozenWord where
  kind : StoreKind
  id : Nat
  word : HeaderWord
  writer : Nat
  deriving DecidableEq

inductive GcPhase where
  /-- the stores that are still to be swept, and the sweep that is running; `stranded` is what the
  audit of the frontier has found -/
  | sweeping (todo : List StoreKind) (sweep : Option Sweep) (stranded : Bool)
  /-- the committed writers are captured for the prune -/
  | captured (writers : List Nat)
  /-- the pass has committed and forgets the captured writers -/
  | forgetting (writers : List Nat)
  /-- `restored` are the freezes that the rollback has undone -/
  | rollingBack (restored : List FrozenWord)

structure GcPass where
  txn : Nat
  /-- the frontiers before the sweeps -/
  savepoint : StoreKind → Nat
  /-- the freezes of the pass, the last one first -/
  undo : List FrozenWord := []
  phase : GcPhase

/-! ## The store -/

/-- The parts of the record store that the sweeps touch. The last four fields are the history that
the program order of the writers is stated with. -/
structure RecordStore where
  freezeLow : StoreKind → FreezeFloor
  highWater : StoreKind → Nat
  /-- the headers of the records in use -/
  records : StoreKind → Nat → Option MvccHeader
  /-- the version chains: the writers of their deltas, whose stamps are the commit slots -/
  chains : StoreKind → Nat → List Nat := fun _ _ => []
  slots : Nat → VersionStamp := fun _ => .none
  active : List Nat := []
  commitRegistry : CommitRegistry := {}
  pass : Option GcPass := none
  begun : List Nat := []
  committed : List Nat := []
  stamped : List (Nat × StoreKind × Nat) := []
  descended : List (Nat × StoreKind × Nat) := []

inductive StoreOp where
  | begin (txn : Nat)
  /-- allocate an id at the end of a store -/
  | grow (kind : StoreKind)
  /-- write an in-flight stamp -/
  | stamp (txn : Nat) (kind : StoreKind) (id : Nat) (word : HeaderWord)
  /-- `lower_freeze_low` -/
  | descend (txn : Nat) (kind : StoreKind) (id : Nat)
  /-- link a delta to the version chain of a record -/
  | link (txn : Nat) (kind : StoreKind) (id : Nat)
  /-- `publish_commit_slot` -/
  | publish (txn ts : Nat)
  /-- `record_commit` -/
  | commit (txn ts : Nat)
  /-- `settle_committed_txn` -/
  | settle (txn : Nat)
  /-- one write of a rollback: a created record is freed, an expired one restored -/
  | revert (txn : Nat) (kind : StoreKind) (id : Nat) (word : HeaderWord)
  /-- `detach_own_deltas` -/
  | detach (txn : Nat)
  /-- the transaction leaves the active table -/
  | endRollback (txn : Nat)
  | gcBegin (txn : Nat)
  /-- the next access of the sweeps -/
  | sweep
  /-- the audit of the frontier reads a record -/
  | audit (kind : StoreKind) (id : Nat)
  | capture
  | gcCommit (ts : Nat)
  /-- forget the next captured writer -/
  | forget
  | gcAbort
  /-- undo the last freeze of the pass -/
  | undoFreeze
  /-- the rollback of the pass lowers the frontiers to the savepoint -/
  | restore
  deriving DecidableEq

namespace RecordStore

variable (s : RecordStore)

def setRecord (kind : StoreKind) (id : Nat) (h : Option MvccHeader) :
    RecordStore :=
  { s with records := fun k i => if k = kind ∧ i = id then h else s.records k i }

/-- Overwrite one word of a record in use (`patch_header_word`). -/
def patchHeaderWord (kind : StoreKind) (id : Nat) (word : HeaderWord)
    (stamp : VersionStamp) : RecordStore :=
  s.setRecord kind id ((s.records kind id).map fun h => h.set word stamp)

def setFloor (kind : StoreKind) (f : FreezeFloor) : RecordStore :=
  { s with freezeLow := fun k => if k = kind then f else s.freezeLow k }

/-- The transaction may still write. -/
def isWriter (txn : Nat) : Bool :=
  s.active.contains txn && !s.committed.contains txn && !s.pass.any fun p => p.txn == txn

/-- Freeze one word of the record that the sweep handles. -/
def freezeWord (p : GcPass) (sw : Sweep) (id : Nat) (h : MvccHeader)
    (word : HeaderWord) : RecordStore × GcPass :=
  match h.get word, frozenWord s.commitRegistry (h.get word) with
  | .inFlight writer, some frozen =>
    (s.patchHeaderWord sw.kind id word frozen,
      { p with undo := { kind := sw.kind, id, word, writer } :: p.undo })
  | _, _ => (s, p)

/-- The sweep behind the record it has handled. -/
def nextRecord (sw : Sweep) (newLow : Nat) : Sweep :=
  { sw with inUse := sw.inUse.tail, newLow, stage := .created }

/-- One access of `freeze_store_headers_incremental`; `none` for the sweep when it has ended. -/
def sweepStep (p : GcPass) (sw : Sweep) : RecordStore × GcPass × Option Sweep :=
  match sw.stage with
  | .loaded =>
    (s, p, some { sw with
      highWater := s.highWater sw.kind, newLow := s.highWater sw.kind, stage := .bounded })
  | .bounded =>
    (s, p, some { sw with
      stop := s.highWater sw.kind, next := max sw.start 1, stage := .scanning })
  | .scanning =>
    if sw.next < sw.stop then
      match s.records sw.kind sw.next with
      | some h =>
        (s, p, some { sw with inUse := sw.inUse ++ [(sw.next, h)], next := sw.next + 1 })
      | none => (s, p, some { sw with next := sw.next + 1 })
    else (s, p, some { sw with stage := .created })
  | .created =>
    match sw.inUse with
    | [] =>
      (s.setFloor sw.kind ((s.freezeLow sw.kind).tryRaise sw.start sw.newLow).1, p, none)
    | (id, h) :: _ =>
      let (s, p) := s.freezeWord p sw id h .created
      (s, p, some { sw with stage := .expired })
  | .expired =>
    match sw.inUse with
    | [] => (s, p, some { sw with stage := .created })
    | (id, h) :: _ =>
      let (s, p) := s.freezeWord p sw id h .expired
      (s, p, some { sw with stage := .openCreated })
  | .openCreated =>
    match sw.inUse with
    | [] => (s, p, some { sw with stage := .created })
    | (id, h) :: _ =>
      if isInflightOfInflightWriter s.active h.created then
        (s, p, some (nextRecord sw (min sw.newLow id)))
      else (s, p, some { sw with stage := .openExpired })
  | .openExpired =>
    match sw.inUse with
    | [] => (s, p, some { sw with stage := .created })
    | (id, h) :: _ =>
      if isInflightOfInflightWriter s.active h.expired then
        (s, p, some (nextRecord sw (min sw.newLow id)))
      else (s, p, some (nextRecord sw sw.newLow))

/-- The order in which the pass sweeps the stores. -/
def sweepOrder : List StoreKind := [.rel, .node, .prop]

/-- Does the audit find an unfrozen stamp of a committed writer in the record? -/
def isStranded (kind : StoreKind) (id : Nat) : Bool :=
  (s.records kind id).any fun h =>
    (frozenWord s.commitRegistry h.created).isSome || (frozenWord s.commitRegistry h.expired).isSome

/-- A step of the pass. -/
def passStep (p : GcPass) : StoreOp → Option RecordStore
  | .sweep =>
    match p.phase with
    | .sweeping todo (some sw) stranded =>
      let (s, p, sw) := s.sweepStep p sw
      some { s with pass := some { p with phase := .sweeping todo sw stranded } }
    | .sweeping todo none stranded =>
      match todo with
      | kind :: todo =>
        some { s with pass := some { p with
          phase := .sweeping todo (some { kind, start := (s.freezeLow kind).get }) stranded } }
      | [] => none
    | _ => none
  | .audit kind id =>
    match p.phase with
    | .sweeping [] none stranded =>
      some { s with pass := some { p with
        phase := .sweeping [] none (stranded || s.isStranded kind id) } }
    | _ => none
  | .capture =>
    match p.phase with
    | .sweeping [] none stranded =>
      some { s with pass := some { p with
        phase := .captured (if stranded then [] else s.commitRegistry.committedWriters) } }
    | _ => none
  | .gcCommit ts =>
    match p.phase with
    | .captured writers =>
      some { s with
        commitRegistry := s.commitRegistry.recordCommit p.txn ts
        committed := p.txn :: s.committed
        active := s.active.filter (· ≠ p.txn)
        pass := some { p with undo := [], phase := .forgetting writers } }
    | _ => none
  | .forget =>
    match p.phase with
    | .forgetting (writer :: writers) =>
      some { s with
        commitRegistry := s.commitRegistry.forget writer
        pass := some { p with phase := .forgetting writers } }
    | .forgetting [] => some { s with pass := none }
    | _ => none
  | .gcAbort =>
    match p.phase with
    | .sweeping .. | .captured _ =>
      some { s with pass := some { p with phase := .rollingBack [] } }
    | .forgetting _ | .rollingBack _ => none
  | .undoFreeze =>
    match p.phase, p.undo with
    | .rollingBack restored, f :: undo =>
      some { s.patchHeaderWord f.kind f.id f.word (.inFlight f.writer) with
        pass := some { p with undo, phase := .rollingBack (f :: restored) } }
    | _, _ => none
  | .restore =>
    match p.phase, p.undo with
    | .rollingBack _, [] =>
      some { s with
        freezeLow := fun k => (s.freezeLow k).descend (p.savepoint k)
        active := s.active.filter (· ≠ p.txn)
        pass := none }
    | _, _ => none
  | _ => none

def step : StoreOp → Option RecordStore
  | .begin txn =>
    if txn ∈ s.begun then none
    else some { s with active := txn :: s.active, begun := txn :: s.begun }
  | .grow kind =>
    some { s with highWater := fun k => if k = kind then s.highWater k + 1 else s.highWater k }
  | .stamp txn kind id word =>
    if s.isWriter txn ∧ 1 ≤ id ∧ id < s.highWater kind ∧
        (word = .expired → (s.records kind id).isSome) then
      some { s.setRecord kind id (some
          (((s.records kind id).getD { created := .none }).set word (.inFlight txn))) with
        stamped := (txn, kind, id) :: s.stamped }
    else none
  | .descend txn kind id =>
    if s.isWriter txn then
      some { s.setFloor kind ((s.freezeLow kind).descend id) with
        descended := (txn, kind, id) :: s.descended }
    else none
  | .link txn kind id =>
    if s.isWriter txn then
      some { s with
        chains := fun k i => if k = kind ∧ i = id then txn :: s.chains k i else s.chains k i
        slots := fun t => if t = txn then .inFlight txn else s.slots t }
    else none
  | .publish txn ts =>
    if s.isWriter txn then
      some { s with slots := fun t => if t = txn then .committed ts else s.slots t }
    else none
  | .commit txn ts =>
    -- all its writes are done, and its commit slot is published
    if s.isWriter txn ∧ (∀ a ∈ s.stamped, a.1 = txn → a ∈ s.descended) ∧
        s.slots txn ≠ .inFlight txn then
      some { s with
        commitRegistry := s.commitRegistry.recordCommit txn ts
        committed := txn :: s.committed }
    else none
  | .settle txn =>
    if txn ∈ s.committed then some { s with active := s.active.filter (· ≠ txn) } else none
  | .revert txn kind id word =>
    if s.isWriter txn ∧ (s.records kind id).any (fun h => h.get word == .inFlight txn) then
      match word with
      | .created => some (s.setRecord kind id none)
      | .expired => some (s.patchHeaderWord kind id .expired .none)
    else none
  | .detach txn =>
    if s.isWriter txn then
      some { s with
        chains := fun k i => (s.chains k i).filter (· ≠ txn)
        slots := fun t => if t = txn then .none else s.slots t }
    else none
  | .endRollback txn =>
    if s.isWriter txn then some { s with active := s.active.filter (· ≠ txn) } else none
  | .gcBegin txn =>
    if s.isWriter txn ∧ s.pass.isNone ∧ (∀ a ∈ s.stamped, a.1 ≠ txn) ∧ s.slots txn = .none then
      some { s with pass := some {
        txn, savepoint := fun k => (s.freezeLow k).get
        phase := .sweeping sweepOrder none false } }
    else none
  | op => s.pass.bind fun p => s.passStep p op

end RecordStore

end Graphus
