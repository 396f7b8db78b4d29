import Graphus.Lib.CrashDevice
import Graphus.Lib.Dict
import Graphus.Lib.Run
import Mathlib.Data.List.Sort

/-!
# The doublewrite buffer

Before a page is written to its home location, a copy of it is made durable in the doublewrite
buffer, a device of its own. Checkpoints stage whole batches into the batch region. An eviction
stages one page into a slot of the eviction ring, which it has claimed. A region is a header page,
which names the home pages, and one data page for each of them. The header of the batch region
carries the checkpoint floor.

Recovery reads the copies of all regions. A home page that fails its checksum is restored from the
copy with the highest log sequence number; copies in the ring below the floor are ignored.

Several evictions and several checkpoints run side by side. Each of their page writes is one
operation, and so is each barrier. A frame is latched from the staging of its image to the end of
its home write; an eviction keeps the latch until that write is durable. A torn page is a value of
its own, since it is told from a whole one by its checksum.
-/

namespace Graphus.Dwb

open Function

/-! ## Pages and regions -/

/-- A page image, with the fields of the page header that recovery reads. -/
structure Image (α : Type) where
  pageId : Nat
  lsn : Nat
  data : α
  deriving DecidableEq

/-- A page of the home device. -/
inductive HomePage (α : Type) where
  | torn
  | image (image : Image α)
  deriving DecidableEq

/-- A page of the doublewrite device. -/
inductive DwbPage (α : Type) where
  /-- A page that was never written. -/
  | blank
  | torn
  | image (image : Image α)
  | header (homes : List Nat) (floor : Nat)
  deriving DecidableEq

def pageSize : Nat := 8192

/-- Where the home page ids begin in a header page: after the page header, the magic, the count and
the floor. -/
def hdrOffHomes : Nat := 24 + 8 + 8 + 8

def dwbMaxBatch : Nat := (pageSize - hdrOffHomes) / 8

def dwbEvictRingSlots : Nat := 32

structure Region where
  headerSlot : Nat
  firstDataSlot : Nat
  capacity : Nat

def batchRegion : Region := ⟨0, 1, dwbMaxBatch⟩

def evictRingBase : Nat := 1 + dwbMaxBatch

def evictRingRegion (slot : Nat) :
    Region := ⟨evictRingBase + slot * 2, evictRingBase + slot * 2 + 1, 1⟩

variable {α : Type}

/-- The home page ids and the floor of a header page. A page that is torn, was never written or is
no header describes no batch. -/
def decodeHeader : DwbPage α → Option (List Nat × Nat)
  | .header homes floor => if homes.length > dwbMaxBatch then none else some (homes, floor)
  | .blank | .torn | .image _ => none

/-! ## Recovery -/

/-- The copies found so far. -/
structure Gathered (α : Type) where
  candidates : Dict Nat (Image α) := ∅
  named : List Nat := []
  hadCorruptCopy : List Nat := []

variable (dwb : Nat → DwbPage α)

/-- One copy is looked at. -/
def gatherCopy (floor : Nat) (floorGated : Bool) (g : Gathered α) (homeId slot : Nat) :
    Gathered α :=
  let g := { g with named := g.named.insert homeId }
  match dwb slot with
  | .image copy =>
    if copy.pageId ≠ homeId then { g with hadCorruptCopy := g.hadCorruptCopy.insert homeId }
    else if floorGated ∧ copy.lsn < floor then g
    else
      match g.candidates.lookup homeId with
      | some best =>
        if best.lsn ≥ copy.lsn then g else { g with candidates := g.candidates.insert homeId copy }
      | none => { g with candidates := g.candidates.insert homeId copy }
  | .blank | .torn | .header _ _ => { g with hadCorruptCopy := g.hadCorruptCopy.insert homeId }

/-- The copies of a region, from its `i`-th data slot on. -/
def gatherHomes (dwb : Nat → DwbPage α) (floor : Nat) (region : Region) (floorGated : Bool) :
    Gathered α → Nat → List Nat → Gathered α
  | g, _, [] => g
  | g, i, homeId :: homes =>
    gatherHomes dwb floor region floorGated
      (gatherCopy dwb floor floorGated g homeId (region.firstDataSlot + i)) (i + 1) homes

def gatherRegion (floor : Nat) (g : Gathered α) (r : Region × Bool) : Gathered α :=
  match decodeHeader (dwb r.1.headerSlot) with
  | none => g
  | some (homes, _) => gatherHomes dwb floor r.1 r.2 g 0 homes

/-- The batch region, which is never gated by the floor, and every ring slot. -/
def regions : List (Region × Bool) :=
  (batchRegion, false) :: (List.range dwbEvictRingSlots).map fun slot =>
    (evictRingRegion slot, true)

/-- The floor that the header of the batch region holds. -/
def readFloor : Nat :=
  ((decodeHeader (dwb batchRegion.headerSlot)).map Prod.snd).getD 0

def gather : Gathered α := regions.foldl (gatherRegion dwb (readFloor dwb)) {}

/-- The home pages and the lists that the repair fills. -/
structure Repair (α : Type) where
  home : Nat → HomePage α
  repaired : Nat := 0
  tornUnprotected : List Nat := []
  doubleFault : List Nat := []

variable (pageCount : Nat)

/-- One named home page. -/
def repairPage (g : Gathered α) (r : Repair α) (homeId : Nat) : Repair α :=
  if homeId ≥ pageCount then r
  else
    match r.home homeId with
    | .image _ => r
    | .torn =>
      match g.candidates.lookup homeId with
      | some copy =>
          { r with home := update r.home homeId (.image copy), repaired := r.repaired + 1 }
      | none =>
        if homeId ∈ g.hadCorruptCopy then { r with doubleFault := r.doubleFault ++ [homeId] }
        else { r with tornUnprotected := r.tornUnprotected ++ [homeId] }

/-- The unrepairable fault, with the pages it names. -/
structure Fault where
  doubleFault : List Nat
  tornUnprotected : List Nat
  floor : Nat

/-- The outcome of the recovery, and the home pages it leaves. -/
def recoverHome (dwb : Nat → DwbPage α) (home : Nat → HomePage α) :
    Except Fault Nat × (Nat → HomePage α) :=
  let g := gather dwb
  let r := (g.named.insertionSort (· ≤ ·)).foldl (repairPage pageCount g) { home := home }
  if r.doubleFault ≠ [] ∨ r.tornUnprotected ≠ [] then
    (.error ⟨r.doubleFault, r.tornUnprotected, readFloor dwb⟩, r.home)
  else (.ok r.repaired, r.home)

/-! ## Evictions and checkpoints -/

inductive EvictPhase where
  | claimed
  /-- The data page of the slot is written. -/
  | imaged
  /-- The header of the slot is written. -/
  | staged
  /-- The barrier has returned. -/
  | durable
  /-- The page is written home. -/
  | home
  deriving DecidableEq

/-- An eviction that owns a ring slot. -/
structure Eviction (α : Type) where
  image : Image α
  phase : EvictPhase

/-- Where a checkpoint is. -/
inductive Checkpoint (α : Type) where
  /-- The data pages below `next` are written. -/
  | staging (batch : List (Image α)) (next : Nat)
  | staged (batch : List (Image α))
  /-- The batch is durable, and `todo` is still to be written home. -/
  | flushing (batch todo : List (Image α))
  /-- The batch is written home, and the latches are released. -/
  | flushed (batch : List (Image α))
  /-- The header of `clear` or `set_floor` is written. -/
  | header

/-- The pages whose frames a checkpoint has latched. -/
def Checkpoint.latches : Checkpoint α → List Nat
  | .staging batch _ | .staged batch | .flushing batch _ => batch.map Image.pageId
  | .flushed _ | .header => []

/-- The buffer pool, the two devices, the free slots and what is under way. -/
structure State (α : Type) where
  pageCount : Nat
  frames : Nat → Image α
  home : CrashDevice Nat (HomePage α)
  dwb : CrashDevice Nat (DwbPage α) := ⟨fun _ => .blank, []⟩
  floor : Nat := 0
  free : List Bool := List.replicate dwbEvictRingSlots true
  ring : Nat → Option (Eviction α) := fun _ => none
  checkpoints : Dict Nat (Checkpoint α) := ∅
  /-- The images that a page has had, a record of the past. -/
  history : List (Image α) := []

namespace State

variable (s : State α)

def latched (p : Nat) : Prop :=
  (∃ slot < dwbEvictRingSlots, ∃ e ∈ s.ring slot, e.image.pageId = p) ∨ ∃ e ∈ s.checkpoints.entries,
    p ∈ e.2.latches

instance (p : Nat) : Decidable (s.latched p) := by
  unfold latched
  infer_instance

def setEviction (slot : Nat) (e : Eviction α) : State α :=
  { s with ring := update s.ring slot (some e) }

def setCheckpoint (cid : Nat) (c : Checkpoint α) : State α :=
  { s with checkpoints := s.checkpoints.insert cid c }

/-- A batch header with the current floor. -/
def writeHeader (homes : List Nat) : State α :=
  { s with dwb := s.dwb.write batchRegion.headerSlot (.header homes s.floor) }

end State

inductive Op (α : Type) where
  /-- A page gets a new content. -/
  | update (page lsn : Nat) (data : α)
  | claimSlot (page : Nat)
  | stageData (slot : Nat)
  | stageHeader (slot : Nat)
  | dwbSync
  /-- The staging barrier returns. -/
  | barrier (slot : Nat)
  | homeWrite (slot : Nat)
  | homeSync
  /-- The home sync returns, and the slot is freed. -/
  | freeSlot (slot : Nat)
  | stageBatch (cid : Nat) (pages : List Nat)
  | batchData (cid : Nat)
  | batchHeader (cid : Nat)
  | batchBarrier (cid : Nat)
  | batchHome (cid : Nat)
  | batchUnlatch (cid : Nat)
  | batchSync (cid : Nat)
  | clear (cid : Nat)
  | setFloor (cid floor : Nat)
  | headerSync (cid : Nat)

/-- The pages that the first `n` data slots and the header of the batch region take. -/
def batchPages (n : Nat) : List Nat :=
  batchRegion.headerSlot :: (List.range n).map fun i => batchRegion.firstDataSlot + i

/-- The steps of an eviction. -/
def evictStep (s : State α) (slot : Nat) (e : Eviction α) : Op α → Option (State α)
  | .stageData _ =>
    if e.phase = .claimed then
      some { s.setEviction slot { e with phase := .imaged } with
        dwb := s.dwb.write (evictRingRegion slot).firstDataSlot (.image e.image) }
    else none
  | .stageHeader _ =>
    if e.phase = .imaged then
      some { s.setEviction slot { e with phase := .staged } with
        dwb := s.dwb.write (evictRingRegion slot).headerSlot (.header [e.image.pageId] 0) }
    else none
  | .barrier _ =>
    if e.phase = .staged ∧ s.dwb.Clean (evictRingRegion slot).headerSlot ∧
        s.dwb.Clean (evictRingRegion slot).firstDataSlot then
      some (s.setEviction slot { e with phase := .durable })
    else none
  | .homeWrite _ =>
    if e.phase = .durable then
      some { s.setEviction slot { e with phase := .home } with
        home := s.home.write e.image.pageId (.image e.image) }
    else none
  | .freeSlot _ =>
    if e.phase = .home then
      some { s with
        home := s.home.sync
        ring := update s.ring slot none
        free := s.free.set slot true }
    else none
  | _ => none

/-- The steps of a checkpoint that has staged a batch or written a header. -/
def checkpointStep (s : State α) (cid : Nat) (c : Checkpoint α) : Op α → Option (State α)
  | .batchData _ =>
    match c with
    | .staging batch next =>
      batch[next]?.map fun image => { s.setCheckpoint cid (.staging batch (next + 1)) with
        dwb := s.dwb.write (batchRegion.firstDataSlot + next) (.image image) }
    | _ => none
  | .batchHeader _ =>
    match c with
    | .staging batch next =>
      if next = batch.length then
        some ((s.writeHeader (batch.map Image.pageId)).setCheckpoint cid (.staged batch))
      else none
    | _ => none
  | .batchBarrier _ =>
    match c with
    | .staged batch =>
      if ∀ x ∈ batchPages batch.length,
        s.dwb.Clean x then some (s.setCheckpoint cid (.flushing batch batch))
      else none
    | _ => none
  | .batchHome _ =>
    match c with
    | .flushing batch (image :: todo) =>
      some { s.setCheckpoint cid (.flushing batch todo) with
        home := s.home.write image.pageId (.image image) }
    | _ => none
  | .batchUnlatch _ =>
    match c with
    | .flushing batch [] => some (s.setCheckpoint cid (.flushed batch))
    | _ => none
  | .batchSync _ =>
    match c with
    | .flushed _ => some { s with home := s.home.sync, checkpoints := s.checkpoints.erase cid }
    | _ => none
  | .headerSync _ =>
    match c with
    | .header => some { s with dwb := s.dwb.sync, checkpoints := s.checkpoints.erase cid }
    | _ => none
  | _ => none

/-- One operation. -/
def step (s : State α) : Op α → Option (State α)
  | .update page lsn data =>
    if page < s.pageCount ∧ (s.frames page).lsn < lsn ∧ ¬ s.latched page then
      some { s with
        frames := update s.frames page ⟨page, lsn, data⟩
        history := ⟨page, lsn, data⟩ :: s.history }
    else none
  | .claimSlot page =>
    if page < s.pageCount ∧ ¬ s.latched page then
      (s.free.findIdx? id).map fun slot =>
        { s.setEviction slot ⟨s.frames page, .claimed⟩ with free := s.free.set slot false }
    else none
  | .dwbSync => some { s with dwb := s.dwb.sync }
  | .homeSync => some { s with home := s.home.sync }
  | .stageBatch cid pages =>
    if s.checkpoints.lookup cid = none ∧ pages ≠ [] ∧
      pages.length ≤ batchRegion.capacity ∧ pages.Nodup ∧
        ∀ p ∈ pages, p < s.pageCount ∧ ¬ s.latched p then
      some (s.setCheckpoint cid (.staging (pages.map s.frames) 0))
    else none
  | .clear cid =>
    if s.checkpoints.lookup cid =
      none then some ((s.writeHeader []).setCheckpoint cid .header) else none
  | .setFloor cid floor =>
    if s.checkpoints.lookup cid = none then
      if floor ≤ s.floor then some s
      else some ((({ s with floor := floor } : State α).writeHeader []).setCheckpoint cid .header)
    else none
  | op@(.stageData slot) | op@(.stageHeader slot) | op@(.barrier slot) | op@(.homeWrite slot)
  | op@(.freeSlot slot) => (s.ring slot).bind fun e => evictStep s slot e op
  | op@(.batchData cid) | op@(.batchHeader cid) | op@(.batchBarrier cid) | op@(.batchHome cid)
  | op@(.batchUnlatch cid) | op@(.batchSync cid) | op@(.headerSync cid) =>
    (s.checkpoints.lookup cid).bind fun c => checkpointStep s cid c op

/-- A store with clean home pages and a fresh doublewrite device. -/
def init (pages : Nat → Image α) : State α where
  pageCount := pageCount
  frames := fun p => { pages p with pageId := p }
  home := ⟨fun p => .image { pages p with pageId := p }, []⟩
  history := (List.range pageCount).map fun p => { pages p with pageId := p }

end Graphus.Dwb
