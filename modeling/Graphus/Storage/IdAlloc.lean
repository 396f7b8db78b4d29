import Graphus.Lib.Dict
import Graphus.Lib.Run

/-!
# Physical ids and their owners

One store's physical ids come from four places: the high-water mark gives fresh ids and contiguous
runs, the free list gives freed ones back, and an id freed by a bracketed pass is held until the
readers before it have retired. All of it is behind one latch, so an operation is one step here.

`IdPool` is the allocator with the callers. `holders` lists the callers that have been handed an id,
`fresh` marks the ids claimed from the mark and not freed since, and `waits` is the barrier under
which a listed id was freed, as long as it has not been released. A caller frees what it owns and
gives back to the mark what it has claimed; other calls are not part of a run.

**Theorem (`ids_have_one_owner`).** On every run that arms no barrier of `u64::MAX`, an id has one
owner at most, an id that is handed out has none and waits for no barrier, and the mark is above
every owned and every free id. The barrier is stored as its successor, which saturates: `u64::MAX`
is stamped as one less and released too early (`barrier_at_max_released_early`).
-/

namespace Graphus

open Function List Option

def u64Max : Nat := 2 ^ 64 - 1

/-- A stack of freed ids, the top first, with the number of times each one is listed. -/
structure FreeList where
  stack : List Nat := []
  index : Dict Nat Nat := ∅

namespace FreeList

def push (f : FreeList) (id : Nat) : FreeList :=
  ⟨id :: f.stack, f.index.insert id ((f.index.lookup id).getD 0 + 1)⟩

def pop (f : FreeList) : Option (Nat × FreeList) :=
  match f.stack with
  | [] => none
  | id :: stack =>
    some (id, ⟨stack, match f.index.lookup id with
      | none => f.index
      | some n => if n - 1 = 0 then f.index.erase id else f.index.insert id (n - 1)⟩)

def removeId (f : FreeList) (id : Nat) : FreeList := ⟨f.stack.filter (· ≠ id), f.index.erase id⟩

def contains (f : FreeList) (id : Nat) : Bool := id ∈ f.index

end FreeList

inductive Allocation where
  | reused (id : Nat)
  | fresh (id : Nat)
  /-- Nothing is allocated: the page of the next id is not mapped. -/
  | grow (next : Nat)
  deriving DecidableEq

def Allocation.allocatedId : Allocation → Option Nat
  | .reused id | .fresh id => some id
  | .grow _ => none

open Allocation (allocatedId)

/-- The allocation state of one store. `barrier` is the successor of the armed one, or zero. -/
structure StoreAllocator where
  next : Nat := 1
  free : FreeList := {}
  held : Dict Nat Nat := ∅
  barrier : Nat := 0

namespace StoreAllocator

variable (s : StoreAllocator)

def setReuseBarrier (barrier : Option Nat) : StoreAllocator :=
  { s with barrier := match barrier with
      | none => 0
      | some b => min (b + 1) u64Max }

def armedBarrier : Option Nat := if s.barrier = 0 then none else some (s.barrier - 1)

/-- Pop up to the first id that is not held. The held ones are stashed. -/
def popLoop (held : Dict Nat Nat) : Nat → FreeList → List Nat → Option Nat × FreeList × List Nat
  | 0, f, stash => (none, f, stash)
  | fuel + 1, f, stash =>
    match f.pop with
    | none => (none, f, stash)
    | some (id, f') =>
        if id ∈ held then popLoop held fuel f' (stash ++ [id]) else (some id, f', stash)

def popReusable : Option Nat × StoreAllocator :=
  if s.held.keys.isEmpty then
    match s.free.pop with
    | none => (none, s)
    | some (id, f) => (some id, { s with free := f })
  else
    let (picked, f, stash) := popLoop s.held (s.free.stack.length + 1) s.free []
    (picked, { s with free := stash.foldl FreeList.push f })

/-- The next fresh id, unless the id space is exhausted. -/
def allocFresh : Option Allocation × StoreAllocator :=
  if s.next + 1 ≤ u64Max then (some (.fresh s.next), { s with next := s.next + 1 }) else (none, s)

def allocate : Option Allocation × StoreAllocator :=
  match s.popReusable with
  | (some id, s') => (some (.reused id), s')
  | (none, s') => s'.allocFresh

def allocateWithin (capacity : Nat) : Option Allocation × StoreAllocator :=
  match s.popReusable with
  | (some id, s') => (some (.reused id), s')
  | (none, s') =>
    if s'.next ≥ capacity then (if s'.next + 1 ≤ u64Max then some (.grow s'.next) else none, s')
    else s'.allocFresh

def claimRun (endOfRun : Nat → Option (Fin (u64Max + 1))) : Option (Nat × Nat) × StoreAllocator :=
  let first := max s.next 1
  match endOfRun first with
  | none => (none, s)
  | some stop => if stop ≤ first then (none, s) else (some (first, stop), { s with next := stop })

/-- Lower the mark, if it is still where it was left. -/
def tryLower (start target : Nat) : Bool × StoreAllocator :=
  if s.next = start then (true, { s with next := target }) else (false, s)

def unbumpFresh (id : Nat) : Bool × StoreAllocator := s.tryLower (min (id + 1) u64Max) (max id 1)

def unbumpRun (first stop : Nat) : Bool × StoreAllocator := s.tryLower stop (max first 1)

def observe (id : Nat) : StoreAllocator := { s with next := max s.next (min (id + 1) u64Max) }

def pushFree (id : Nat) : StoreAllocator := { s with free := s.free.push id }

def pushFreeShadowHeld (id : Nat) : StoreAllocator :=
  { s with
    held := match s.armedBarrier with
      | some b => s.held.insert id b
      | none => s.held
    free := s.free.push id }

def removeFreeId (id : Nat) : StoreAllocator := { s with free := s.free.removeId id }

def releaseHeld (oldestOpenTicket : Nat) : StoreAllocator :=
  { s with held := s.held.retain fun b => oldestOpenTicket < b }

end StoreAllocator

/-! ## Callers -/

structure IdPool where
  alloc : StoreAllocator := {}
  holders : Nat → List Nat := fun _ => []
  fresh : Nat → Bool := fun _ => false
  armed : Option Nat := none
  waits : Nat → Option Nat := fun _ => none

/-- The latched operations, with the caller. `shadow` is the free that reads the barrier. -/
inductive AllocOp where
  | allocate (c : Nat)
  | allocateWithin (c capacity : Nat)
  | popReusable (c : Nat)
  | claimRun (c : Nat) (endOfRun : Nat → Option (Fin (u64Max + 1)))
  | unbumpFresh (c id : Nat)
  | unbumpRun (c first stop : Nat)
  | observe (id : Nat)
  | free (c id : Nat) (shadow : Bool)
  | freeIfAbsent (c id : Nat) (shadow : Bool)
  | withdraw (c id : Nat)
  | setReuseBarrier (barrier : Option Nat)
  | releaseHeld (oldestOpenTicket : Nat)

namespace IdPool

variable (s : IdPool)

/-- A freed id is handed to a caller. -/
def give (c id : Nat) : IdPool := { s with holders := update s.holders id (c :: s.holders id) }

/-- The ids `[first, stop)`, claimed from the mark, are handed to a caller. -/
def giveRun (c first stop : Nat) : IdPool :=
  { s with
    holders := fun id => if first ≤ id ∧ id < stop then c :: s.holders id else s.holders id
    fresh := fun id => s.fresh id || (first ≤ id ∧ id < stop : Bool) }

/-- The ids `[first, stop)` are given up by a caller. -/
def dropRun (c first stop : Nat) : IdPool :=
  { s with
    holders := fun id => if first ≤ id ∧ id < stop then (s.holders id).erase c else s.holders id
    fresh := fun id => s.fresh id && !(first ≤ id ∧ id < stop : Bool) }

def giveAllocation (c : Nat) : Option Allocation × StoreAllocator → IdPool
  | (some (.reused id), a) => { s.give c id with alloc := a }
  | (some (.fresh id), a) => { s.giveRun c id (id + 1) with alloc := a }
  | (some (.grow _), a) | (none, a) => { s with alloc := a }

/-- The answer to an un-bump: an id that could not be withdrawn stays with its owner. -/
def takeBack (c first stop : Nat) : Bool × StoreAllocator → IdPool
  | (true, a) => { s.dropRun c first stop with alloc := a }
  | (false, a) => { s with alloc := a }

def doFree (c id : Nat) (shadow : Bool) : IdPool :=
  { s with
    alloc := if shadow then s.alloc.pushFreeShadowHeld id else s.alloc.pushFree id
    holders := update s.holders id ((s.holders id).erase c)
    fresh := update s.fresh id false
    waits := update s.waits id (if shadow then s.armed else none) }

def step : AllocOp → Option IdPool
  | .allocate c => some (s.giveAllocation c s.alloc.allocate)
  | .allocateWithin c capacity => some (s.giveAllocation c (s.alloc.allocateWithin capacity))
  | .popReusable c =>
      some (s.giveAllocation c (s.alloc.popReusable.1.map .reused, s.alloc.popReusable.2))
  | .claimRun c endOfRun =>
    match s.alloc.claimRun endOfRun with
    | (some (first, stop), a) => some { s.giveRun c first stop with alloc := a }
    | (none, a) => some { s with alloc := a }
  | .unbumpFresh c id =>
    if c ∈ s.holders id ∧
      s.fresh id then some (s.takeBack c id (id + 1) (s.alloc.unbumpFresh id)) else none
  | .unbumpRun c first stop =>
    if first < stop ∧ ∀ id < stop, first ≤ id → c ∈ s.holders id ∧ s.fresh id then
      some (s.takeBack c first stop (s.alloc.unbumpRun first stop))
    else none
  | .observe id => some { s with alloc := s.alloc.observe id }
  | .free c id shadow => if c ∈ s.holders id then some (s.doFree c id shadow) else none
  | .freeIfAbsent c id shadow =>
    if s.alloc.free.contains id then some s
    else if c ∈ s.holders id then some (s.doFree c id shadow)
    else none
  | .withdraw c id =>
    if id ∈ s.alloc.free.stack then
      some { s.give c id with alloc := s.alloc.removeFreeId id, waits := update s.waits id none }
    else some { s with alloc := s.alloc.removeFreeId id }
  | .setReuseBarrier barrier =>
      some { s with alloc := s.alloc.setReuseBarrier barrier, armed := barrier }
  | .releaseHeld ticket =>
    some { s with
      alloc := s.alloc.releaseHeld ticket
      waits := fun id => (s.waits id).filter fun b => ticket < b }

/-- The id is one that the operation hands out. -/
def Grants (op : AllocOp) (id : Nat) : Prop :=
  match op with
  | .allocate _ => s.alloc.allocate.1.bind allocatedId = some id
  | .allocateWithin _ capacity => (s.alloc.allocateWithin capacity).1.bind allocatedId = some id
  | .popReusable _ => s.alloc.popReusable.1 = some id
  | .claimRun _ endOfRun => ∃ run ∈ (s.alloc.claimRun endOfRun).1, run.1 ≤ id ∧ id < run.2
  | _ => False

/-- The condition on the steps of a run. -/
def ArmsBelowMax (_ : IdPool) : AllocOp → Prop
  | .setReuseBarrier (some b) => b < u64Max
  | _ => True

instance (s : IdPool) (op : AllocOp) : Decidable (s.ArmsBelowMax op) := by
  unfold ArmsBelowMax
  split <;> infer_instance

end IdPool

/-! ## The free list -/

/-- The index counts the entries of the stack. -/
def FreeList.Ok (f : FreeList) : Prop :=
  ∀ id, f.index.lookup id = if f.stack.count id = 0 then none else some (f.stack.count id)

namespace FreeList

variable {f f' : FreeList} {id : Nat}

lemma Ok.push (h : f.Ok) (id : Nat) : (f.push id).Ok := by
  intro j
  rw [FreeList.push, Dict.lookup_insert, h, h]
  by_cases hj : j = id
  · subst hj
    by_cases hc : f.stack.count j = 0 <;> simp [hc]
  · simp [hj, Ne.symm hj]

lemma Ok.pop (h : f.Ok) (hp : f.pop = some (id, f')) : f.stack = id :: f'.stack ∧ f'.Ok := by
  unfold FreeList.pop at hp
  cases hs : f.stack with
  | nil => simp [hs] at hp
  | cons j stack =>
    have hlookup : f.index.lookup j = some (stack.count j + 1) := by simp [h j, hs]
    simp only [hs, hlookup, Nat.add_sub_cancel, some.injEq, Prod.mk.injEq] at hp
    obtain ⟨rfl, rfl⟩ := hp
    refine ⟨rfl, fun i => ?_⟩
    have hi := h i
    rw [hs] at hi
    split
    next hzero =>
      rw [Dict.lookup_erase]
      by_cases hij : i = j
      · simp [hij, hzero]
      · simpa [hij, Ne.symm hij] using hi
    next hpos =>
      rw [Dict.lookup_insert]
      by_cases hij : i = j
      · simp [hij, hpos]
      · simpa [hij, Ne.symm hij] using hi

lemma Ok.removeId (h : f.Ok) (id : Nat) : (f.removeId id).Ok := by
  intro j
  rw [FreeList.removeId, Dict.lookup_erase, h]
  by_cases hj : j = id
  · simp [hj, count_eq_zero]
  · rw [if_neg hj, count_filter (by simpa using hj)]

lemma Ok.foldl_push (h : f.Ok) (stash : List Nat) :
    (stash.foldl FreeList.push f).Ok ∧
    (stash.foldl FreeList.push f).stack.Perm (stash ++ f.stack) := by
  induction stash generalizing f with
  | nil => exact ⟨h, .rfl⟩
  | cons j stash ih =>
    obtain ⟨hok, hstack⟩ := ih (h.push j)
    exact ⟨hok, hstack.trans perm_middle⟩

end FreeList

namespace StoreAllocator

variable {s : StoreAllocator} {held : Dict Nat Nat}

/-- The ids that the loop has popped, stashed or left are those it has started from. -/
lemma popLoop_spec : ∀ {fuel : Nat} {f : FreeList} {stash : List Nat}, f.Ok →
    f.stack.length < fuel →
    ∃ picked f' stash', popLoop held fuel f stash = (picked, f', stash') ∧ f'.Ok ∧
      (∀ id ∈ picked, id ∉ held) ∧ (stash ++ f.stack).Perm (picked.toList ++ (stash' ++ f'.stack))
  | 0, _, _, _, hfuel => absurd hfuel (Nat.not_lt_zero _)
  | fuel + 1, f, stash, hok, hfuel => by
    unfold popLoop
    cases hp : f.pop with
    | none => exact ⟨none, f, stash, rfl, hok, by simp, .rfl⟩
    | some r =>
      obtain ⟨id, f1⟩ := r
      obtain ⟨hstack, hok1⟩ := hok.pop hp
      dsimp only
      split
      · have hlen : f1.stack.length < fuel := by
          rw [hstack, length_cons] at hfuel
          omega
        obtain ⟨picked, f', stash', heq, hok', hpicked, hperm⟩ := popLoop_spec hok1 hlen
        refine ⟨picked, f', stash', heq, hok', hpicked, ?_⟩
        rw [hstack]
        simpa using hperm
      next hfree =>
        refine ⟨some id, f1, stash, rfl, hok1, by simpa using hfree, ?_⟩
        rw [hstack]
        exact perm_middle

/-- **What `pop_reusable` does.** -/
lemma popReusable_spec (hok : s.free.Ok) :
    ∃ picked f, s.popReusable = (picked, { s with free := f }) ∧ f.Ok ∧
    (∀ id ∈ picked, id ∉ s.held) ∧ s.free.stack.Perm (picked.toList ++ f.stack) := by
  unfold popReusable
  split
  next hempty =>
    have hnone : ∀ id, id ∉ s.held := fun id hid => by
      rw [AList.mem_keys, isEmpty_iff.1 hempty] at hid
      cases hid
    cases hp : s.free.pop with
    | none => exact ⟨none, s.free, rfl, hok, by simp, .rfl⟩
    | some r =>
      obtain ⟨hstack, hok'⟩ := hok.pop hp
      exact ⟨some r.1, r.2, rfl, hok', fun id _ => hnone id, .of_eq hstack⟩
  next =>
    obtain ⟨picked, f, stash, heq, hokf, hpicked, hperm⟩ :=
      @popLoop_spec s.held (s.free.stack.length + 1) s.free [] hok (Nat.lt_succ_self _)
    obtain ⟨hok', hstack⟩ := hokf.foldl_push stash
    rw [heq]
    exact ⟨picked, _, rfl, hok', hpicked, hperm.trans (hstack.symm.append_left _)⟩

end StoreAllocator

open StoreAllocator (allocFresh allocate allocateWithin armedBarrier claimRun popReusable_spec
  tryLower unbumpFresh unbumpRun)

/-! ## Ownership -/

namespace IdPool

variable {s s' : IdPool} {c first stop id : Nat}

/-- How often an id is owned or listed. -/
def uses (s : IdPool) (id : Nat) : Nat := (s.holders id).length + s.alloc.free.stack.count id

structure Inv (s : IdPool) : Prop where
  list : s.alloc.free.Ok
  once : ∀ id, s.uses id ≤ 1
  below : ∀ id, s.uses id ≠ 0 → 0 < id ∧ id < s.alloc.next
  mark : 0 < s.alloc.next ∧ s.alloc.next ≤ u64Max
  waits : ∀ id b, s.waits id = some b → id ∈ s.alloc.free.stack ∧ s.alloc.held.lookup id = some b
  armed : s.alloc.armedBarrier = s.armed

lemma uses_of_holder (h : c ∈ s.holders id) : s.uses id ≠ 0 := by
  have := length_pos_of_mem h
  unfold uses
  omega

lemma uses_of_listed (h : id ∈ s.alloc.free.stack) : s.uses id ≠ 0 := by
  have := count_pos_iff.2 h
  unfold uses
  omega

section

variable (hs : Inv s)

include hs

/-- A listed id has no owner. -/
lemma Inv.unowned (h : id ∈ s.alloc.free.stack) : s.holders id = [] := by
  have hone := hs.once id
  have hpos := count_pos_iff.2 h
  unfold uses at hone
  exact length_eq_zero_iff.1 (by omega)

/-- An id at or above the mark is neither owned nor listed. -/
lemma Inv.above (hid : s.alloc.next ≤ id) :
    s.uses id = 0 ∧ s.holders id = [] ∧ s.waits id = none := by
  have huses : s.uses id = 0 := by
    by_contra h
    exact absurd (hs.below id h).2 (not_lt.2 hid)
  refine ⟨huses, length_eq_zero_iff.1 (Nat.eq_zero_of_add_eq_zero_right huses), ?_⟩
  cases hw : s.waits id with
  | none => rfl
  | some b => exact absurd huses (uses_of_listed (hs.waits id b hw).1)

/-- **Ids move between the list and the callers.** -/
lemma Inv.move (hok : s'.alloc.free.Ok) (huses : ∀ j, s'.uses j = s.uses j)
    (hnext : s'.alloc.next = s.alloc.next)
    (hwaits : ∀ j b, s'.waits j = some b → j ∈ s'.alloc.free.stack ∧
      s'.alloc.held.lookup j = some b)
    (harmed : s'.alloc.armedBarrier = s'.armed) : Inv s' where
  list := hok
  once j := huses j ▸ hs.once j
  below j hj := hnext ▸ hs.below j (huses j ▸ hj)
  mark := hnext ▸ hs.mark
  waits := hwaits
  armed := harmed

/-- **A listed id goes to a caller.** -/
lemma Inv.unlist {f : FreeList} {waits : Nat → Option Nat} (hok : f.Ok)
    (hperm : s.alloc.free.stack.Perm (id :: f.stack))
    (hwaits : ∀ j b, waits j = some b → s.waits j = some b ∧ j ≠ id) :
    Inv { s.give c id with alloc := { s.alloc with free := f }, waits := waits } := by
  refine hs.move hok (fun j => ?_) rfl (fun j b hb => ?_) hs.armed
  · have hcount := hperm.count_eq j
    rw [count_cons] at hcount
    by_cases hj : j = id
    · subst hj
      simp only [uses, give, update_self, length_cons]
      rw [if_pos (beq_self_eq_true j)] at hcount
      omega
    · simp only [uses, give, update_of_ne hj]
      rw [if_neg (by simpa using Ne.symm hj)] at hcount
      omega
  · obtain ⟨hw, hj⟩ := hwaits j b hb
    obtain ⟨hmem, hlookup⟩ := hs.waits j b hw
    exact ⟨(mem_cons.1 (hperm.mem_iff.1 hmem)).resolve_left hj, hlookup⟩

/-- **A freed id is handed out again**, or the list is only put in another order. -/
lemma Inv.popReusable : (∃ id a, s.alloc.popReusable = (some id, a) ∧
      Inv (s.giveAllocation c (some (.reused id), a)) ∧ s.holders id = [] ∧ s.waits id = none) ∨
    ∃ a, s.alloc.popReusable = (none, a) ∧ Inv { s with alloc := a } ∧ a.next = s.alloc.next := by
  obtain ⟨picked, f, heq, hok, hpicked, hperm⟩ := popReusable_spec hs.list
  cases picked with
  | none =>
    refine .inr ⟨_, heq, hs.move hok (fun j => ?_) rfl (fun j b hb => ?_) hs.armed, rfl⟩
    · have hcount := hperm.count_eq j
      simp only [uses, toList_none, nil_append] at hcount ⊢
      omega
    · exact ⟨hperm.mem_iff.1 (hs.waits j b hb).1, (hs.waits j b hb).2⟩
  | some id =>
    have hwaits : s.waits id = none := by
      cases hw : s.waits id with
      | none => rfl
      | some b => exact absurd (Dict.mem_of_lookup (hs.waits id b hw).2) (hpicked id rfl)
    refine .inl ⟨id, _, heq, hs.unlist hok hperm fun j b hb => ⟨hb, ?_⟩,
      hs.unowned (hperm.mem_iff.2 (by simp)), hwaits⟩
    rintro rfl
    cases hwaits.symm.trans hb

/-- **The mark is raised over a run that is handed out.** -/
lemma Inv.claim (hlt : s.alloc.next < stop) (hmax : stop ≤ u64Max) :
    Inv { s.giveRun c s.alloc.next stop with alloc := { s.alloc with next := stop } } where
  list := hs.list
  once j := by
    have hone := hs.once j
    simp only [uses, giveRun] at hone ⊢
    split
    next hj =>
      have hzero := (hs.above hj.1).1
      simp only [uses] at hzero
      simp only [length_cons]
      omega
    next => exact hone
  below j hj := by
    have hmark := hs.mark
    by_cases hrun : s.alloc.next ≤ j ∧ j < stop
    · exact ⟨by omega, hrun.2⟩
    · simp only [uses, giveRun, if_neg hrun] at hj
      have := hs.below j hj
      exact ⟨this.1, lt_trans this.2 hlt⟩
  mark := ⟨Nat.zero_lt_of_lt hlt, hmax⟩
  waits := hs.waits
  armed := hs.armed

/-- **A run that was claimed is given back to the mark**, if it is still at its end. -/
lemma Inv.takeBack (hlt : first < stop) (hrun : ∀ id < stop, first ≤ id → c ∈ s.holders id) :
    Inv (s.takeBack c first stop (s.alloc.tryLower stop first)) := by
  unfold tryLower
  split
  next hnext =>
    have hpos : 0 < first := (hs.below first (uses_of_holder (hrun first hlt le_rfl))).1
    have hgone : ∀ j, first ≤ j → j < stop →
      ((s.holders j).erase c).length + s.alloc.free.stack.count j = 0 := by
      intro j hj hj'
      have hone := hs.once j
      have hmem := hrun j hj' hj
      have hlen := length_pos_of_mem hmem
      rw [length_erase_of_mem hmem]
      unfold uses at hone
      omega
    show Inv { s.dropRun c first stop with alloc := { s.alloc with next := first } }
    exact { hs with
        once j := by
          have hone := hs.once j
          simp only [uses, dropRun] at hone ⊢
          split
          next hj => exact le_trans (le_of_eq (hgone j hj.1 hj.2)) (Nat.zero_le _)
          next => exact hone
        below j hj := by
          by_cases hin : first ≤ j ∧ j < stop
          · simp only [uses, dropRun, if_pos hin] at hj
            exact absurd (hgone j hin.1 hin.2) hj
          · simp only [uses, dropRun, if_neg hin] at hj
            have := hs.below j hj
            exact ⟨this.1, by show j < first; omega⟩
        mark := ⟨hpos, le_trans (le_of_lt hlt) (hnext ▸ hs.mark.2)⟩ }
  next => exact hs

/-- **An owner frees its id.** -/
lemma Inv.doFree (hown : c ∈ s.holders id) (shadow : Bool) : Inv (s.doFree c id shadow) := by
  -- the two kinds of free differ in what is held
  obtain ⟨held, halloc, hsame, hwaits⟩ : ∃ held,
      (s.doFree c id shadow).alloc = { s.alloc with free := s.alloc.free.push id, held := held } ∧
      (∀ j, j ≠ id → held.lookup j = s.alloc.held.lookup j) ∧
      ∀ b, (if shadow then s.armed else none) = some b → held.lookup id = some b := by
    cases shadow with
    | false => exact ⟨s.alloc.held, rfl, fun j _ => rfl, by simp⟩
    | true =>
      simp only [IdPool.doFree, StoreAllocator.pushFreeShadowHeld, hs.armed]
      cases s.armed with
      | none => exact ⟨s.alloc.held, rfl, fun j _ => rfl, by simp⟩
      | some b =>
        refine ⟨s.alloc.held.insert id b, rfl, fun j hj => ?_, by simp⟩
        exact AList.lookup_insert_ne hj
  refine hs.move (by rw [halloc]; exact hs.list.push id) (fun j => ?_) (by rw [halloc])
    (fun j b hb => ?_) (by rw [halloc]; exact hs.armed)
  · rw [uses, uses, halloc]
    by_cases hj : j = id
    · subst hj
      have hlen := length_pos_of_mem hown
      simp only [IdPool.doFree, update_self, FreeList.push, count_cons_self,
        length_erase_of_mem hown]
      omega
    · simp [IdPool.doFree, FreeList.push, hj, Ne.symm hj]
  · have hb : update s.waits id (if shadow then s.armed else none) j = some b := hb
    rw [halloc]
    by_cases hj : j = id
    · subst hj
      rw [update_self] at hb
      exact ⟨mem_cons_self, hwaits b hb⟩
    · rw [update_of_ne hj] at hb
      obtain ⟨hm, hl⟩ := hs.waits j b hb
      exact ⟨mem_cons_of_mem _ hm, (hsame j hj).trans hl⟩

lemma Inv.release (ticket : Nat) : Inv { s with
      alloc := s.alloc.releaseHeld ticket
      waits id := (s.waits id).filter fun b => ticket < b } := by
  have hlookup : ∀ j, (s.alloc.releaseHeld ticket).held.lookup j =
    (s.alloc.held.lookup j).filter fun b => ticket < b :=
    Dict.lookup_retain _ _
  exact { hs with
    waits j b hb := by
      obtain ⟨hw, hlt⟩ := filter_eq_some_iff.1 hb
      obtain ⟨hm, hl⟩ := hs.waits j b hw
      exact ⟨hm, by rw [hlookup, hl]; exact filter_eq_some_iff.2 ⟨rfl, hlt⟩⟩ }

lemma Inv.arm {barrier : Option Nat} (hC : s.ArmsBelowMax (.setReuseBarrier barrier)) :
    Inv { s with alloc := s.alloc.setReuseBarrier barrier, armed := barrier } := by
  refine { hs with armed := ?_ }
  cases barrier with
  | none => rfl
  | some b =>
    have hb : min (b + 1) u64Max = b + 1 := Nat.min_eq_left hC
    simp [armedBarrier, StoreAllocator.setReuseBarrier, hb]

/-- The mark goes up and nothing is handed out. -/
lemma Inv.observe (id : Nat) : Inv { s with alloc := s.alloc.observe id } := by
  have hle : s.alloc.next ≤ (s.alloc.observe id).next := le_max_left _ _
  exact { hs with
    below j hj := ⟨(hs.below j hj).1, lt_of_lt_of_le (hs.below j hj).2 hle⟩
    mark := ⟨lt_of_lt_of_le hs.mark.1 hle, max_le hs.mark.2 (Nat.min_le_right _ _)⟩ }

end

/-- The outcomes of an allocation. -/
inductive Hands (s : IdPool) (c : Nat) : Option Allocation × StoreAllocator → Prop
  | reused {id : Nat} {a : StoreAllocator} (hinv : Inv (s.giveAllocation c (some (.reused id), a)))
      (hfree : s.holders id = [] ∧ s.waits id = none) : Hands s c (some (.reused id), a)
  | fresh {a : StoreAllocator} (hinv : Inv { s with alloc := a }) (hnext : a.next = s.alloc.next) :
      Hands s c a.allocFresh
  | nothing {a : StoreAllocator} {o : Option Allocation} (hinv : Inv { s with alloc := a })
      (hnone : o.bind allocatedId = none) : Hands s c (o, a)

lemma Inv.hands_allocate (hs : Inv s) (c : Nat) : Hands s c s.alloc.allocate := by
  unfold allocate
  rcases hs.popReusable (c := c) with ⟨id, a, heq, hinv, hfree⟩ | ⟨a, heq, hinv, hnext⟩
  · rw [heq]
    exact .reused hinv hfree
  · rw [heq]
    exact .fresh hinv hnext

lemma Inv.hands_within (hs : Inv s) (c capacity : Nat) :
    Hands s c (s.alloc.allocateWithin capacity) := by
  unfold allocateWithin
  rcases hs.popReusable (c := c) with ⟨id, a, heq, hinv, hfree⟩ | ⟨a, heq, hinv, hnext⟩
  · rw [heq]
    exact .reused hinv hfree
  rw [heq]
  dsimp only
  split
  · exact .nothing hinv (by split <;> rfl)
  · exact .fresh hinv hnext

lemma Inv.hands_pop (hs : Inv s) (c : Nat) :
    Hands s c (s.alloc.popReusable.1.map .reused, s.alloc.popReusable.2) := by
  rcases hs.popReusable (c := c) with ⟨id, a, heq, hinv, hfree⟩ | ⟨a, heq, hinv, hnext⟩
  · rw [heq]
    exact .reused hinv hfree
  · rw [heq]
    exact .nothing hinv rfl

variable {r : Option Allocation × StoreAllocator}

lemma Hands.inv (h : Hands s c r) : Inv (s.giveAllocation c r) := by
  cases h with
  | reused hinv hfree => exact hinv
  | @fresh a hinv hnext =>
    unfold allocFresh
    split
    next hmax => exact hinv.claim (Nat.lt_succ_self _) hmax
    next => exact hinv
  | @nothing a o hinv hnone =>
    match o, hnone with
    | none, _ => exact hinv
    | some (.grow _), _ => exact hinv

/-- An id that is handed out has no owner and waits for no barrier. -/
lemma Hands.free (hs : Inv s) (h : Hands s c r) (hid : r.1.bind allocatedId = some id)
    : s.holders id = [] ∧ s.waits id = none := by
  cases h with
  | reused hinv hfree => exact some.inj hid ▸ hfree
  | @fresh a hinv hnext =>
    unfold allocFresh at hid
    split at hid
    · have habove := hs.above (le_of_eq hnext.symm)
      exact some.inj hid ▸ habove.2
    · cases hid
  | nothing hinv hnone => cases hnone.symm.trans hid

lemma Inv.claimRun_cases (hs : Inv s) (endOfRun : Nat → Option (Fin (u64Max + 1))) :
    s.alloc.claimRun endOfRun = (none, s.alloc) ∨ ∃ stop, s.alloc.next < stop ∧ stop ≤ u64Max ∧
      s.alloc.claimRun endOfRun = (some (s.alloc.next, stop), { s.alloc with next := stop }) := by
  rw [claimRun, max_eq_left (Nat.succ_le_of_lt hs.mark.1)]
  cases endOfRun s.alloc.next with
  | none => exact .inl rfl
  | some stop =>
    dsimp only
    split
    next => exact .inl rfl
    next hlt => exact .inr ⟨stop, not_le.1 hlt, Nat.lt_succ_iff.1 stop.isLt, rfl⟩

lemma Inv.withdraw (hs : Inv s) (h : s.step (.withdraw c id) = some s') : Inv s' := by
  simp only [step] at h
  split at h
  next hid =>
    cases h
    have hone := hs.once id
    have hpos := count_pos_iff.2 hid
    unfold uses at hone
    refine hs.unlist (hs.list.removeId id) (perm_iff_count.2 fun j => ?_) fun j b hb => ?_
    · by_cases hj : j = id
      · subst hj
        have hzero : (s.alloc.free.removeId j).stack.count j = 0 :=
          count_eq_zero.2 (by simp [FreeList.removeId])
        rw [count_cons_self]
        omega
      · simp [FreeList.removeId, hj, Ne.symm hj, count_filter]
    · by_cases hj : j = id
      · rw [hj, update_self] at hb
        cases hb
      · rw [update_of_ne hj] at hb
        exact ⟨hb, hj⟩
  next hid =>
    cases h
    have hstack : (s.alloc.removeFreeId id).free.stack = s.alloc.free.stack :=
      filter_eq_self.2 fun j hj => decide_eq_true fun heq => hid (heq ▸ hj)
    refine hs.move (hs.list.removeId id) (fun j => ?_) rfl (fun j b hb => ?_) hs.armed
    · rw [uses, uses, hstack]
    · exact ⟨hstack ▸ (hs.waits j b hb).1, (hs.waits j b hb).2⟩

lemma Inv.step {op : AllocOp} (hs : Inv s) (hC : s.ArmsBelowMax op)
    (h : s.step op = some s') : Inv s' := by
  cases op with
  | allocate c =>
    cases h
    exact (hs.hands_allocate c).inv
  | allocateWithin c capacity =>
    cases h
    exact (hs.hands_within c capacity).inv
  | popReusable c =>
    cases h
    exact (hs.hands_pop c).inv
  | claimRun c endOfRun =>
    rw [IdPool.step] at h
    rcases hs.claimRun_cases endOfRun with heq | ⟨stop, hlt, hmax, heq⟩ <;>
      rw [heq] at h <;> cases h
    · exact hs
    · exact hs.claim hlt hmax
  | unbumpFresh c id =>
    obtain ⟨hown, rfl⟩ := Run.guarded h
    obtain ⟨hpos, hlt⟩ := hs.below id (uses_of_holder hown.1)
    rw [unbumpFresh, Nat.min_eq_left (le_trans hlt hs.mark.2), Nat.max_eq_left hpos]
    refine hs.takeBack (Nat.lt_succ_self id) fun j hj hj' => ?_
    obtain rfl : j = id := by omega
    exact hown.1
  | unbumpRun c first stop =>
    obtain ⟨⟨hlt, hrun⟩, rfl⟩ := Run.guarded h
    obtain ⟨hpos, -⟩ := hs.below first (uses_of_holder (hrun first hlt le_rfl).1)
    rw [unbumpRun, Nat.max_eq_left hpos]
    exact hs.takeBack hlt fun id hid hle => (hrun id hid hle).1
  | observe id =>
    cases h
    exact hs.observe id
  | free c id shadow =>
    obtain ⟨hown, rfl⟩ := Run.guarded h
    exact hs.doFree hown shadow
  | freeIfAbsent c id shadow =>
    simp only [IdPool.step] at h
    split at h
    next =>
      cases h
      exact hs
    next =>
      obtain ⟨hown, rfl⟩ := Run.guarded h
      exact hs.doFree hown shadow
  | withdraw c id => exact hs.withdraw h
  | setReuseBarrier barrier =>
    cases h
    exact hs.arm hC
  | releaseHeld ticket =>
    cases h
    exact hs.release ticket

/-- What an operation hands out has no owner and waits for no barrier. -/
lemma Inv.grants {op : AllocOp} (hs : Inv s) (h : s.Grants op id) :
    s.holders id = [] ∧ s.waits id = none := by
  cases op with
  | allocate c => exact (hs.hands_allocate c).free hs h
  | allocateWithin c capacity => exact (hs.hands_within c capacity).free hs h
  | popReusable c =>
    refine (hs.hands_pop c).free hs ?_
    have hpop : s.alloc.popReusable.1 = some id := h
    simp [hpop, allocatedId]
  | claimRun c endOfRun =>
    obtain ⟨run, hrun, hid⟩ := h
    rcases hs.claimRun_cases endOfRun with heq | ⟨stop, -, -, heq⟩ <;>
      rw [heq] at hrun <;> cases hrun
    exact (hs.above hid.1).2
  | _ => cases h

/-! ## Runs -/

/-- What holds of the ids of a store. -/
structure Sound (s : IdPool) : Prop where
  /-- An id has one owner at most, and a listed one has none. -/
  owner : ∀ id, (s.holders id).length ≤ 1 ∧ (id ∈ s.alloc.free.stack → s.holders id = [])
  /-- An id that an operation hands out has no owner, and its barrier has been released. -/
  handedOut : ∀ op id, s.Grants op id → s.holders id = [] ∧ s.waits id = none
  mark : ∀ id, s.holders id ≠ [] ∨ id ∈ s.alloc.free.stack → id < s.alloc.next
  /-- A fresh id is within the capacity, and the mark is not raised beyond it. -/
  within : ∀ capacity, (s.alloc.allocateWithin capacity).2.next ≤ max s.alloc.next capacity ∧
    ∀ id, (s.alloc.allocateWithin capacity).1 = some (.fresh id) → id < capacity
  /-- Each id is listed once at most, and the index agrees with the stack. -/
  free : s.alloc.free.stack.Nodup ∧ ∀ id, s.alloc.free.contains id = true ↔ id ∈ s.alloc.free.stack
  index : s.alloc.free.Ok

lemma Inv.within (hs : Inv s) (capacity : Nat) :
    (s.alloc.allocateWithin capacity).2.next ≤ max s.alloc.next capacity ∧
    ∀ id, (s.alloc.allocateWithin capacity).1 = some (.fresh id) → id < capacity := by
  unfold allocateWithin
  obtain ⟨picked, f, heq, -⟩ := popReusable_spec hs.list
  rw [heq]
  cases picked with
  | some id => exact ⟨le_max_left _ _, by simp⟩
  | none =>
    dsimp only
    split
    · refine ⟨le_max_left _ _, fun id h => ?_⟩
      split at h <;> cases h
    next hlt =>
      unfold allocFresh
      split
      · refine ⟨le_trans (Nat.succ_le_of_lt (not_le.1 hlt)) (le_max_right _ _), fun id h => ?_⟩
        cases h
        exact not_le.1 hlt
      · exact ⟨le_max_left _ _, by simp⟩

lemma Inv.sound (hs : Inv s) : Sound s where
  owner id := ⟨le_trans (Nat.le_add_right _ _) (hs.once id), hs.unowned⟩
  handedOut op id := hs.grants
  mark id h := by
    refine (hs.below id ?_).2
    rcases h with h | h
    · obtain ⟨c, hc⟩ := exists_mem_of_ne_nil _ h
      exact uses_of_holder hc
    · exact uses_of_listed h
  within := hs.within
  free := by
    refine ⟨nodup_iff_count_le_one.2 fun id => le_trans (Nat.le_add_left _ _)
      (hs.once id), fun id => ?_⟩
    rw [FreeList.contains, decide_eq_true_eq, Dict.mem_iff_lookup, hs.list, ← count_pos_iff]
    by_cases h : s.alloc.free.stack.count id = 0
    · simp [h]
    · simp [h, Nat.pos_of_ne_zero h]
  index := hs.list

lemma Inv.init : Inv {} where
  list _ := rfl
  once _ := Nat.zero_le 1
  below _ h := absurd rfl h
  mark := by decide
  waits _ _ h := nomatch h
  armed := rfl

/-- **Physical ids have one owner at a time.** -/
theorem ids_have_one_owner {ops : List AllocOp} (hrun : Run.exec step {} ops = some s)
    (hC : Run.Along step ArmsBelowMax {} ops) : Sound s :=
  (Run.exec_preserves (fun hs hc h => Inv.step hs hc h) Inv.init hC hrun).sound

/-- Caller 1 frees an id under a barrier, and caller 2 gets it after the release. -/
def reuseAfterRelease : List AllocOp :=
  [.allocate 1, .setReuseBarrier (some 5), .free 1 1 true, .allocate 2, .releaseHeld 5, .allocate 2]

theorem ids_have_one_owner_reuseAfterRelease :
    ∃ s, Run.exec step {} reuseAfterRelease = some s ∧ s.holders 1 = [2] ∧
    s.holders 2 = [2] ∧ Sound s := by
  have heval : (Run.exec step {} reuseAfterRelease).map (fun s => (s.holders 1, s.holders 2)) =
    some ([2], [2]) := by
    decide +kernel
  obtain ⟨s, hrun, hs⟩ := map_eq_some_iff.1 heval
  obtain ⟨h1, h2⟩ := Prod.mk.inj hs
  exact ⟨s, hrun, h1, h2, ids_have_one_owner hrun (by decide +kernel)⟩

/-- **A barrier that is released too early.** An id is freed under the barrier `u64::MAX`. A release
at the ticket before it, at which the barrier still holds, gives the id free. -/
theorem barrier_at_max_released_early : ∃ s, Run.exec step {}
      [.allocate 1, .setReuseBarrier (some u64Max), .free 1 1 true, .releaseHeld (u64Max - 1)] =
      some s ∧
    s.waits 1 = some u64Max ∧ s.Grants (.allocate 2) 1 := by
  have heval : (Run.exec step {}
      [.allocate 1, .setReuseBarrier (some u64Max), .free 1 1 true, .releaseHeld (u64Max - 1)]).map
      (fun s => (s.waits 1, s.alloc.allocate.1)) = some (some u64Max, some (.reused 1)) := by
        decide +kernel
  obtain ⟨s, hrun, hs⟩ := map_eq_some_iff.1 heval
  obtain ⟨h1, h2⟩ := Prod.mk.inj hs
  exact ⟨s, hrun, h1, by rw [Grants, h2]; rfl⟩

end IdPool

end Graphus
