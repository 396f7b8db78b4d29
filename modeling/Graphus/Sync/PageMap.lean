import Graphus.Lib.Threads
import Mathlib.Data.Nat.Log
import Mathlib.Data.Set.Function
import Mathlib.Algebra.Group.Nat.Defs

/-!
# The lock-free page map

A store's map from store-relative pages to device pages. It is a spine of chunks, each twice as long
as the one before, and two counters. A push reserves an index by compare-and-exchange, writes its
entry and publishes by advancing the length from exactly its index. A reader checks the length
first.

**Theorem (`pushes_contiguous`).** Under every schedule of pushes and reads, every index below the
length holds the page of the one push that was assigned the index, and keeps it for ever. A push
that has returned is below the length. A read never finds a chunk or a slot missing and returns the
page of the push at its index. The split of an index into chunk and slot is a bijection onto the
slots.

The assignment of indices is recorded with the map. A push between its reservation and its
publication owns a slot at or above the length, so its write disturbs neither the published prefix
nor another push.
-/

namespace Graphus

open Function Option
open Threads (step)

/-! ## The geometry -/

/-- The binary logarithm of the length of the first chunk. -/
def chunk0Log2 : Nat := 6

/-- The length of the spine. -/
def maxChunks : Nat := 32

/-- The leading zeros of a 64-bit word. -/
def leadingZeros (x : Nat) : Nat := if x = 0 then 64 else 63 - x.log2

/-- The chunk of an entry and its place in the chunk. -/
def split (i : Nat) : Nat × Nat :=
  let q := i >>> chunk0Log2
  let k := 64 - 1 - leadingZeros (q + 1)
  let base := ((1 <<< k) - 1) <<< chunk0Log2
  (k, i - base)

/-- The length of a chunk. -/
def chunkCapacity (k : Nat) : Nat := 1 <<< (chunk0Log2 + k)

/-- The number of entries that a map can address. -/
def maxEntries : Nat := ((1 <<< maxChunks) - 1) <<< chunk0Log2

/-- The first index of a chunk. -/
def chunkBase (k : Nat) : Nat := (2 ^ k - 1) * 64

lemma chunkCapacity_eq (k : Nat) : chunkCapacity k = 64 * 2 ^ k := by
  rw [chunkCapacity, Nat.shiftLeft_eq, Nat.one_mul, Nat.pow_add]
  rfl

lemma chunkBase_succ (k : Nat) : chunkBase (k + 1) = chunkBase k + chunkCapacity k := by
  rw [chunkBase, chunkBase, chunkCapacity_eq]
  omega

lemma chunkBase_mono {j k : Nat} (h : j ≤ k) : chunkBase j ≤ chunkBase k :=
  Nat.mul_le_mul_right _ (Nat.sub_le_sub_right (Nat.pow_le_pow_right (by decide) h) 1)

lemma maxEntries_eq : maxEntries = chunkBase maxChunks := by decide

/-- The chunk that holds an index. -/
lemma split_eq {i k : Nat} (hk : k < maxChunks) (hlo : chunkBase k ≤ i)
    (hhi : i < chunkBase (k + 1)) : split i = (k, i - chunkBase k) := by
  have hlog : ((i >>> chunk0Log2) + 1).log2 = k := by
    rw [Nat.log2_eq_iff (Nat.succ_ne_zero _)]
    rw [chunkBase] at hlo hhi
    simp only [chunk0Log2]
    omega
  have hzeros : 64 - 1 - leadingZeros ((i >>> chunk0Log2) + 1) = k := by
    rw [leadingZeros, if_neg (Nat.succ_ne_zero _)]
    simp only [maxChunks] at hk
    omega
  simp only [split, hzeros, Nat.shiftLeft_eq, Nat.one_mul]
  rfl

lemma exists_chunk {i : Nat} (h : i < maxEntries) :
    ∃ k < maxChunks, chunkBase k ≤ i ∧ i < chunkBase (k + 1) := by
  rw [maxEntries_eq] at h
  generalize maxChunks = n at h
  induction n with
  | zero => simp [chunkBase] at h
  | succ n ih =>
    by_cases hn : i < chunkBase n
    · obtain ⟨k, hk, hi⟩ := ih hn
      exact ⟨k, Nat.lt_succ_of_lt hk, hi⟩
    · exact ⟨n, Nat.lt_succ_self n, not_lt.1 hn, h⟩

/-- The slots of the chunks. -/
def slots : Set (Nat × Nat) := {s | s.1 < maxChunks ∧ s.2 < chunkCapacity s.1}

/-- The index that a slot holds. -/
def slotIndex (s : Nat × Nat) : Nat := chunkBase s.1 + s.2

lemma split_mem {i : Nat} (h : i < maxEntries) : split i ∈ slots ∧ slotIndex (split i) = i := by
  obtain ⟨k, hk, hlo, hhi⟩ := exists_chunk h
  rw [split_eq hk hlo hhi]
  rw [chunkBase_succ] at hhi
  exact ⟨⟨hk, by simp only; omega⟩, by simp only [slotIndex]; omega⟩

lemma split_slotIndex {s : Nat × Nat} (h : s ∈ slots) :
    slotIndex s < maxEntries ∧ split (slotIndex s) = s := by
  obtain ⟨k, off⟩ := s
  obtain ⟨hk, hoff⟩ : k < maxChunks ∧ off < chunkCapacity k := h
  have hhi : chunkBase k + off < chunkBase (k + 1) := by
    rw [chunkBase_succ]
    omega
  refine ⟨?_, ?_⟩
  · exact hhi.trans_le (chunkBase_mono hk)
  · rw [slotIndex, split_eq hk (Nat.le_add_right _ _) hhi, Nat.add_sub_cancel_left]

lemma split_bijOn : Set.BijOn split {i | i < maxEntries} slots :=
  have hinv : Set.InvOn slotIndex split {i | i < maxEntries} slots :=
    ⟨fun _ h => (split_mem h).2, fun _ h => (split_slotIndex h).2⟩
  hinv.bijOn (fun _ h => (split_mem h).1) fun _ h => (split_slotIndex h).1

/-! ## The map -/

/-- The map that the threads share. `assigned` is the history: the push that reserved each index,
with its page. -/
structure PageMap (Tid : Type) where
  chunks : Nat → Option (List Nat)
  len : Nat
  reserved : Nat
  assigned : List (Tid × Nat)

namespace PageMap

variable {Tid : Type}

/-- The empty map. -/
def new : PageMap Tid where
  chunks _ := none
  len := 0
  reserved := 0
  assigned := []

/-- The entry of an index: `none` when its chunk or its slot is missing. -/
def entry (m : PageMap Tid) (i : Nat) : Option Nat :=
  (m.chunks (split i).1).bind fun chunk => chunk[(split i).2]?

/-- The chunk of an index, installed on first use. -/
def getOrInit (m : PageMap Tid) (i : Nat) : PageMap Tid :=
  { m with
    chunks := update m.chunks (split i).1
      (some ((m.chunks (split i).1).getD (List.replicate (chunkCapacity (split i).1) 0))) }

/-- Write the entry of an index whose chunk is installed. -/
def store (m : PageMap Tid) (i page : Nat) : PageMap Tid :=
  { m with
    chunks := update m.chunks (split i).1
      ((m.chunks (split i).1).map fun chunk => chunk.set (split i).2 page) }

/-- The device page of a store-relative page: `none` when it is not mapped, an error where the code
panics. -/
def get (m : PageMap Tid) (i : Nat) : Except Unit (Option Nat) :=
  if m.len ≤ i then .ok none
  else match m.entry i with
    | some page => .ok (some page)
    | none => .error ()

/-- Where a push or a read is. -/
inductive Phase where
  | idle
  /-- It is about to reserve the index `i`, which it has read. -/
  | reserving (page i : Nat)
  | reserved (page i : Nat)
  /-- The chunk of its index is installed. -/
  | installed (page i : Nat)
  /-- Its entry is written and waits for publication. -/
  | stored (page i : Nat)
  | pushed (page i : Nat)
  /-- The map is at its ceiling. -/
  | full (page i : Nat)
  /-- The length admits the index of the read. -/
  | admitted (i : Nat)
  /-- The chunk of the read is found. -/
  | located (i : Nat)
  | got (i : Nat) (page : Option Nat)
  | panicked
  deriving DecidableEq

/-- The page and the index of a push that has reserved one. -/
def Phase.claimed : Phase → Option (Nat × Nat)
  | .reserved page i | .installed page i | .stored page i | .pushed page i => some (page, i)
  | _ => none

/-- An action. A weak compare-and-exchange may fail spuriously. -/
inductive Action where
  /-- `push` reads the reservation counter. -/
  | push (page : Nat)
  | reserve (spurious : Bool)
  | install
  | store
  | publish (spurious : Bool)
  /-- `get` reads the length. -/
  | get (i : Nat)
  | locate
  | load

/-- One attempt to reserve the index `i`. -/
def reserve (m : PageMap Tid) (t : Tid) (page i : Nat) (spurious : Bool) : PageMap Tid × Phase :=
  if maxEntries ≤ i then (m, .full page i)
  else if m.reserved = i ∧ spurious = false then
    ({ m with reserved := i + 1, assigned := m.assigned ++ [(t, page)] }, .reserved page i)
  else (m, .reserving page m.reserved)

/-- One attempt to publish the index `i`. -/
def publish (m : PageMap Tid) (page i : Nat) (spurious : Bool) : PageMap Tid × Phase :=
  if m.len = i ∧ spurious = false then ({ m with len := i + 1 }, .pushed page i)
  else (m, .stored page i)

/-- One action of the thread `t`. -/
def act (t : Tid) (m : PageMap Tid) : Phase → Action → Option (PageMap Tid × Phase)
  | .idle, .push page => some (m, .reserving page m.reserved)
  | .reserving page i, .reserve spurious => some (m.reserve t page i spurious)
  | .reserved page i, .install => some (m.getOrInit i, .installed page i)
  | .installed page i, .store => some (m.store i page, .stored page i)
  | .stored page i, .publish spurious => some (m.publish page i spurious)
  | .idle, .get i => some (m, if m.len ≤ i then .got i none else .admitted i)
  | .admitted i, .locate =>
      some (m, if (m.chunks (split i).1).isSome then .located i else .panicked)
  | .located i, .load =>
    some (m, match m.entry i with
      | some page => .got i (some page)
      | none => .panicked)
  | _, _ => none

/-- An empty map, and no push or read has begun. -/
def start : Threads Tid (PageMap Tid) Phase := ⟨new, fun _ => .idle⟩

/-! ## Entries -/

variable {m m' : PageMap Tid} {t u : Tid} {p p' q : Phase} {a : Action} {i j page : Nat}

lemma isSome_getOrInit : ((m.getOrInit i).chunks (split i).1).isSome := by
  simp [getOrInit]

lemma isSome_chunks_getOrInit {k : Nat} (h : (m.chunks k).isSome) :
    ((m.getOrInit i).chunks k).isSome := by
  by_cases hk : k = (split i).1
  · subst hk
    exact isSome_getOrInit
  · simpa [getOrInit, hk] using h

lemma entry_getOrInit (h : m.entry j = some page) : (m.getOrInit i).entry j = some page := by
  by_cases hk : (split j).1 = (split i).1
  · rw [entry, bind_eq_some_iff] at h ⊢
    obtain ⟨chunk, hchunk, hpage⟩ := h
    refine ⟨chunk, ?_, hpage⟩
    rw [hk] at hchunk ⊢
    simp [getOrInit, hchunk]
  · simpa [entry, getOrInit, hk] using h

lemma isSome_chunks_store {k : Nat} (h : (m.chunks k).isSome) :
    ((m.store i page).chunks k).isSome := by
  by_cases hk : k = (split i).1
  · subst hk
    simpa [store] using h
  · simpa [store, hk] using h

/-- A write leaves the entries of other indices alone, since they have other slots. -/
lemma entry_store_of_ne (hi : i < maxEntries) (hj : j < maxEntries) (hne : j ≠ i) :
    (m.store i page).entry j = m.entry j := by
  by_cases hk : (split j).1 = (split i).1
  · have hoff : (split i).2 ≠ (split j).2 := fun hoff =>
      hne (split_bijOn.injOn hj hi (Prod.ext hk hoff.symm))
    have hset : ∀ chunk : List Nat, (chunk.set (split i).2 page)[(split j).2]? =
        chunk[(split j).2]? := fun chunk => List.getElem?_set_ne hoff
    rw [entry, entry, hk]
    cases hchunk : m.chunks (split i).1 with
    | none => simp [store, hchunk]
    | some chunk => simp [store, hchunk, hset]
  · simp [entry, store, hk]

lemma entry_store_self (hi : i < maxEntries) (hsome : (m.chunks (split i).1).isSome)
    (hcap : ∀ k chunk, m.chunks k = some chunk → chunk.length = chunkCapacity k) :
    (m.store i page).entry i = some page := by
  obtain ⟨chunk, hchunk⟩ := isSome_iff_exists.1 hsome
  have hoff : (split i).2 < chunk.length := by
    rw [hcap _ chunk hchunk]
    exact (split_mem hi).1.2
  simp [entry, store, hchunk, hoff]

/-! ## The proof outline -/

/-- What the map promises. -/
structure MapOk (m : PageMap Tid) : Prop where
  reserved : m.reserved = m.assigned.length
  len_le : m.len ≤ m.reserved
  ceiling : m.reserved ≤ maxEntries
  capacity : ∀ k chunk, m.chunks k = some chunk → chunk.length = chunkCapacity k
  published : ∀ i < m.len, ∃ t page, m.assigned[i]? = some (t, page) ∧ m.entry i = some page

/-- What a thread knows about the map at each of its phases. -/
def Here (m : PageMap Tid) : Phase → Prop
  | .reserved _ i => m.len ≤ i
  | .installed _ i => m.len ≤ i ∧ (m.chunks (split i).1).isSome
  | .stored page i => m.len ≤ i ∧ m.entry i = some page
  | .pushed _ i | .admitted i | .located i => i < m.len
  | .got i (some page) => i < m.len ∧ m.entry i = some page
  | .panicked => False
  | .idle | .reserving .. | .full .. | .got _ none => True

/-- The history has a push exactly at the index that it holds. -/
structure ThreadOk (m : PageMap Tid) (t : Tid) (p : Phase) : Prop where
  claimed_iff : ∀ i page, m.assigned[i]? = some (t, page) ↔ p.claimed = some (page, i)
  here : Here m p

lemma ThreadOk.lt_max (hm : MapOk m) (h : ThreadOk m t p) (hp : p.claimed = some (page, i)) :
    i < maxEntries := by
  refine lt_of_lt_of_le ?_ hm.ceiling
  rw [hm.reserved]
  exact (List.getElem?_eq_some_iff.1 ((h.claimed_iff i page).2 hp)).1

/-- Two threads hold different indices. -/
lemma ThreadOk.index_ne (ht : ThreadOk m t p) (hu : ThreadOk m u q) (hne : u ≠ t) {page' : Nat}
    (hp : p.claimed = some (page, i)) (hq : q.claimed = some (page', j)) : j ≠ i := by
  rintro rfl
  have h := (ht.claimed_iff j page).2 hp
  rw [(hu.claimed_iff j page').2 hq] at h
  exact hne (congrArg Prod.fst (some.inj h))

/-- The indices whose entries a thread relies on. -/
def Reads (m : PageMap Tid) (p : Phase) (j : Nat) : Prop :=
  j < m.len ∨ ∃ page, p.claimed = some (page, j)

/-- What a thread knows survives a change of the map that does not reach its index. -/
lemma Here.mono (h : Here m q) (hlen : m.len ≤ m'.len)
    (hfree : ∀ page j, q.claimed = some (page, j) → m.len ≤ j → m'.len ≤ j)
    (hchunks : ∀ k, (m.chunks k).isSome → (m'.chunks k).isSome)
    (hentry : ∀ j page, Reads m q j → m.entry j = some page → m'.entry j = some page) :
    Here m' q := by
  cases q with
  | idle | reserving | full => trivial
  | reserved page j => exact hfree page j rfl h
  | installed page j => exact ⟨hfree page j rfl h.1, hchunks _ h.2⟩
  | stored page j => exact ⟨hfree page j rfl h.1, hentry j page (.inr ⟨page, rfl⟩) h.2⟩
  | pushed page j | admitted j | located j => exact lt_of_lt_of_le h hlen
  | got j result =>
    cases result with
    | none => trivial
    | some page => exact ⟨h.1.trans_le hlen, hentry j page (.inl h.1) h.2⟩
  | panicked => exact h

section

variable (hm : MapOk m)

include hm

/-- An index that another thread relies on is in range and is not the one that `t` owns. -/
lemma Reads.ne (ht : ThreadOk m t p) (hu : ThreadOk m u q) (hne : u ≠ t)
    (hp : p.claimed = some (page, i)) (hi : m.len ≤ i) (hj : Reads m q j) :
    j < maxEntries ∧ j ≠ i := by
  rcases hj with hj | ⟨page', hj⟩
  · exact ⟨(hj.trans_le hm.len_le).trans_le hm.ceiling, (hj.trans_le hi).ne⟩
  · exact ⟨hu.lt_max hm hj, ht.index_ne hu hne hp hj⟩

lemma MapOk.claim (hceiling : m.reserved < maxEntries) :
    MapOk { m with reserved := m.reserved + 1, assigned := m.assigned ++ [(t, page)] } where
  reserved := by simp [hm.reserved]
  len_le := Nat.le_succ_of_le hm.len_le
  ceiling := hceiling
  capacity := hm.capacity
  published j hj := by
    obtain ⟨u, page', hassigned, hentry⟩ := hm.published j hj
    have hlt := (List.getElem?_eq_some_iff.1 hassigned).1
    exact ⟨u, page', (List.getElem?_append_left hlt).trans hassigned, hentry⟩

lemma MapOk.getOrInit : MapOk (m.getOrInit i) :=
  { hm with
    capacity k chunk hchunk := by
      by_cases hk : k = (split i).1
      · subst hk
        cases hold : m.chunks (split i).1 with
        | none =>
          simp only [PageMap.getOrInit, update_self, hold, getD_none, some.injEq] at hchunk
          rw [← hchunk, List.length_replicate]
        | some old =>
          simp only [PageMap.getOrInit, update_self, hold, some.injEq] at hchunk
          exact hchunk ▸ hm.capacity _ old hold
      · exact hm.capacity k chunk ((update_of_ne hk _ _).symm.trans hchunk)
    published j hj := by
      obtain ⟨u, page', hassigned, hentry⟩ := hm.published j hj
      exact ⟨u, page', hassigned, entry_getOrInit hentry⟩ }

/-- A write at or above the length keeps the published prefix. -/
lemma MapOk.store (hlo : m.len ≤ i) (hhi : i < maxEntries) : MapOk (m.store i page) :=
  { hm with
    capacity k chunk hchunk := by
      by_cases hk : k = (split i).1
      · subst hk
        simp only [PageMap.store, update_self, map_eq_some_iff] at hchunk
        obtain ⟨old, hold, rfl⟩ := hchunk
        rw [List.length_set]
        exact hm.capacity _ old hold
      · exact hm.capacity k chunk ((update_of_ne hk _ _).symm.trans hchunk)
    published j hj := by
      obtain ⟨u, page', hassigned, hentry⟩ := hm.published j hj
      have hj' : j < maxEntries := (hj.trans_le hm.len_le).trans_le hm.ceiling
      exact ⟨u, page', hassigned, (entry_store_of_ne hhi hj' (hj.trans_le hlo).ne).trans hentry⟩ }

lemma MapOk.publish (hassigned : m.assigned[m.len]? = some (t, page))
    (hentry : m.entry m.len = some page) : MapOk { m with len := m.len + 1 } :=
  { hm with
    len_le := by
      rw [hm.reserved]
      exact (List.getElem?_eq_some_iff.1 hassigned).1
    published j hj := by
      rcases Nat.lt_succ_iff_lt_or_eq.1 hj with hj | rfl
      · exact hm.published j hj
      · exact ⟨t, page, hassigned, hentry⟩ }

end

/-- What an action does, by its cases. The last case is a read that finds the map in disorder. -/
inductive Acts (t : Tid) (m : PageMap Tid) : Phase → PageMap Tid → Phase → Prop
  | push {page : Nat} : Acts t m .idle m (.reserving page m.reserved)
  | full {page i : Nat} : Acts t m (.reserving page i) m (.full page i)
  | claim {page : Nat} (h : m.reserved < maxEntries) : Acts t m (.reserving page m.reserved)
      { m with reserved := m.reserved + 1, assigned := m.assigned ++ [(t, page)] }
      (.reserved page m.reserved)
  | retry {page i : Nat} : Acts t m (.reserving page i) m (.reserving page m.reserved)
  | install {page i : Nat} : Acts t m (.reserved page i) (m.getOrInit i) (.installed page i)
  | store {page i : Nat} : Acts t m (.installed page i) (m.store i page) (.stored page i)
  | publish {page : Nat} : Acts t m (.stored page m.len) { m with len := m.len + 1 }
      (.pushed page m.len)
  | spin {page i : Nat} : Acts t m (.stored page i) m (.stored page i)
  | miss {i : Nat} : Acts t m .idle m (.got i none)
  | admitted {i : Nat} (h : i < m.len) : Acts t m .idle m (.admitted i)
  | locate {i : Nat} : Acts t m (.admitted i) m (.located i)
  | load {i page : Nat} (h : m.entry i = some page) : Acts t m (.located i) m (.got i (some page))
  | disorder {i : Nat} {p : Phase} (hp : p = .admitted i ∨ p = .located i) (h : m.entry i = none) :
      Acts t m p m .panicked

lemma acts_of_act (h : act t m p a = some (m', p')) : Acts t m p m' p' := by
  unfold act at h
  split at h
  case h_1 => cases h; exact .push
  case h_2 page i spurious =>
    rw [reserve] at h
    split at h
    case isTrue => cases h; exact .full
    case isFalse hlt =>
      split at h
      case isTrue heq =>
        obtain ⟨rfl, -⟩ := heq
        cases h
        exact .claim (not_le.1 hlt)
      case isFalse => cases h; exact .retry
  case h_3 => cases h; exact .install
  case h_4 => cases h; exact .store
  case h_5 page i spurious =>
    rw [publish] at h
    split at h
    case isTrue heq =>
      obtain ⟨rfl, -⟩ := heq
      cases h
      exact .publish
    case isFalse => cases h; exact .spin
  case h_6 i =>
    split at h
    case isTrue => cases h; exact .miss
    case isFalse hlt => cases h; exact .admitted (not_le.1 hlt)
  case h_7 i =>
    split at h
    case isTrue => cases h; exact .locate
    case isFalse hnone =>
      cases h
      rw [Bool.not_eq_true, isSome_eq_false_iff, isNone_iff_eq_none] at hnone
      exact .disorder (.inl rfl) (by rw [entry, hnone]; rfl)
  case h_8 i =>
    split at h
    case h_1 page hpage => cases h; exact .load hpage
    case h_2 hnone => cases h; exact .disorder (.inr rfl) hnone
  case h_9 => cases h

/-- A thread that holds no index may move to another phase that holds none. -/
lemma ThreadOk.move (h : ThreadOk m t p) (hp : p'.claimed = p.claimed) (here : Here m p') :
    ThreadOk m t p' :=
  ⟨fun i page => by rw [h.claimed_iff, hp], here⟩

lemma ThreadOk.claim (hm : MapOk m) (h : ThreadOk m t (.reserving page i)) :
    ThreadOk { m with reserved := m.reserved + 1, assigned := m.assigned ++ [(t, page)] } t
      (.reserved page m.reserved) where
  claimed_iff j page' := by
    rw [List.getElem?_append]
    split
    · -- The history before had no index for this thread.
      have hnone := h.claimed_iff j page'
      simp only [Phase.claimed, reduceCtorEq] at hnone
      simp only [hnone, Phase.claimed, some.injEq, Prod.mk.injEq, false_iff]
      rw [hm.reserved]
      omega
    · simp only [Phase.claimed, List.getElem?_singleton, hm.reserved, some.injEq, Prod.mk.injEq]
      split
      · simp only [some.injEq, Prod.mk.injEq, true_and]
        omega
      · simp only [reduceCtorEq, false_iff]
        omega
  here := hm.len_le

/-- What another thread knows when `t` reserves an index. -/
lemma ThreadOk.claim_of_ne (h : ThreadOk m u q) (hu : u ≠ t) :
    ThreadOk { m with reserved := m.reserved + 1, assigned := m.assigned ++ [(t, page)] } u q where
  claimed_iff j page' := by
    rw [← h.claimed_iff, List.getElem?_append]
    split
    case isTrue => exact Iff.rfl
    case isFalse hj =>
      have hnone : m.assigned[j]? = none := List.getElem?_eq_none (not_lt.1 hj)
      rw [hnone, List.getElem?_singleton]
      split
      · simp [hu.symm]
      · simp
  here := h.here.mono le_rfl (fun _ _ _ hj => hj) (fun _ hk => hk) fun _ _ _ hj => hj

/-- The assertions of the threads and of the map they share. -/
def outline : Threads.Outline (@act Tid) where
  memory _ := MapOk
  thread _ := ThreadOk
  own {_ m t p a m' p'} hm ht hact := by
    cases acts_of_act hact with
    | push | full | retry | miss => exact ⟨hm, ht.move rfl trivial⟩
    | claim hlt => exact ⟨hm.claim hlt, ht.claim hm⟩
    | install => exact ⟨hm.getOrInit, ht.claimed_iff, ht.here, isSome_getOrInit⟩
    | store =>
      have hi := ht.lt_max hm rfl
      exact ⟨hm.store ht.here.1 hi, ht.claimed_iff, ht.here.1,
        entry_store_self hi ht.here.2 hm.capacity⟩
    | publish =>
      exact ⟨hm.publish ((ht.claimed_iff _ _).2 rfl) ht.here.2, ht.claimed_iff, Nat.lt_succ_self _⟩
    | spin => exact ⟨hm, ht⟩
    | admitted hlt => exact ⟨hm, ht.move rfl hlt⟩
    | locate => exact ⟨hm, ht.move rfl ht.here⟩
    | load hpage => exact ⟨hm, ht.move rfl ⟨ht.here, hpage⟩⟩
    | @disorder i _ hp hnone =>
      -- Below the length every entry is there.
      have hlt : i < m.len := by
        rcases hp with rfl | rfl
        · exact ht.here
        · exact ht.here
      obtain ⟨u, page, -, hentry⟩ := hm.published i hlt
      exact absurd (hentry.symm.trans hnone) nofun
  free {_ m t p a m' p' u q} hm ht hact hu h := by
    cases acts_of_act hact with
    | push | full | retry | spin | miss | admitted | locate | load | disorder => exact h
    | claim => exact h.claim_of_ne hu
    | install =>
      exact ⟨h.claimed_iff, h.here.mono le_rfl (fun _ _ _ hj => hj)
        (fun _ => isSome_chunks_getOrInit) fun _ _ _ => entry_getOrInit⟩
    | store =>
      refine ⟨h.claimed_iff, h.here.mono le_rfl (fun _ _ _ hj => hj)
        (fun _ => isSome_chunks_store) fun j page hreads hj => ?_⟩
      obtain ⟨hj', hne⟩ := hreads.ne hm ht h hu rfl ht.here.1
      exact (entry_store_of_ne (ht.lt_max hm rfl) hj' hne).trans hj
    | publish =>
      refine ⟨h.claimed_iff, h.here.mono (Nat.le_succ _) (fun page j hq hj => ?_)
        (fun _ hk => hk) fun _ _ _ hj => hj⟩
      exact Nat.lt_of_le_of_ne hj (ht.index_ne h hu rfl hq).symm

lemma outline_start : (@outline Tid).Holds [] start :=
  ⟨⟨rfl, le_rfl, Nat.zero_le _, nofun, nofun⟩, fun _ =>
    ⟨fun _ _ => by simp [start, new, Phase.claimed], trivial⟩⟩

/-! ## The published prefix -/

lemma Acts.prefix_kept (hm : MapOk m) (ht : ThreadOk m t p) (h : Acts t m p m' p') :
    m.len ≤ m'.len ∧ ∀ i < m.len, m'.entry i = m.entry i := by
  cases h with
  | install =>
    refine ⟨le_rfl, fun j hj => ?_⟩
    obtain ⟨u, page', -, hentry⟩ := hm.published j hj
    rw [hentry, entry_getOrInit hentry]
  | store =>
    refine ⟨le_rfl, fun j hj => entry_store_of_ne (ht.lt_max hm rfl) ?_ (hj.trans_le ht.here.1).ne⟩
    exact (hj.trans_le hm.len_le).trans_le hm.ceiling
  | publish => exact ⟨Nat.le_succ _, fun _ _ => rfl⟩
  | _ => exact ⟨le_rfl, fun _ _ => rfl⟩

lemma get_eq (hlt : i < m.len) (hentry : m.entry i = some page) : m.get i = .ok (some page) := by
  rw [get, if_neg (not_le.2 hlt), hentry]

section Result

variable [DecidableEq Tid] {tr tr' : List (Tid × Action)} {s s' : Threads Tid (PageMap Tid) Phase}

/-- From a state that meets the assertions on, the published prefix stands. -/
lemma prefix_kept_of_exec (h : outline.Holds tr s) (hrun : Run.exec (step act) s tr' = some s') :
    s.shared.len ≤ s'.shared.len ∧ ∀ i < s.shared.len, s'.shared.entry i = s.shared.entry i := by
  have hinv : outline.Holds tr s' ∧ s.shared.len ≤ s'.shared.len ∧
      ∀ i < s.shared.len, s'.shared.entry i = s.shared.entry i := by
    refine Run.exec_preserves (C := fun _ _ => True) (I := fun x => outline.Holds tr x ∧
      s.shared.len ≤ x.shared.len ∧ ∀ i < s.shared.len, x.shared.entry i = s.shared.entry i)
      ?_ ⟨h, le_rfl, fun _ _ => rfl⟩ Run.Along.always hrun
    rintro x op x' ⟨hx, hlen, hentry⟩ - hstep
    refine ⟨outline.holds_step hx hstep, ?_⟩
    obtain ⟨m, p, hact, rfl⟩ := Threads.step_eq_some hstep
    obtain ⟨hlen', hentry'⟩ := (acts_of_act hact).prefix_kept hx.1 (hx.2 op.1)
    exact ⟨hlen.trans hlen', fun i hi => (hentry' i (hi.trans_le hlen)).trans (hentry i hi)⟩
  exact hinv.2

/-- **The published length denotes a contiguous prefix of the pushes, for ever.** -/
theorem pushes_contiguous (hrun : Run.exec (step act) start tr = some s) :
    (∀ i < s.shared.len, ∃ t page, (s.phase t).claimed = some (page, i) ∧
      s.shared.get i = .ok (some page) ∧
      ∀ tr' s', Run.exec (step act) s tr' = some s' → i < s'.shared.len ∧
        s'.shared.get i = .ok (some page)) ∧
    (∀ t u page page' i, (s.phase t).claimed = some (page, i) →
      (s.phase u).claimed = some (page', i) → t = u) ∧
    (∀ t page i, s.phase t = .pushed page i → i < s.shared.len ∧ s.shared.get i = .ok (some page)) ∧
    (∀ r i page, s.phase r = .got i (some page) → ∃ t, (s.phase t).claimed = some (page, i)) ∧
    (∀ r, s.phase r ≠ .panicked) ∧
    Set.BijOn split {i | i < maxEntries} slots := by
  have hinv : outline.Holds tr s := outline.exec outline_start hrun
  have hmap : MapOk s.shared := hinv.1
  have hthread : ∀ t, ThreadOk s.shared t (s.phase t) := hinv.2
  have hclaimed : ∀ i < s.shared.len, ∃ t page, (s.phase t).claimed = some (page, i) ∧
      s.shared.entry i = some page := by
    intro i hi
    obtain ⟨t, page, hassigned, hentry⟩ := hmap.published i hi
    exact ⟨t, page, ((hthread t).claimed_iff i page).1 hassigned, hentry⟩
  have hunique : ∀ t u page page' i, (s.phase t).claimed = some (page, i) →
      (s.phase u).claimed = some (page', i) → t = u := by
    intro t u page page' i ht hu
    by_contra hne
    exact (hthread t).index_ne (hthread u) (Ne.symm hne) ht hu rfl
  refine ⟨fun i hi => ?_, hunique, fun t page i ht => ?_, fun r i page hr => ?_, fun r hr =>
    ?_, split_bijOn⟩
  · obtain ⟨t, page, hp, hentry⟩ := hclaimed i hi
    refine ⟨t, page, hp, get_eq hi hentry, fun tr' s' hrun' => ?_⟩
    obtain ⟨hlen, hkept⟩ := prefix_kept_of_exec hinv hrun'
    exact ⟨hi.trans_le hlen, get_eq (hi.trans_le hlen) ((hkept i hi).trans hentry)⟩
  · have hi : i < s.shared.len := by
      have hhere := (hthread t).here
      rwa [ht] at hhere
    obtain ⟨u, page', hp, hentry⟩ := hclaimed i hi
    have hu : t = u := hunique t u page page' i (by rw [ht]; rfl) hp
    subst hu
    rw [ht] at hp
    cases hp
    exact ⟨hi, get_eq hi hentry⟩
  · have hhere := (hthread r).here
    rw [hr] at hhere
    obtain ⟨t, page', hp, hentry⟩ := hclaimed i hhere.1
    rw [hhere.2] at hentry
    cases hentry
    exact ⟨t, hp⟩
  · have hhere := (hthread r).here
    rwa [hr] at hhere

end Result

/-- Two pushes reserve in turn, the second one writes first and waits for the first, and a read sees
both counters between them. -/
def crossedPushes : List (Fin 3 × Action) :=
  [(0, .push 40), (1, .push 41), (0, .reserve false), (1, .reserve false), (1, .reserve false),
    (1, .install), (1, .store), (1, .publish false), (0, .install), (0, .store),
    (0, .publish true), (0, .publish false), (2, .get 0), (1, .publish false), (2, .locate),
    (2, .load)]

theorem pushes_contiguous_crossedPushes :
    ∃ s ∈ Run.exec (step act) start crossedPushes, s.shared.len = 2 ∧
      s.phase 1 = .pushed 41 1 ∧ s.phase 2 = .got 0 (some 40) ∧
      s.shared.get 1 = .ok (some 41) := by
  obtain ⟨s, hs, hlen, h1, h2⟩ : ∃ s ∈ Run.exec (step act) start crossedPushes, s.shared.len = 2 ∧
        s.phase 1 = .pushed 41 1 ∧ s.phase 2 = .got 0 (some 40) := by
    decide +kernel
  exact ⟨s, hs, hlen, h1, h2, ((pushes_contiguous hs).2.2.1 1 41 1 h1).2⟩

end PageMap

end Graphus
