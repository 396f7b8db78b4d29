import Graphus.Storage.TornRepair

/-!
# The doublewrite protocol over whole runs

**Theorem (`recover_home_repairs`).** On every run, and at every crash, the recovery succeeds and
leaves every home page as a whole image, no older than its last home write that was durable. Two
conditions are on the run (`Orderly`): the floor is at most the log sequence number of a page whose
eviction is under way, when the eviction begins and when the floor is raised; and a checkpoint
writes to the batch region only while no other checkpoint is under way. Without the first, the only
copy of a torn page can be gated out, and the recovery fails (`recover_home_gated`). Without the
second a batch overwrites the copies of another.

The invariant says of every home write that is not durable that the eviction or the checkpoint that
has made it still has its copy (`Copy`), and that the copy is durable (`EvictOk`, `CheckpointOk`).
Frames are latched, so an image under way is the newest one of its page.
-/

namespace Graphus.Dwb

open CrashDevice List Option
open Function (update_of_ne update_self)
open Run (guarded)

variable {α : Type} {s s' : State α} {op : Op α} {frames : Nat → Image α}
  {dwb : CrashDevice Nat (DwbPage α)}
  {slot slot' : Nat} {e e' : Eviction α} {c c' : Checkpoint α} {x : Nat}
    {v : DwbPage α} {i : Image α}

/-! ## The layout -/

lemma evictRing_after_batch (slot : Nat) :
    dwbMaxBatch < (evictRingRegion slot).headerSlot ∧
    dwbMaxBatch < (evictRingRegion slot).firstDataSlot := by
  simp only [evictRingRegion, evictRingBase]
  omega

variable {n cid page : Nat}

lemma batchPages_le (hn : n ≤ dwbMaxBatch) (hx : x ∈ batchPages n) : x ≤ dwbMaxBatch := by
  rcases mem_cons.1 hx with rfl | hx
  · exact Nat.zero_le _
  obtain ⟨j, hj, rfl⟩ := mem_map.1 hx
  have := mem_range.1 hj
  simp only [batchRegion]
  omega

/-! ## An eviction -/

/-- How far an eviction has come. -/
@[simp] def EvictPhase.rank : EvictPhase → Nat
  | .claimed => 0
  | .imaged => 1
  | .staged => 2
  | .durable => 3
  | .home => 4

/-- The slot of an eviction holds what it has written so far. -/
structure EvictOk (frames : Nat → Image α) (dwb : CrashDevice Nat (DwbPage α)) (slot : Nat)
    (e : Eviction α) : Prop where
  frame : e.image = frames e.image.pageId
  data : 1 ≤ e.phase.rank → dwb.current (evictRingRegion slot).firstDataSlot = .image e.image
  header : 2 ≤ e.phase.rank → dwb.current (evictRingRegion slot).headerSlot =
    .header [e.image.pageId] 0
  clean : 3 ≤ e.phase.rank →
    dwb.Clean (evictRingRegion slot).headerSlot ∧ dwb.Clean (evictRingRegion slot).firstDataSlot

lemma EvictOk.write (he : EvictOk frames dwb slot e)
    (hheader : x ≠ (evictRingRegion slot).headerSlot)
    (hdata : x ≠ (evictRingRegion slot).firstDataSlot) : EvictOk frames (dwb.write x v) slot e where
  frame := he.frame
  data h := by rw [current_write, update_of_ne (Ne.symm hdata)]; exact he.data h
  header h := by rw [current_write, update_of_ne (Ne.symm hheader)]; exact he.header h
  clean h := ⟨(he.clean h).1.write hheader, (he.clean h).2.write hdata⟩

lemma EvictOk.sync (he : EvictOk frames dwb slot e) : EvictOk frames dwb.sync slot e :=
  { he with
    clean _ := ⟨clean_sync, clean_sync⟩ }

/-! ## A checkpoint -/

/-- The first `n` data pages of the batch region hold the batch. -/
structure BatchOk (dwb : CrashDevice Nat (DwbPage α)) (batch : List (Image α))
    (n : Nat) : Prop where
  length : batch.length ≤ dwbMaxBatch
  data : ∀ j i, batch[j]? = some i → j < n → dwb.current (batchRegion.firstDataSlot + j) = .image i

/-- The header of the batch region names the batch. -/
def HeaderOk (dwb : CrashDevice Nat (DwbPage α)) (batch : List (Image α)) : Prop :=
  ∃ floor, dwb.current batchRegion.headerSlot = .header (batch.map Image.pageId) floor

/-- The batch is durable. -/
structure BatchDurable (dwb : CrashDevice Nat (DwbPage α)) (batch : List (Image α)) : Prop where
  data : BatchOk dwb batch batch.length
  header : HeaderOk dwb batch
  clean : ∀ x ∈ batchPages batch.length, dwb.Clean x

/-- The batch region holds what a checkpoint has written so far. -/
def CheckpointOk (frames : Nat → Image α) (dwb : CrashDevice Nat (DwbPage α)) : Checkpoint α → Prop
  | .staging batch next => (∀ i ∈ batch, i = frames i.pageId) ∧ BatchOk dwb batch next
  | .staged batch =>
      (∀ i ∈ batch, i = frames i.pageId) ∧ BatchOk dwb batch batch.length ∧ HeaderOk dwb batch
  | .flushing batch todo =>
      (∀ i ∈ batch, i = frames i.pageId) ∧ todo ⊆ batch ∧ BatchDurable dwb batch
  | .flushed batch => BatchDurable dwb batch
  | .header => True

variable {batch : List (Image α)}

lemma BatchOk.write (hb : BatchOk dwb batch n) (hx : dwbMaxBatch < x) :
    BatchOk (dwb.write x v) batch n := by
  refine ⟨hb.length, fun j i hj hlt => ?_⟩
  have hlength := hb.length
  obtain ⟨hjlt, -⟩ := List.getElem?_eq_some_iff.1 hj
  have hne : batchRegion.firstDataSlot + j ≠ x := by
    simp only [batchRegion]
    omega
  rw [current_write, update_of_ne hne]
  exact hb.data j i hj hlt

lemma HeaderOk.write (hb : HeaderOk dwb batch) (hx : dwbMaxBatch < x) :
    HeaderOk (dwb.write x v) batch := by
  obtain ⟨floor, hfloor⟩ := hb
  have hne : batchRegion.headerSlot ≠ x := ne_of_lt (Nat.zero_lt_of_lt hx)
  refine ⟨floor, ?_⟩
  rw [current_write, update_of_ne hne]
  exact hfloor

lemma BatchDurable.write (hb : BatchDurable dwb batch) (hx : dwbMaxBatch < x) :
    BatchDurable (dwb.write x v) batch := by
  refine ⟨hb.data.write hx, hb.header.write hx, fun y hy => (hb.clean y hy).write ?_⟩
  have := batchPages_le hb.data.length hy
  omega

/-- A write beyond the batch region. -/
lemma CheckpointOk.write (hc : CheckpointOk frames dwb c) (hx : dwbMaxBatch < x) :
    CheckpointOk frames (dwb.write x v) c := by
  cases c with
  | staging batch next => exact ⟨hc.1, hc.2.write hx⟩
  | staged batch => exact ⟨hc.1, hc.2.1.write hx, hc.2.2.write hx⟩
  | flushing batch todo => exact ⟨hc.1, hc.2.1, hc.2.2.write hx⟩
  | flushed batch => exact BatchDurable.write hc hx
  | header => trivial

lemma BatchDurable.sync (hb : BatchDurable dwb batch) : BatchDurable dwb.sync batch :=
  ⟨⟨hb.data.length, hb.data.data⟩, hb.header, fun _ _ => clean_sync⟩

lemma CheckpointOk.sync (hc : CheckpointOk frames dwb c) : CheckpointOk frames dwb.sync c := by
  cases c with
  | staging batch next => exact ⟨hc.1, ⟨hc.2.length, hc.2.data⟩⟩
  | staged batch => exact ⟨hc.1, ⟨hc.2.1.length, hc.2.1.data⟩, hc.2.2⟩
  | flushing batch todo => exact ⟨hc.1, hc.2.1, hc.2.2.sync⟩
  | flushed batch => exact BatchDurable.sync hc
  | header => trivial

/-- A frame that the checkpoint has not latched changes. -/
lemma CheckpointOk.update {p : Nat} (hc : CheckpointOk frames dwb c) (hp : p ∉ c.latches) :
    CheckpointOk (Function.update frames p i) dwb c := by
  have hframes : ∀ batch : List (Image α), p ∉ batch.map Image.pageId →
    (∀ i ∈ batch, i = frames i.pageId) →
      ∀ j ∈ batch, j = Function.update frames p i j.pageId := by
    intro batch hp hb j hj
    have hne : j.pageId ≠ p := fun h => hp (h ▸ mem_map_of_mem hj)
    rw [update_of_ne hne]
    exact hb j hj
  cases c with
  | staging batch | staged batch | flushing batch => exact ⟨hframes batch hp hc.1, hc.2⟩
  | flushed batch => exact hc
  | header => trivial

/-! ## The invariant -/

/-- The images whose copies a checkpoint still keeps. -/
def Checkpoint.copies : Checkpoint α → List (Image α)
  | .flushing batch _ | .flushed batch => batch
  | .staging _ _ | .staged _ | .header => []

lemma CheckpointOk.durable (hc : CheckpointOk frames dwb c) (hi : i ∈ c.copies) :
    ∃ batch, BatchDurable dwb batch ∧ i ∈ batch := by
  cases c with
  | staging batch next => cases hi
  | staged batch => cases hi
  | flushing batch todo => exact ⟨batch, hc.2.2, hi⟩
  | flushed batch => exact ⟨batch, hc, hi⟩
  | header => cases hi

/-- A home write whose eviction or checkpoint is not finished. -/
def Copy (s : State α) (i : Image α) : Prop :=
  (∃ slot e, s.ring slot = some e ∧ e.image = i ∧ e.phase = .home) ∨
  ∃ cid c, s.checkpoints.lookup cid = some c ∧ i ∈ c.copies

/-- An eviction that has not written home moves on. -/
lemma Copy.ring {o : Option (Eviction α)} (hcopy : Copy s i)
    (hring : s'.ring = Function.update s.ring slot o)
    (hcheckpoints : s'.checkpoints = s.checkpoints)
    (hold : ∀ e, s.ring slot = some e → e.phase ≠ .home) :
    Copy s' i := by
  rcases hcopy with ⟨slot', e, he, himage, hphase⟩ | hcopy
  · have hne : slot' ≠ slot := by
      rintro rfl
      exact hold e he hphase
    exact .inl ⟨slot', e, by rw [hring, update_of_ne hne]; exact he, himage, hphase⟩
  · exact .inr (hcheckpoints ▸ hcopy)

/-- A checkpoint moves on and keeps its copies. -/
lemma Copy.checkpoint (hcopy : Copy s i) (hring : s'.ring = s.ring)
    (hcheckpoints : s'.checkpoints = s.checkpoints.insert cid c')
    (hkeep : ∀ c, s.checkpoints.lookup cid = some c → c.copies ⊆ c'.copies) : Copy s' i := by
  rcases hcopy with ⟨slot', e, he, himage, hphase⟩ | ⟨cid', c, hc, hi⟩
  · exact .inl ⟨slot', e, hring ▸ he, himage, hphase⟩
  right
  by_cases hcid : cid' = cid
  · subst hcid
    exact ⟨cid', c', hcheckpoints ▸ AList.lookup_insert _, hkeep c hc hi⟩
  · exact ⟨cid', c, by rw [hcheckpoints, Dict.lookup_insert, if_neg hcid]; exact hc, hi⟩

structure Inv (s : State α) : Prop where
  frame_id : ∀ p, (s.frames p).pageId = p
  frame_mem : ∀ p < s.pageCount, s.frames p ∈ s.history
  home : ∀ p v, s.home.Holds p v → ∃ i, v = .image i ∧ i.pageId = p ∧ i.lsn ≤ (s.frames p).lsn ∧
    (p < s.pageCount → i ∈ s.history)
  newer : ∀ p i j, s.home.durable p = .image i → (p, .image j) ∈ s.home.pending → i.lsn ≤ j.lsn
  copy : ∀ p i, (p, .image i) ∈ s.home.pending → Copy s i
  dwb_mem : ∀ x i, s.dwb.Holds x (.image i) → i ∈ s.history
  floor_le : ∀ homes floor, s.dwb.Holds batchRegion.headerSlot (.header homes floor) →
    floor ≤ s.floor
  free_length : s.free.length = dwbEvictRingSlots
  ring_free : ∀ slot e, s.ring slot = some e → s.free[slot]? = some false
  ring_count : ∀ slot e, s.ring slot = some e → e.image.pageId < s.pageCount
  ring_floor : ∀ slot e, s.ring slot = some e → s.floor ≤ e.image.lsn
  ring : ∀ slot e, s.ring slot = some e → EvictOk s.frames s.dwb slot e
  count : ∀ cid c, s.checkpoints.lookup cid = some c → ∀ p ∈ c.latches, p < s.pageCount
  checkpoint : ∀ cid c, s.checkpoints.lookup cid = some c → CheckpointOk s.frames s.dwb c

lemma Inv.init (pageCount : Nat) (pages : Nat → Image α) : Inv (init pageCount pages) where
  frame_id _ := rfl
  frame_mem p hp := mem_map.2 ⟨p, mem_range.2 hp, rfl⟩
  home := by
    rintro p v (h | h)
    · exact ⟨_, h.symm, rfl, le_rfl, fun hp => mem_map.2 ⟨p, mem_range.2 hp, rfl⟩⟩
    · cases h
  newer := nofun
  copy := nofun
  dwb_mem := by rintro x i (h | h) <;> cases h
  floor_le := by rintro homes floor (h | h) <;> cases h
  free_length := rfl
  ring_free := nofun
  ring_count := nofun
  ring_floor := nofun
  ring := nofun
  count := nofun
  checkpoint := nofun

lemma Inv.slot_lt (hs : Inv s) (he : s.ring slot = some e) : slot < dwbEvictRingSlots := by
  rw [← hs.free_length]
  exact (List.getElem?_eq_some_iff.1 (hs.ring_free slot e he)).1

/-! ## The frames -/

/-- A page gets a new content. -/
lemma Inv.update (hs : Inv s) {lsn : Nat} (data : α) (hlsn : (s.frames page).lsn < lsn)
    (hlatch : ¬ s.latched page) :
    Inv { s with
      frames := Function.update s.frames page ⟨page, lsn, data⟩
      history := ⟨page, lsn, data⟩ :: s.history } := by
  have hring : ∀ slot e, s.ring slot = some e → e.image.pageId ≠ page := by
    intro slot e he hpage
    exact hlatch (.inl ⟨slot, hs.slot_lt he, e, he, hpage⟩)
  exact { hs with
    frame_id p := by by_cases hp : p = page <;> simp [hp, hs.frame_id]
    frame_mem p hlt := by by_cases hp : p = page <;> simp [hp, hs.frame_mem p hlt]
    home p v hv := by
      obtain ⟨i, hi, hid, hle, hmem⟩ := hs.home p v hv
      refine ⟨i, hi, hid, ?_, fun hp => mem_cons_of_mem _ (hmem hp)⟩
      by_cases hp : p = page
      · subst hp
        simp only [update_self]
        omega
      · simpa [update_of_ne hp] using hle
    dwb_mem x i h := mem_cons_of_mem _ (hs.dwb_mem x i h)
    ring slot e he := by
      have hok := hs.ring slot e he
      refine ⟨?_, hok.data, hok.header, hok.clean⟩
      exact hok.frame.trans (update_of_ne (hring slot e he) _ _).symm
    checkpoint cid c hc := (hs.checkpoint cid c hc).update fun hp =>
      hlatch (.inr ⟨⟨cid, c⟩, AList.mem_lookup_iff.1 hc, hp⟩) }

/-! ## The devices -/

lemma Inv.dwbSync (hs : Inv s) : Inv { s with dwb := s.dwb.sync } :=
  { hs with
    dwb_mem x i h := hs.dwb_mem x i (holds_sync h ▸ holds_current s.dwb x)
    floor_le homes floor h := hs.floor_le homes floor (holds_sync h ▸ holds_current s.dwb _)
    ring slot e he := (hs.ring slot e he).sync
    checkpoint cid c hc := (hs.checkpoint cid c hc).sync }

lemma Inv.homeSync (hs : Inv s) : Inv { s with home := s.home.sync } :=
  { hs with
    home p v h := hs.home p v (holds_sync h ▸ holds_current s.home p)
    newer := nofun
    copy := nofun }

/-- A page is written home, and its copy is kept. -/
lemma Inv.writeHome (hs : Inv s) (hframe : i = s.frames i.pageId) (hcount : i.pageId < s.pageCount)
    (hcopy : Copy s i) : Inv { s with home := s.home.write i.pageId (.image i) } := by
  refine { hs with home := ?_, newer := ?_, copy := ?_ }
  · intro p v hv
    rcases holds_write hv with hv | ⟨rfl, rfl⟩
    · exact hs.home p v hv
    refine ⟨i, rfl, rfl, ?_, fun _ => ?_⟩
    · rw [← hframe]
    · rw [hframe]
      exact hs.frame_mem _ hcount
  · intro p j k hj hk
    rcases mem_append.1 hk with hk | hk
    · exact hs.newer p j k hj hk
    have heq := mem_singleton.1 hk
    simp only [Prod.mk.injEq, HomePage.image.injEq] at heq
    obtain ⟨rfl, rfl⟩ := heq
    obtain ⟨i', hi', -, hle, -⟩ := hs.home _ _ (.inl hj)
    cases hi'
    rw [hframe]
    exact hs.frame_id k.pageId ▸ hle
  · intro p j hj
    rcases mem_append.1 hj with hj | hj
    · exact hs.copy p j hj
    · have heq := mem_singleton.1 hj
      simp only [Prod.mk.injEq, HomePage.image.injEq] at heq
      exact heq.2 ▸ hcopy

/-! ## The steps of an eviction -/

/-- What the ring holds when one of its slots is written. -/
lemma ring_update {ring : Nat → Option (Eviction α)} {entry : Option (Eviction α)}
    (h : Function.update ring slot entry slot' = some e') :
    (slot' = slot ∧ entry = some e') ∨ (slot' ≠ slot ∧ ring slot' = some e') := by
  by_cases hslot : slot' = slot
  · subst hslot
    rw [update_self] at h
    exact .inl ⟨rfl, h⟩
  · rw [update_of_ne hslot] at h
    exact .inr ⟨hslot, h⟩

/-- An eviction that has not written home moves on, and only its own slot changes. -/
lemma Inv.evict {phase : EvictPhase} {dwb' : CrashDevice Nat (DwbPage α)} (hs : Inv s)
    (he : s.ring slot = some e) (hphase : e.phase ≠ .home)
    (hmem : ∀ x i, dwb'.Holds x (.image i) → i ∈ s.history)
    (hfloor : ∀ homes floor, dwb'.Holds batchRegion.headerSlot (.header homes floor) →
      floor ≤ s.floor)
    (hother : ∀ slot' e', slot' ≠ slot → EvictOk s.frames s.dwb slot' e' →
      EvictOk s.frames dwb' slot' e')
    (hcheckpoint : ∀ c, CheckpointOk s.frames s.dwb c → CheckpointOk s.frames dwb' c)
    (hok : EvictOk s.frames dwb' slot { e with phase := phase }) :
    Inv { s.setEviction slot { e with phase := phase } with dwb := dwb' } := by
  refine { hs with
    copy p i hi := (hs.copy p i hi).ring rfl rfl fun e' he' => ?_
    dwb_mem := hmem
    floor_le := hfloor
    ring_free slot' e' he' := ?_
    ring_count slot' e' he' := ?_
    ring_floor slot' e' he' := ?_
    ring slot' e' he' := ?_
    checkpoint cid c hc := hcheckpoint c (hs.checkpoint cid c hc) }
  · rw [he] at he'
    cases he'
    exact hphase
  all_goals rcases ring_update he' with ⟨rfl, ⟨⟩⟩ | ⟨hne, he'⟩
  · exact hs.ring_free slot' e he
  · exact hs.ring_free slot' e' he'
  · exact hs.ring_count slot' e he
  · exact hs.ring_count slot' e' he'
  · exact hs.ring_floor slot' e he
  · exact hs.ring_floor slot' e' he'
  · exact hok
  · exact hother slot' e' hne (hs.ring slot' e' he')

/-- A page of the slot is written. -/
lemma Inv.stage {phase : EvictPhase} (hs : Inv s) (he : s.ring slot = some e)
    (hphase : e.phase ≠ .home)
    (hx : x = (evictRingRegion slot).headerSlot ∨ x = (evictRingRegion slot).firstDataSlot)
    (hv : ∀ i, v = .image i → i ∈ s.history)
    (hok : EvictOk s.frames (s.dwb.write x v) slot { e with phase := phase }) :
    Inv { s.setEviction slot { e with phase := phase } with dwb := s.dwb.write x v } := by
  have hafter : dwbMaxBatch < x := by
    rcases hx with rfl | rfl
    · exact (evictRing_after_batch slot).1
    · exact (evictRing_after_batch slot).2
  refine hs.evict he hphase (fun y i h => ?_) (fun homes floor h => ?_) (fun slot' e' hne h => ?_)
    (fun c hc => hc.write hafter) hok
  · rcases holds_write h with h | ⟨-, h⟩
    · exact hs.dwb_mem y i h
    · exact hv i h.symm
  · rcases holds_write h with h | ⟨hzero, -⟩
    · exact hs.floor_le homes floor h
    · exact absurd hzero (ne_of_lt (Nat.zero_lt_of_lt hafter))
  · rcases hx with rfl | rfl <;> apply h.write <;> simp only [evictRingRegion] <;> omega

/-- An eviction begins. -/
lemma Inv.claimSlot (hs : Inv s) (hcount : page < s.pageCount)
    (hslot : s.free.findIdx? id = some slot) (hfloor : s.floor ≤ (s.frames page).lsn) :
    Inv { s.setEviction slot ⟨s.frames page, .claimed⟩ with free := s.free.set slot false } := by
  obtain ⟨hlt, hfree, -⟩ := findIdx?_eq_some_iff_getElem.1 hslot
  have hnone : ∀ e, s.ring slot ≠ some e := by
    intro e he
    have hused := hs.ring_free slot e he
    rw [getElem?_eq_getElem hlt, some.injEq] at hused
    rw [hused] at hfree
    cases hfree
  refine { hs with
    copy p i hi := (hs.copy p i hi).ring rfl rfl fun e' he' => absurd he' (hnone e')
    free_length := (length_set ..).trans hs.free_length
    ring_free slot' e' he' := ?_
    ring_count slot' e' he' := ?_
    ring_floor slot' e' he' := ?_
    ring slot' e' he' := ?_ }
  all_goals rcases ring_update he' with ⟨rfl, ⟨⟩⟩ | ⟨hne, he'⟩
  · exact getElem?_set_self hlt
  · exact (getElem?_set_ne (Ne.symm hne)).trans (hs.ring_free slot' e' he')
  · rw [hs.frame_id]
    exact hcount
  · exact hs.ring_count slot' e' he'
  · exact hfloor
  · exact hs.ring_floor slot' e' he'
  · refine ⟨?_, fun h => ?_, fun h => ?_, fun h => ?_⟩
    · exact (congrArg s.frames (hs.frame_id page)).symm
    all_goals simp at h
  · exact hs.ring slot' e' he'

/-- An eviction ends. -/
lemma Inv.freeSlot (hs : Inv s) : Inv { s with
      home := s.home.sync
      ring := Function.update s.ring slot none
      free := s.free.set slot true } := by
  have hring : ∀ slot' e', Function.update s.ring slot none slot' = some e' →
      slot' ≠ slot ∧ s.ring slot' = some e' := by
    intro slot' e' he'
    exact (ring_update he').resolve_left nofun
  exact { hs.homeSync with
    copy := nofun
    free_length := (length_set ..).trans hs.free_length
    ring_free slot' e' he' := by
      obtain ⟨hne, he'⟩ := hring slot' e' he'
      exact (getElem?_set_ne (Ne.symm hne)).trans (hs.ring_free slot' e' he')
    ring_count slot' e' he' := hs.ring_count slot' e' (hring slot' e' he').2
    ring_floor slot' e' he' := hs.ring_floor slot' e' (hring slot' e' he').2
    ring slot' e' he' := hs.ring slot' e' (hring slot' e' he').2 }

lemma Inv.evictStep (hs : Inv s) (he : s.ring slot = some e)
    (h : evictStep s slot e op = some s') : Inv s' := by
  have hok := hs.ring slot e he
  have hmem : e.image ∈ s.history := by
    rw [hok.frame]
    exact hs.frame_mem _ (hs.ring_count slot e he)
  -- both pages of the slot are there, and the eviction moves on without a write to the device
  have hmove : ∀ phase, e.phase ≠ .home → 2 ≤ e.phase.rank →
      (3 ≤ phase.rank → s.dwb.Clean (evictRingRegion slot).headerSlot ∧
        s.dwb.Clean (evictRingRegion slot).firstDataSlot) →
          Inv (s.setEviction slot { e with phase }) :=
    fun phase hne hrank hclean => hs.evict he hne hs.dwb_mem hs.floor_le (fun _ _ _ h => h)
      (fun _ h => h)
      ⟨hok.frame, fun _ => hok.data (Nat.le_of_succ_le hrank), fun _ => hok.header hrank, hclean⟩
  cases op with
  | stageData _ =>
    obtain ⟨hphase, rfl⟩ := guarded h
    refine hs.stage he (by rw [hphase]; decide) (.inr rfl) (fun i hi => ?_) ?_
    · cases hi
      exact hmem
    · refine ⟨hok.frame, fun _ => ?_, fun h => by simp at h, fun h => by simp at h⟩
      rw [current_write, update_self]
  | stageHeader _ =>
    obtain ⟨hphase, rfl⟩ := guarded h
    refine hs.stage he (by rw [hphase]; decide) (.inl rfl) nofun ?_
    refine ⟨hok.frame, fun _ => ?_, fun _ => ?_, fun h => by simp at h⟩
    · rw [current_write, update_of_ne (by simp only [evictRingRegion]; omega)]
      exact hok.data (by rw [hphase]; decide)
    · rw [current_write, update_self]
  | barrier _ =>
    obtain ⟨⟨hphase, hheader, hdata⟩, rfl⟩ := guarded h
    exact hmove _ (by rw [hphase]; decide) (by rw [hphase]; decide) fun _ => ⟨hheader, hdata⟩
  | homeWrite _ =>
    obtain ⟨hphase, rfl⟩ := guarded h
    have hs' := hmove .home (by rw [hphase]; decide) (by rw [hphase]; decide) fun _ =>
      hok.clean (by rw [hphase]; decide)
    exact hs'.writeHome hok.frame (hs.ring_count slot e he)
      (.inl ⟨slot, { e with phase := .home }, update_self _ _ _, rfl, rfl⟩)
  | freeSlot _ =>
    obtain ⟨-, rfl⟩ := guarded h
    exact hs.freeSlot
  | _ => cases h

/-! ## The steps of a checkpoint -/

/-- A checkpoint moves on, keeps its copies and writes nothing to the doublewrite device. -/
lemma Inv.setCheckpoint (hs : Inv s)
    (hkeep : ∀ c, s.checkpoints.lookup cid = some c → c.copies ⊆ c'.copies)
    (hlatch : ∀ p ∈ c'.latches, p < s.pageCount) (hok : CheckpointOk s.frames s.dwb c') :
    Inv (s.setCheckpoint cid c') := by
  refine { hs with
    copy p i hi := (hs.copy p i hi).checkpoint rfl rfl hkeep
    count cid' c hc := ?_
    checkpoint cid' c hc := ?_ }
  all_goals
    rcases Dict.of_lookup_insert hc with ⟨-, rfl⟩ | ⟨-, hc⟩
    · assumption
    · first | exact hs.count cid' c hc | exact hs.checkpoint cid' c hc

/-- No other checkpoint is under way. -/
def State.alone (s : State α) (cid : Nat) : Prop := ∀ e ∈ s.checkpoints.entries, e.1 = cid

instance (s : State α) (cid : Nat) : Decidable (s.alone cid) := by
  unfold State.alone
  infer_instance

/-- A checkpoint that keeps no copies writes to the batch region. -/
lemma Inv.writeBatch (hs : Inv s) (halone : s.alone cid) (hx : x ≤ dwbMaxBatch)
    (hv : ∀ i, v = .image i → i ∈ s.history)
    (hfloor : ∀ homes floor, v = .header homes floor → floor ≤ s.floor)
    (hold : ∀ c, s.checkpoints.lookup cid = some c → c.copies = [])
    (hlatch : ∀ p ∈ c'.latches, p < s.pageCount) (hok : CheckpointOk s.frames (s.dwb.write x v) c')
    : Inv { s.setCheckpoint cid c' with dwb := s.dwb.write x v } := by
  have hlookup : ∀ cid' c, (s.checkpoints.insert cid c').lookup cid' = some c → c = c' := by
    intro cid' c hc
    rcases Dict.of_lookup_insert hc with ⟨-, rfl⟩ | ⟨hcid, hc⟩
    · rfl
    · exact absurd (halone ⟨cid', c⟩ (AList.mem_lookup_iff.1 hc)) hcid
  refine { hs with
    copy p i hi := (hs.copy p i hi).checkpoint rfl rfl fun c hc => ?_
    dwb_mem y i h := ?_
    floor_le homes floor h := ?_
    ring slot e he := ?_
    count cid' c hc := ?_
    checkpoint cid' c hc := ?_ }
  · rw [hold c hc]
    exact nil_subset _
  · rcases holds_write h with h | ⟨-, h⟩
    · exact hs.dwb_mem y i h
    · exact hv i h.symm
  · rcases holds_write h with h | ⟨-, h⟩
    · exact hs.floor_le homes floor h
    · exact hfloor homes floor h.symm
  · obtain ⟨h1, h2⟩ := evictRing_after_batch slot
    exact (hs.ring slot e he).write (by omega) (by omega)
  · exact hlookup cid' c hc ▸ hlatch
  · exact hlookup cid' c hc ▸ hok

/-- A batch of frames that are not latched. -/
lemma Inv.stageBatch {pages : List Nat} (hs : Inv s) (hnone : s.checkpoints.lookup cid = none)
    (hlength : pages.length ≤ dwbMaxBatch) (hpages : ∀ p ∈ pages, p < s.pageCount) :
    Inv (s.setCheckpoint cid (.staging (pages.map s.frames) 0)) := by
  refine hs.setCheckpoint (fun c hc => by cases hnone.symm.trans hc)
    (fun p hp => ?_) ⟨fun i hi => ?_, ?_⟩
  · obtain ⟨i, hi, rfl⟩ := mem_map.1 hp
    obtain ⟨q, hq, rfl⟩ := mem_map.1 hi
    rw [hs.frame_id]
    exact hpages q hq
  · obtain ⟨q, -, rfl⟩ := mem_map.1 hi
    rw [hs.frame_id]
  · refine ⟨by simpa using hlength, fun j i _ hj => absurd hj (Nat.not_lt_zero j)⟩

/-- A header without a batch is written, by `clear` or `set_floor`. -/
lemma Inv.writeHeader (hs : Inv s) (halone : s.alone cid)
    (hnone : s.checkpoints.lookup cid = none) :
    Inv ((s.writeHeader []).setCheckpoint cid .header) := by
  refine hs.writeBatch halone (Nat.zero_le _) nofun (fun homes floor h => ?_)
    (fun c hc => by cases hnone.symm.trans hc) nofun trivial
  cases h
  exact le_rfl

/-- A checkpoint ends. -/
lemma Inv.eraseCheckpoint (hs : Inv s)
    (hcopy : ∀ p i, (p, .image i) ∈ s.home.pending →
      Copy { s with checkpoints := s.checkpoints.erase cid } i)
    : Inv { s with checkpoints := s.checkpoints.erase cid } := by
  exact { hs with
    copy := hcopy
    count cid' c hc := hs.count cid' c (Dict.of_lookup_erase hc).2
    checkpoint cid' c hc := hs.checkpoint cid' c (Dict.of_lookup_erase hc).2 }

lemma Inv.checkpointStep (hs : Inv s) (hc : s.checkpoints.lookup cid = some c)
    (halone : (∃ k, op = .batchData k) ∨ (∃ k, op = .batchHeader k) → s.alone cid)
    (h : checkpointStep s cid c op = some s') : Inv s' := by
  have hok := hs.checkpoint cid c hc
  have hcount := hs.count cid c hc
  cases op with
  | batchData k =>
    cases c with
    | staging batch next =>
      simp only [checkpointStep, map_eq_some_iff] at h
      obtain ⟨image, himage, rfl⟩ := h
      obtain ⟨hframes, hbatch⟩ := hok
      obtain ⟨hnext, -⟩ := List.getElem?_eq_some_iff.1 himage
      have hlength := hbatch.length
      have hmem : image ∈ batch := mem_of_getElem? himage
      refine hs.writeBatch (halone (.inl ⟨k, rfl⟩)) ?_ (fun i hi => ?_) nofun
        (fun c0 h0 => mem_unique hc h0 ▸ rfl) hcount ⟨hframes, hbatch.length, ?_⟩
      · simp only [batchRegion]
        omega
      · cases hi
        rw [hframes image hmem]
        exact hs.frame_mem _ (hcount _ (mem_map_of_mem hmem))
      · intro j i hj hlt
        rw [current_write]
        by_cases hjn : j = next
        · rw [hjn] at hj ⊢
          rw [update_self, mem_unique himage hj]
        · rw [update_of_ne (by omega)]
          exact hbatch.data j i hj (by omega)
    | _ => cases h
  | batchHeader k =>
    cases c with
    | staging batch next =>
      obtain ⟨rfl, rfl⟩ := guarded h
      obtain ⟨hframes, hbatch⟩ := hok
      refine hs.writeBatch (halone (.inr ⟨k, rfl⟩)) (Nat.zero_le _) nofun
        (fun homes floor h => ?_) (fun c0 h0 => mem_unique hc h0 ▸ rfl) hcount
        ⟨hframes, ⟨hbatch.length, fun j i hj hlt => ?_⟩, s.floor, ?_⟩
      · cases h
        exact le_rfl
      · have hne : batchRegion.firstDataSlot + j ≠ batchRegion.headerSlot := by
          simp only [batchRegion]
          omega
        rw [current_write, update_of_ne hne]
        exact hbatch.data j i hj hlt
      · rw [current_write, update_self]
    | _ => cases h
  | batchBarrier k =>
    cases c with
    | staged batch =>
      obtain ⟨hclean, rfl⟩ := guarded h
      obtain ⟨hframes, hbatch, hheader⟩ := hok
      exact hs.setCheckpoint (fun c0 h0 => mem_unique hc h0 ▸ nil_subset _) hcount
        ⟨hframes, List.Subset.refl _, hbatch, hheader, hclean⟩
    | _ => cases h
  | batchHome k =>
    cases c with
    | flushing batch todo =>
      cases todo with
      | nil => cases h
      | cons image todo =>
        cases h
        obtain ⟨hframes, hsub, hdurable⟩ := hok
        have hmem : image ∈ batch := hsub mem_cons_self
        have hs' : Inv (s.setCheckpoint cid (.flushing batch todo)) := by
          refine hs.setCheckpoint (fun c0 h0 => mem_unique hc h0 ▸ List.Subset.refl _)
            hcount ⟨hframes, fun i hi => hsub (mem_cons_of_mem _ hi), hdurable⟩
        exact hs'.writeHome (hframes image hmem) (hcount _ (mem_map_of_mem hmem))
          (.inr ⟨cid, .flushing batch todo, AList.lookup_insert _, hmem⟩)
    | _ => cases h
  | batchUnlatch k =>
    cases c with
    | flushing batch todo =>
      cases todo with
      | nil =>
        cases h
        exact hs.setCheckpoint (fun c0 h0 => mem_unique hc h0 ▸ List.Subset.refl _) nofun hok.2.2
      | cons image todo => cases h
    | _ => cases h
  | batchSync k =>
    cases c with
    | flushed batch =>
      cases h
      exact hs.homeSync.eraseCheckpoint nofun
    | _ => cases h
  | headerSync k =>
    cases c with
    | header =>
      cases h
      refine hs.dwbSync.eraseCheckpoint fun p i hi => ?_
      rcases hs.copy p i hi with hring | ⟨cid', c, hc', hcopies⟩
      · exact .inl hring
      right
      have hne : cid' ≠ cid := by
        rintro rfl
        cases hc.symm.trans hc'
        cases hcopies
      exact ⟨cid', c, by rw [Dict.lookup_erase, if_neg hne]; exact hc', hcopies⟩
    | _ => cases h
  | _ => cases h

/-! ## Every operation -/

/-- The floor stays at or below the evictions under way, and a checkpoint has the batch region to
itself. -/
def Orderly (s : State α) : Op α → Prop
  | .claimSlot page => s.floor ≤ (s.frames page).lsn
  | .setFloor cid floor =>
      s.alone cid ∧ ∀ slot < dwbEvictRingSlots, ∀ e ∈ s.ring slot, floor ≤ e.image.lsn
  | .batchData cid | .batchHeader cid | .clear cid => s.alone cid
  | _ => True

instance (s : State α) (op : Op α) : Decidable (Orderly s op) := by
  unfold Orderly
  split <;> infer_instance

lemma Inv.step (hs : Inv s) (hop : Orderly s op) (h : Dwb.step s op = some s') : Inv s' := by
  have hevict : ∀ slot op, ((s.ring slot).bind fun e => Dwb.evictStep s slot e op) =
    some s' → Inv s' := by
    intro slot op h
    obtain ⟨e, he, h⟩ := bind_eq_some_iff.1 h
    exact hs.evictStep he h
  have hcheckpoint : ∀ cid op,
    ((∃ k, op = .batchData k) ∨ (∃ k, op = .batchHeader k) → s.alone cid) →
      ((s.checkpoints.lookup cid).bind fun c => Dwb.checkpointStep s cid c op) =
        some s' → Inv s' := by
    intro cid op halone h
    obtain ⟨c, hc, h⟩ := bind_eq_some_iff.1 h
    exact hs.checkpointStep hc halone h
  cases op with
  | update page lsn data =>
    obtain ⟨⟨-, hlsn, hlatch⟩, rfl⟩ := guarded h
    exact hs.update data hlsn hlatch
  | claimSlot page =>
    simp only [step, ite_none_right_eq_some, map_eq_some_iff] at h
    obtain ⟨⟨hcount, -⟩, slot, hslot, rfl⟩ := h
    exact hs.claimSlot hcount hslot hop
  | dwbSync =>
    cases h
    exact hs.dwbSync
  | homeSync =>
    cases h
    exact hs.homeSync
  | stageBatch cid pages =>
    obtain ⟨⟨hnone, -, hlength, -, hpages⟩, rfl⟩ := guarded h
    exact hs.stageBatch hnone hlength fun p hp => (hpages p hp).1
  | clear cid =>
    obtain ⟨hnone, rfl⟩ := guarded h
    exact hs.writeHeader hop hnone
  | setFloor cid floor =>
    simp only [step, ite_none_right_eq_some] at h
    obtain ⟨hnone, h⟩ := h
    split at h
    · cases h
      exact hs
    next hlt =>
    cases h
    have hraised : Inv { s with floor := floor } := { hs with
      floor_le homes f h := le_trans (hs.floor_le homes f h) (Nat.le_of_not_le hlt)
      ring_floor slot e he := hop.2 slot (hs.slot_lt he) e he }
    exact hraised.writeHeader hop.1 hnone
  | stageData slot | stageHeader slot | barrier slot | homeWrite slot | freeSlot slot =>
    exact hevict slot _ h
  | batchData cid | batchHeader cid => exact hcheckpoint cid _ (fun _ => hop) h
  | batchBarrier cid | batchHome cid | batchUnlatch cid | batchSync cid | headerSync cid =>
    exact hcheckpoint cid _ (by rintro (⟨_, h⟩ | ⟨_, h⟩) <;> cases h) h

/-! ## A crash -/

/-- The floor that a crash leaves is no higher than the current one. -/
lemma Inv.readFloor_le (hs : Inv s) (fates : List Fate) :
    readFloor (crash .torn s.dwb fates) ≤ s.floor := by
  unfold readFloor
  cases hheader : crash .torn s.dwb fates batchRegion.headerSlot with
  | header homes floor =>
    have hle := hs.floor_le homes floor (holds_of_crash hheader nofun)
    simp only [decodeHeader]
    split
    · exact Nat.zero_le _
    · exact hle
  | _ => exact Nat.zero_le _

/-- **The copy of a home write that is not durable survives the crash.** -/
lemma Inv.covers (hs : Inv s) (hcopy : Copy s i) (fates : List Fate) :
    (gather (crash .torn s.dwb fates)).Covers i.pageId i.lsn := by
  rcases hcopy with ⟨slot, e, he, rfl, hphase⟩ | ⟨cid, c, hc, hi⟩
  · -- the slot of an eviction
    have hok := hs.ring slot e he
    have hrank : e.phase.rank = 4 := by rw [hphase]; rfl
    obtain ⟨hcleanHeader, hcleanData⟩ := hok.clean (by omega)
    have hregion : (evictRingRegion slot, true) ∈ regions :=
      mem_cons_of_mem _ (mem_map.2 ⟨slot, mem_range.2 (hs.slot_lt he), rfl⟩)
    have hheader : decodeHeader (crash .torn s.dwb fates (evictRingRegion slot).headerSlot) =
        some ([e.image.pageId], 0) := by
      rw [crash_of_clean hcleanHeader, hcleanHeader.durable_eq, hok.header (by omega)]
      rfl
    have hdata : crash .torn s.dwb fates ((evictRingRegion slot).firstDataSlot + 0) =
      .image e.image := by
      rw [Nat.add_zero, crash_of_clean hcleanData, hcleanData.durable_eq, hok.data (by omega)]
    exact gather_covers hregion hheader rfl hdata fun _ =>
      le_trans (hs.readFloor_le fates) (hs.ring_floor slot e he)
  · -- the batch of a checkpoint
    obtain ⟨batch, hbatch, hi⟩ := (hs.checkpoint cid c hc).durable hi
    obtain ⟨j, hj⟩ := getElem?_of_mem hi
    obtain ⟨hjlt, -⟩ := List.getElem?_eq_some_iff.1 hj
    obtain ⟨floor, hfloor⟩ := hbatch.header
    have hcleanHeader := hbatch.clean batchRegion.headerSlot mem_cons_self
    have hcleanData := hbatch.clean (batchRegion.firstDataSlot + j)
      (mem_cons_of_mem _ (mem_map.2 ⟨j, mem_range.2 hjlt, rfl⟩))
    have hlength : ¬ (batch.map Image.pageId).length > dwbMaxBatch := by
      rw [length_map]
      exact Nat.not_lt_of_le hbatch.data.length
    have hheader : decodeHeader (crash .torn s.dwb fates batchRegion.headerSlot) =
        some (batch.map Image.pageId, floor) := by
      rw [crash_of_clean hcleanHeader, hcleanHeader.durable_eq, hfloor, decodeHeader,
        if_neg hlength]
    have hnamed : (batch.map Image.pageId)[j]? = some i.pageId := by
      rw [getElem?_map, hj]
      rfl
    have hdata : crash .torn s.dwb fates (batchRegion.firstDataSlot + j) = .image i := by
      rw [crash_of_clean hcleanData, hcleanData.durable_eq]
      exact hbatch.data.data j i hj hjlt
    exact gather_covers mem_cons_self hheader hnamed hdata nofun

/-- **Every crash is repaired.** -/
theorem recover_home_repairs (pageCount : Nat) (pages : Nat → Image α) {ops : List (Op α)}
    (hrun : Run.exec step (init pageCount pages) ops = some s)
    (horderly : Run.Along step Orderly (init pageCount pages) ops) (fates fates' : List Fate) :
    (∃ n, (recoverHome s.pageCount (crash .torn s.dwb fates) (crash .torn s.home fates')).1 =
      .ok n) ∧
    ∀ p < s.pageCount, ∃ i last,
      (recoverHome s.pageCount (crash .torn s.dwb fates) (crash .torn s.home fates')).2
      p = .image i ∧
      i.pageId = p ∧ i ∈ s.history ∧ s.home.durable p = .image last ∧ last.lsn ≤ i.lsn := by
  have hs : Inv s := Run.exec_preserves (C := Orderly) (I := Inv) (fun hi hC h => hi.step hC h)
    (Inv.init pageCount pages) horderly hrun
  have hlast : ∀ p, ∃ last, s.home.durable p = .image last := by
    intro p
    obtain ⟨last, hlast, -⟩ := hs.home p _ (.inl rfl)
    exact ⟨last, hlast⟩
  choose last hlast using hlast
  -- a torn home page has a home write that is not durable, and so a copy
  have hcover : ∀ p < s.pageCount, crash .torn s.home fates' p = .torn →
      (gather (crash .torn s.dwb fates)).Covers p (last p).lsn := by
    intro p hp htorn
    rcases crash_cases .torn s.home fates' p with h | ⟨-, v, hv⟩
    · obtain ⟨i, hi, -⟩ := hs.home p _ h
      cases hi.symm.trans htorn
    · obtain ⟨i, rfl, rfl, -⟩ := hs.home p v (.inr hv)
      obtain ⟨hnamed, c, hc, hle⟩ := hs.covers (hs.copy _ i hv) fates
      exact ⟨hnamed, c, hc, le_trans (hs.newer _ _ _ (hlast _) hv) hle⟩
  obtain ⟨hok, hpages⟩ := recoverHome_ok hcover
  refine ⟨hok, fun p hp => ?_⟩
  rcases hpages p hp with ⟨i, hcrash, hi⟩ | ⟨-, i, hi, hid, ⟨x, hx⟩, hle⟩
  · have hholds := holds_of_crash hcrash nofun
    obtain ⟨i', hi', hid, -, hmem⟩ := hs.home p _ hholds
    cases hi'
    refine ⟨i, last p, hi, hid, hmem hp, hlast p, ?_⟩
    rcases hholds with h | h
    · cases (hlast p).symm.trans h
      exact le_rfl
    · exact hs.newer p _ _ (hlast p) h
  · exact ⟨i, last p, hi, hid, hs.dwb_mem x i (holds_of_crash hx nofun), hlast p, hle⟩

/-- An eviction is under way after its home write, with a checkpoint that has flushed another
page. -/
def evictionUnderWay : List (Op Nat) :=
  [.update 0 5 50, .update 1 6 60, .claimSlot 0, .stageBatch 1 [1], .batchData 1, .stageData 0,
    .batchHeader 1,
    .stageHeader 0, .dwbSync, .barrier 0, .batchBarrier 1, .batchHome 1, .homeWrite 0,
      .batchUnlatch 1]

theorem recover_home_repairs_torn_pages : ∃ s : State Nat,
    Run.exec step (init 2 fun p => ⟨p, 1, 0⟩) evictionUnderWay = some s ∧
    (∃ n, (recoverHome s.pageCount (crash .torn s.dwb []) (crash .torn s.home [.torn, .torn])).1 =
      .ok n) ∧
    crash .torn s.home [.torn, .torn] 0 = .torn ∧
    (recoverHome s.pageCount (crash .torn s.dwb []) (crash .torn s.home [.torn, .torn])).2 0 =
    .image ⟨0, 5, 50⟩ := by
  have hrun : ((Run.exec step (init 2 fun p => ⟨p, 1, 0⟩) evictionUnderWay).map fun s =>
      (crash .torn s.home [.torn, .torn] 0,
        (recoverHome s.pageCount (crash .torn s.dwb []) (crash .torn s.home [.torn, .torn])).2 0)) =
        some (.torn, .image ⟨0, 5, 50⟩) := by decide +kernel
  obtain ⟨s, hs, heq⟩ := map_eq_some_iff.1 hrun
  simp only [Prod.mk.injEq] at heq
  have horderly : Run.Along step Orderly (init 2 fun p => ⟨p, 1, 0⟩) evictionUnderWay := by
    decide +kernel
  exact ⟨s, hs, (recover_home_repairs 2 _ hs horderly [] [.torn, .torn]).1, heq⟩

/-- The floor is raised above a page whose eviction is under way. -/
def raisedFloor : List (Op Nat) :=
  [.update 0 5 50, .claimSlot 0, .stageData 0, .stageHeader 0, .dwbSync, .barrier 0, .homeWrite 0,
    .setFloor 1 9, .headerSync 1]

/-- The recovery fails, although a durable copy of the torn page exists. -/
theorem recover_home_gated :
    ∃ s : State Nat, Run.exec step (init 1 fun p => ⟨p, 1, 0⟩) raisedFloor = some s ∧
    (crash .torn s.dwb []) (evictRingRegion 0).firstDataSlot = .image ⟨0, 5, 50⟩ ∧
    ∀ n, (recoverHome s.pageCount (crash .torn s.dwb [])
      (crash .torn s.home [.torn])).1 ≠ .ok n := by
  have hrun : ((Run.exec step (init 1 fun p => ⟨p, 1, 0⟩) raisedFloor).map fun s =>
      ((crash .torn s.dwb []) (evictRingRegion 0).firstDataSlot,
        (recoverHome s.pageCount (crash .torn s.dwb []) (crash .torn s.home [.torn])).1.toOption)) =
        some (.image ⟨0, 5, 50⟩, none) := by decide +kernel
  obtain ⟨s, hs, heq⟩ := map_eq_some_iff.1 hrun
  simp only [Prod.mk.injEq] at heq
  refine ⟨s, hs, heq.1, fun n hn => ?_⟩
  rw [hn] at heq
  cases heq.2

end Graphus.Dwb
