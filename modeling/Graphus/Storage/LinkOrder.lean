import Graphus.Storage.UndoChain
import Mathlib.Data.List.Dedup

/-!
# What a writer of undo chains knows

The invariant of the undo area. Each chain reads as a list of live deltas in the order `Above`. A
writer knows of the head it has read that it is off the chain by now, or that what it has read of it
still holds (`PhaseOk`). A head that has left the chain does not come back while it is remembered
(`Inv.remembered`).

`Keeps` says what a step leaves to the other writers, and `Inv.update` is the invariant after a step
of one writer.
-/

namespace Graphus

variable {Entity : Type}

/-- The delta that a writer has written and not published. -/
def WriterPhase.entry : WriterPhase Entity → Option Nat
  | .headRead _ entry _ | .deltaRead _ entry _ _ | .slotRead _ entry _ _
  | .unheld _ entry _ => entry
  | .publishing _ entry _ | .refused _ entry => some entry
  | _ => none

/-- The head that a writer has read. -/
def WriterPhase.head : WriterPhase Entity → Option (Entity × Nat)
  | .headRead entity _ head | .deltaRead entity _ head _ | .slotRead entity _ head _
  | .unheld entity _ head
  | .publishing entity _ head => some (entity, head)
  | _ => none

/-- The chains on which a writer may have deltas. -/
def WriterTxn.Reaches (w : WriterTxn Entity) (e : Entity) : Prop :=
  match w.phase with
  | .detaching todo _ => e ∈ todo
  | .walked entity _ _ todo _ => e = entity ∨ e ∈ todo
  | .freeing _ _ | .slotFreed => False
  | .failed => True
  | .published entity _ => e = entity ∨ e ∈ w.undoLinks.map UndoLink.entity
  | _ => e ∈ w.undoLinks.map UndoLink.entity

/-- The delta ids that are a writer's own. -/
def WriterTxn.kept (w : WriterTxn Entity) : List Nat :=
  match w.phase with
  | .freeing todo _ => todo.map UndoLink.delta
  | .slotFreed | .failed => []
  | .published _ entry => entry :: w.undoLinks.map UndoLink.delta
  | phase => phase.entry.toList ++ w.undoLinks.map UndoLink.delta

lemma WriterTxn.entry_mem_kept {w : WriterTxn Entity} {id : Nat} (h : w.phase.entry = some id) :
    id ∈ w.kept := by
  unfold kept
  cases hp : w.phase <;> rw [hp] at h <;> simp_all [WriterPhase.entry]

/-- A writer that is not at the end of its transaction and has no delta to register. -/
def WriterPhase.linking : WriterPhase Entity → Bool
  | .idle | .headRead _ _ _ | .deltaRead _ _ _ _ | .slotRead _ _ _ _ | .unheld _ _ _
  | .publishing _ _ _ | .refused _ _ => true
  | _ => false

lemma WriterTxn.kept_of_linking {w : WriterTxn Entity} (h : w.phase.linking = true) :
    w.kept = w.phase.entry.toList ++ w.undoLinks.map UndoLink.delta := by
  unfold kept
  cases hp : w.phase <;> rw [hp] at h <;> simp_all [WriterPhase.linking]

lemma WriterTxn.reaches_of_linking {w : WriterTxn Entity} (h : w.phase.linking = true)
    (e : Entity) : w.Reaches e ↔ e ∈ w.undoLinks.map UndoLink.entity := by
  unfold WriterTxn.Reaches
  cases hp : w.phase <;> rw [hp] at h <;> simp_all [WriterPhase.linking]

lemma WriterTxn.not_freed_of_mem_kept {w : WriterTxn Entity} {id : Nat} (h : id ∈ w.kept) :
    w.phase ≠ .slotFreed := by
  intro hp
  simp [kept, hp] at h

namespace UndoArea

open LinkedChain WriterPhase WriterTxn

section Accessors

variable (s : UndoArea Entity)

/-- The commit slot that a delta names. -/
def commitInfo (id : Nat) : Nat := ((s.delta id).map UndoDelta.commitInfo).getD 0

def commandId (id : Nat) : Nat := ((s.delta id).map UndoDelta.commandId).getD 0

def live (id : Nat) : Bool := ((s.delta id).map UndoDelta.inUse).getD false

/-- The transaction of a commit slot. -/
def owner (k : Nat) : Nat := ((s.slot k).map CommitSlot.txnId).getD 0

def stamp (k : Nat) : VersionStamp := ((s.slot k).map CommitSlot.commitTs).getD .none

def slotLive (k : Nat) : Bool := ((s.slot k).map CommitSlot.inUse).getD false

/-- An upper delta `i` may stand above a lower one `j`. -/
def Above (i j : Nat) : Prop :=
  (s.commitInfo i = s.commitInfo j ∧ s.commandId j ≤ s.commandId i) ∨
  (s.commitInfo i ≠ s.commitInfo j ∧ ∃ ts b, s.stamp (s.commitInfo j) = .committed ts ∧
    s.begun (s.owner (s.commitInfo i)) = some b ∧ ts ≤ b)

/-- The transaction may go on above the delta. -/
def Good (txn id : Nat) : Prop :=
  s.owner (s.commitInfo id) = txn ∨
  ∃ ts b, s.stamp (s.commitInfo id) = .committed ts ∧ s.begun txn = some b ∧ ts ≤ b

/-- What a writer has read of a slot still holds. -/
structure Saw (read : CommitSlot) (k : Nat) : Prop where
  inUse : read.inUse = true
  owner : read.txnId = s.owner k
  committed : ∀ ts, read.commitTs = .committed ts → s.stamp k = .committed ts
  inFlight : ∀ h, read.commitTs = .inFlight h → h = s.owner k ∧ h ∈ s.active
  stamped : read.commitTs ≠ .none

end Accessors

/-! ## What a writer knows -/

/-- What a writer knows in its phase. -/
def PhaseOk (s : UndoArea Entity) (chain : Entity → List Nat) (txn : Nat)
    (w : WriterTxn Entity) : Prop :=
  match w.phase with
  | .deltaRead e _ head info => head ∈ chain e → s.commitInfo head = info
  | .slotRead e _ head slot => head ∈ chain e → s.Saw slot (s.commitInfo head)
  | .unheld e _ head => head ∈ chain e → s.Good txn head
  | .publishing e entry head => (head ∈ chain e → s.Good txn head) ∧ s.next entry = head
  | .committing ts => w.beginTs < ts
  | .walked e observed head _ _ => ∃ k, w.commitSlot = some k ∧
      ((head = observed ∧ ∀ id ∈ chain e, s.commitInfo id ≠ k) ∨
      ∃ pre post, chain e = pre ++ post ∧ pre ≠ [] ∧ (∀ id ∈ pre, s.commitInfo id = k) ∧
        (∀ id ∈ post, s.commitInfo id ≠ k) ∧ Spells s.next nullDelta head post ∧
        observed = s.undoPtr e)
  | _ => True

structure WriterOk (s : UndoArea Entity) (chain : Entity → List Nat) (txn : Nat)
    (w : WriterTxn Entity) : Prop where
  begun : s.begun txn = some w.beginTs
  begin_le : w.beginTs ≤ s.clock
  slot : ∀ k, w.commitSlot = some k → w.phase ≠ .slotFreed →
    s.slotLive k = true ∧ s.owner k = txn ∧ (w.phase ≠ .slotPublished → s.stamp k = .inFlight txn) ∧
      (w.phase = .slotPublished → ∃ ts, s.stamp k = .committed ts)
  opened : w.phase.head.isSome ∨ w.phase.entry.isSome → w.commitSlot.isSome
  command : ∀ k, w.commitSlot = some k → w.phase ≠ .slotFreed → ∀ e, ∀ id ∈ chain e,
    s.commitInfo id = k → s.commandId id ≤ w.command
  reach : ∀ k, w.commitSlot = some k → w.phase ≠ .slotFreed → ∀ e, ∀ id ∈ chain e,
    s.commitInfo id = k → w.Reaches e
  kept : ∀ id ∈ w.kept, w.commitSlot = some (s.commitInfo id) ∧ id ∉ s.freeDeltas ∧ id ≠ nullDelta ∧
    id ≤ s.deltaHw
  nodup : w.kept.Nodup
  entry : ∀ id, w.phase.entry = some id → s.live id = true ∧ s.commandId id = w.command ∧
    ∀ e, id ∉ chain e
  head_le : ∀ e head, w.phase.head = some (e, head) → head ≤ s.deltaHw
  phase : PhaseOk s chain txn w

/-- What holds of a commit slot in use. -/
structure SlotOk (s : UndoArea Entity) (k : Nat) : Prop where
  begun : ∃ b, s.begun (s.owner k) = some b ∧ ∀ ts, s.stamp k = .committed ts → b < ts
  stamped : s.stamp k ≠ .none
  inFlight : ∀ h, s.stamp k = .inFlight h → h = s.owner k ∧ h ∈ s.active
  own : ∀ w, s.active.lookup (s.owner k) = some w → w.commitSlot = some k ∧ w.phase ≠ .slotFreed
  bound : k ≤ s.slotHw

/-- The chains, the slots and the free ids, with the list that each chain reads as. -/
structure Ground (s : UndoArea Entity) (chain : Entity → List Nat) : Prop where
  spells : ∀ e, Spells s.next nullDelta (s.undoPtr e) (chain e)
  live : ∀ e, ∀ id ∈ chain e, s.live id = true ∧ s.slotLive (s.commitInfo id) = true
  above : ∀ e, (chain e).Pairwise s.Above
  bounded : ∀ e, ∀ id ∈ chain e, id ≤ s.deltaHw
  slots : ∀ k, s.slotLive k = true → SlotOk s k
  free_nodup : s.freeDeltas.Nodup
  free_off : ∀ id ∈ s.freeDeltas, id ≠ nullDelta ∧ id ≤ s.deltaHw ∧ ∀ e, id ∉ chain e
  freeSlots_nodup : s.freeSlots.Nodup
  freeSlots_dead : ∀ k ∈ s.freeSlots, s.slotLive k = false ∧ k ≤ s.slotHw

structure Inv (s : UndoArea Entity) (chain : Entity → List Nat) : Prop extends Ground s chain where
  writers : ∀ txn w, s.active.lookup txn = some w → WriterOk s chain txn w
  /-- No writer has read as a head a delta that is not published. -/
  remembered : ∀ txn w txn' w' e head, s.active.lookup txn = some w →
    s.active.lookup txn' = some w' → w.phase.head = some (e, head) → w'.phase.entry ≠ some head

/-! ## Writers that a step does not concern -/

variable {s s' : UndoArea Entity} {chain chain' : Entity → List Nat} {txn u k id : Nat}
  {w w' v : WriterTxn Entity}

section

variable (h : s'.delta id = s.delta id)

include h

lemma commitInfo_congr : s'.commitInfo id = s.commitInfo id := by
  simp only [commitInfo, h]

lemma commandId_congr : s'.commandId id = s.commandId id := by
  simp only [commandId, h]

lemma live_congr : s'.live id = s.live id := by
  simp only [live, h]

lemma next_congr : s'.next id = s.next id := by
  simp only [next, h]

end

section

variable (h : s'.slot k = s.slot k)

include h

lemma owner_congr : s'.owner k = s.owner k := by
  simp only [owner, h]

lemma stamp_congr : s'.stamp k = s.stamp k := by
  simp only [stamp, h]

lemma slotLive_congr : s'.slotLive k = s.slotLive k := by
  simp only [slotLive, h]

end

/-- A slot keeps its transaction and its commit timestamp. -/
structure SlotKeeps (s s' : UndoArea Entity) (k : Nat) : Prop where
  owner : s'.owner k = s.owner k
  committed : ∀ ts, s.stamp k = .committed ts → s'.stamp k = .committed ts

lemma SlotKeeps.of_eq (h : s'.slot k = s.slot k) : SlotKeeps s s' k :=
  ⟨owner_congr h, fun _ hts => (stamp_congr h).trans hts⟩

/-- A step leaves a writer what it knows. -/
structure Keeps (s s' : UndoArea Entity) (chain chain' : Entity → List Nat)
    (v : WriterTxn Entity) : Prop where
  begun : ∀ x b, s.begun x = some b → s'.begun x = some b
  clock : s.clock ≤ s'.clock
  hw : s.deltaHw ≤ s'.deltaHw
  slot : ∀ k, v.commitSlot = some k → v.phase ≠ .slotFreed → s'.slot k = s.slot k
  links : ∀ e, ∀ id ∈ chain' e, (id ∈ chain e ∧ s'.delta id = s.delta id) ∨
    ((v.phase ≠ .slotFreed → v.commitSlot ≠ some (s'.commitInfo id)) ∧
    ∀ head, v.phase.head = some (e, head) → id ≠ head)
  kept : ∀ id ∈ v.kept, s'.delta id = s.delta id ∧ id ∉ s'.freeDeltas
  off : ∀ id, v.phase.entry = some id → ∀ e, id ∉ chain' e
  seen : ∀ e head, v.phase.head = some (e, head) → head ∈ chain e → head ∈ chain' e →
    SlotKeeps s s' (s.commitInfo head)
  table : ∀ e entry head slot h, v.phase = .slotRead e entry head slot →
    slot.commitTs = .inFlight h → head ∈ chain' e → h ∈ s.active → h ∈ s'.active
  walked : ∀ e o h t d k, v.phase = .walked e o h t d → v.commitSlot = some k →
    (∃ id ∈ chain e, s.commitInfo id = k) →
    chain' e = chain e ∧ s'.undoPtr e = s.undoPtr e ∧ ∀ id ∈ chain e, s'.delta id = s.delta id

lemma Good.keeps (h : s.Good txn id) (hdelta : s'.delta id = s.delta id)
    (hslot : SlotKeeps s s' (s.commitInfo id))
    (hbegun : ∀ x b, s.begun x = some b → s'.begun x = some b) :
    s'.Good txn id := by
  have hinfo := commitInfo_congr hdelta
  rcases h with h | ⟨ts, b, hts, hb, hle⟩
  · exact .inl (by rw [hinfo, hslot.owner, h])
  · exact .inr ⟨ts, b, by rw [hinfo]; exact hslot.committed ts hts, hbegun txn b hb, hle⟩

/-- A head that a writer has read, on the chain after the step, was on it before. -/
lemma Keeps.head_mem (hk : Keeps s s' chain chain' v) {e : Entity} {head : Nat}
    (hhead : v.phase.head = some (e, head)) (hmem : head ∈ chain' e) :
    head ∈ chain e ∧ s'.delta head = s.delta head ∧ SlotKeeps s s' (s.commitInfo head) := by
  rcases hk.links e head hmem with ⟨h, hdelta⟩ | ⟨-, h⟩
  · exact ⟨h, hdelta, hk.seen e head hhead h hmem⟩
  · exact absurd rfl (h head hhead)

lemma PhaseOk.keeps (h : PhaseOk s chain u v) (hk : Keeps s s' chain chain' v) :
    PhaseOk s' chain' u v := by
  unfold PhaseOk at h ⊢
  cases hp : v.phase with
  | deltaRead e entry head info =>
    rw [hp] at h
    intro hmem
    obtain ⟨hold, hdelta, -⟩ := hk.head_mem (by rw [hp]; rfl) hmem
    rw [commitInfo_congr hdelta]
    exact h hold
  | slotRead e entry head slot =>
    rw [hp] at h
    intro hmem
    obtain ⟨hold, hdelta, hslot⟩ := hk.head_mem (by rw [hp]; rfl) hmem
    obtain ⟨hinUse, howner, hcommitted, hinFlight, hstamped⟩ := h hold
    rw [commitInfo_congr hdelta]
    refine ⟨hinUse, howner.trans hslot.owner.symm, fun ts hts =>
      hslot.committed ts (hcommitted ts hts), fun x hx => ?_, hstamped⟩
    obtain ⟨hx', hactive⟩ := hinFlight x hx
    exact ⟨hx'.trans hslot.owner.symm, hk.table e entry head slot x hp hx hmem hactive⟩
  | unheld e entry head =>
    rw [hp] at h
    intro hmem
    obtain ⟨hold, hdelta, hslot⟩ := hk.head_mem (by rw [hp]; rfl) hmem
    exact (h hold).keeps hdelta hslot hk.begun
  | publishing e entry head =>
    rw [hp] at h
    refine ⟨fun hmem => ?_, ?_⟩
    · obtain ⟨hold, hdelta, hslot⟩ := hk.head_mem (by rw [hp]; rfl) hmem
      exact (h.1 hold).keeps hdelta hslot hk.begun
    · have hentry : v.phase.entry = some entry := by rw [hp]; rfl
      rw [next_congr (hk.kept entry (entry_mem_kept hentry)).1]
      exact h.2
  | walked e observed head todo detached =>
    rw [hp] at h
    obtain ⟨k, hslot, h⟩ := h
    refine ⟨k, hslot, ?_⟩
    rcases h with ⟨hhead, hnone⟩ | ⟨pre, post, heq, hpre, hown, hpost, hspells, hobserved⟩
    · refine .inl ⟨hhead, fun id hid hinfo => ?_⟩
      rcases hk.links e id hid with ⟨hold, hdelta⟩ | ⟨hne, -⟩
      · exact hnone id hold (commitInfo_congr hdelta ▸ hinfo)
      · exact hne (by rw [hp]; simp) (hinfo ▸ hslot)
    · have hexists : ∃ id ∈ chain e, s.commitInfo id = k := by
        obtain ⟨id, hid⟩ := List.exists_mem_of_ne_nil pre hpre
        exact ⟨id, by simp [heq, hid], hown id hid⟩
      obtain ⟨hchain, hptr, hdelta⟩ := hk.walked e observed head todo detached k hp hslot hexists
      have hmem : ∀ id, id ∈ pre ∨ id ∈ post → s'.delta id = s.delta id := by
        intro id hid
        refine hdelta id ?_
        rw [heq]
        exact List.mem_append.2 hid
      refine .inr ⟨pre, post, hchain.trans heq, hpre, fun id hid => ?_, fun id hid => ?_, ?_,
        hobserved.trans hptr.symm⟩
      · rw [commitInfo_congr (hmem id (.inl hid))]
        exact hown id hid
      · rw [commitInfo_congr (hmem id (.inr hid))]
        exact hpost id hid
      · exact hspells.congr fun id hid => next_congr (hmem id (.inr hid))
  | committing ts =>
    rw [hp] at h
    exact h
  | _ => trivial

/-- **A writer that a step does not concern.** -/
lemma WriterOk.keeps (h : WriterOk s chain u v) (hk : Keeps s s' chain chain' v) :
    WriterOk s' chain' u v := by
  -- a delta of the writer on a chain was there before
  have hown : ∀ k, v.commitSlot = some k → v.phase ≠ .slotFreed → ∀ e, ∀ id ∈ chain' e,
      s'.commitInfo id = k → id ∈ chain e ∧ s'.delta id = s.delta id := by
    intro k hslot hphase e id hid hinfo
    rcases hk.links e id hid with hold | ⟨hne, -⟩
    · exact hold
    · exact absurd (hinfo ▸ hslot) (hne hphase)
  constructor
  case begun => exact hk.begun u _ h.begun
  case begin_le => exact le_trans h.begin_le hk.clock
  case slot =>
    intro k hslot hphase
    obtain ⟨hlive, howner, hopen, hdone⟩ := h.slot k hslot hphase
    have heq := hk.slot k hslot hphase
    rw [slotLive_congr heq, owner_congr heq, stamp_congr heq]
    exact ⟨hlive, howner, hopen, hdone⟩
  case opened => exact h.opened
  case command =>
    intro k hslot hphase e id hid hinfo
    obtain ⟨hold, hdelta⟩ := hown k hslot hphase e id hid hinfo
    rw [commandId_congr hdelta]
    exact h.command k hslot hphase e id hold (commitInfo_congr hdelta ▸ hinfo)
  case reach =>
    intro k hslot hphase e id hid hinfo
    obtain ⟨hold, hdelta⟩ := hown k hslot hphase e id hid hinfo
    exact h.reach k hslot hphase e id hold (commitInfo_congr hdelta ▸ hinfo)
  case kept =>
    intro id hid
    obtain ⟨hslot, -, hnull, hle⟩ := h.kept id hid
    obtain ⟨hdelta, hfree⟩ := hk.kept id hid
    exact ⟨by rw [commitInfo_congr hdelta]; exact hslot, hfree, hnull, le_trans hle hk.hw⟩
  case nodup => exact h.nodup
  case entry =>
    intro id hid
    obtain ⟨hlive, hcommand, -⟩ := h.entry id hid
    obtain ⟨hdelta, -⟩ := hk.kept id (entry_mem_kept hid)
    exact ⟨(live_congr hdelta).trans hlive, (commandId_congr hdelta).trans hcommand, hk.off id hid⟩
  case head_le => exact fun e head hp => le_trans (h.head_le e head hp) hk.hw
  case phase => exact h.phase.keeps hk

/-! ## The ground under the chains -/

/-- A slot that a step on a writer leaves alone. -/
lemma SlotOk.keeps (h : SlotOk s k) (hactive : s'.active = s.active.insert txn w')
    (hslot : s'.slot k = s.slot k)
    (hbegun : ∀ x b, s.begun x = some b → s'.begun x = some b) (hhw : s.slotHw ≤ s'.slotHw)
    (hown : s.owner k = txn → w'.commitSlot = some k ∧ w'.phase ≠ .slotFreed) : SlotOk s' k := by
  have howner := owner_congr hslot
  have hstamp := stamp_congr hslot
  constructor
  case begun =>
    obtain ⟨b, hb, hlt⟩ := h.begun
    exact ⟨b, by rw [howner]; exact hbegun _ b hb, fun ts hts => hlt ts (hstamp ▸ hts)⟩
  case stamped => exact hstamp ▸ h.stamped
  case inFlight =>
    intro x hx
    obtain ⟨rfl, hmem⟩ := h.inFlight x (hstamp ▸ hx)
    exact ⟨howner.symm, by rw [hactive]; exact (AList.mem_insert _).2 (.inr hmem)⟩
  case own =>
    intro v hv
    rw [hactive, howner, Dict.lookup_insert] at hv
    split at hv
    next htxn =>
      cases hv
      exact hown htxn
    next => exact h.own v hv
  case bound => exact le_trans h.bound hhw

lemma Above.keeps {i j : Nat} (h : s.Above i j) (hi : s'.delta i = s.delta i)
    (hj : s'.delta j = s.delta j)
    (hsi : SlotKeeps s s' (s.commitInfo i)) (hsj : SlotKeeps s s' (s.commitInfo j))
    (hbegun : ∀ x b, s.begun x = some b → s'.begun x = some b) : s'.Above i j := by
  have hii := commitInfo_congr hi
  have hij := commitInfo_congr hj
  rcases h with ⟨heq, hle⟩ | ⟨hne, ts, b, hts, hb, hle⟩
  · exact .inl ⟨by rw [hii, hij, heq], by rw [commandId_congr hi, commandId_congr hj]; exact hle⟩
  refine .inr ⟨by rw [hii, hij]; exact hne, ts, b, ?_, ?_, hle⟩
  · rw [hij]
    exact hsj.committed ts hts
  · rw [hii, hsi.owner]
    exact hbegun _ b hb

/-- The order of the chain is transitive. -/
lemma Above.trans {i j l : Nat} (h : s.Above i j) (h' : s.Above j l)
    (hj : SlotOk s (s.commitInfo j)) (hl : SlotOk s (s.commitInfo l)) : s.Above i l := by
  rcases h with ⟨heq, hle⟩ | ⟨hne, ts, b, hts, hb, hle⟩
  · rcases h' with ⟨heq', hle'⟩ | ⟨hne', h'⟩
    · exact .inl ⟨heq.trans heq', le_trans hle' hle⟩
    · exact .inr ⟨heq ▸ hne', by rw [heq]; exact h'⟩
  rcases h' with ⟨heq', -⟩ | ⟨-, ts', b', hts', hb', hle'⟩
  · exact .inr ⟨heq' ▸ hne, ts, b, heq' ▸ hts, hb, hle⟩
  -- the middle transaction has begun before it has committed
  obtain ⟨bj, hbj, hltj⟩ := hj.begun
  obtain ⟨bl, hbl, hltl⟩ := hl.begun
  have hlt := hltj ts hts
  have hlt' := hltl ts' hts'
  rw [hbj, Option.some.injEq] at hb'
  refine .inr ⟨fun heq => ?_, ts', b, hts', hb, by omega⟩
  rw [heq, hbl, Option.some.injEq] at hb
  omega

/-- A step leaves the heads, the deltas on the chains and their slots. -/
structure SameChains (s s' : UndoArea Entity) (chain : Entity → List Nat) : Prop where
  ptr : s'.undoPtr = s.undoPtr
  begun : ∀ x b, s.begun x = some b → s'.begun x = some b
  clock : s.clock ≤ s'.clock
  hw : s.deltaHw ≤ s'.deltaHw
  delta : ∀ e, ∀ id ∈ chain e, s'.delta id = s.delta id
  slot : ∀ e, ∀ id ∈ chain e, SlotKeeps s s' (s.commitInfo id)

variable (hlive : ∀ e, ∀ id ∈ chain e, s'.slotLive (s.commitInfo id) = true)
    (hslots : ∀ k, s'.slotLive k = true → SlotOk s' k)
    (hfree : s'.freeDeltas.Nodup ∧ ∀ id ∈ s'.freeDeltas, id ≠ nullDelta ∧ id ≤ s'.deltaHw ∧
      ∀ e, id ∉ chain e)
    (hfreeSlots : s'.freeSlots.Nodup ∧ ∀ k ∈ s'.freeSlots, s'.slotLive k = false ∧ k ≤ s'.slotHw)

include hlive hslots hfree hfreeSlots in
lemma Ground.keeps (hs : Ground s chain) (h : SameChains s s' chain) : Ground s' chain := by
  constructor
  case spells =>
    intro e
    rw [h.ptr]
    exact (hs.spells e).congr fun id hid => next_congr (h.delta e id hid)
  case live =>
    intro e id hid
    rw [live_congr (h.delta e id hid), commitInfo_congr (h.delta e id hid)]
    exact ⟨(hs.live e id hid).1, hlive e id hid⟩
  case above =>
    intro e
    refine (hs.above e).imp_of_mem fun {i j} hi hj hij => ?_
    exact hij.keeps (h.delta e i hi) (h.delta e j hj) (h.slot e i hi) (h.slot e j hj) h.begun
  case bounded => exact fun e id hid => le_trans (hs.bounded e id hid) h.hw
  case slots => exact hslots
  case free_nodup => exact hfree.1
  case free_off => exact hfree.2
  case freeSlots_nodup => exact hfreeSlots.1
  case freeSlots_dead => exact hfreeSlots.2

/-- No other writer has the head that a writer remembers as a delta to publish, nor the other way
round. -/
structure HeadsOk (s : UndoArea Entity) (txn : Nat) (w' : WriterTxn Entity) : Prop where
  head : ∀ e head, w'.phase.head = some (e, head) → w'.phase.entry ≠ some head ∧
    ∀ u v, u ≠ txn → s.active.lookup u = some v → v.phase.entry ≠ some head
  entry : ∀ id, w'.phase.entry = some id → ∀ u v e, u ≠ txn → s.active.lookup u = some v →
    v.phase.head ≠ some (e, id)

lemma HeadsOk.of_none (hhead : w'.phase.head = none) (hentry : w'.phase.entry = none) :
    HeadsOk s txn w' :=
  ⟨by simp [hhead], by simp [hentry]⟩

/-- **The invariant after a step of one writer.** -/
lemma Inv.update (hs : Inv s chain) (hactive : s'.active = s.active.insert txn w')
    (hground : Ground s' chain')
    (hothers : ∀ u v, u ≠ txn → s.active.lookup u = some v → Keeps s s' chain chain' v)
    (hself : WriterOk s' chain' txn w') (hheads : HeadsOk s txn w') : Inv s' chain' := by
  refine { hground with
    writers := fun u v hv => ?_
    remembered := fun u v u' v' e head hv hv' hh he => ?_ }
  · rw [hactive, Dict.lookup_insert] at hv
    split at hv
    next heq =>
      cases hv
      exact heq ▸ hself
    next hne => exact (hs.writers u v hv).keeps (hothers u v hne hv)
  · rw [hactive, Dict.lookup_insert] at hv hv'
    split at hv <;> split at hv'
    · cases hv
      cases hv'
      exact (hheads.head e head hh).1 he
    · cases hv
      exact (hheads.head e head hh).2 u' v' (by assumption) hv' he
    · cases hv'
      exact hheads.entry head he u v e (by assumption) hv hh
    · exact hs.remembered u v u' v' e head hv hv' hh he

/-- A writer that a step leaves its slot and its deltas. -/
lemma Keeps.of_same (hactive : s'.active = s.active.insert txn w') (h : SameChains s s' chain)
    (hslot : ∀ k, v.commitSlot = some k → v.phase ≠ .slotFreed → s'.slot k = s.slot k)
    (hkept : ∀ id ∈ v.kept, s'.delta id = s.delta id ∧ id ∉ s'.freeDeltas)
    (hoff : ∀ id, v.phase.entry = some id → ∀ e, id ∉ chain e) : Keeps s s' chain chain v := by
  refine ⟨h.begun, h.clock, h.hw, hslot, fun e id hid => .inl ⟨hid, h.delta e id hid⟩, hkept, hoff,
    fun e head _ hmem _ => h.slot e head hmem, fun e entry head slot x _ _ _ hmem => ?_,
    fun e _ _ _ _ _ _ _ _ => ⟨rfl, by rw [h.ptr], h.delta e⟩⟩
  rw [hactive]
  exact (AList.mem_insert _).2 (.inr hmem)

include hlive hslots hfree hfreeSlots in
/-- A step of one writer that publishes nothing and detaches nothing. -/
lemma Inv.frame (hs : Inv s chain) (hactive : s'.active = s.active.insert txn w')
    (hsame : SameChains s s' chain) (hothers : ∀ u v, u ≠ txn → s.active.lookup u = some v →
      (∀ k, v.commitSlot = some k → v.phase ≠ .slotFreed → s'.slot k = s.slot k) ∧
      ∀ id ∈ v.kept, s'.delta id = s.delta id ∧ id ∉ s'.freeDeltas)
    (hself : WriterOk s' chain txn w') (hheads : HeadsOk s txn w') : Inv s' chain := by
  refine hs.update hactive (hs.keeps hlive hslots hfree hfreeSlots hsame) ?_ hself hheads
  intro u v hne hv
  obtain ⟨hvslot, hvkept⟩ := hothers u v hne hv
  exact .of_same hactive hsame hvslot hvkept fun id hid => ((hs.writers u v hv).entry id hid).2.2

/-! ## Steps that write nothing but the writer -/

/-- The head of a chain is null or on it. -/
lemma Ground.undoPtr_cases (hs : Ground s chain) (e : Entity) :
    s.undoPtr e = nullDelta ∨ s.undoPtr e ∈ chain e := by
  have h := hs.spells e
  cases hl : chain e with
  | nil =>
    rw [hl] at h
    exact .inl h
  | cons x l =>
    rw [hl] at h
    exact .inr (h.1 ▸ List.mem_cons_self)

lemma Ground.undoPtr_le (hs : Ground s chain) (e : Entity) : s.undoPtr e ≤ s.deltaHw := by
  rcases hs.undoPtr_cases e with h | h
  · exact h ▸ Nat.zero_le _
  · exact hs.bounded e _ h

/-- A delta that is not published is not at the head of a chain. -/
lemma Inv.undoPtr_ne_entry (hs : Inv s chain) (hv : s.active.lookup u = some v)
    (hid : v.phase.entry = some id) (e : Entity) : s.undoPtr e ≠ id := by
  have hok := hs.writers u v hv
  rintro rfl
  rcases hs.undoPtr_cases e with h | h
  · exact (hok.kept _ (entry_mem_kept hid)).2.2.1 h
  · exact (hok.entry _ hid).2.2 e h

/-- **A step that changes the phase of one writer.** -/
lemma Inv.setWriter (hs : Inv s chain) (hw : s.active.lookup txn = some w)
    (hok : WriterOk s chain txn w')
    (hslot : w'.commitSlot = w.commitSlot) (hfreed : w'.phase ≠ .slotFreed)
    (hhead : ∀ e head, w'.phase.head = some (e, head) → w.phase.head = some (e, head) ∨
      head = s.undoPtr e)
    (hentry : ∀ id, w'.phase.entry = some id → w.phase.entry = some id) {c : Nat}
    (hc : s.clock ≤ c) :
    Inv { s.setWriter txn w' with clock := c } chain := by
  have hsame : SameChains s { s.setWriter txn w' with clock := c } chain :=
    ⟨rfl, fun _ _ h => h, hc, le_rfl, fun _ _ _ => rfl, fun _ _ _ => SlotKeeps.of_eq rfl⟩
  have hfresh : ∀ e head, w'.phase.head = some (e, head) → ∀ u v, s.active.lookup u = some v →
      v.phase.entry ≠ some head := by
    intro e head hh u v hv he
    rcases hhead e head hh with h | rfl
    · exact hs.remembered txn w u v e head hw hv h he
    · exact hs.undoPtr_ne_entry hv he e rfl
  refine hs.frame (fun e id hid => (hs.live e id hid).2)
    (fun k hk => ?_) ⟨hs.free_nodup, hs.free_off⟩
    ⟨hs.freeSlots_nodup, hs.freeSlots_dead⟩ rfl hsame
    (fun u v _ hv => ⟨fun _ _ _ => rfl, fun id hid => ⟨rfl, ?_⟩⟩) ?_
    ⟨fun e head hh => ⟨fun he => ?_, fun u v _ => hfresh e head hh u v⟩,
      fun id he u v e _ hv hh => ?_⟩
  · have hold := hs.slots k hk
    refine hold.keeps rfl rfl (fun _ _ h => h) le_rfl fun htxn => ⟨?_, hfreed⟩
    rw [hslot]
    exact (hold.own w (htxn ▸ hw)).1
  · exact ((hs.writers u v hv).kept id hid).2.1
  · exact hok.keeps
      (.of_same rfl hsame (fun _ _ _ => rfl) (fun id hid => ⟨rfl, (hok.kept id hid).2.1⟩)
      fun id hid => (hok.entry id hid).2.2)
  · exact hfresh e head hh txn w hw (hentry head he)
  · exact hs.remembered u v txn w e id hv hw hh (hentry id he)

/-- A writer in a new phase. -/
lemma WriterOk.change (h : WriterOk s chain txn w) (hbegin : w'.beginTs = w.beginTs)
    (hslot : w'.commitSlot = w.commitSlot) (hcommand : w.command ≤ w'.command)
    (hphase : w.phase ≠ .slotFreed ∧ w.phase ≠ .slotPublished ∧ w'.phase ≠ .slotPublished)
    (hopened : w'.phase.head.isSome ∨ w'.phase.entry.isSome → w.commitSlot.isSome)
    (hreach : ∀ e, (∃ id ∈ chain e, w.commitSlot = some (s.commitInfo id)) →
      w.Reaches e → w'.Reaches e)
    (hkept : w'.kept ⊆ w.kept) (hnodup : w'.kept.Nodup)
    (hentry : ∀ id, w'.phase.entry = some id → w.phase.entry = some id ∧ w'.command = w.command)
    (hhead : ∀ e head, w'.phase.head = some (e, head) → head ≤ s.deltaHw)
    (hok : PhaseOk s chain txn w') :
    WriterOk s chain txn w' := by
  constructor
  case begun => exact hbegin ▸ h.begun
  case begin_le => exact hbegin ▸ h.begin_le
  case slot =>
    intro k hk _
    obtain ⟨hlive, howner, hopen, -⟩ := h.slot k (hslot ▸ hk) hphase.1
    exact ⟨hlive, howner, fun _ => hopen hphase.2.1, fun hp => absurd hp hphase.2.2⟩
  case opened => exact fun hp => hslot ▸ hopened hp
  case command =>
    exact fun k hk _ e id hid hinfo =>
      le_trans (h.command k (hslot ▸ hk) hphase.1 e id hid hinfo) hcommand
  case reach =>
    intro k hk _ e id hid hinfo
    exact hreach e ⟨id, hid, hinfo ▸ hslot ▸ hk⟩ (h.reach k (hslot ▸ hk) hphase.1 e id hid hinfo)
  case kept => exact fun id hid => hslot ▸ h.kept id (hkept hid)
  case nodup => exact hnodup
  case entry =>
    intro id hid
    obtain ⟨hold, hsame⟩ := hentry id hid
    exact hsame ▸ h.entry id hold
  case head_le => exact hhead
  case phase => exact hok

/-- A writer goes on with nothing that it remembers or has to publish. -/
lemma Inv.enter (hs : Inv s chain) (hw : s.active.lookup txn = some w)
    (hbegin : w'.beginTs = w.beginTs)
    (hslot : w'.commitSlot = w.commitSlot) (hcommand : w.command ≤ w'.command)
    (hhead : w'.phase.head = none)
    (hentry : w'.phase.entry = none) (hphase : w.phase ≠ .slotFreed ∧ w.phase ≠ .slotPublished)
    (hphase' : w'.phase ≠ .slotFreed ∧ w'.phase ≠ .slotPublished)
    (hreach : ∀ e, (∃ id ∈ chain e, w.commitSlot = some (s.commitInfo id)) →
      w.Reaches e → w'.Reaches e)
    (hkept : w'.kept.Perm w.kept) (hok : PhaseOk s chain txn w') :
    Inv (s.setWriter txn w') chain := by
  have hwok := hs.writers txn w hw
  have hok' : WriterOk s chain txn w' :=
    hwok.change hbegin hslot hcommand ⟨hphase.1, hphase.2, hphase'.2⟩
    (by simp [hhead, hentry]) hreach hkept.subset (hkept.nodup_iff.2 hwok.nodup) (by simp [hentry])
    (by simp [hhead]) hok
  exact hs.setWriter (c := s.clock) hw hok' hslot hphase'.1 (by simp [hhead])
    (by simp [hentry]) le_rfl

/-- A writer publishes a delta or takes its own off a chain. -/
lemma Inv.rechain (hs : Inv s chain) (hw : s.active.lookup txn = some w) {p : WriterPhase Entity}
    {ptr : Entity → Nat} (hw' : w' = { w with phase := p })
    (hs' : s' = { s.setWriter txn w' with undoPtr := ptr })
    (hhead : p.head = none) (hentry : p.entry = none)
    (hphase : w.phase ≠ .slotFreed ∧ w.phase ≠ .slotPublished)
    (hphase' : p ≠ .slotFreed ∧ p ≠ .slotPublished)
    (hkept : w'.kept.Perm w.kept) (hok : PhaseOk s' chain' txn w')
    (hspells : ∀ e, Spells s.next nullDelta (ptr e) (chain' e))
    (habove : ∀ e, (chain' e).Pairwise s.Above)
    (hlinks : ∀ e, ∀ j ∈ chain' e, (s.live j = true ∧ s.slotLive (s.commitInfo j) = true) ∧
      j ≤ s.deltaHw ∧
      j ∉ s.freeDeltas ∧
        (w.commitSlot = some (s.commitInfo j) → s.commandId j ≤ w.command ∧ w'.Reaches e))
    (hothers : ∀ u v, u ≠ txn → s.active.lookup u = some v →
      (∀ e, ∀ j ∈ chain' e, j ∈ chain e ∨
      ((v.phase ≠ .slotFreed → v.commitSlot ≠ some (s.commitInfo j)) ∧
        ∀ head, v.phase.head = some (e, head) → j ≠ head)) ∧
      (∀ j, v.phase.entry = some j → ∀ e, j ∉ chain' e) ∧
      ∀ e o h t d k, v.phase = .walked e o h t d → v.commitSlot = some k →
        (∃ j ∈ chain e, s.commitInfo j = k) → chain' e = chain e ∧ ptr e = s.undoPtr e) :
    Inv s' chain' := by
  subst hs' hw'
  have hwok := hs.writers txn w hw
  refine hs.update rfl ?ground ?others ?self (.of_none hhead hentry)
  case ground =>
    refine ⟨hspells, fun e j hj => (hlinks e j hj).1, habove, fun e j hj => (hlinks e j hj).2.1,
      fun k hk => ?_, hs.free_nodup, fun j hj => ?_, hs.freeSlots_nodup, hs.freeSlots_dead⟩
    · refine (hs.slots k hk).keeps rfl rfl (fun _ _ h => h) le_rfl fun htxn => ⟨?_, hphase'.1⟩
      exact ((hs.slots k hk).own w (htxn ▸ hw)).1
    · obtain ⟨hnull, hle, -⟩ := hs.free_off j hj
      exact ⟨hnull, hle, fun e hmem => (hlinks e j hmem).2.2.1 hj⟩
  case others =>
    intro u v hne hv
    obtain ⟨hvlinks, hvoff, hvwalk⟩ := hothers u v hne hv
    refine ⟨fun _ _ h => h, le_rfl, le_rfl, fun _ _ _ => rfl,
      fun e j hj => (hvlinks e j hj).imp_left fun h => ⟨h, rfl⟩,
      fun j hj => ⟨rfl, ((hs.writers u v hv).kept j hj).2.1⟩, hvoff, fun _ _ _ _ _ =>
        SlotKeeps.of_eq rfl,
      fun _ _ _ _ x _ _ _ hx => (AList.mem_insert _).2 (.inr hx), fun e o h t d k hp hk hex => ?_⟩
    obtain ⟨hchain, hptr⟩ := hvwalk e o h t d k hp hk hex
    exact ⟨hchain, hptr, fun _ _ => rfl⟩
  case self =>
    refine ⟨hwok.begun, hwok.begin_le, fun k hk _ => ?_, by simp [hhead, hentry],
      fun k hk _ e j hj hinfo => ((hlinks e j hj).2.2.2 (hinfo ▸ hk)).1,
      fun k hk _ e j hj hinfo => ((hlinks e j hj).2.2.2 (hinfo ▸ hk)).2, fun j hj =>
        hwok.kept j (hkept.subset hj),
      hkept.nodup_iff.2 hwok.nodup, by simp [hentry], by simp [hhead], hok⟩
    obtain ⟨hlive, howner, hopen, -⟩ := hwok.slot k hk hphase.1
    exact ⟨hlive, howner, fun _ => hopen hphase.2, fun h => absurd h hphase'.2⟩

section Link

variable {p0 p : WriterPhase Entity} (hw0 : w.phase = p0) (hp : p0.linking = true)
  (hp' : p.linking = true)
  (hopen : w.commitSlot.isSome) (hentry : p.entry = p0.entry ∨ p.entry = none)

include hw0 hp hp' hopen hentry

/-- A writer in a new phase of `link_delta`. -/
lemma WriterOk.link (h : WriterOk s chain txn w)
    (hhead : ∀ e head, p.head = some (e, head) → head ≤ s.deltaHw)
    (hok : PhaseOk s chain txn { w with phase := p }) :
    WriterOk s chain txn { w with phase := p } := by
  subst hw0
  have hp'' : ({ w with phase := p } : WriterTxn Entity).phase.linking = true := hp'
  have hkept : ({ w with phase := p } : WriterTxn Entity).kept.Sublist w.kept := by
    rw [kept_of_linking hp'', kept_of_linking hp]
    rcases hentry with he | he <;> simp [he]
  refine h.change rfl rfl le_rfl ⟨?_, ?_, ?_⟩ (fun _ => hopen)
    (fun e _ he => ?_) hkept.subset (hkept.nodup h.nodup) (fun id hid => ?_) hhead hok
  · rintro heq
    simp [heq, linking] at hp
  · rintro heq
    simp [heq, linking] at hp
  · rintro (rfl : p = _)
    simp [linking] at hp'
  · rw [reaches_of_linking hp'']
    exact (reaches_of_linking hp e).1 he
  · rcases hentry with he | he
    · exact ⟨he ▸ hid, rfl⟩
    · rw [he] at hid
      cases hid

lemma Inv.link (hs : Inv s chain) (hw : s.active.lookup txn = some w)
    (hhead : ∀ e head, p.head = some (e, head) → p0.head = some (e, head) ∨ head = s.undoPtr e)
    (hok : PhaseOk s chain txn { w with phase := p }) :
    Inv (s.setWriter txn { w with phase := p }) chain := by
  subst hw0
  have hwok := hs.writers txn w hw
  have hle : ∀ e head, p.head = some (e, head) → head ≤ s.deltaHw := by
    intro e head hh
    rcases hhead e head hh with h | rfl
    · exact hwok.head_le e head h
    · exact hs.undoPtr_le e
  have hok' : WriterOk s chain txn { w with phase := p } :=
    hwok.link rfl hp hp' hopen hentry hle hok
  refine hs.setWriter (c := s.clock) hw hok' rfl ?_ hhead (fun id hid => ?_) le_rfl
  · rintro (rfl : p = _)
    simp [linking] at hp'
  rcases hentry with he | he
  · exact he ▸ hid
  · rw [he] at hid
    cases hid

end Link

/-! ## Writing a delta that is not published -/

section

variable (hs : Inv s chain) (hw : s.active.lookup txn = some w) (hv : s.active.lookup u = some v)

include hs hw hv

/-- No two transactions in the active table have the same slot. -/
lemma Inv.slot_inj (hwk : w.commitSlot = some k) (hwp : w.phase ≠ .slotFreed)
    (hvk : v.commitSlot = some k) (hvp : v.phase ≠ .slotFreed) : u = txn := by
  rw [← ((hs.writers txn w hw).slot k hwk hwp).2.1, ((hs.writers u v hv).slot k hvk hvp).2.1]

lemma Inv.kept_disjoint (hne : u ≠ txn) (hid : id ∈ w.kept) : id ∉ v.kept := by
  intro hid'
  exact hne (hs.slot_inj hw hv ((hs.writers txn w hw).kept id hid).1 (not_freed_of_mem_kept hid)
    ((hs.writers u v hv).kept id hid').1 (not_freed_of_mem_kept hid'))

end

/-- The area after a writer has written the delta `id`. -/
def wrote (s : UndoArea Entity) (txn : Nat) (w : WriterTxn Entity) (id : Nat) (d : Option UndoDelta)
    (free : List Nat) (hw : Nat) : UndoArea Entity :=
  { s.setWriter txn w with
    delta := Function.update s.delta id d
    freeDeltas := free
    deltaHw := hw }

variable {d : Option UndoDelta} {free : List Nat} {hw : Nat}

lemma wrote_delta_of_ne {j : Nat} (h : j ≠ id) : (s.wrote txn w id d free hw).delta j = s.delta j :=
  Function.update_of_ne h _ _

lemma SameChains.wrote (hoff : ∀ e, id ∉ chain e) (hhw : s.deltaHw ≤ hw) :
    SameChains s (s.wrote txn w id d free hw) chain := by
  refine ⟨rfl, fun _ _ h => h, le_rfl, hhw, fun e j hj => wrote_delta_of_ne ?_,
    fun _ _ _ => SlotKeeps.of_eq rfl⟩
  rintro rfl
  exact hoff e hj

/-- **A writer writes a delta that no chain and no other writer has.** -/
lemma Inv.wrote (hs : Inv s chain) (hlookup : s.active.lookup txn = some w)
    (hslot : w'.commitSlot = w.commitSlot)
    (hfreed : w'.phase ≠ .slotFreed) (hoff : ∀ e, id ∉ chain e)
    (hothers : ∀ u v, u ≠ txn → s.active.lookup u = some v → id ∉ v.kept ∧ ∀ j ∈ v.kept, j ∉ free)
    (hhw : s.deltaHw ≤ hw)
    (hfree : free.Nodup ∧ ∀ j ∈ free, j ≠ nullDelta ∧ j ≤ hw ∧ ∀ e, j ∉ chain e)
    (hok : WriterOk (s.wrote txn w' id d free hw) chain txn w') (hheads : HeadsOk s txn w') :
    Inv (s.wrote txn w' id d free hw) chain := by
  refine hs.frame (fun e j hj => (hs.live e j hj).2) (fun k hk => ?_) hfree
    ⟨hs.freeSlots_nodup, hs.freeSlots_dead⟩ rfl (.wrote hoff hhw)
    (fun u v hne hv => ⟨fun _ _ _ => rfl,
      fun j hj => ⟨wrote_delta_of_ne ?_, (hothers u v hne hv).2 j hj⟩⟩)
    hok hheads
  · have hold := hs.slots k hk
    refine hold.keeps rfl rfl (fun _ _ h => h) le_rfl fun htxn => ⟨?_, hfreed⟩
    rw [hslot]
    exact (hold.own w (htxn ▸ hlookup)).1
  · rintro rfl
    exact (hothers u v hne hv).1 hj

/-- The writer itself, when the delta is not one it keeps. -/
lemma WriterOk.wrote (h : WriterOk s chain txn w') (hoff : ∀ e, id ∉ chain e) (hid : id ∉ w'.kept)
    (hfree : ∀ j ∈ w'.kept, j ∉ free) (hhw : s.deltaHw ≤ hw) :
    WriterOk (s.wrote txn w' id d free hw) chain txn w' := by
  refine h.keeps (.of_same rfl (.wrote hoff hhw) (fun _ _ _ => rfl)
    (fun j hj => ⟨wrote_delta_of_ne ?_, hfree j hj⟩) fun j hj => (h.entry j hj).2.2)
  rintro rfl
  exact hid hj

end UndoArea

end Graphus
