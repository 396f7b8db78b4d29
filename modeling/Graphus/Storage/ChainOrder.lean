import Graphus.Storage.LinkSteps

/-!
# First updater wins

**Theorem (`chains_ordered`).** On every run, the chain of every entity reads as a list of live
deltas in which an upper delta is of the same transaction as a lower one, and of no earlier
statement, or the lower one has committed, no later than the transaction of the upper one has begun.
So the deltas of an open transaction are on top, they are of one transaction, and commit timestamps
fall from the head down.

Two conditions are on the run (`Undisturbed`). A committed transaction does not leave the active
table while another one has read its slot as in flight and has not looked at the table. And a freed
delta id is not allocated again while a writer still has it as the head that it has read. Without
the first a writer goes on above a delta that has committed after it began (`stale_guard_passes`);
without the second above a delta of a transaction that is open.
-/

namespace Graphus.UndoArea

open LinkedChain List WriterPhase
open Function (update_of_ne update_self)
open WriterTxn (kept)
open Option (mem_unique)
open Run (exec guarded)

attribute [local simp] WriterPhase.head entry

variable {Entity : Type} {s s' : UndoArea Entity} {chain : Entity → List Nat} {txn id k : Nat}
  {w : WriterTxn Entity}

/-! ## Slots -/

/-- The area after a writer has written the slot `k`. -/
def slotWrote (s : UndoArea Entity) (txn : Nat) (w : WriterTxn Entity) (k : Nat)
    (slot : Option CommitSlot) (freeSlots : List Nat) (slotHw : Nat) : UndoArea Entity :=
  { s.setWriter txn w with
    slot := Function.update s.slot k slot
    freeSlots := freeSlots
    slotHw := slotHw }

variable {w' : WriterTxn Entity} {slot : Option CommitSlot} {freeSlots : List Nat} {slotHw : Nat}

lemma slotWrote_slot_of_ne {k' : Nat} (h : k' ≠ k) :
    (s.slotWrote txn w' k slot freeSlots slotHw).slot k' = s.slot k' :=
  update_of_ne h _ _

/-- **A writer writes a slot that is its own or not in use.** -/
lemma Inv.slotWrote (hs : Inv s chain) (hs' : s' = s.slotWrote txn w' k slot freeSlots slotHw)
    (hchain : ∀ e, ∀ j ∈ chain e, s.commitInfo j = k → s'.slotLive k = true ∧ SlotKeeps s s' k)
    (hnew : s'.slotLive k = true → SlotOk s' k)
    (hown : ∀ k', k' ≠ k → s.slotLive k' = true → s.owner k' ≠ txn)
    (hothers : ∀ u v, u ≠ txn → s.active.lookup u = some v → v.phase ≠ .slotFreed →
      v.commitSlot ≠ some k)
    (hhw : s.slotHw ≤ slotHw)
    (hfree : freeSlots.Nodup ∧ ∀ k' ∈ freeSlots, s'.slotLive k' = false ∧ k' ≤ slotHw)
    (hself : WriterOk s' chain txn w') (hhead : w'.phase.head = none)
    (hentry : w'.phase.entry = none) :
    Inv s' chain := by
  have hkeep : ∀ e, ∀ j ∈ chain e, s'.slotLive (s.commitInfo j) = true ∧
    SlotKeeps s s' (s.commitInfo j) := by
    intro e j hj
    by_cases hinfo : s.commitInfo j = k
    · rw [hinfo]
      exact hchain e j hj hinfo
    · have hsame : s'.slot (s.commitInfo j) = s.slot (s.commitInfo j) :=
        hs' ▸ slotWrote_slot_of_ne hinfo
      exact ⟨(slotLive_congr hsame).trans (hs.live e j hj).2, .of_eq hsame⟩
  subst hs'
  refine hs.frame (fun e j hj => (hkeep e j hj).1) (fun k' hk' => ?_) ⟨hs.free_nodup, hs.free_off⟩
    hfree rfl
      ⟨rfl, fun _ _ h => h, le_rfl, le_rfl, fun _ _ _ => rfl, fun e j hj => (hkeep e j hj).2⟩
    (fun u v hne hv => ⟨fun k' hk' hvp => slotWrote_slot_of_ne ?_,
      fun j hj => ⟨rfl, ((hs.writers u v hv).kept j hj).2.1⟩⟩)
    hself (.of_none hhead hentry)
  · by_cases hk : k' = k
    · subst hk
      exact hnew hk'
    · rw [slotLive_congr (slotWrote_slot_of_ne hk)] at hk'
      exact (hs.slots k' hk').keeps rfl (slotWrote_slot_of_ne hk) (fun _ _ h => h) hhw
        fun htxn => absurd htxn (hown k' hk hk')
  · rintro rfl
    exact hothers u v hne hv hvp hk'

/-- A slot in use other than the one of a writer is not of that writer. -/
lemma Inv.owner_ne (hs : Inv s chain) (hw : s.active.lookup txn = some w) {k' : Nat}
    (hslot : w.commitSlot ≠ some k') (hlive : s.slotLive k' = true) : s.owner k' ≠ txn := by
  intro htxn
  exact hslot ((hs.slots k' hlive).own w (htxn ▸ hw)).1

/-- A slot that is allocated is not in use. -/
lemma Ground.slot_dead (hs : Ground s chain) (h : allocatable s.freeSlots s.slotHw k) :
    s.slotLive k = false := by
  rcases h with hfree | rfl
  · exact (hs.freeSlots_dead k hfree).1
  · by_contra hlive
    have hle := (hs.slots _ (by simpa using hlive)).bound
    omega

section SlotRecord

variable {sl : CommitSlot} (h : s.slot k = some sl)

include h

lemma owner_eq : s.owner k = sl.txnId := by
  simp [owner, h]

lemma stamp_eq : s.stamp k = sl.commitTs := by
  simp [stamp, h]

lemma slotLive_eq : s.slotLive k = sl.inUse := by
  simp [slotLive, h]

end SlotRecord

lemma slotWrote_slot_self : (s.slotWrote txn w' k slot freeSlots slotHw).slot k = slot :=
  update_self ..

section

variable (hs : Inv s chain) (hw : s.active.lookup txn = some w)

include hs hw

/-- A transaction opens its slot. -/
lemma Inv.openSlot (hp : w.phase = .idle) (hnone : w.commitSlot = none)
    (halloc : allocatable s.freeSlots s.slotHw k) :
    Inv (s.slotWrote txn { w with commitSlot := some k } k (some ⟨true, txn, .inFlight txn⟩)
      (s.freeSlots.erase k) (max s.slotHw k)) chain := by
  have hok := hs.writers txn w hw
  have hdead := hs.slot_dead halloc
  have hkept : ({ w with commitSlot := some k } : WriterTxn Entity).kept = [] := by
    rw [eq_nil_iff_forall_not_mem]
    intro j hj
    have hslot := (hok.kept j hj).1
    rw [hnone] at hslot
    cases hslot
  have hoff : ∀ e, ∀ j ∈ chain e, s.commitInfo j ≠ k := by
    rintro e j hj rfl
    rw [(hs.live e j hj).2] at hdead
    cases hdead
  have hself : (s.slotWrote txn { w with commitSlot := some k } k (some ⟨true, txn, .inFlight txn⟩)
      (s.freeSlots.erase k) (max s.slotHw k)).slot k = some ⟨true, txn, .inFlight txn⟩ :=
        slotWrote_slot_self
  refine hs.slotWrote rfl (fun e j hj hinfo => absurd hinfo (hoff e j hj)) (fun _ => ?_)
    (fun k' _ hlive => hs.owner_ne hw (by simp [hnone]) hlive) (fun u v _ hv hvp hslot => ?_)
    (le_max_left _ _)
    ⟨hs.freeSlots_nodup.erase k, fun k' hk' => ?_⟩ ?_ (by simp [hp]) (by simp [hp])
  · constructor
    case begun =>
      exact ⟨w.beginTs, by rw [owner_eq hself]; exact hok.begun, by simp [stamp_eq hself]⟩
    case stamped => simp [stamp_eq hself]
    case inFlight =>
      intro x hx
      rw [stamp_eq hself] at hx
      cases hx
      exact ⟨(owner_eq hself).symm, (AList.mem_insert _).2 (.inl rfl)⟩
    case own =>
      intro v hv
      rw [owner_eq hself] at hv
      obtain rfl : { w with commitSlot := some k } = v := by
        simpa [UndoArea.slotWrote, UndoArea.setWriter] using hv
      exact ⟨rfl, by simp [hp]⟩
    case bound => exact le_max_right _ _
  · rw [((hs.writers u v hv).slot k hslot hvp).1] at hdead
    cases hdead
  · obtain ⟨hne, hmem⟩ := hs.freeSlots_nodup.mem_erase_iff.1 hk'
    obtain ⟨hk'dead, hle⟩ := hs.freeSlots_dead k' hmem
    exact ⟨(slotLive_congr (slotWrote_slot_of_ne hne)).trans hk'dead,
      le_trans hle (le_max_left _ _)⟩
  · constructor
    case begun => exact hok.begun
    case begin_le => exact hok.begin_le
    case slot =>
      intro k' hk' _
      obtain rfl : k = k' := Option.some.inj hk'
      exact ⟨slotLive_eq hself, owner_eq hself, fun _ => stamp_eq hself, by simp [hp]⟩
    case opened => exact fun _ => rfl
    case command =>
      intro k' hk' _ e j hj hinfo
      obtain rfl : k = k' := Option.some.inj hk'
      exact absurd hinfo (hoff e j hj)
    case reach =>
      intro k' hk' _ e j hj hinfo
      obtain rfl : k = k' := Option.some.inj hk'
      exact absurd hinfo (hoff e j hj)
    case kept => simp [hkept]
    case nodup => simp [hkept]
    case entry => simp [hp]
    case head_le => simp [hp]
    case phase => simp [PhaseOk, hp]

/-- A commit publishes its timestamp in the slot. -/
lemma Inv.publishSlot {ts : Nat} (hp : w.phase = .committing ts) (hslot : w.commitSlot = some k) :
    Inv (s.slotWrote txn { w with phase := .slotPublished } k
      ((s.slot k).map fun sl => { sl with commitTs := .committed ts }) s.freeSlots s.slotHw)
        chain := by
  have hok := hs.writers txn w hw
  have hfreed : w.phase ≠ .slotFreed := by rw [hp]; simp
  obtain ⟨hlive, howner, hopen, -⟩ := hok.slot k hslot hfreed
  have hstamp := hopen (by rw [hp]; simp)
  have hlt : w.beginTs < ts := by simpa only [PhaseOk, hp] using hok.phase
  cases hsl : s.slot k with
  | none => simp [slotLive, hsl] at hlive
  | some sl =>
    rw [Option.map_some]
    have hself : (s.slotWrote txn { w with phase := .slotPublished } k
      (some { sl with commitTs := .committed ts })
        s.freeSlots s.slotHw).slot k = some { sl with commitTs := .committed ts } :=
          slotWrote_slot_self
    rw [owner_eq hsl] at howner
    rw [slotLive_eq hsl] at hlive
    refine hs.slotWrote rfl (fun e j hj hinfo => ⟨?_, ?_, fun ts' hts' => ?_⟩) (fun _ => ?_)
      (fun k' hne hk' => hs.owner_ne hw (by simpa [hslot] using hne.symm) hk')
      (fun u v hne hv hvp hvslot => hne (hs.slot_inj hw hv hslot hfreed hvslot hvp)) le_rfl
      ⟨hs.freeSlots_nodup, fun k' hk' => ?_⟩ ?_ rfl rfl
    · rw [slotLive_eq hself]
      exact hlive
    · rw [owner_eq hself, owner_eq hsl]
    · rw [hstamp] at hts'
      cases hts'
    · constructor
      case begun =>
        refine ⟨w.beginTs, by rw [owner_eq hself]; exact howner ▸ hok.begun, fun ts' hts' => ?_⟩
        rw [stamp_eq hself] at hts'
        cases hts'
        exact hlt
      case stamped => simp [stamp_eq hself]
      case inFlight => simp [stamp_eq hself]
      case own =>
        intro v hv
        rw [owner_eq hself, howner] at hv
        obtain rfl : { w with phase := .slotPublished } = v := by
          simpa [UndoArea.slotWrote, UndoArea.setWriter] using hv
        exact ⟨hslot, by simp⟩
      case bound => exact (hs.slots k (by rw [slotLive_eq hsl]; exact hlive)).bound
    · obtain ⟨hdead, hle⟩ := hs.freeSlots_dead k' hk'
      refine ⟨?_, hle⟩
      rw [slotLive_congr (slotWrote_slot_of_ne ?_)]
      · exact hdead
      · rintro rfl
        rw [slotLive_eq hsl, hlive] at hdead
        cases hdead
    · constructor
      case begun => exact hok.begun
      case begin_le => exact hok.begin_le
      case slot =>
        intro k' hk' _
        obtain rfl : k = k' := mem_unique hslot hk'
        exact ⟨(slotLive_eq hself).trans hlive,
          (owner_eq hself).trans howner, by simp, fun _ => ⟨ts, stamp_eq hself⟩⟩
      case opened => simp
      case command => exact fun k' hk' _ e j hj hinfo => hok.command k' hk' hfreed e j hj hinfo
      case reach =>
        intro k' hk' _ e j hj hinfo
        have hreach := hok.reach k' hk' hfreed e j hj hinfo
        simpa only [WriterTxn.Reaches, hp] using hreach
      case kept =>
        intro j hj
        refine hok.kept j ?_
        simpa only [kept, hp, entry] using hj
      case nodup =>
        have hnodup := hok.nodup
        simpa only [kept, hp, entry] using hnodup
      case entry => simp
      case head_le => simp
      case phase => trivial

/-- A commit without a slot. -/
lemma Inv.publishNone {ts : Nat} (hp : w.phase = .committing ts) (hslot : w.commitSlot = none) :
    Inv (s.setWriter txn { w with phase := .slotPublished }) chain := by
  have hok := hs.writers txn w hw
  have hnodup := hok.nodup
  have hnext : WriterOk s chain txn { w with phase := .slotPublished } := by
    refine ⟨hok.begun, hok.begin_le, ?_, ?_, ?_, ?_, fun j hj => hok.kept j ?_, ?_, ?_, ?_, trivial⟩
    · simp [hslot]
    · simp
    · simp [hslot]
    · simp [hslot]
    · simpa only [kept, hp, entry] using hj
    · simpa only [kept, hp, entry] using hnodup
    · simp
    · simp
  exact hs.setWriter (c := s.clock) hw hnext rfl (by simp) (by simp) (by simp) le_rfl

/-- A rollback frees its slot, with none of its deltas on a chain. -/
lemma Inv.freeSlot {detached : List Nat} (hp : w.phase = .freeing [] detached)
    (hslot : w.commitSlot = some k) :
    Inv (s.slotWrote txn { w with phase := .slotFreed } k
      ((s.slot k).map fun sl => { sl with inUse := false }) (k :: s.freeSlots) s.slotHw) chain := by
  have hok := hs.writers txn w hw
  have hfreed : w.phase ≠ .slotFreed := by rw [hp]; simp
  have hlive := (hok.slot k hslot hfreed).1
  have hoff : ∀ e, ∀ j ∈ chain e, s.commitInfo j ≠ k := by
    intro e j hj hinfo
    have hreach := hok.reach k hslot hfreed e j hj hinfo
    simp only [WriterTxn.Reaches, hp] at hreach
  have hdead : (s.slotWrote txn { w with phase := .slotFreed } k
    ((s.slot k).map fun sl => { sl with inUse := false })
      (k :: s.freeSlots) s.slotHw).slotLive k = false := by
    rw [slotLive, slotWrote_slot_self]
    cases s.slot k <;> rfl
  have hnew : k ∉ s.freeSlots := by
    intro hmem
    rw [(hs.freeSlots_dead k hmem).1] at hlive
    cases hlive
  refine hs.slotWrote rfl (fun e j hj hinfo => absurd hinfo (hoff e j hj)) (fun h => ?_)
    (fun k' hne hk' => hs.owner_ne hw (by simpa [hslot] using hne.symm) hk')
    (fun u v hne hv hvp hvslot => hne (hs.slot_inj hw hv hslot hfreed hvslot hvp)) le_rfl
    ⟨nodup_cons.2 ⟨hnew, hs.freeSlots_nodup⟩, fun k' hk' => ?_⟩ ?_ rfl rfl
  · rw [hdead] at h
    cases h
  · rcases mem_cons.1 hk' with rfl | hmem
    · exact ⟨hdead, (hs.slots k' hlive).bound⟩
    · obtain ⟨hk'dead, hle⟩ := hs.freeSlots_dead k' hmem
      refine ⟨(slotLive_congr (slotWrote_slot_of_ne ?_)).trans hk'dead, hle⟩
      rintro rfl
      exact hnew hmem
  · refine ⟨hok.begun, hok.begin_le, ?_, ?_, ?_, ?_, ?_, ?_, ?_, ?_, trivial⟩ <;>
      simp [kept]

/-- A rollback frees one of its deltas. -/
lemma Inv.freeDelta {link : UndoLink Entity} {todo : List (UndoLink Entity)} {detached : List Nat}
    (hp : w.phase = .freeing (link :: todo) detached) :
    Inv (s.wrote txn { w with phase := .freeing todo detached } link.delta
      ((s.delta link.delta).map fun d => { d with inUse := false })
        (link.delta :: s.freeDeltas) s.deltaHw) chain := by
  have hok := hs.writers txn w hw
  have hkept : w.kept = link.delta :: todo.map UndoLink.delta := by simp [kept, hp]
  have hmem : link.delta ∈ w.kept := by simp [hkept]
  obtain ⟨hslot, hfree, hnull, hle⟩ := hok.kept link.delta hmem
  have hnodup := hok.nodup
  rw [hkept, nodup_cons] at hnodup
  have hoff : ∀ e, link.delta ∉ chain e := by
    intro e hj
    have hreach := hok.reach _ hslot (WriterTxn.not_freed_of_mem_kept hmem) e link.delta hj rfl
    simp only [WriterTxn.Reaches, hp] at hreach
  have hnext : WriterOk s chain txn { w with phase := .freeing todo detached } := by
    refine hok.change rfl rfl le_rfl (by simp [hp]) (by simp)
      (fun e _ he => by simp [WriterTxn.Reaches, hp] at he) (fun j hj => ?_) hnodup.2 (by simp)
      (by simp) trivial
    rw [hkept]
    exact mem_cons_of_mem _ hj
  have hstill : ∀ u v, s.active.lookup u = some v → ∀ j ∈ v.kept, j ≠ link.delta →
    j ∉ link.delta :: s.freeDeltas := by
    intro u v hv j hj hne hj'
    rcases mem_cons.1 hj' with h | h
    · exact hne h
    · exact ((hs.writers u v hv).kept j hj).2.1 h
  refine hs.wrote hw rfl (by simp) hoff
    (fun u v hne hv => ⟨hs.kept_disjoint hw hv hne hmem, fun j hj => ?_⟩) le_rfl
    ⟨nodup_cons.2 ⟨hfree, hs.free_nodup⟩, fun j hj => ?_⟩ ?_ (.of_none rfl rfl)
  · refine hstill u v hv j hj ?_
    rintro rfl
    exact hs.kept_disjoint hw hv hne hmem hj
  · rcases mem_cons.1 hj with rfl | hj
    · exact ⟨hnull, hle, hoff⟩
    · exact hs.free_off j hj
  · refine hnext.wrote hoff hnodup.1 (fun j hj => ?_) le_rfl
    refine hstill txn w hw j (by rw [hkept]; exact mem_cons_of_mem _ hj) ?_
    rintro rfl
    exact hnodup.1 hj

/-- A rollback that meets an error. -/
lemma Inv.fail (hp : w.phase ≠ .slotFreed ∧ w.phase ≠ .slotPublished) :
    Inv (s.setWriter txn { w with phase := .failed }) chain := by
  have hok : WriterOk s chain txn { w with phase := .failed } :=
    (hs.writers txn w hw).change rfl rfl le_rfl ⟨hp.1, hp.2, by simp⟩ (by simp)
      (fun _ _ _ => trivial) (by simp [kept]) (by simp [kept]) (by simp)
      (by simp) trivial
  exact hs.setWriter (c := s.clock) hw hok rfl (by simp) (by simp) (by simp) le_rfl

end

/-! ## The ends of a transaction -/

/-- A transaction leaves the active table. -/
lemma Inv.leave (hs : Inv s chain) (hslots : ∀ k, s.slotLive k = true → s.stamp k ≠ .inFlight txn)
    (htable : ∀ u v e entry head slot, s.active.lookup u = some v →
      v.phase = .slotRead e entry head slot →
      slot.commitTs = .inFlight txn → head ∉ chain e) : Inv
        { s with active := s.active.erase txn } chain := by
  have hstill : ∀ x, x ≠ txn → x ∈ s.active → x ∈ s.active.erase txn :=
    fun x hne hmem => AList.mem_erase.2 ⟨hne, hmem⟩
  have hlookup : ∀ u v, (s.active.erase txn).lookup u = some v → s.active.lookup u = some v :=
    fun u v hv => (Dict.of_lookup_erase hv).2
  refine { hs with
    slots := fun k hk => ?_
    writers := fun u v hv => ?_
    remembered := fun u v u' v' e head hv hv' => ?_ }
  · have hold := hs.slots k hk
    refine { hold with inFlight := fun x hx => ?_, own := fun v hv => hold.own v (hlookup _ v hv) }
    obtain ⟨hx', hmem⟩ := hold.inFlight x hx
    refine ⟨hx', hstill x ?_ hmem⟩
    rintro rfl
    exact hslots k hk hx
  · have hold := hlookup u v hv
    have hvok := hs.writers u v hold
    refine hvok.keeps
      ⟨fun _ _ h => h, le_rfl, le_rfl, fun _ _ _ => rfl, fun e j hj => .inl ⟨hj, rfl⟩,
      fun j hj => ⟨rfl, (hvok.kept j hj).2.1⟩, fun j hj => (hvok.entry j hj).2.2,
      fun _ _ _ _ _ => SlotKeeps.of_eq rfl, fun e entry head slot x hphase hx hmem hactive =>
        hstill x ?_ hactive,
      fun _ _ _ _ _ _ _ _ _ => ⟨rfl, rfl, fun _ _ => rfl⟩⟩
    rintro rfl
    exact htable u v e entry head slot hold hphase hx hmem
  · exact hs.remembered u v u' v' e head (hlookup u v hv) (hlookup u' v' hv')

lemma Inv.settle (hs : Inv s chain) (hw : s.active.lookup txn = some w)
    (hp : w.phase = .slotPublished)
    (hC : s.Undisturbed (.finish txn .settle)) :
    Inv { s with active := s.active.erase txn } chain := by
  have hok := hs.writers txn w hw
  refine hs.leave (fun k hk hstamp => ?_) fun u v e entry head slot hv hphase hx _ => ?_
  · obtain ⟨howner, -⟩ := (hs.slots k hk).inFlight txn hstamp
    obtain ⟨hslot, hfreed⟩ := (hs.slots k hk).own w (howner ▸ hw)
    obtain ⟨ts, hts⟩ := (hok.slot k hslot hfreed).2.2.2 hp
    rw [hts] at hstamp
    cases hstamp
  · have hread := hC u (Dict.mem_keys_iff_lookup.2 ⟨v, hv⟩) v hv
    simp [hasRead, hphase, hx] at hread

lemma Inv.endRollback (hs : Inv s chain) (hw : s.active.lookup txn = some w)
    (hp : w.phase = .slotFreed) : Inv { s with active := s.active.erase txn } chain := by
  -- no slot in use is of the transaction
  have hnone : ∀ k, s.slotLive k = true → txn ≠ s.owner k := by
    intro k hk howner
    exact ((hs.slots k hk).own w (howner ▸ hw)).2 hp
  refine hs.leave (fun k hk hstamp => ?_) fun u v e entry head slot hv hphase hx hmem => ?_
  · exact hnone k hk ((hs.slots k hk).inFlight txn hstamp).1
  · have hread : head ∈ chain e → s.Saw slot (s.commitInfo head) := by
      simpa only [PhaseOk, hphase] using (hs.writers u v hv).phase
    exact hnone _ (hs.live e head hmem).2 ((hread hmem).inFlight txn hx).1

/-! ## Taking the deltas off the chains -/

/-- The walk past the deltas of a slot splits the chain. -/
lemma walkOwn_spec {fuel head head' : Nat} {l detached detached' : List Nat}
    (hspells : Spells s.next nullDelta head l)
    (h : s.walkOwn k fuel head detached = some (head', detached')) :
    ∃ pre post, l = pre ++ post ∧ (∀ j ∈ pre, s.commitInfo j = k) ∧
      Spells s.next nullDelta head' post ∧ ∀ j ∈ post.head?, s.commitInfo j ≠ k := by
  induction fuel generalizing head l detached
  all_goals
    unfold walkOwn at h
    split at h
    next hnull =>
      cases h
      cases l with
      | nil => exact ⟨[], [], rfl, by simp, hspells, by simp⟩
      | cons x l => exact absurd (hspells.1.symm.trans hnull) hspells.2.1
  case zero => cases h
  case succ fuel ih hnull =>
    cases l with
    | nil => exact absurd hspells hnull
    | cons x l =>
      obtain ⟨rfl, -, hrest⟩ := hspells
      cases hd : s.delta head with
      | none => simp [hd] at h
      | some d =>
        simp only [hd] at h
        rw [next_eq hd] at hrest
        split at h
        next hinfo =>
          obtain ⟨pre, post, rfl, hpre, hpost, hfirst⟩ := ih hrest h
          refine ⟨head :: pre, post, rfl, fun j hj => ?_, hpost, hfirst⟩
          rcases mem_cons.1 hj with rfl | hj
          · exact (commitInfo_eq hd).trans hinfo
          · exact hpre j hj
        next hinfo =>
          cases h
          refine ⟨[], head' :: l, rfl, by simp, ⟨rfl, hnull, by rw [next_eq hd]; exact hrest⟩, ?_⟩
          simpa [commitInfo_eq hd] using hinfo

/-- On a chain, no delta of an open slot is below one of another slot. -/
lemma not_below_of_open {x : Nat} {l : List Nat} (habove : (x :: l).Pairwise s.Above)
    (hstamp : s.stamp k = .inFlight txn) (hx : s.commitInfo x ≠ k) :
    ∀ j ∈ x :: l, s.commitInfo j ≠ k := by
  intro j hj hinfo
  rcases mem_cons.1 hj with rfl | hj
  · exact hx hinfo
  rcases rel_of_pairwise_cons habove hj with ⟨hsame, -⟩ | ⟨-, ts, -, hts, -⟩
  · exact hx (hsame.trans hinfo)
  · rw [hinfo, hstamp] at hts
    cases hts

variable {e : Entity}

lemma Inv.walk (hs : Inv s chain) (hw : s.active.lookup txn = some w) {todo : List Entity}
    {detached detached' : List Nat} {head : Nat} (hp : w.phase = .detaching (e :: todo) detached)
    (hslot : w.commitSlot = some k)
    (h : s.walkOwn k (s.deltaHw + 1) (s.undoPtr e) detached = some (head, detached')) :
    Inv (s.setWriter txn { w with phase := .walked e (s.undoPtr e) head todo detached' })
    chain := by
  have hok := hs.writers txn w hw
  have hstamp := (hok.slot k hslot (by rw [hp]; simp)).2.2.1 (by rw [hp]; simp)
  obtain ⟨pre, post, heq, hpre, hspells, hfirst⟩ := walkOwn_spec (hs.spells e) h
  have hpost : ∀ j ∈ post, s.commitInfo j ≠ k := by
    cases post with
    | nil => simp
    | cons x post =>
      have habove := hs.above e
      rw [heq] at habove
      exact not_below_of_open (pairwise_append.1 habove).2.1 hstamp (hfirst x rfl)
  refine hs.enter hw rfl rfl le_rfl rfl rfl (by simp [hp]) (by simp)
    (fun e' _ he => by simpa [WriterTxn.Reaches, hp] using he) (by simp [kept, hp])
    ⟨k, hslot, ?_⟩
  by_cases hnil : pre = []
  · subst hnil
    have hchain : chain e = post := heq
    refine .inl ⟨?_, fun j hj => hpost j (hchain ▸ hj)⟩
    exact hspells.head_eq (hchain ▸ hs.spells e)
  · exact .inr ⟨pre, post, heq, hnil, hpre, hpost, hspells, rfl⟩

/-- Two entries of a chain stand in its order one way or the other. -/
lemma Ground.above_or_above (hs : Ground s chain) {i j : Nat} (hi : i ∈ chain e)
    (hj : j ∈ chain e) : i = j ∨ s.Above i j ∨ s.Above j i := by
  have habove := hs.above e
  generalize chain e = l at hi hj habove
  induction l with
  | nil => cases hi
  | cons x l ih =>
    obtain ⟨htop, hrest⟩ := pairwise_cons.1 habove
    rcases mem_cons.1 hi with hix | hil <;> rcases mem_cons.1 hj with hjx | hjl
    · exact .inl (hix.trans hjx.symm)
    · exact .inr (.inl (hix ▸ htop j hjl))
    · exact .inr (.inr (hjx ▸ htop i hil))
    · exact ih hil hjl hrest

/-- On a chain, the deltas of open slots are of one slot. -/
lemma Ground.open_unique (hs : Ground s chain) {i j a b : Nat} (hi : i ∈ chain e) (hj : j ∈ chain e)
    (hia : s.stamp (s.commitInfo i) = .inFlight a) (hjb : s.stamp (s.commitInfo j) = .inFlight b) :
    s.commitInfo i = s.commitInfo j := by
  rcases hs.above_or_above hi hj with
    rfl | (⟨hsame, -⟩ | ⟨-, ts, -, hts, -⟩) | (⟨hsame, -⟩ | ⟨-, ts, -, hts, -⟩)
  · rfl
  · exact hsame
  · rw [hjb] at hts
    cases hts
  · exact hsame.symm
  · rw [hia] at hts
    cases hts

/-- A transaction begins. -/
lemma Inv.start (hs : Inv s chain) {beginTs : Nat} (hnew : s.begun txn = none)
    (hle : beginTs ≤ s.clock) : Inv { s.setWriter txn { beginTs := beginTs } with
      begun := Function.update s.begun txn (some beginTs) } chain := by
  have hbegun : ∀ x b, s.begun x = some b →
    Function.update s.begun txn (some beginTs) x = some b := by
    intro x b hb
    rw [update_of_ne]
    · exact hb
    · rintro rfl
      rw [hnew] at hb
      cases hb
  refine hs.frame (fun e j hj => (hs.live e j hj).2) (fun k hk => ?_) ⟨hs.free_nodup, hs.free_off⟩
    ⟨hs.freeSlots_nodup, hs.freeSlots_dead⟩ rfl
    ⟨rfl, hbegun, le_rfl, le_rfl, fun _ _ _ => rfl, fun _ _ _ => SlotKeeps.of_eq rfl⟩
    (fun u v _ hv => ⟨fun _ _ _ => rfl, fun j hj => ⟨rfl, ((hs.writers u v hv).kept j hj).2.1⟩⟩) ?_
      (.of_none rfl rfl)
  · refine (hs.slots k hk).keeps rfl rfl hbegun le_rfl fun htxn => ?_
    obtain ⟨b, hb, -⟩ := (hs.slots k hk).begun
    rw [htxn, hnew] at hb
    cases hb
  · refine ⟨update_self .., hle, ?_, ?_, ?_, ?_, ?_, ?_, ?_, ?_, trivial⟩ <;>
      simp [kept]

lemma Inv.init : Inv ({} : UndoArea Entity) fun _ => [] := by
  refine ⟨⟨fun _ => rfl, ?_, ?_, ?_, ?_, ?_, ?_, ?_, ?_⟩, ?_, ?_⟩ <;> simp [slotLive]

section Steps

variable [DecidableEq Entity]

section

variable (hs : Inv s chain) (hw : s.active.lookup txn = some w)

include hs hw

/-- **A rollback takes its deltas off the head of a chain.** -/
lemma Inv.detach {e : Entity} {observed head : Nat} {todo : List Entity}
    {detached pre post : List Nat}
    (hp : w.phase = .walked e observed head todo detached) (hslot : w.commitSlot = some k)
    (heq : chain e = pre ++ post) (hne : pre ≠ []) (hpre : ∀ j ∈ pre, s.commitInfo j = k)
    (hpost : ∀ j ∈ post, s.commitInfo j ≠ k) (hspells : Spells s.next nullDelta head post) :
    Inv { s.setWriter txn { w with phase := .detaching todo detached } with
      undoPtr := Function.update s.undoPtr e head } (Function.update chain e post) := by
  have hok := hs.writers txn w hw
  have hfreed : w.phase ≠ .slotFreed := by rw [hp]; simp
  have hstamp := (hok.slot k hslot hfreed).2.2.1 (by rw [hp]; simp)
  have hsub : ∀ e', (Function.update chain e post e').Sublist (chain e') := by
    intro e'
    by_cases he : e' = e
    · subst he
      rw [update_self, heq]
      exact sublist_append_right _ _
    · rw [update_of_ne he]
  have hmem : ∀ e', ∀ j ∈ Function.update chain e post e', j ∈ chain e' :=
    fun e' j hj => (hsub e').subset hj
  refine hs.rechain hw rfl rfl rfl rfl (by simp [hp]) (by simp) (by simp [kept, hp]) trivial
    (fun e' => ?spells) (fun e' => (hs.above e').sublist (hsub e')) (fun e' j hj => ?links)
    fun u v hne' hv => ⟨fun e' j hj => .inl (hmem e' j hj),
      fun j hj e' hj' => ((hs.writers u v hv).entry j hj).2.2 e' (hmem e' j hj'),
        fun e' o h t d k' hwalk hk' hex => ?_⟩
  case spells =>
    by_cases he : e' = e
    · subst he
      simp only [update_self]
      exact hspells
    · simp only [update_of_ne he]
      exact hs.spells e'
  case links =>
    have hj' := hmem e' j hj
    refine ⟨hs.live e' j hj', hs.bounded e' j hj', fun hfree =>
      (hs.free_off j hfree).2.2 e' hj', fun hk => ?_⟩
    have hreach := hok.reach _ hk hfreed e' j hj' rfl
    simp only [WriterTxn.Reaches, hp] at hreach
    refine ⟨hok.command _ hk hfreed e' j hj' rfl, hreach.resolve_left ?_⟩
    rintro rfl
    rw [update_self] at hj
    exact hpost j hj (mem_unique hk hslot)
  -- another rollback has no delta on this chain
  have hvp : v.phase ≠ .slotFreed := by rw [hwalk]; simp
  have hvstamp := ((hs.writers u v hv).slot k' hk' hvp).2.2.1 (by rw [hwalk]; simp)
  have he : e' ≠ e := by
    rintro rfl
    obtain ⟨j, hj, hinfo⟩ := hex
    obtain ⟨i, hi⟩ := exists_mem_of_ne_nil pre hne
    have hsame :=
      hs.open_unique (by rw [heq]; exact mem_append_left _ hi) hj (by rw [hpre i hi]; exact hstamp)
      (by rw [hinfo]; exact hvstamp)
    rw [hpre i hi, hinfo] at hsame
    exact hne' (hs.slot_inj hw hv hslot hfreed (hsame ▸ hk') hvp)
  exact ⟨update_of_ne he .., update_of_ne he ..⟩

/-- The detach step of a rollback. -/
lemma Inv.detachStep {e : Entity} {observed head : Nat} {todo : List Entity} {detached : List Nat}
    (hp : w.phase = .walked e observed head todo detached) (h : s.endStep txn w .detach = some s') :
    ∃ chain', Inv s' chain' := by
  have hok := hs.writers txn w hw
  have hphase := hok.phase
  simp only [PhaseOk, hp] at hphase
  obtain ⟨k, hslot, hsplit⟩ := hphase
  simp only [endStep, hp] at h
  split at h
  next hsame =>
    -- the walk has passed no delta
    cases h
    have hnone : ∀ j ∈ chain e, s.commitInfo j ≠ k := by
      rcases hsplit with ⟨-, hnone⟩ | ⟨pre, post, heq, hne, -, -, hspells, hobserved⟩
      · exact hnone
      have hall := hs.spells e
      rw [← hobserved, ← hsame] at hall
      have hpost : chain e = post := hall.unique hspells
      exact absurd (by simpa using heq.symm.trans hpost) hne
    refine ⟨chain, hs.enter hw rfl rfl le_rfl rfl rfl (by simp [hp]) (by simp)
      (fun e' hown he => ?_) (by simp [kept, hp]) trivial⟩
    simp only [WriterTxn.Reaches, hp] at he
    refine he.resolve_left ?_
    rintro rfl
    obtain ⟨j, hj, hinfo⟩ := hown
    exact hnone j hj (mem_unique hslot hinfo).symm
  next hmoved =>
    rcases hsplit with ⟨hhead, -⟩ | ⟨pre, post, heq, hne, hpre, hpost, hspells, hobserved⟩
    · exact absurd hhead hmoved
    · rw [if_pos hobserved.symm] at h
      cases h
      exact ⟨_, hs.detach hw hp hslot heq hne hpre hpost hspells⟩

/-- **A step that opens the slot, ends a statement or ends a transaction.** -/
lemma Inv.endStep {op : EndOp} (hC : s.Undisturbed (.finish txn op))
    (h : s.endStep txn w op = some s') : ∃ chain', Inv s' chain' := by
  have hok := hs.writers txn w hw
  have hnodup := hok.nodup
  cases op <;> simp only [UndoArea.endStep] at h
  case openSlot id =>
    obtain ⟨⟨hp, hnone, halloc⟩, rfl⟩ := guarded h
    exact ⟨chain, hs.openSlot hw hp hnone halloc⟩
  case nextCommand =>
    obtain ⟨hp, rfl⟩ := guarded h
    exact ⟨chain, hs.enter hw rfl rfl (le_nextCommandId _) (by simp [hp]) (by simp [hp])
      (by simp [hp]) (by simp [hp]) (fun _ _ he => he) (.refl _) (by simp [PhaseOk, hp])⟩
  case issueTs =>
    obtain ⟨hp, rfl⟩ := guarded h
    have hnext : WriterOk s chain txn { w with phase := .committing (s.clock + 1) } :=
      hok.change rfl rfl le_rfl (by simp [hp]) (by simp)
        (fun e _ he => by simpa [WriterTxn.Reaches, hp] using he) (by simp [kept, hp])
        (by simpa [kept, hp] using hnodup) (by simp)
        (by simp) (Nat.lt_succ_of_le hok.begin_le)
    exact ⟨chain, hs.setWriter hw hnext rfl (by simp) (by simp) (by simp) (Nat.le_succ _)⟩
  case publishCommitSlot =>
    split at h <;> cases h
    rename_i ts hp
    cases hslot : w.commitSlot with
    | some k =>
      have hinv := hs.publishSlot hw hp hslot
      simp only [hslot] at hinv
      exact ⟨chain, hinv⟩
    | none =>
      have hinv := hs.publishNone hw hp hslot
      simp only [hslot] at hinv
      exact ⟨chain, hinv⟩
  case settle =>
    obtain ⟨hp, rfl⟩ := guarded h
    exact ⟨chain, hs.settle hw hp hC⟩
  case beginRollback =>
    obtain ⟨⟨hp, -⟩, rfl⟩ := guarded h
    exact ⟨chain, hs.enter hw rfl rfl le_rfl rfl rfl (by simp [hp]) (by simp)
      (fun e _ he => by simpa [WriterTxn.Reaches, hp] using he) (by simp [kept, hp]) trivial⟩
  case walk =>
    split at h
    next e todo detached k hp hslot =>
      split at h <;> cases h
      next head detached' hwalk => exact ⟨chain, hs.walk hw hp hslot hwalk⟩
      next => exact ⟨chain, hs.fail hw (by simp [hp])⟩
    next detached k hp hslot =>
      cases h
      refine ⟨chain, hs.enter hw rfl rfl le_rfl rfl rfl (by simp [hp]) (by simp)
        (fun e _ he => by simp [WriterTxn.Reaches, hp] at he) ?_ trivial⟩
      simp only [kept, hp, map_reverse]
      exact reverse_perm _
    next => cases h
  case detach =>
    cases hp : w.phase with
    | walked e observed head todo detached => exact hs.detachStep hw hp h
    | _ => simp [hp] at h
  case freeDelta =>
    split at h
    next link todo detached hp =>
      split at h <;> cases h
      next => exact ⟨chain, hs.freeDelta hw hp⟩
      next => exact ⟨chain, hs.fail hw (by simp [hp])⟩
    next => cases h
  case freeSlot =>
    split at h <;> cases h
    next detached k hp hslot => exact ⟨chain, hs.freeSlot hw hp hslot⟩
  case endRollback =>
    obtain ⟨hp, rfl⟩ := guarded h
    exact ⟨chain, hs.endRollback hw hp⟩

end

/-! ## Runs -/

/-- **One step keeps the invariant.** -/
lemma Inv.step {op : Op Entity} (hs : ∃ chain, Inv s chain) (hC : s.Undisturbed op)
    (h : s.step op = some s') : ∃ chain, Inv s' chain := by
  obtain ⟨chain, hs⟩ := hs
  cases op with
  | start txn beginTs =>
    obtain ⟨⟨hnew, hle⟩, rfl⟩ := guarded h
    exact ⟨chain, hs.start hnew hle⟩
  | link txn op =>
    obtain ⟨w, hw, h⟩ := Option.bind_eq_some_iff.1 h
    exact hs.linkStep hw hC h
  | finish txn op =>
    obtain ⟨w, hw, h⟩ := Option.bind_eq_some_iff.1 h
    exact hs.endStep hw hC h

lemma Inv.of_run {ops : List (Op Entity)} (hC : Run.Along UndoArea.step Undisturbed {} ops)
    (hrun : exec UndoArea.step {} ops = some s) : ∃ chain, Inv s chain :=
  Run.exec_preserves (I := fun s => ∃ chain, Inv s chain)
    (fun hs hC h => Inv.step hs hC h) ⟨_, .init⟩ hC hrun

end Steps

/-! ## Ordered chains -/

/-- The transaction of a delta. -/
def writerOf (s : UndoArea Entity) (id : Nat) : Nat := s.owner (s.commitInfo id)

def commitTsOf (s : UndoArea Entity) (id : Nat) : VersionStamp := s.stamp (s.commitInfo id)

/-- What holds of the deltas of one chain, from the head down. -/
structure Ordered (s : UndoArea Entity) (ids : List Nat) : Prop where
  live : ∀ id ∈ ids, s.live id = true
  /-- The deltas of one transaction are contiguous. -/
  contiguous : ∀ upper i mid j lower, ids = upper ++ i :: (mid ++ j :: lower) →
    s.writerOf i = s.writerOf j → ∀ m ∈ mid, s.writerOf m = s.writerOf i
  /-- At most one open transaction has deltas here, on top of the committed ones. -/
  head_prefix : ∃ top rest, ids = top ++ rest ∧
    (∀ i ∈ top, ∀ j ∈ top, s.writerOf i = s.writerOf j) ∧
    (∀ i ∈ top, s.commitTsOf i = .inFlight (s.writerOf i)) ∧ ∀ i ∈ rest, ∃ ts,
    s.commitTsOf i = .committed ts
  commands : ids.Pairwise fun i j => s.writerOf i = s.writerOf j → s.commandId j ≤ s.commandId i
  timestamps : ids.Pairwise fun i j => ∀ ti tj, s.commitTsOf i = .committed ti →
    s.commitTsOf j = .committed tj → tj ≤ ti
  /-- Below the deltas of a transaction, those of others have committed no later than it has
  begun. -/
  updater : ids.Pairwise fun i j => s.writerOf i ≠ s.writerOf j →
    ∃ ts b, s.commitTsOf j = .committed ts ∧ s.begun (s.writerOf i) = some b ∧ ts ≤ b

/-- On a chain, a transaction has one slot. -/
lemma Above.slot_eq {i j : Nat} (h : s.Above i j) (hj : SlotOk s (s.commitInfo j))
    (hsame : s.writerOf i = s.writerOf j) : s.commitInfo i = s.commitInfo j := by
  rcases h with ⟨heq, -⟩ | ⟨-, ts, b, hts, hb, hle⟩
  · exact heq
  obtain ⟨b', hb', hlt⟩ := hj.begun
  have hb : s.begun (s.writerOf j) = some b := hsame ▸ hb
  obtain rfl : b = b' := mem_unique hb hb'
  exact absurd (hlt ts hts) (by omega)

/-- The committed deltas are below. -/
lemma Above.committed {i j ts : Nat} (h : s.Above i j) (hi : s.commitTsOf i = .committed ts) :
    ∃ ts', s.commitTsOf j = .committed ts' := by
  rcases h with ⟨heq, -⟩ | ⟨-, ts', -, hts', -⟩
  · exact ⟨ts, by rw [commitTsOf, ← heq]; exact hi⟩
  · exact ⟨ts', hts'⟩

lemma Inv.head_prefix (hs : Inv s chain) (e : Entity) :
    ∃ top rest, chain e = top ++ rest ∧ (∀ i ∈ top, s.commitTsOf i = .inFlight (s.writerOf i)) ∧
      ∀ i ∈ rest, ∃ ts, s.commitTsOf i = .committed ts := by
  have habove := hs.above e
  have hslot : ∀ i ∈ chain e, SlotOk s (s.commitInfo i) := fun i hi => hs.slots _ (hs.live e i hi).2
  generalize chain e = l at habove hslot
  induction l with
  | nil => exact ⟨[], [], rfl, by simp, by simp⟩
  | cons x l ih =>
    obtain ⟨htop, hrest⟩ := pairwise_cons.1 habove
    have hx := hslot x mem_cons_self
    cases hts : s.commitTsOf x with
    | none => exact absurd hts hx.stamped
    | committed ts =>
      refine ⟨[], x :: l, rfl, by simp, fun i hi => ?_⟩
      rcases mem_cons.1 hi with rfl | hi
      · exact ⟨ts, hts⟩
      · exact (htop i hi).committed hts
    | inFlight t =>
      obtain ⟨top, rest, rfl, hopen, hdone⟩ := ih hrest fun i hi => hslot i (mem_cons_of_mem _ hi)
      refine ⟨x :: top, rest, rfl, fun i hi => ?_, hdone⟩
      rcases mem_cons.1 hi with rfl | hi
      · rw [hts, (hx.inFlight t hts).1]
        rfl
      · exact hopen i hi

/-- The chains of the invariant are ordered. -/
lemma Inv.ordered (hs : Inv s chain) (e : Entity) : s.Ordered (chain e) := by
  have hslot : ∀ i ∈ chain e, SlotOk s (s.commitInfo i) := fun i hi => hs.slots _ (hs.live e i hi).2
  have habove := hs.above e
  constructor
  case live => exact fun i hi => (hs.live e i hi).1
  case contiguous =>
    intro upper i mid j lower heq hsame m hm
    rw [heq, pairwise_append] at habove
    obtain ⟨hi, hrest⟩ := pairwise_cons.1 habove.2.1
    have hij := hi j (by simp)
    have him := hi m (by simp [hm])
    have hmj : s.Above m j := (pairwise_append.1 hrest).2.2 m hm j mem_cons_self
    have hjslot := hslot j (by simp [heq])
    have hmslot := hslot m (by simp [heq, hm])
    -- a delta of another transaction between them would have committed before the one of both has
    -- begun
    have hinfo := hij.slot_eq hjslot hsame
    by_cases hmi : s.commitInfo i = s.commitInfo m
    · rw [writerOf, writerOf, hmi]
    rcases him with ⟨h, -⟩ | ⟨-, ts, b, hts, hb, hle⟩
    · exact absurd h hmi
    rcases hmj with ⟨h, -⟩ | ⟨-, ts', b', hts', hb', hle'⟩
    · exact absurd (hinfo.trans h.symm) hmi
    obtain ⟨bm, hbm, hltm⟩ := hmslot.begun
    obtain ⟨bj, hbj, hltj⟩ := hjslot.begun
    obtain rfl : bm = b' := mem_unique hbm hb'
    rw [hinfo] at hb
    obtain rfl : bj = b := mem_unique hbj hb
    have h1 := hltm ts hts
    have h2 := hltj ts' hts'
    omega
  case head_prefix =>
    obtain ⟨top, rest, heq, hopen, hdone⟩ := hs.head_prefix e
    refine ⟨top, rest, heq, fun i hi j hj => ?_, hopen, hdone⟩
    have hmem : ∀ x ∈ top, x ∈ chain e := fun x hx => by simp [heq, hx]
    rw [writerOf, writerOf, hs.open_unique (hmem i hi) (hmem j hj) (hopen i hi) (hopen j hj)]
  case commands =>
    refine habove.imp_of_mem fun {i j} hi hj h hsame => ?_
    rcases h with ⟨-, hle⟩ | h
    · exact hle
    · exact absurd (Above.slot_eq (.inr h) (hslot j hj) hsame) h.1
  case timestamps =>
    refine habove.imp_of_mem fun {i j} hi hj h ti tj hti htj => ?_
    rcases h with ⟨heq, -⟩ | ⟨-, ts, b, hts, hb, hle⟩
    · rw [commitTsOf, heq] at hti
      cases hti.symm.trans htj
      exact le_rfl
    cases hts.symm.trans htj
    obtain ⟨bi, hbi, hlt⟩ := (hslot i hi).begun
    obtain rfl : bi = b := mem_unique hbi hb
    exact le_of_lt (lt_of_le_of_lt hle (hlt ti hti))
  case updater =>
    refine habove.imp fun {i j} h hne => ?_
    rcases h with ⟨heq, -⟩ | ⟨-, h⟩
    · exact absurd (by rw [writerOf, writerOf, heq]) hne
    · exact h

variable [DecidableEq Entity]

/-- **First updater wins.** -/
theorem chains_ordered (ops : List (Op Entity)) (s : UndoArea Entity)
    (hC : Run.Along step Undisturbed {} ops) (hrun : exec step {} ops = some s) (e : Entity) :
    ∃ ids, Spells s.next nullDelta (s.undoPtr e) ids ∧ s.Ordered ids := by
  obtain ⟨chain, hs⟩ := Inv.of_run hC hrun
  exact ⟨chain e, hs.spells e, hs.ordered e⟩

/-! ## Runs that the conditions exclude -/

/-- The steps of `link_delta` when the head is null. -/
def linkFirst (txn e id : Nat) : List (Op Nat) :=
  [.link txn (.readHead e), .link txn .readDelta, .link txn (.writeDelta id),
    .link txn .compareAndPublish, .link txn .register]

def checkHead (txn e : Nat) : List (Op Nat) :=
  [.link txn (.readHead e), .link txn .readDelta, .link txn .readSlot, .link txn .checkActive]

def publishAbove (txn id : Nat) : List (Op Nat) :=
  [.link txn (.writeDelta id), .link txn .compareAndPublish, .link txn .register]

def commitOf (txn : Nat) : List (Op Nat) :=
  [.finish txn .issueTs, .finish txn .publishCommitSlot, .finish txn .settle]

def rollbackOf (txn : Nat) : List (Op Nat) :=
  [.finish txn .beginRollback, .finish txn .walk, .finish txn .detach, .finish txn .walk,
    .finish txn .freeDelta, .finish txn .freeSlot, .finish txn .endRollback]

/-- The second transaction commits above the first, which is refused while it is open. A third rolls
back. -/
def orderlyRun : List (Op Nat) :=
  [.start 1 0, .start 2 0, .finish 1 (.openSlot 1), .finish 2 (.openSlot 2)] ++ linkFirst 1 7 1 ++
    checkHead 2 7 ++
    commitOf 1 ++ [.start 3 1, .finish 3 (.openSlot 3)] ++ checkHead 3 7 ++ publishAbove 3 2 ++
      rollbackOf 3 ++
    [.start 4 1, .finish 4 (.openSlot 3)] ++ checkHead 4 7 ++ publishAbove 4 2

theorem chains_ordered_after_rollback : ∃ s, exec step {} orderlyRun = some s ∧
    s.writerOf (s.undoPtr 7) = 4 ∧ ∃ ids, Spells s.next nullDelta (s.undoPtr 7) ids ∧
    s.Ordered ids := by
  have hrun : (exec step {} orderlyRun).map (fun s => s.writerOf (s.undoPtr 7)) = some 4 := by
    decide +kernel
  obtain ⟨s, hs, hwriter⟩ := Option.map_eq_some_iff.1 hrun
  exact ⟨s, hs, hwriter, chains_ordered orderlyRun s (by decide +kernel) hs 7⟩

/-- The second transaction has read the slot of the first as in flight. The first commits and leaves
the table before the second looks at it. -/
def staleGuard : List (Op Nat) :=
  [.start 1 0, .start 2 0, .finish 1 (.openSlot 1), .finish 2 (.openSlot 2)] ++ linkFirst 1 7 1 ++
    [.link 2 (.readHead 7), .link 2 .readDelta, .link 2 .readSlot] ++ commitOf 1 ++
    [.link 2 .checkActive] ++
    publishAbove 2 2 ++ commitOf 2

/-- The second transaction has begun before the first commits, and commits above it. -/
theorem stale_guard_passes : ∃ s, exec step {} staleGuard = some s ∧
    Spells s.next nullDelta (s.undoPtr 7) [2, 1] ∧ s.writerOf 2 = 2 ∧ s.writerOf 1 = 1 ∧
    s.begun 2 = some 0 ∧
    s.commitTsOf 1 = .committed 1 ∧ s.commitTsOf 2 = .committed 2 ∧ ¬ s.Ordered [2, 1] := by
  have hrun : (exec step {} staleGuard).map (fun s => ([s.undoPtr 7, s.next 2, s.next 1],
      [s.writerOf 2, s.writerOf 1], s.begun 2, [s.commitTsOf 1, s.commitTsOf 2])) =
      some ([2, 1, 0], [2, 1], some 0, [.committed 1, .committed 2]) := by decide +kernel
  obtain ⟨s, hs, heq⟩ := Option.map_eq_some_iff.1 hrun
  simp only [Prod.mk.injEq, cons.injEq, and_true] at heq
  obtain ⟨⟨hptr, hnext, hnext'⟩, ⟨hw, hw'⟩, hbegun, hts, hts'⟩ := heq
  refine ⟨s, hs, ⟨hptr, by decide, hnext, by decide, hnext'⟩, hw, hw', hbegun, hts, hts',
    fun hordered => ?_⟩
  obtain ⟨ts, b, hts1, hb, hle⟩ :=
    rel_of_pairwise_cons hordered.updater mem_cons_self (by rw [hw, hw']; decide)
  rw [hts, VersionStamp.committed.injEq] at hts1
  rw [hw, hbegun, Option.some.injEq] at hb
  omega

end Graphus.UndoArea
