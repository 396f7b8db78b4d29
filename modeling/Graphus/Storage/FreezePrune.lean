import Graphus.Storage.FreezeFrontier

/-!
# The prune forgets frozen writers only

A pass captures the writers that the registry has as committed and forgets them when it commits.
That is sound when every stamp of a captured writer was frozen by the sweeps before.

**Theorem (`captured_writers_frozen`).** Along every run in which no writer commits between the
first sweep of a pass and its capture, and which meets the conditions of the frontier, a captured
writer has no in-flight stamp in any record or version chain, and every stamp that is left resolves.

The invariant `PruneInv.swept` follows the sweeps: a stamp of a committed writer stands in a store
that is still to be swept, or in the part of the running sweep whose freeze is still to come.

**The counterexample (`commit_before_capture_is_pruned`).** A writer that is open when its record is
swept commits before the capture. It is captured and forgotten, and its stamp resolves to nothing.
-/

namespace Graphus

open RecordStore List CommitRegistry Sweep Option
open Run (exec guarded)

/-! ## The conditions -/

namespace GcPhase

/-- The first sweep has begun, and the writers are not captured yet. -/
def SweepStarted : GcPhase → Prop
  | .sweeping todo sweep _ => ¬ (todo = sweepOrder ∧ sweep = none)
  | .captured _ | .forgetting _ | .rollingBack _ => False

instance (phase : GcPhase) : Decidable phase.SweepStarted := by
  unfold GcPhase.SweepStarted
  split <;> infer_instance

/-- The captured writers that are not forgotten yet. -/
def writers : GcPhase → List Nat
  | .captured writers | .forgetting writers => writers
  | .sweeping .. | .rollingBack _ => []

end GcPhase

namespace RecordStore

/-- A writer is recorded as committed. -/
def isCommit : StoreOp → Bool
  | .commit .. => true
  | _ => false

/-- The conditions of the frontier, apart from what the prune relies on, and no commit between the
first sweep of a pass and its capture. -/
def PruneAllowed (s : RecordStore) (op : StoreOp) : Prop :=
  (op ≠ .forget → s.Allowed op) ∧ (isCommit op → ∀ p ∈ s.pass, ¬ p.phase.SweepStarted)

instance (s : RecordStore) (op : StoreOp) : Decidable (s.PruneAllowed op) := by
  unfold PruneAllowed
  infer_instance

/-- No record and no version chain carries an in-flight stamp of the writer. -/
def Frozen (s : RecordStore) (w : Nat) : Prop :=
  (∀ kind id word, ¬ s.Stamped kind id word w) ∧ ∀ kind id, w ∈ s.chains kind id →
    s.slots w ≠ .inFlight w

end RecordStore

/-! ## Following the sweeps -/

namespace Sweep

/-- The freeze of the word at the record that is handled is still to come. -/
def ToFreeze : SweepStage → HeaderWord → Prop
  | .scanning, _ | .created, _ | .expired, .expired => True
  | _, _ => False

/-- The stamp was read, and its freeze is still to come. -/
def Unhandled (sw : Sweep) (id : Nat) (word : HeaderWord) (w : Nat) : Prop :=
  (∃ item ∈ sw.inUse.head?, item.1 = id ∧ item.2.get word = .inFlight w ∧ ToFreeze sw.stage word) ∨
  ∃ item ∈ sw.inUse.tail, item.1 = id ∧ item.2.get word = .inFlight w

/-- The sweep will still freeze the stamp. -/
def Unfrozen (sw : Sweep) (id : Nat) (word : HeaderWord) (w : Nat) : Prop :=
  sw.start ≤ id ∧ (¬ sw.Scans ∨ (sw.next ≤ id ∧ id < sw.stop) ∨ sw.Unhandled id word w)

variable {sw : Sweep} {id w : Nat} {word : HeaderWord}

lemma unhandled_of_mem (item : Nat × MvccHeader) (hitem : item ∈ sw.inUse)
    (hget : item.2.get word = .inFlight w) (hstage : sw.stage = .scanning ∨ sw.stage = .created) :
    sw.Unhandled item.1 word w := by
  rcases mem_head_or_tail hitem with hhead | htail
  · refine .inl ⟨item, hhead, rfl, hget, ?_⟩
    rcases hstage with hst | hst <;> rw [hst] <;> trivial
  · exact .inr ⟨item, htail, rfl, hget⟩

lemma Unhandled.mem (h : sw.Unhandled id word w) :
    ∃ item ∈ sw.inUse, item.1 = id ∧ item.2.get word = .inFlight w := by
  rcases h with ⟨item, hhead, hid, hget, -⟩ | ⟨item, htail, hid, hget⟩
  · exact ⟨item, mem_of_mem_head? hhead, hid, hget⟩
  · exact ⟨item, mem_of_mem_tail htail, hid, hget⟩

end Sweep

section Access

variable {s s' : RecordStore} {p p' : GcPass} {sw : Sweep} {id w : Nat} {word : HeaderWord}

/-- Behind the scan only records that were read are left. -/
lemma Sweep.Unfrozen.unhandled (hu : sw.Unfrozen id word w) (hi : SweepInv s p sw)
    (hscan : sw.Scans) (hstage : sw.stage ≠ .scanning) : sw.Unhandled id word w := by
  obtain ⟨-, hno | ⟨hnext, hstop⟩ | hun⟩ := hu
  · exact absurd hscan hno
  · have := hi.ended hscan hstage
    omega
  · exact hun

/-- The freeze of one word of the first record: a committed stamp at that word is gone. -/
lemma Sweep.Unfrozen.freeze {h : MvccHeader} {rest : List (Nat × MvccHeader)} {wd : HeaderWord}
    {stage : SweepStage} (hu : sw.Unfrozen id word w) (hi : SweepInv s p sw)
    (hscan : sw.Scans ∧ sw.stage ≠ .scanning) {item : Nat} (hin : sw.inUse = (item, h) :: rest)
    (hfreeze : ∀ wd', wd' ≠ wd → Sweep.ToFreeze sw.stage wd' → Sweep.ToFreeze stage wd')
    (hs : (s.freezeWord p sw item h wd).1.Stamped sw.kind id word w)
    (hcomm : s.commitRegistry.IsCommitted w) : Sweep.Unfrozen { sw with stage } id word w := by
  refine ⟨hu.1, .inr (.inr ?_)⟩
  rcases hu.unhandled hi hscan.1 hscan.2 with ⟨first, hhead, hid, hget, hto⟩ | htail
  · refine .inl ⟨first, hhead, hid, hget, hfreeze word ?_ hto⟩
    rintro rfl
    rw [hin] at hhead
    cases hhead
    -- the word of a committed writer was frozen
    rcases freezeWord_cases s p sw item h word with ⟨writer, ts, -, -, heq⟩ | ⟨-, hopen⟩
    · rw [heq] at hs
      rcases stamped_patch hs with ⟨-, -, -, hc, -⟩ | ⟨-, hne⟩
      · cases hc
      · exact hne ⟨rfl, hid.symm, rfl⟩
    · exact hopen w hget hcomm
  · exact .inr htail

/-- The sweep behind the last freeze of its first record. -/
lemma Sweep.Unfrozen.tail (hu : sw.Unfrozen id word w) (hi : SweepInv s p sw)
    (hscan : sw.Scans ∧ sw.stage ≠ .scanning) (hstage : ¬ Sweep.ToFreeze sw.stage word) :
    sw.start ≤ id ∧ ∃ item ∈ sw.inUse.tail, item.1 = id ∧ item.2.get word = .inFlight w := by
  refine ⟨hu.1, (hu.unhandled hi hscan.1 hscan.2).resolve_left ?_⟩
  rintro ⟨-, -, -, -, hc⟩
  exact hstage hc

/-- **One access of the sweep** leaves the committed stamps in what it will still freeze; when it
ends there is none left in its store. -/
lemma SweepAccess.unfrozen {sw1 : Option Sweep} (hstep : SweepAccess s p sw s' p' sw1)
    (hi : SweepInv s p sw) (hrange : 1 ≤ id ∧ id < s.highWater sw.kind)
    (hu : sw.Unfrozen id word w) (hs : s'.Stamped sw.kind id word w)
    (hcomm : s.commitRegistry.IsCommitted w) :
    ∃ sw' ∈ sw1, sw'.kind = sw.kind ∧ sw'.Unfrozen id word w := by
  have hnext : ∀ {newLow}, sw.Scans ∧ sw.stage ≠ .scanning → ¬ Sweep.ToFreeze sw.stage word →
      (nextRecord sw newLow).Unfrozen id word w := by
    intro newLow hscan hstage
    obtain ⟨hstart, item, hitem, rfl, hget⟩ := hu.tail hi hscan hstage
    exact ⟨hstart, .inr (.inr (unhandled_of_mem item hitem hget (.inr rfl)))⟩
  cases hstep with
  | bound hstage => exact ⟨_, rfl, rfl, hu.1, .inl fun hc => hc.2 rfl⟩
  | scan hstage => exact ⟨_, rfl, rfl, hu.1, .inr (.inl ⟨Nat.max_le.2 ⟨hu.1, hrange.1⟩, hrange.2⟩)⟩
  | read hstage hlt =>
    have hscan := scans_of_scanning hstage
    refine ⟨_, rfl, rfl, hu.1, .inr ?_⟩
    obtain ⟨-, hno | ⟨hle, hstop⟩ | hun⟩ := hu
    · exact absurd hscan hno
    · rcases Nat.eq_or_lt_of_le hle with rfl | hlt
      · obtain ⟨h, hrec, hget⟩ := hs
        refine .inr (unhandled_of_mem (sw.next, h) ?_ hget (.inl hstage))
        refine mem_append_right _ ?_
        rw [mem_def.1 hrec]
        exact mem_singleton.2 rfl
      · exact .inl ⟨hlt, hstop⟩
    · obtain ⟨item, hitem, rfl, hget⟩ := hun.mem
      exact .inr (unhandled_of_mem item (mem_append_left _ hitem) hget (.inl hstage))
  | scanned hstage hle =>
    have hscan := scans_of_scanning hstage
    refine ⟨_, rfl, rfl, hu.1, .inr (.inr ?_)⟩
    obtain ⟨-, hno | ⟨hnext, hstop⟩ | hun⟩ := hu
    · exact absurd hscan hno
    · omega
    · obtain ⟨item, hitem, rfl, hget⟩ := hun.mem
      exact unhandled_of_mem item hitem hget (.inr rfl)
  | raise hstage hin =>
    -- everything that was read is handled
    have hscan := scans_of_stage hstage (by decide)
    obtain ⟨item, hitem, -⟩ := (hu.unhandled hi hscan.1 hscan.2).mem
    rw [hin] at hitem
    cases hitem
  | freezeCreated hstage hin =>
    refine ⟨_, rfl, rfl,
      hu.freeze hi (scans_of_stage hstage (by decide)) hin (fun wd hne _ => ?_) hs hcomm⟩
    cases wd with
    | created => exact absurd rfl hne
    | expired => trivial
  | freezeExpired hstage hin =>
    refine ⟨_, rfl, rfl,
      hu.freeze hi (scans_of_stage hstage (by decide)) hin (fun wd hne hto => ?_) hs hcomm⟩
    rw [hstage] at hto
    cases wd with
    | created => exact hto.elim
    | expired => exact absurd rfl hne
  | empty hscan hstage hin =>
    obtain ⟨item, hitem, -⟩ := (hu.unhandled hi hscan hstage).mem
    rw [hin] at hitem
    cases hitem
  | isOpen hstage htest hin =>
    have hscan := scans_of_stage hstage (by rcases htest with rfl | rfl <;> decide)
    refine ⟨_, rfl, rfl, hnext hscan ?_⟩
    rw [hstage]
    rcases htest with rfl | rfl <;> exact fun hc => hc
  | createdClosed hstage hin hclosed =>
    have hscan := scans_of_stage hstage (by decide)
    obtain ⟨hge, hitem⟩ := hu.tail hi hscan (by rw [hstage]; exact fun hc => hc)
    exact ⟨_, rfl, rfl, hge, .inr (.inr (.inr hitem))⟩
  | expiredClosed hstage hin hclosed =>
    have hscan := scans_of_stage hstage (by decide)
    exact ⟨_, rfl, rfl, hnext hscan (by rw [hstage]; exact fun hc => hc)⟩

end Access

/-! ## The invariant -/

/-- What holds of the registry and the sweeps along a run. -/
structure PruneInv (s : RecordStore) : Prop where
  registry : ∀ w, s.commitRegistry.IsCommitted w → w ∈ s.committed
  descended : ∀ a ∈ s.stamped, a.1 ∈ s.committed → a ∈ s.descended
  slots : ∀ w ∈ s.committed, s.slots w ≠ .inFlight w
  passSlot : ∀ p ∈ s.pass, s.slots p.txn ≠ .inFlight p.txn
  /-- the stamps of committed writers are in what is still to be swept -/
  swept : ∀ p ∈ s.pass, ∀ todo sweep stranded, p.phase = .sweeping todo sweep stranded →
    ∀ kind id word w, s.Stamped kind id word w → s.commitRegistry.IsCommitted w →
      kind ∈ todo ∨ ∃ sw ∈ sweep, sw.kind = kind ∧ sw.Unfrozen id word w
  writers : ∀ p ∈ s.pass, ∀ w ∈ p.phase.writers, w ∈ s.committed ∧
    ∀ kind id word, ¬ s.Stamped kind id word w

section PruneInv

variable {s s' : RecordStore} {p : GcPass} {txn ts : Nat}

lemma PruneInv.opened (h : Opened s) : PruneInv s where
  registry := h.committed
  descended a ha _ := h.history a ha
  slots := h.slots
  passSlot p hp := absurd hp (by simp [h.pass])
  swept p hp := absurd hp (by simp [h.pass])
  writers p hp := absurd hp (by simp [h.pass])

section

variable (hi : PruneInv s)

include hi

variable {op : StoreOp}

/-- The captured writers may be forgotten. -/
lemma PruneInv.allowed (hok : s.PruneAllowed op) : s.Allowed op := by
  by_cases hop : op = .forget
  · subst hop
    rintro p hp writer hw ⟨kind, -, id, -, h, hrec, word, -, hget⟩
    refine (hi.writers p hp writer ?_).2 kind id word ⟨h, hrec, hget⟩
    cases hphase : p.phase with
    | forgetting writers =>
      rw [hphase] at hw
      cases writers with
      | nil => cases hw
      | cons first rest =>
        cases hw
        exact mem_cons_self
    | sweeping | captured | rollingBack => rw [hphase] at hw; cases hw
  · exact hok.1 hop

/-- Only the stamps change, and a new one is not of a committed writer. -/
lemma PruneInv.restamp {records stamped}
    (hst : ∀ k i wd t, ({ s with records, stamped } : RecordStore).Stamped k i wd t →
      s.Stamped k i wd t ∨ t ∉ s.committed)
    (hdesc : ∀ a ∈ stamped, a.1 ∈ s.committed → a ∈ s.descended) :
    PruneInv { s with records, stamped } :=
  { hi with
    descended := hdesc
    swept := fun p hp todo sweep stranded hphase k i wd w hs hc =>
      hi.swept p hp todo sweep stranded hphase k i wd w
        ((hst k i wd w hs).resolve_right fun h => h (hi.registry w hc)) hc
    writers := fun p hp w hw => by
      obtain ⟨hc, hnone⟩ := hi.writers p hp w hw
      exact ⟨hc, fun k i wd hs => hnone k i wd ((hst k i wd w hs).resolve_right fun h => h hc)⟩ }

/-- Only the pass changes. -/
lemma PruneInv.setPass (hslot : s.slots p.txn ≠ .inFlight p.txn)
    (hswept : ∀ todo sweep stranded, p.phase = .sweeping todo sweep stranded → ∀ kind id word w,
    s.Stamped kind id word w → s.commitRegistry.IsCommitted w → kind ∈ todo ∨
    ∃ sw ∈ sweep, sw.kind = kind ∧ sw.Unfrozen id word w)
    (hwriters : ∀ w ∈ p.phase.writers, w ∈ s.committed ∧
      ∀ kind id word, ¬ s.Stamped kind id word w) :
    PruneInv { s with pass := some p } :=
  { hi with
    passSlot := forall_mem_some hslot
    swept := forall_mem_some hswept
    writers := forall_mem_some hwriters }

/-- The steps of the pass. -/
lemma PruneInv.passStep (hf : FreezeInv s) (hp : s.pass = some p) (hstep : PassStep s p op s') :
    PruneInv s' := by
  have hslot := hi.passSlot p hp
  cases hstep with
  | load hphase =>
    refine hi.setPass hslot ?_ nofun
    rintro _ _ _ heq kind id word w hs hc
    cases heq
    rcases hi.swept p hp _ _ _ hphase kind id word w hs hc with hmem | ⟨sw, hsw, -⟩
    · rcases mem_cons.1 hmem with rfl | hmem
      · -- the stamp was announced before its writer committed
        refine .inr ⟨_, rfl, rfl, ?_, .inl fun hc => hc.1 rfl⟩
        refine hf.covered kind id word w hs
          ⟨hi.descended _ (hf.history kind id word w hs) (hi.registry w hc), ?_⟩
        rw [restored_of_pass hp, hphase]
        exact not_mem_nil
      · exact .inl hmem
    · cases hsw
  | @access todo sw stranded s1 p1 sw1 hphase hacc =>
    have hsw : s.runningSweep = some sw := by
      rw [runningSweep_of_pass hp, hphase]
      rfl
    have hsweep := hf.sweep p hp sw hsw
    have heff := hacc.effect
    have hkept : ∀ kind id word w, s1.Stamped kind id word w → s.commitRegistry.IsCommitted w →
        kind ∈ todo ∨ ∃ sw' ∈ sw1, sw'.kind = kind ∧ sw'.Unfrozen id word w := by
      intro kind id word w hs hc
      have hold := heff.stamped kind id word w hs
      rcases hi.swept p hp _ _ _ hphase kind id word w hold hc with hmem | ⟨sw', hsw', rfl, hu⟩
      · exact .inl hmem
      cases hsw'
      exact .inr (hacc.unfrozen hsweep (hf.range sw.kind id hold.isSome) hu hs hc)
    obtain ⟨hbooks, -, -, htxn, -, -⟩ := heff
    generalize s1.records = records at hbooks
    generalize s1.freezeLow = freezeLow at hbooks
    subst hbooks
    refine ⟨hi.registry, hi.descended, hi.slots, forall_mem_some ?_, forall_mem_some ?_,
      forall_mem_some nofun⟩
    · rw [htxn]
      exact hslot
    · rintro _ _ _ heq
      cases heq
      exact hkept
  | audit hphase =>
    refine hi.setPass hslot ?_ nofun
    rintro _ _ _ heq
    cases heq
    exact hi.swept p hp _ _ _ hphase
  | @capture stranded hphase =>
    refine hi.setPass hslot nofun fun w hw => ?_
    cases stranded with
    | true => cases hw
    | false =>
      have hc := mem_committedWriters.1 hw
      refine ⟨hi.registry w hc, fun kind id word hs => ?_⟩
      -- every store is swept
      rcases hi.swept p hp _ _ _ hphase kind id word w hs hc with hmem | ⟨sw, hsw, -⟩
      · cases hmem
      · cases hsw
  | @commit writers ts hphase =>
    refine ⟨fun w hc => ?_, fun a ha hc => ?_, fun w hw => ?_, forall_mem_some hslot,
      forall_mem_some nofun, forall_mem_some fun w hw => ?_⟩
    · rcases isCommitted_recordCommit.1 hc with rfl | hold
      · exact mem_cons_self
      · exact mem_cons_of_mem _ (hi.registry w hold)
    · rcases mem_cons.1 hc with heq | hold
      · exact absurd heq (hf.passTxn p hp a ha)
      · exact hi.descended a ha hold
    · rcases mem_cons.1 hw with rfl | hold
      · exact hslot
      · exact hi.slots w hold
    · obtain ⟨hc, hnone⟩ := hi.writers p hp w (by rw [hphase]; exact hw)
      exact ⟨mem_cons_of_mem _ hc, hnone⟩
  | @forget writer writers hphase =>
    refine ⟨fun w hc => hi.registry w (isCommitted_forget.1 hc).2, hi.descended,
      hi.slots, forall_mem_some hslot, forall_mem_some nofun, forall_mem_some fun w hw => ?_⟩
    exact hi.writers p hp w (by rw [hphase]; exact mem_cons_of_mem _ hw)
  | done hphase => exact ⟨hi.registry, hi.descended, hi.slots, nofun, nofun, nofun⟩
  | abort hphase => exact hi.setPass hslot nofun nofun
  | undoFreeze hphase hundo =>
    exact ⟨hi.registry, hi.descended, hi.slots, forall_mem_some hslot, forall_mem_some nofun,
      forall_mem_some nofun⟩
  | restore hphase hundo => exact ⟨hi.registry, hi.descended, hi.slots, nofun, nofun, nofun⟩

/-- A step that sets the commit slot of a writer. -/
lemma PruneInv.setSlot (hw : s.isWriter txn = true) (slot : VersionStamp)
    (chains : StoreKind → Nat → List Nat) :
    PruneInv { s with chains, slots := fun t => if t = txn then slot else s.slots t } := by
  obtain ⟨-, hnot, hpass⟩ := isWriter_iff.1 hw
  refine { hi with slots := fun w hmem => ?_, passSlot := fun p hp => ?_ }
  · show (if w = txn then _ else s.slots w) ≠ _
    rw [if_neg (ne_of_mem_of_not_mem hmem hnot)]
    exact hi.slots w hmem
  · show (if p.txn = txn then _ else s.slots p.txn) ≠ _
    rw [if_neg (hpass p hp)]
    exact hi.passSlot p hp

lemma PruneInv.step (hf : FreezeInv s) (hok : s.PruneAllowed op) (hstep : s.step op = some s') :
    PruneInv s' := by
  cases op with
  | begin txn =>
    obtain ⟨-, heq⟩ := ite_none_left_eq_some.1 hstep
    cases heq
    exact { hi with }
  | grow kind =>
    cases hstep
    exact { hi with }
  | stamp txn kind id word =>
    obtain ⟨⟨hwriter, -⟩, rfl⟩ := guarded hstep
    obtain ⟨-, hnot, -⟩ := isWriter_iff.1 hwriter
    refine hi.restamp (fun k i wd t h => ?_) fun a ha hc => ?_
    · rcases stamped_newStamp h with hold | ⟨-, -, -, rfl⟩
      · exact .inl hold
      · exact .inr hnot
    · rcases mem_cons.1 ha with rfl | ha
      · exact absurd hc hnot
      · exact hi.descended a ha hc
  | descend txn kind id =>
    obtain ⟨-, rfl⟩ := guarded hstep
    exact { hi with descended := fun a ha hc => mem_cons_of_mem _ (hi.descended a ha hc) }
  | link | detach =>
    obtain ⟨hwriter, rfl⟩ := guarded hstep
    exact hi.setSlot hwriter _ _
  | publish txn ts =>
    obtain ⟨hwriter, rfl⟩ := guarded hstep
    exact hi.setSlot hwriter _ s.chains
  | commit txn ts =>
    obtain ⟨⟨-, hdone, hslot⟩, rfl⟩ := guarded hstep
    refine { hi with
      registry := fun w hc => ?_, descended := fun a ha hc => ?_, slots := fun w hw => ?_
      swept := fun p hp todo sweep stranded hphase k _ _ _ _ _ => ?_
      writers := fun p hp w hw => (hi.writers p hp w hw).imp_left (mem_cons_of_mem _) }
    · rcases isCommitted_recordCommit.1 hc with rfl | hold
      · exact mem_cons_self
      · exact mem_cons_of_mem _ (hi.registry w hold)
    · rcases mem_cons.1 hc with heq | hold
      · exact hdone a ha heq
      · exact hi.descended a ha hold
    · rcases mem_cons.1 hw with rfl | hold
      · exact hslot
      · exact hi.slots w hold
    · -- the sweeps have not begun
      have hno := hok.2 rfl p hp
      rw [hphase] at hno
      rw [(not_not.1 hno).1]
      exact .inl (by cases k <;> simp [sweepOrder])
  | settle | endRollback =>
    obtain ⟨-, rfl⟩ := guarded hstep
    exact { hi with }
  | revert txn kind id word =>
    obtain ⟨-, heq⟩ := ite_none_right_eq_some.1 hstep
    cases word with
    | created =>
      cases heq
      refine hi.restamp (fun k i wd t h => ?_) hi.descended
      rcases stamped_setRecord h with ⟨-, -, hd, hmem, -⟩ | ⟨-, hold⟩
      · cases hmem
      · exact .inl hold
    | expired =>
      cases heq
      refine hi.restamp (fun k i wd t h => ?_) hi.descended
      rcases stamped_patch h with ⟨-, -, -, hc, -⟩ | ⟨hold, -⟩
      · cases hc
      · exact .inl hold
  | gcBegin txn =>
    obtain ⟨⟨-, -, -, hslot⟩, rfl⟩ := guarded hstep
    refine hi.setPass ?_ ?_ (by simp [GcPhase.writers])
    · simp [hslot]
    · rintro _ _ _ heq kind id word w _ _
      cases heq
      exact .inl (by cases kind <;> simp [sweepOrder])
  | _ =>
    obtain ⟨p, hp, hpass⟩ := bind_eq_some_iff.1 hstep
    exact hi.passStep hf hp (passStep_cases hpass)

end

/-- **The prune forgets frozen writers only.** Along every run from an opened store whose steps meet
the conditions, a captured writer has no in-flight stamp in a record or a version chain, and every
in-flight stamp is of a writer that is open or that the registry has as committed. -/
theorem captured_writers_frozen {ops : List StoreOp} (hopen : Opened s)
    (hops : Run.Along step PruneAllowed s ops) (hrun : exec step s ops = some s') :
    (∀ p ∈ s'.pass, ∀ w ∈ p.phase.writers, s'.Frozen w) ∧
    ∀ kind id word w, s'.Stamped kind id word w → w ∈ s'.active ∨
    s'.commitRegistry.IsCommitted w := by
  obtain ⟨hf, hi⟩ := Run.exec_preserves (I := fun s => FreezeInv s ∧ PruneInv s)
    (fun ⟨hf, hi⟩ hok hstep => ⟨hf.step (hi.allowed hok) hstep, hi.step hf hok hstep⟩)
    ⟨.opened hopen, .opened hopen⟩ hops hrun
  refine ⟨fun p hp w hw => ?_, hf.writer⟩
  obtain ⟨hc, hnone⟩ := hi.writers p hp w hw
  exact ⟨hnone, fun _ _ _ => hi.slots w hc⟩

end PruneInv

/-! ## Concrete runs -/

/-- A pass without a writer: its sweeps, the audit of the node and the capture. -/
def passToCapture : List StoreOp :=
  [.begin 7, .gcBegin 7] ++ replicate 20 .sweep ++ [.audit .node 1]

/-- The node is deleted and the delete commits before the pass. -/
def commitBeforePass : List StoreOp :=
  deleteNode ++ [.commit 8 9, .settle 8] ++ passToCapture ++ [.capture, .gcCommit 10]

theorem captured_writers_frozen_commitBeforePass :
    Opened oneNode ∧ Run.Along step PruneAllowed oneNode commitBeforePass ∧
      ∃ s, exec step oneNode commitBeforePass = some s ∧ (∃ p ∈ s.pass, 8 ∈ p.phase.writers) ∧
        s.Frozen 8 := by
  have halong : Run.Along step PruneAllowed oneNode commitBeforePass := by decide +kernel
  obtain ⟨s, hrun, p, hp, hw⟩ : ∃ s ∈ exec step oneNode commitBeforePass,
      ∃ p ∈ s.pass, 8 ∈ p.phase.writers := by decide +kernel
  exact ⟨oneNode_opened, halong, s, hrun, ⟨p, hp, hw⟩,
    (captured_writers_frozen oneNode_opened halong hrun).1 p hp 8 hw⟩

/-- The delete commits behind the audit, and is captured and forgotten. -/
def commitBeforeCapture : List StoreOp :=
  deleteNode ++ passToCapture ++ [.commit 8 9, .capture, .settle 8, .gcCommit 10, .forget]

/-- **An unfrozen writer is pruned.** It has committed, and its stamp resolves as aborted. -/
theorem commit_before_capture_is_pruned :
    ∃ s, exec step oneNode commitBeforeCapture = some s ∧ s.Stamped .node 1 .expired 8 ∧
      8 ∈ s.committed ∧ 8 ∉ s.active ∧ s.commitRegistry.outcome 8 = .aborted := by
  obtain ⟨s, hrun, hstamped, hforgotten⟩ : ∃ s ∈ exec step oneNode commitBeforeCapture,
      (∃ h ∈ s.records .node 1, h.get .expired = .inFlight 8) ∧
      8 ∈ s.committed ∧ 8 ∉ s.active ∧ s.commitRegistry.outcome 8 = .aborted := by decide +kernel
  exact ⟨s, hrun, hstamped, hforgotten⟩

end Graphus
