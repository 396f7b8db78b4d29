import Graphus.Storage.Freeze

/-!
# A running sweep

The stamps of the record stores, the conditions under which the frontier is kept, and what holds
while one store is swept.

The invariant of a running sweep is `SweepInv.cover`: a stamp at or above the loaded frontier is at
or above the new frontier found so far, or is still to be read, or stands in a record that was read
and is not handled yet. At the record that is being handled, a stamp whose freeze was declined has
an open writer until the writer is tested.
-/

namespace Graphus

/-! ## The registry -/

namespace CommitRegistry

variable {r : CommitRegistry} {t w ts : Nat}

/-- The registry records the writer as committed. -/
def IsCommitted (r : CommitRegistry) (w : Nat) : Prop := ∃ ts, r.outcome w = .committed ts

lemma isCommitted_recordCommit : (r.recordCommit t ts).IsCommitted w ↔ w = t ∨ r.IsCommitted w := by
  unfold IsCommitted recordCommit outcome
  rw [Dict.lookup_insert]
  by_cases h : w = t <;> simp [h]

lemma isCommitted_forget : (r.forget t).IsCommitted w ↔ w ≠ t ∧ r.IsCommitted w := by
  unfold IsCommitted forget outcome
  rw [Dict.lookup_erase]
  by_cases h : w = t <;> simp [h]

lemma mem_committedWriters : w ∈ r.committedWriters ↔ r.IsCommitted w := by
  unfold committedWriters
  rw [List.mem_filter]
  constructor
  · rintro ⟨-, h⟩
    split at h
    · exact ⟨_, ‹_›⟩
    · cases h
    · cases h
  · rintro ⟨ts, hts⟩
    refine ⟨?_, by rw [hts]⟩
    rw [← AList.mem_keys, ← AList.lookup_isSome]
    unfold outcome at hts
    cases hl : r.outcomes.lookup w with
    | none =>
      rw [hl] at hts
      cases hts
    | some o => rfl

end CommitRegistry

lemma MvccHeader.get_set {h : MvccHeader} {word word' : HeaderWord} {stamp : VersionStamp} :
    (h.set word stamp).get word' = if word' = word then stamp else h.get word' := by
  cases word <;> cases word' <;> rfl

lemma not_mem_of_isInflightOfInflightWriter {active : List Nat} {stamp : VersionStamp} {w : Nat}
    (h : isInflightOfInflightWriter active stamp = false) (hstamp : stamp = .inFlight w) :
    w ∉ active := by
  simpa [isInflightOfInflightWriter, hstamp] using h

/-! ## Stamps -/

namespace GcPhase

def restored : GcPhase → List FrozenWord
  | .rollingBack restored => restored
  | .sweeping .. | .captured _ | .forgetting _ => []

def sweep : GcPhase → Option Sweep
  | .sweeping _ sweep _ => sweep
  | .captured _ | .forgetting _ | .rollingBack _ => none

/-- The store whose sweep begins with the next step. -/
def nextKind : GcPhase → Option StoreKind
  | .sweeping (kind :: _) none _ => some kind
  | _ => none

/-- The writer that is forgotten next. -/
def nextForgotten : GcPhase → Option Nat
  | .forgetting (writer :: _) => some writer
  | _ => none

end GcPhase

namespace RecordStore

variable {s : RecordStore} {kind k : StoreKind} {id i : Nat} {word wd : HeaderWord} {w : Nat}
  {stamp : VersionStamp}

/-- The record is in use and carries the in-flight stamp of `w`. -/
def Stamped (s : RecordStore) (kind : StoreKind) (id : Nat) (word : HeaderWord) (w : Nat) : Prop :=
  ∃ h ∈ s.records kind id, h.get word = .inFlight w

lemma Stamped.isSome (h : s.Stamped kind id word w) : (s.records kind id).isSome := by
  obtain ⟨hd, hrec, -⟩ := h
  rw [Option.mem_def.1 hrec]
  rfl

lemma stamped_setRecord {h : Option MvccHeader} (hs : (s.setRecord kind id h).Stamped k i word w) :
    (k = kind ∧ i = id ∧ ∃ hd ∈ h, hd.get word = .inFlight w) ∨
    (¬ (k = kind ∧ i = id) ∧ s.Stamped k i word w) := by
  obtain ⟨hd, hmem, hget⟩ := hs
  change (if k = kind ∧ i = id then h else s.records k i) = some hd at hmem
  by_cases hat : k = kind ∧ i = id
  · rw [if_pos hat] at hmem
    exact .inl ⟨hat.1, hat.2, hd, hmem, hget⟩
  · rw [if_neg hat] at hmem
    exact .inr ⟨hat, hd, hmem, hget⟩

/-- The stamps after one word was overwritten. -/
lemma stamped_patch (hs : (s.patchHeaderWord kind id wd stamp).Stamped k i word w) :
    (k = kind ∧ i = id ∧ word = wd ∧ stamp = .inFlight w ∧ (s.records kind id).isSome) ∨
      (s.Stamped k i word w ∧ ¬ (k = kind ∧ i = id ∧ word = wd)) := by
  rcases stamped_setRecord hs with ⟨rfl, rfl, hd, hmem, hget⟩ | ⟨hne, hold⟩
  · obtain ⟨h, hrec, rfl⟩ := Option.map_eq_some_iff.1 hmem
    rw [MvccHeader.get_set] at hget
    by_cases hw : word = wd
    · rw [if_pos hw] at hget
      exact .inl ⟨rfl, rfl, hw, hget, by rw [hrec]; rfl⟩
    · rw [if_neg hw] at hget
      exact .inr ⟨⟨h, hrec, hget⟩, fun hc => hw hc.2.2⟩
  · exact .inr ⟨hold, fun hc => hne ⟨hc.1, hc.2.1⟩⟩

lemma setRecord_isSome {h : Option MvccHeader} (hs : ((s.setRecord kind id h).records k i).isSome) :
    (k = kind ∧ i = id ∧ h.isSome) ∨ (s.records k i).isSome := by
  change (if k = kind ∧ i = id then h else s.records k i).isSome at hs
  by_cases hat : k = kind ∧ i = id
  · rw [if_pos hat] at hs
    exact .inl ⟨hat.1, hat.2, hs⟩
  · rw [if_neg hat] at hs
    exact .inr hs

lemma patch_isSome (h : ((s.patchHeaderWord kind id wd stamp).records k i).isSome) :
    (s.records k i).isSome := by
  rcases setRecord_isSome h with ⟨rfl, rfl, h⟩ | h
  · rwa [Option.isSome_map] at h
  · exact h

/-- The freezes that a rollback has undone; their descend is the one to the savepoint. -/
def restored (s : RecordStore) : List FrozenWord := (s.pass.map fun p => p.phase.restored).getD []

/-- The descend that covers the stamp has completed. -/
def Announced (s : RecordStore) (kind : StoreKind) (id : Nat) (word : HeaderWord)
    (w : Nat) : Prop :=
  (w, kind, id) ∈ s.descended ∧ ⟨kind, id, word, w⟩ ∉ s.restored

/-- **The frontier covers the announced stamps.** -/
def Covered (s : RecordStore) : Prop :=
  ∀ kind id word w, s.Stamped kind id word w → s.Announced kind id word w →
    (s.freezeLow kind).get ≤ id

/-- Some record carries an in-flight stamp of the transaction. -/
def Carries (s : RecordStore) (txn : Nat) : Prop :=
  ∃ kind ∈ sweepOrder, ∃ id < s.highWater kind, ∃ h ∈ s.records kind id,
    ∃ word ∈ [HeaderWord.created, .expired], h.get word = .inFlight txn

/-- The sweep that is running. -/
def runningSweep (s : RecordStore) : Option Sweep := s.pass.bind fun p => p.phase.sweep

end RecordStore

/-! ## The conditions -/

namespace Sweep

/-- The freeze of the word was declined, and the test of its writer is still to come. -/
def Declined : SweepStage → HeaderWord → Prop
  | .expired, .created | .openCreated, _ | .openExpired, .expired => True
  | _, _ => False

instance (stage : SweepStage) (word : HeaderWord) : Decidable (Declined stage word) := by
  unfold Declined
  split <;> infer_instance

/-- The sweep is between the two tests of a record that `txn` has stamped. -/
def Tests (sw : Sweep) (txn : Nat) : Prop :=
  ∃ item ∈ sw.inUse.head?, ∃ word ∈ [HeaderWord.created, .expired],
    item.2.get word = .inFlight txn ∧ Declined sw.stage word

end Sweep

namespace RecordStore

/-- The condition on a step. -/
def Allowed (s : RecordStore) : StoreOp → Prop
  -- a stamp lands behind the scan or below the frontier the sweep has loaded; one that is written
  -- behind its descend finds the frontier still at or below it
  | .stamp txn kind id _ =>
    (∀ sw ∈ s.runningSweep, sw.kind = kind → id < sw.start ∨ sw.next ≤ id) ∧
    ((txn, kind, id) ∈ s.descended → (s.freezeLow kind).get ≤ id)
  | .settle txn => ∀ sw ∈ s.runningSweep, ¬ sw.Tests txn
  | .endRollback txn => ¬ s.Carries txn
  -- the frontier has not been lowered below the savepoint of the pass
  | .sweep => ∀ p ∈ s.pass, ∀ kind ∈ p.phase.nextKind, p.savepoint kind ≤ (s.freezeLow kind).get
  | .forget => ∀ p ∈ s.pass, ∀ writer ∈ p.phase.nextForgotten, ¬ s.Carries writer
  | _ => True

/-- The store as it is opened: the frontiers at the first id, and every stamp that is still in
flight of a writer that the log has as committed. -/
structure Opened (s : RecordStore) : Prop where
  freezeLow : ∀ kind, (s.freezeLow kind).get = 1
  pass : s.pass = none
  range : ∀ kind id, (s.records kind id).isSome → 1 ≤ id ∧ id < s.highWater kind
  writer : ∀ kind id word w, s.Stamped kind id word w → s.commitRegistry.IsCommitted w ∧
    (w, kind, id) ∈ s.stamped
  history : ∀ a ∈ s.stamped, a ∈ s.descended
  committed : ∀ w, s.commitRegistry.IsCommitted w → w ∈ s.committed
  slots : ∀ w ∈ s.committed, s.slots w ≠ .inFlight w

end RecordStore

/-! ## A running sweep -/

namespace Sweep

variable {sw : Sweep} {active active' : List Nat} {id w : Nat} {word : HeaderWord}

/-- The stamp stands in a record that was read and is not handled yet. At the first of them its
freeze may have been declined, and then its writer is open. -/
def Pending (sw : Sweep) (active : List Nat) (id : Nat) (word : HeaderWord) (w : Nat) : Prop :=
  (∃ item ∈ sw.inUse.head?, item.1 = id ∧ item.2.get word = .inFlight w ∧
    (Declined sw.stage word → w ∈ active) ∧ ¬ (sw.stage = .openExpired ∧ word = .created)) ∨
  ∃ item ∈ sw.inUse.tail, item.1 = id ∧ item.2.get word = .inFlight w

lemma Pending.mono (h : sw.Pending active id word w)
    (hactive : Declined sw.stage word → sw.Tests w → w ∈ active → w ∈ active') :
    sw.Pending active' id word w := by
  rcases h with ⟨item, hhead, hid, hget, hopen, hstage⟩ | htail
  · refine .inl ⟨item, hhead, hid, hget, fun hdec => hactive hdec ?_ (hopen hdec), hstage⟩
    exact ⟨item, hhead, word, by cases word <;> simp, hget, hdec⟩
  · exact .inr htail

/-- The scan has begun. -/
def Scans (sw : Sweep) : Prop := sw.stage ≠ .loaded ∧ sw.stage ≠ .bounded

lemma scans_of_scanning (hstage : sw.stage = .scanning) : sw.Scans := by
  rw [Scans, hstage]
  exact ⟨nofun, nofun⟩

end Sweep

open RecordStore Sweep

/-- What holds while a store is swept. -/
structure SweepInv (s : RecordStore) (p : GcPass) (sw : Sweep) : Prop where
  savepoint : p.savepoint sw.kind ≤ sw.start
  items : ∀ item ∈ sw.inUse, sw.start ≤ item.1 ∧
    ∀ word w, item.2.get word = .inFlight w → (w, sw.kind, item.1) ∈ s.stamped
  fresh : ¬ sw.Scans → sw.next = 0 ∧ sw.inUse = []
  newLow_le : sw.newLow ≤ sw.highWater
  highWater_le : sw.highWater ≤ s.highWater sw.kind
  stop : sw.Scans → sw.highWater ≤ sw.stop
  reached : sw.Scans → sw.start ≤ sw.next
  ended : sw.Scans → sw.stage ≠ .scanning → sw.stop ≤ sw.next
  /-- **No stamp is passed.** -/
  cover : ∀ id word w, s.Stamped sw.kind id word w → sw.start ≤ id →
    sw.newLow ≤ id ∨ sw.next ≤ id ∨ sw.Pending s.active id word w

section SweepInv

variable {s s' : RecordStore} {p p' : GcPass} {sw : Sweep} {id : Nat} {h : MvccHeader}
  {word : HeaderWord} {w : Nat}

/-- The sweep when others have acted: no new stamp on a record that was read, and no writer has left
between the two tests of its record. -/
lemma SweepInv.mono (hi : SweepInv s p sw) (hhigh : s.highWater sw.kind ≤ s'.highWater sw.kind)
    (hhist : ∀ a ∈ s.stamped, a ∈ s'.stamped)
    (hstamp : ∀ id word w, s'.Stamped sw.kind id word w → s.Stamped sw.kind id word w ∨
      id < sw.start ∨ sw.next ≤ id)
    (hactive : ∀ id word w, s'.Stamped sw.kind id word w → sw.Tests w → w ∈ s.active →
      w ∈ s'.active) :
    SweepInv s' p sw := by
  refine { hi with
    items item hitem :=
      ⟨(hi.items item hitem).1, fun word w hget => hhist _ ((hi.items item hitem).2 word w hget)⟩
    highWater_le := le_trans hi.highWater_le hhigh
    cover := ?_ }
  intro id word w hs hstart
  rcases hstamp id word w hs with hold | hlow | hnext
  · rcases hi.cover id word w hold hstart with hnew | hnext | hpend
    · exact .inl hnew
    · exact .inr (.inl hnext)
    · exact .inr (.inr (hpend.mono fun _ => hactive id word w hs))
  · omega
  · exact .inr (.inl hnext)

/-- The freeze of one word: it is frozen, or its writer has not committed. -/
lemma freezeWord_cases (s : RecordStore) (p : GcPass) (sw : Sweep) (id : Nat) (h : MvccHeader)
    (word : HeaderWord) :
    (∃ writer ts, h.get word = .inFlight writer ∧ s.commitRegistry.IsCommitted writer ∧
      s.freezeWord p sw id h word = (s.patchHeaderWord sw.kind id word (.committed ts),
        { p with undo := { kind := sw.kind, id, word, writer } :: p.undo })) ∨
    (s.freezeWord p sw id h word = (s, p) ∧ ∀ w, h.get word = .inFlight w →
      ¬ s.commitRegistry.IsCommitted w) := by
  unfold freezeWord frozenWord CommitRegistry.IsCommitted
  cases hget : h.get word with
  | none | committed ts => exact .inr ⟨rfl, fun _ hc => nomatch hc⟩
  | inFlight writer =>
    dsimp only
    cases hout : s.commitRegistry.outcome writer with
    | committed ts => exact .inl ⟨writer, ts, rfl, ⟨ts, hout⟩, rfl⟩
    | inFlight | aborted =>
      refine .inr ⟨rfl, fun w hw hc => ?_⟩
      cases hw
      rw [hout] at hc
      exact nomatch hc

lemma mem_head_or_tail {α : Type} {x : α} {l : List α} (h : x ∈ l) : x ∈ l.head? ∨ x ∈ l.tail := by
  cases l with
  | nil => cases h
  | cons y l =>
    rcases List.mem_cons.1 h with rfl | h
    · exact .inl rfl
    · exact .inr h

/-- Before the first record is handled, every record that was read is pending. -/
lemma Sweep.pending_of_mem {active : List Nat} (item : Nat × MvccHeader) (hitem : item ∈ sw.inUse)
    (hget : item.2.get word = .inFlight w) (hstage : sw.stage = .scanning ∨ sw.stage = .created) :
    sw.Pending active item.1 word w := by
  rcases mem_head_or_tail hitem with hhead | htail
  · refine .inl ⟨item, hhead, rfl, hget, ?_, ?_⟩
    · rcases hstage with hst | hst <;> rw [hst] <;> exact fun hc => absurd hc id
    · rcases hstage with hst | hst <;> rw [hst] <;> exact fun hc => nomatch hc.1
  · exact .inr ⟨item, htail, rfl, hget⟩

lemma Sweep.Pending.mem {active : List Nat} (h : sw.Pending active id word w) :
    ∃ item ∈ sw.inUse, item.1 = id ∧ item.2.get word = .inFlight w := by
  rcases h with ⟨item, hhead, hid, hget, -⟩ | ⟨item, htail, hid, hget⟩
  · exact ⟨item, List.mem_of_mem_head? hhead, hid, hget⟩
  · exact ⟨item, List.mem_of_mem_tail htail, hid, hget⟩

section

variable (hi : SweepInv s p sw)

include hi

/-- The scan reads the next record. -/
lemma SweepInv.read (hstage : sw.stage = .scanning)
    (hhist : ∀ id word w, s.Stamped sw.kind id word w → (w, sw.kind, id) ∈ s.stamped) :
    SweepInv s p { sw with
      inUse := sw.inUse ++ ((s.records sw.kind sw.next).map fun h => (sw.next, h)).toList
      next := sw.next + 1 } := by
  have hscan := scans_of_scanning hstage
  refine { hi with items := ?_, fresh := ?_, reached := ?_, ended := ?_, cover := ?_ }
  · intro item hitem
    rcases List.mem_append.1 hitem with hold | hnew
    · exact hi.items item hold
    · obtain ⟨h, hrec, rfl⟩ := Option.map_eq_some_iff.1 (Option.mem_toList.1 hnew)
      exact ⟨hi.reached hscan, fun word w hget => hhist _ word w ⟨h, hrec, hget⟩⟩
  · exact fun hc => absurd hscan hc
  · exact fun _ => Nat.le_succ_of_le (hi.reached hscan)
  · exact fun _ hc => absurd hstage hc
  · intro id word w hs hle
    rcases hi.cover id word w hs hle with hnew | hnext | hpend
    · exact .inl hnew
    · rcases Nat.eq_or_lt_of_le hnext with rfl | hlt
      · obtain ⟨h, hrec, hget⟩ := hs
        refine .inr (.inr (pending_of_mem (sw.next, h) ?_ hget (.inl hstage)))
        refine List.mem_append_right _ ?_
        rw [Option.mem_def.1 hrec]
        exact List.mem_singleton.2 rfl
      · exact .inr (.inl hlt)
    · obtain ⟨item, hitem, rfl, hget⟩ := hpend.mem
      exact .inr (.inr (pending_of_mem item (List.mem_append_left _ hitem) hget (.inl hstage)))

variable {rest : List (Nat × MvccHeader)}

/-- A word of the first record is frozen, or its writer is open. -/
lemma SweepInv.freeze (hin : sw.inUse = (id, h) :: rest) {stage : SweepStage}
    (hstage : stage ≠ .openExpired) (hscan : sw.Scans ∧ sw.stage ≠ .scanning)
    (hscan' : ({ sw with stage } : Sweep).Scans)
    (hdec : ∀ word', word' ≠ word → Sweep.Declined stage word' → Sweep.Declined sw.stage word')
    (hwriter : ∀ id word w, s.Stamped sw.kind id word w → w ∈ s.active ∨
      s.commitRegistry.IsCommitted w) :
    SweepInv (s.freezeWord p sw id h word).1 (s.freezeWord p sw id h word).2 { sw with stage } := by
  rcases freezeWord_cases s p sw id h word with ⟨writer, ts, hget, -, heq⟩ | ⟨heq, hopen⟩
  all_goals
    rw [heq]
    refine { hi with
      fresh hc := absurd hscan' hc
      stop _ := hi.stop hscan.1
      reached _ := hi.reached hscan.1
      ended _ _ := hi.ended hscan.1 hscan.2
      cover i wd w hs hle := ?_ }
    -- at the word no stamp is left, or its writer is open
    suffices hstamp : s.Stamped sw.kind i wd w ∧
      (i = id → wd = word → h.get word = .inFlight w → w ∈ s.active) by
      rcases hi.cover i wd w hstamp.1 hle with
        hnew | hnext | ⟨item, hhead, hid, hget, hd, -⟩ | htail
      · exact .inl hnew
      · exact .inr (.inl hnext)
      · refine .inr (.inr (.inl ⟨item, hhead, hid, hget, fun hdecl => ?_, fun hc => hstage hc.1⟩))
        by_cases hw : wd = word
        · subst hw
          rw [hin] at hhead
          cases hhead
          exact hstamp.2 hid.symm rfl hget
        · exact hd (hdec wd hw hdecl)
      · exact .inr (.inr (.inr htail))
  · rcases stamped_patch hs with ⟨-, -, -, hc, -⟩ | ⟨hold, hne⟩
    · cases hc
    · exact ⟨hold, fun hid hw _ => absurd ⟨rfl, hid, hw⟩ hne⟩
  · exact ⟨hs, fun _ _ hget => (hwriter i wd w hs).resolve_right (hopen w hget)⟩

/-- The first record is handled: its open stamps are at or above the new frontier. -/
lemma SweepInv.nextRecord (hin : sw.inUse = (id, h) :: rest)
    (hscan : sw.Scans ∧ sw.stage ≠ .scanning) {newLow : Nat} (hlow : newLow ≤ sw.newLow)
    (hopen : ∀ wd w, h.get wd = .inFlight w → (Sweep.Declined sw.stage wd → w ∈ s.active) →
      ¬ (sw.stage = .openExpired ∧ wd = .created) → newLow ≤ id) :
    SweepInv s p (nextRecord sw newLow) := by
  have hscan' : (RecordStore.nextRecord sw newLow).Scans := ⟨nofun, nofun⟩
  refine { hi with
    items item hitem := hi.items item (List.mem_of_mem_tail hitem)
    fresh hc := absurd hscan' hc
    newLow_le := le_trans hlow hi.newLow_le
    stop _ := hi.stop hscan.1
    reached _ := hi.reached hscan.1
    ended _ _ := hi.ended hscan.1 hscan.2
    cover := ?_ }
  intro i wd w hs hle
  rcases hi.cover i wd w hs hle with hnew | hnext | ⟨item, hhead, hid, hget, hd, hst⟩ | htail
  · exact .inl (le_trans hlow hnew)
  · exact .inr (.inl hnext)
  · rw [hin] at hhead
    cases hhead
    exact .inl (hid ▸ hopen wd w hget hd hst)
  · obtain ⟨item, hmem, rfl, hget⟩ := htail
    exact .inr (.inr (pending_of_mem item hmem hget (.inr rfl)))

/-- Another stage at which the same records are pending. -/
lemma SweepInv.setStage {stage : SweepStage} (hscan : sw.Scans)
    (hscan' : ({ sw with stage } : Sweep).Scans) (hended : stage ≠ .scanning → sw.stop ≤ sw.next)
    (hpend : ∀ i wd w, sw.Pending s.active i wd w →
      Sweep.Pending { sw with stage } s.active i wd w) :
    SweepInv s p { sw with stage } :=
  { hi with
    fresh hc := absurd hscan' hc
    stop _ := hi.stop hscan
    reached _ := hi.reached hscan
    ended _ := hended
    cover i wd w hs hle :=
      (hi.cover i wd w hs hle).imp_right fun hc => hc.imp_right (hpend i wd w) }

end

/-- What one access of the sweep can do. -/
inductive SweepAccess (s : RecordStore) (p : GcPass) (sw : Sweep) :
    RecordStore → GcPass → Option Sweep → Prop
  | bound (hstage : sw.stage = .loaded) : SweepAccess s p sw s p (some { sw with
      highWater := s.highWater sw.kind, newLow := s.highWater sw.kind, stage := .bounded })
  | scan (hstage : sw.stage = .bounded) : SweepAccess s p sw s p (some { sw with
      stop := s.highWater sw.kind, next := max sw.start 1, stage := .scanning })
  | read (hstage : sw.stage = .scanning) (hlt : sw.next < sw.stop) :
      SweepAccess s p sw s p (some { sw with
        inUse := sw.inUse ++ ((s.records sw.kind sw.next).map fun h => (sw.next, h)).toList
        next := sw.next + 1 })
  | scanned (hstage : sw.stage = .scanning) (hle : sw.stop ≤ sw.next) :
      SweepAccess s p sw s p (some { sw with stage := .created })
  | raise (hstage : sw.stage = .created) (hin : sw.inUse = []) : SweepAccess s p sw
      (s.setFloor sw.kind ((s.freezeLow sw.kind).tryRaise sw.start sw.newLow).1) p none
  | freezeCreated {id h rest} (hstage : sw.stage = .created) (hin : sw.inUse = (id, h) :: rest) :
      SweepAccess s p sw (s.freezeWord p sw id h .created).1 (s.freezeWord p sw id h .created).2
        (some { sw with stage := .expired })
  | freezeExpired {id h rest} (hstage : sw.stage = .expired) (hin : sw.inUse = (id, h) :: rest) :
      SweepAccess s p sw (s.freezeWord p sw id h .expired).1 (s.freezeWord p sw id h .expired).2
        (some { sw with stage := .openCreated })
  -- the stages between the tests are not reached without a record
  | empty (hscan : sw.Scans) (hstage : sw.stage ≠ .scanning) (hin : sw.inUse = []) :
      SweepAccess s p sw s p (some { sw with stage := .created })
  | isOpen {id h rest stage} (hstage : sw.stage = stage)
      (htest : stage = .openCreated ∨ stage = .openExpired) (hin : sw.inUse = (id, h) :: rest) :
      SweepAccess s p sw s p (some (nextRecord sw (min sw.newLow id)))
  | createdClosed {id h rest} (hstage : sw.stage = .openCreated) (hin : sw.inUse = (id, h) :: rest)
      (hclosed : isInflightOfInflightWriter s.active h.created = false) :
      SweepAccess s p sw s p (some { sw with stage := .openExpired })
  | expiredClosed {id h rest} (hstage : sw.stage = .openExpired) (hin : sw.inUse = (id, h) :: rest)
      (hclosed : isInflightOfInflightWriter s.active h.expired = false) :
      SweepAccess s p sw s p (some (nextRecord sw sw.newLow))

lemma sweepStep_access (s : RecordStore) (p : GcPass) (sw : Sweep) :
    SweepAccess s p sw (s.sweepStep p sw).1 (s.sweepStep p sw).2.1 (s.sweepStep p sw).2.2 := by
  obtain ⟨kind, start, highWater, stop, next, inUse, newLow, stage⟩ := sw
  unfold sweepStep
  cases stage with
  | loaded => exact .bound rfl
  | bounded => exact .scan rfl
  | scanning =>
    by_cases hlt : next < stop
    · rw [if_pos hlt]
      have hread := SweepAccess.read (s := s) (p := p)
        (show (mk kind start highWater stop next inUse newLow .scanning).stage = _ from rfl) hlt
      cases hrec : s.records kind next with
      | none =>
        rw [hrec, Option.map_none, Option.toList_none, List.append_nil] at hread
        exact hread
      | some h =>
        rw [hrec] at hread
        exact hread
    · rw [if_neg hlt]
      exact .scanned rfl (Nat.le_of_not_lt hlt)
  | created =>
    cases inUse with
    | nil => exact .raise rfl rfl
    | cons item rest => exact .freezeCreated rfl rfl
  | expired =>
    cases inUse with
    | nil => exact .empty ⟨nofun, nofun⟩ nofun rfl
    | cons item rest => exact .freezeExpired rfl rfl
  | openCreated =>
    cases inUse with
    | nil => exact .empty ⟨nofun, nofun⟩ nofun rfl
    | cons item rest =>
      dsimp only
      cases hopen : isInflightOfInflightWriter s.active item.2.created with
      | true => exact .isOpen rfl (.inl rfl) rfl
      | false => exact .createdClosed rfl rfl hopen
  | openExpired =>
    cases inUse with
    | nil => exact .empty ⟨nofun, nofun⟩ nofun rfl
    | cons item rest =>
      dsimp only
      cases hopen : isInflightOfInflightWriter s.active item.2.expired with
      | true => exact .isOpen rfl (.inr rfl) rfl
      | false => exact .expiredClosed rfl rfl hopen

lemma Sweep.scans_of_stage {stage : SweepStage} (hstage : sw.stage = stage)
    (h : stage ≠ .loaded ∧ stage ≠ .bounded ∧ stage ≠ .scanning) :
    sw.Scans ∧ sw.stage ≠ .scanning := by
  subst hstage
  exact ⟨⟨h.1, h.2.1⟩, h.2.2⟩

/-- What an access changes besides the sweep and the frontier: it adds no stamp, and freezes words
of the records that were read. -/
structure SweepEffect (s : RecordStore) (p : GcPass) (sw : Sweep) (s' : RecordStore) (p' : GcPass) :
    Prop where
  books : s' = { s with records := s'.records, freezeLow := s'.freezeLow }
  stamped : ∀ k i wd t, s'.Stamped k i wd t → s.Stamped k i wd t
  inUse : ∀ k i, (s'.records k i).isSome → (s.records k i).isSome
  txn : p'.txn = p.txn
  savepoint : p'.savepoint = p.savepoint
  undo : ∀ f ∈ p'.undo, f ∈ p.undo ∨ (f.kind = sw.kind ∧ s.commitRegistry.IsCommitted f.writer ∧
    ∃ h, (f.id, h) ∈ sw.inUse ∧ h.get f.word = .inFlight f.writer)

lemma SweepEffect.refl : SweepEffect s p sw s p :=
  ⟨rfl, fun _ _ _ _ h => h, fun _ _ h => h, rfl, rfl, fun _ h => .inl h⟩

lemma SweepEffect.freeze (hitem : (id, h) ∈ sw.inUse) :
    SweepEffect s p sw (s.freezeWord p sw id h word).1 (s.freezeWord p sw id h word).2 := by
  rcases freezeWord_cases s p sw id h word with ⟨writer, ts, hget, hcomm, heq⟩ | ⟨heq, -⟩
  · rw [heq]
    refine ⟨rfl, fun k i wd t hst => ?_, fun k i hsome => ?_, rfl, rfl, fun f hf => ?_⟩
    · rcases stamped_patch hst with ⟨-, -, -, hc, -⟩ | ⟨hold, -⟩
      · cases hc
      · exact hold
    · exact patch_isSome hsome
    · rcases List.mem_cons.1 hf with rfl | hold
      · exact .inr ⟨rfl, hcomm, h, hitem, hget⟩
      · exact .inl hold
  · rw [heq]
    exact .refl

variable {sw1 : Option Sweep}

lemma SweepAccess.effect (hstep : SweepAccess s p sw s' p' sw1) :
    SweepEffect s p sw s' p' := by
  cases hstep with
  | freezeCreated _ hin | freezeExpired _ hin => exact .freeze (hin ▸ List.mem_cons_self)
  | raise => exact ⟨rfl, fun _ _ _ _ h => h, fun _ _ h => h, rfl, rfl, fun _ h => .inl h⟩
  | _ => exact .refl

/-- The frontier moves only when every record that was read is handled. -/
lemma SweepAccess.freezeLow (hstep : SweepAccess s p sw s' p' sw1) :
    s'.freezeLow = s.freezeLow ∨
    (sw.stage = .created ∧ sw.inUse = [] ∧ s'.freezeLow = fun k => if k = sw.kind then
        ((s.freezeLow sw.kind).tryRaise sw.start sw.newLow).1 else s.freezeLow k) := by
  have hfreeze : ∀ id h word, (s.freezeWord p sw id h word).1.freezeLow = s.freezeLow := by
    intro id h word
    rcases freezeWord_cases s p sw id h word with ⟨writer, ts, -, -, heq⟩ | ⟨heq, -⟩
    · rw [heq]
      rfl
    · rw [heq]
  cases hstep with
  | freezeCreated => exact .inl (hfreeze ..)
  | freezeExpired => exact .inl (hfreeze ..)
  | raise hstage hin => exact .inr ⟨hstage, hin, rfl⟩
  | _ => exact .inl rfl

/-- **One access of the sweep** keeps what holds of it. -/
lemma SweepInv.access (hi : SweepInv s p sw)
    (hrange : ∀ id word w, s.Stamped sw.kind id word w → 1 ≤ id)
    (hhist : ∀ id word w, s.Stamped sw.kind id word w → (w, sw.kind, id) ∈ s.stamped)
    (hwriter : ∀ id word w, s.Stamped sw.kind id word w → w ∈ s.active ∨
      s.commitRegistry.IsCommitted w) {sw' : Sweep}
    (hstep : SweepAccess s p sw s' p' (some sw')) : SweepInv s' p' sw' := by
  cases hstep with
  | bound hstage =>
    obtain ⟨hnext, hin⟩ := hi.fresh fun hc => hc.1 hstage
    exact { hi with
      fresh _ := ⟨hnext, hin⟩
      newLow_le := le_rfl
      highWater_le := le_rfl
      stop hc := absurd rfl hc.2
      reached hc := absurd rfl hc.2
      ended hc := absurd rfl hc.2
      cover i wd w hs hle := .inr (.inl (by rw [hnext]; exact Nat.zero_le i)) }
  | scan hstage =>
    exact { hi with
      fresh hc := absurd ⟨nofun, nofun⟩ hc
      stop _ := hi.highWater_le
      reached _ := Nat.le_max_left ..
      ended _ hc := absurd rfl hc
      cover i wd w hs hle := .inr (.inl (Nat.max_le.2 ⟨hle, hrange i wd w hs⟩)) }
  | read hstage hlt => exact hi.read hstage hhist
  | scanned hstage hle =>
    have hscan := scans_of_scanning hstage
    refine hi.setStage hscan ⟨nofun, nofun⟩ (fun _ => hle) fun i wd w hpend => ?_
    obtain ⟨item, hitem, rfl, hget⟩ := hpend.mem
    exact pending_of_mem item hitem hget (.inr rfl)
  | freezeCreated hstage hin =>
    refine hi.freeze hin nofun (scans_of_stage hstage (by decide)) ⟨nofun, nofun⟩
      (fun wd hne hdec => ?_) hwriter
    cases wd with
    | created => exact absurd rfl hne
    | expired => exact hdec.elim
  | freezeExpired hstage hin =>
    refine hi.freeze hin nofun (scans_of_stage hstage (by decide)) ⟨nofun, nofun⟩
      (fun wd hne _ => ?_) hwriter
    cases wd with
    | created =>
      rw [hstage]
      trivial
    | expired => exact absurd rfl hne
  | empty hscan hstage hin =>
    refine hi.setStage hscan ⟨nofun, nofun⟩ (fun _ => hi.ended hscan hstage) fun i wd w hpend => ?_
    obtain ⟨item, hitem, -⟩ := hpend.mem
    rw [hin] at hitem
    cases hitem
  | isOpen hstage htest hin =>
    have hscan := scans_of_stage hstage (by rcases htest with rfl | rfl <;> decide)
    exact hi.nextRecord hin hscan (Nat.min_le_left ..) fun _ _ _ _ _ => Nat.min_le_right ..
  | createdClosed hstage hin hclosed =>
    have hscan := scans_of_stage hstage (by decide)
    refine hi.setStage hscan.1 ⟨nofun, nofun⟩ (fun _ => hi.ended hscan.1 hscan.2)
      fun i wd w hpend => ?_
    rcases hpend with ⟨item, hhead, hid, hget, hopen, -⟩ | htail
    · have hactive : w ∈ s.active := hopen (by rw [hstage]; trivial)
      refine .inl ⟨item, hhead, hid, hget, fun _ => hactive, fun hc => ?_⟩
      -- the writer of the `created` word would be open
      rw [hin] at hhead
      cases hhead
      rw [hc.2] at hget
      exact not_mem_of_isInflightOfInflightWriter hclosed hget hactive
    · exact .inr htail
  | expiredClosed hstage hin hclosed =>
    have hscan := scans_of_stage hstage (by decide)
    refine hi.nextRecord hin hscan le_rfl fun wd w hget hopen hst => ?_
    cases wd with
    | created => exact absurd ⟨hstage, rfl⟩ hst
    | expired =>
      exact absurd (hopen (by rw [hstage]; trivial))
        (not_mem_of_isInflightOfInflightWriter hclosed hget)

/-- What a step of the pass can do. -/
inductive PassStep (s : RecordStore) (p : GcPass) : StoreOp → RecordStore → Prop
  | load {kind todo stranded} (hphase : p.phase = .sweeping (kind :: todo) none stranded) :
      PassStep s p .sweep { s with pass := some { p with
        phase := .sweeping todo (some { kind, start := (s.freezeLow kind).get }) stranded } }
  | access {todo sw stranded s1 p1 sw1} (hphase : p.phase = .sweeping todo (some sw) stranded)
      (hstep : SweepAccess s p sw s1 p1 sw1) :
      PassStep s p .sweep { s1 with pass := some { p1 with phase := .sweeping todo sw1 stranded } }
  | audit {kind id stranded} (hphase : p.phase = .sweeping [] none stranded) :
      PassStep s p (.audit kind id) { s with pass := some { p with
        phase := .sweeping [] none (stranded || s.isStranded kind id) } }
  | capture {stranded} (hphase : p.phase = .sweeping [] none stranded) :
      PassStep s p .capture { s with pass := some { p with
        phase := .captured (if stranded then [] else s.commitRegistry.committedWriters) } }
  | commit {writers ts} (hphase : p.phase = .captured writers) :
      PassStep s p (.gcCommit ts) { s with
        commitRegistry := s.commitRegistry.recordCommit p.txn ts
        committed := p.txn :: s.committed
        active := s.active.filter (· ≠ p.txn)
        pass := some { p with undo := [], phase := .forgetting writers } }
  | forget {writer writers} (hphase : p.phase = .forgetting (writer :: writers)) :
      PassStep s p .forget { s with
        commitRegistry := s.commitRegistry.forget writer
        pass := some { p with phase := .forgetting writers } }
  | done (hphase : p.phase = .forgetting []) : PassStep s p .forget { s with pass := none }
  | abort (hphase : (∃ todo sweep stranded, p.phase = .sweeping todo sweep stranded) ∨
      ∃ writers, p.phase = .captured writers) :
      PassStep s p .gcAbort { s with pass := some { p with phase := .rollingBack [] } }
  | undoFreeze {restored f undo} (hphase : p.phase = .rollingBack restored)
      (hundo : p.undo = f :: undo) :
      PassStep s p .undoFreeze { s.patchHeaderWord f.kind f.id f.word (.inFlight f.writer) with
        pass := some { p with undo, phase := .rollingBack (f :: restored) } }
  | restore {restored} (hphase : p.phase = .rollingBack restored) (hundo : p.undo = []) :
      PassStep s p .restore { s with
        freezeLow := fun k => (s.freezeLow k).descend (p.savepoint k)
        active := s.active.filter (· ≠ p.txn)
        pass := none }

lemma passStep_cases {op : StoreOp} (hstep : s.passStep p op = some s') : PassStep s p op s' := by
  obtain ⟨txn, savepoint, undo, phase⟩ := p
  cases op with
  | sweep =>
    rcases phase with ⟨todo, _ | sw, stranded⟩ | _ | _ | _
    · cases todo with
      | nil => cases hstep
      | cons kind todo =>
        cases hstep
        exact .load rfl
    · cases hstep
      exact .access rfl (sweepStep_access ..)
    all_goals cases hstep
  | audit kind id =>
    rcases phase with ⟨_ | ⟨kind, todo⟩, _ | sw, stranded⟩ | _ | _ | _ <;> cases hstep
    exact .audit rfl
  | capture =>
    rcases phase with ⟨_ | ⟨kind, todo⟩, _ | sw, stranded⟩ | _ | _ | _ <;> cases hstep
    exact .capture rfl
  | gcCommit ts =>
    rcases phase with _ | writers | _ | _ <;> cases hstep
    exact .commit rfl
  | forget =>
    rcases phase with _ | _ | ⟨_ | ⟨writer, writers⟩⟩ | _ <;> cases hstep
    · exact .done rfl
    · exact .forget rfl
  | gcAbort =>
    rcases phase with ⟨todo, sweep, stranded⟩ | writers | _ | _ <;> cases hstep
    · exact .abort (.inl ⟨_, _, _, rfl⟩)
    · exact .abort (.inr ⟨_, rfl⟩)
  | undoFreeze | restore =>
    rcases phase with _ | _ | _ | restored <;> rcases undo with _ | ⟨f, undo⟩ <;> cases hstep
    constructor <;> rfl
  | _ => cases hstep

end SweepInv

end Graphus
