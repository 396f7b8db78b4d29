import Graphus.Lib.Run
import Graphus.Txn.ManagerInv

/-!
# Snapshot reads

A read of an active transaction returns its own last operation on the key, and otherwise the value
the multi-version map holds as of its begin timestamp. Garbage collection changes no read.

The first part has an exception. A delete expires the head of the chain only, and a transaction can
come to delete its own version over one that a later commit has already expired: the older version
is then still visible in its snapshot and comes back. `DeleteSafe` says that a delete is not of this
kind.

**Theorem (`read_isRead`).** In every run whose deletes are safe, every read of an active
transaction returns what the map says, before and after a garbage collection.
-/

namespace Graphus

open MultiVersion Version MemVersionedStore List
open Run (exec)

/-- The stamp is a commit after `s`. -/
def VersionStamp.committedAfter (s : Nat) : VersionStamp → Bool
  | .committed c => s < c
  | _ => false

/-- The version was current at `s` and has been expired by a later commit. -/
def Version.expiredAfter (s : Nat) (v : Version) : Bool :=
  v.xmin.committedBy s && v.xmax.committedAfter s

/-- What a read of `key` in the snapshot is to return. -/
def MvMap.IsRead (M : MvMap) (snap : Snapshot) (key : Nat) (r : Option Bytes) : Prop :=
  match M.pending snap.owner key with
  | some val => r = val
  | none => IsValueAt (M.versions key) snap.ts r

/-- A delete that is accepted leaves no version of the key that was current at the snapshot and
has been expired by a later commit. -/
def DeleteSafe (s : Session) : Call → Prop
  | .delete txn key =>
    (s.mgr.delete txn key).2.isOk = true → ∀ a ∈ s.mgr.active.lookup txn,
      ∀ v ∈ s.mgr.store.chain key, expiredAfter a.snapshot.ts v = false
  | _ => True

instance (s : Session) (c : Call) : Decidable (DeleteSafe s c) := by
  unfold DeleteSafe
  split <;> infer_instance

/-! ## Reading under the invariant -/

section Read

variable {M : MvMap} {m : TxnManager} {t key : Nat} {a : ActiveTxn}

/-- The stamp counts for the transaction `t` with snapshot timestamp `s`. -/
def VersionStamp.seenBy (t s : Nat) (stamp : VersionStamp) : Bool :=
  stamp = .inFlight t || stamp.committedBy s

def Version.seenBy (t s : Nat) (v : Version) : Bool := v.xmin.seenBy t s && !v.xmax.seenBy t s

lemma read_of_active (ha : m.active.lookup t = some a) (key : Nat) :
    (m.read t key).2 = .ok (m.store.readVisible key a.snapshot m.registry) := by
  rw [TxnManager.read, ha]

section

variable (hi : MgrInv M m) (ha : m.active.lookup t = some a)

include hi ha

/-- The registry adds nothing: in-flight stamps are of active transactions. -/
lemma MgrInv.countsFor_eq {stamp : VersionStamp}
    (hok : StampOk m.oracle.nextCounter (m.pendingOn M key) stamp) :
    countsFor a.snapshot stamp m.registry = stamp.seenBy t a.snapshot.ts := by
  cases stamp with
  | none => rfl
  | committed c => simp [countsFor, VersionStamp.seenBy, VersionStamp.committedBy]
  | inFlight u =>
    obtain ⟨b, hb, -⟩ := pendingOn_ne_none hok
    by_cases hu : u = t
    · simp [countsFor, VersionStamp.seenBy, hu, hi.books.owner ha]
    · simp [countsFor, VersionStamp.seenBy, VersionStamp.committedBy, hu, hi.books.owner ha,
        hi.books.inFlight hb]

lemma MgrInv.readVisible_eq (key : Nat) : m.store.readVisible key a.snapshot m.registry =
      ((m.store.chain key).find? (seenBy t a.snapshot.ts)).map payload := by
  rw [readVisible]
  congr 1
  refine find?_congr fun v hv => ?_
  rw [isVisible, creatorVisible, expirerHides, hi.countsFor_eq ha ((hi.keys key).xmin hv),
    hi.countsFor_eq ha ((hi.keys key).xmax hv), seenBy]

/-- Garbage collection changes no read of an active transaction. -/
lemma MgrInv.readVisible_runGc (key : Nat) :
    m.runGc.1.store.readVisible key a.snapshot m.runGc.1.registry =
      m.store.readVisible key a.snapshot m.registry := by
  have ha' : m.runGc.1.active.lookup t = some a := ha
  rw [hi.runGc.readVisible_eq ha', hi.readVisible_eq ha, chain_runGc, find?_filter_of_unseen]
  intro v hv hkeep
  obtain ⟨e, he, hle⟩ := hi.keeps_eq_false hv hkeep
  have : e ≤ a.snapshot.ts := hle _ (.inl ⟨t, a, ha, le_rfl⟩)
  simp [seenBy, VersionStamp.seenBy, he, VersionStamp.committedBy, this]

end

/-- No pending delete has a version under it that would come back. -/
def DeletesHide (M : MvMap) (m : TxnManager) : Prop :=
  ∀ t a key, m.active.lookup t = some a → M.pending t key = some none →
    ∀ v ∈ m.store.chain key, expiredAfter a.snapshot.ts v = false

/-- Without an operation of its own on the key, a transaction reads the map as of its snapshot. -/
lemma MgrInv.read_of_not_pending (hi : MgrInv M m) (ha : m.active.lookup t = some a)
    (hpend : M.pending t key = none) : m.store.readVisible key a.snapshot m.registry =
      valueAt (M.versions key) a.snapshot.ts := by
  have hnone : m.pendingOn M key t = none := (pendingOn_of_active ha).trans hpend
  rw [hi.readVisible_eq ha, ← (hi.keys key).reads (.inl ⟨t, a, ha, le_rfl⟩)]
  congr 1
  refine find?_congr fun v hv => ?_
  obtain ⟨h1, h2⟩ := (hi.keys key).no_stamp hnone hv
  simp [seenBy, VersionStamp.seenBy, visibleAt, h1, h2]

lemma MgrInv.read_of_write (hi : MgrInv M m) (ha : m.active.lookup t = some a)
    {payload : Bytes} (hpend : M.pending t key = some (some payload)) :
    m.store.readVisible key a.snapshot m.registry = some payload := by
  obtain ⟨rest, hchain⟩ := (hi.keys key).pendWrite ((pendingOn_of_active ha).trans hpend)
  rw [hi.readVisible_eq ha, hchain]
  simp [seenBy, VersionStamp.seenBy, VersionStamp.committedBy]

section

variable (hi : MgrInv M m) (hd : DeletesHide M m) (ha : m.active.lookup t = some a)

include hi hd ha

lemma MgrInv.read_of_delete (hpend : M.pending t key = some none) :
    m.store.readVisible key a.snapshot m.registry = none := by
  have hsome : m.pendingOn M key t = some none := (pendingOn_of_active ha).trans hpend
  have hk := hi.keys key
  obtain ⟨head, rest, hchain, hhead⟩ := hk.pendDelete hsome
  have hne : ∀ v ∈ m.store.chain key, v.xmax ≠ .none := by
    intro v hv
    rw [hchain] at hv
    rcases mem_cons.1 hv with rfl | hv
    · rw [hhead]
      nofun
    · exact hk.tail (by rwa [hchain])
  rw [hi.readVisible_eq ha, Option.map_eq_none_iff, find?_eq_none]
  intro v hv
  have hmine : ∀ {u}, StampOk m.oracle.nextCounter (m.pendingOn M key) (.inFlight u) → u = t :=
    fun hu => hk.single hu (by rw [hsome]; nofun)
  -- every version is expired, by `t` itself or by a commit
  cases hx : v.xmax with
  | none => exact absurd hx (hne v hv)
  | inFlight u =>
    have hu := hk.xmax hv
    rw [hx] at hu
    rw [hmine hu] at hx
    simp [seenBy, VersionStamp.seenBy, hx]
  | committed e =>
    have hsafe := hd t a key ha hpend v hv
    cases hm : v.xmin with
    | none => exact absurd hm (hk.created hv)
    | inFlight u => rcases hk.own hv hm with h | h <;> rw [hx] at h <;> cases h
    | committed c =>
      simp only [expiredAfter, hm, hx, VersionStamp.committedBy,
        VersionStamp.committedAfter] at hsafe
      simp only [seenBy, VersionStamp.seenBy, hm, hx, VersionStamp.committedBy]
      simp at hsafe ⊢
      exact hsafe

lemma MgrInv.isRead (key : Nat) :
    M.IsRead a.snapshot key (m.store.readVisible key a.snapshot m.registry) := by
  unfold MvMap.IsRead
  rw [hi.books.owner ha]
  cases hpend : M.pending t key with
  | none =>
    rw [hi.read_of_not_pending ha hpend]
    exact isValueAt_valueAt (hi.keys key).desc _
  | some val =>
    cases val with
    | none => exact hi.read_of_delete hd ha hpend
    | some payload => exact hi.read_of_write ha hpend

end

end Read

/-! ## Safe deletes hide what they delete -/

section DeletesHide

variable {M : MvMap} {m m' : TxnManager} {t key : Nat}

/-- A step that adds no version under a pending delete. -/
lemma DeletesHide.frame (hd : DeletesHide M m) (hactive : ∀ {t a}, m'.active.lookup t = some a →
      ∃ b, m.active.lookup t = some b ∧ a.snapshot = b.snapshot)
    (hchain : ∀ {t a key}, m'.active.lookup t = some a → M.pending t key = some none →
      ∀ v ∈ m'.store.chain key, v ∈ m.store.chain key) : DeletesHide M m' := by
  intro t a key ha hpend v hv
  obtain ⟨b, hb, hsnap⟩ := hactive ha
  rw [hsnap]
  exact hd t b key hb hpend v (hchain ha hpend v hv)

lemma DeletesHide.begin (hi : MgrInv M m) (hd : DeletesHide M m) (isolation : IsolationLevel) :
    DeletesHide M (m.begun isolation (m.oracle.nextCounter + 1)) := by
  intro t a key ha hpend
  rcases lookup_begun_some ha with ⟨rfl, -⟩ | ⟨-, ha⟩
  · exact absurd (hi.fresh (by rw [hpend]; nofun)) (Nat.not_succ_le_self _)
  · exact hd t a key ha hpend

lemma DeletesHide.claim (hd : DeletesHide M m) (t key : Nat) : DeletesHide M (m.claim t key) :=
  hd.frame (fun h =>
      let ⟨b, hb, hs, _⟩ := lookup_claim_some h
      ⟨b, hb, hs⟩)
    fun _ _ _ hv => hv

/-- Two transactions have no operations on one key. -/
lemma MgrInv.pendingOn_of_ne (hi : MgrInv M m) {u : Nat} {a : ActiveTxn}
    (ha : m.active.lookup t = some a) (hpend : M.pending t key ≠ none) (hne : t ≠ u) :
    m.pendingOn M key u = none := by
  by_contra hu
  exact hne ((hi.keys key).single (by rwa [pendingOn_of_active ha]) hu)

section

variable (hi : MgrInv M m) (hd : DeletesHide M m)

include hi hd

/-- A transaction ends, and the chains it has no operation on stay. -/
lemma DeletesHide.finish {u : Nat} (hactive : m'.active = m.active.erase u)
    (hchain : ∀ {key}, m.pendingOn M key u = none → m'.store.chain key = m.store.chain key) :
    DeletesHide M m' := by
  refine hd.frame (fun h => ⟨_, (Dict.of_lookup_erase (hactive ▸ h)).2, rfl⟩)
    fun {t a key} ha hpend v hv => ?_
  obtain ⟨hne, ha⟩ := Dict.of_lookup_erase (hactive ▸ ha)
  rwa [hchain (hi.pendingOn_of_ne ha (by rw [hpend]; nofun) hne)] at hv

lemma DeletesHide.abortInternal (u : Nat) :
    DeletesHide M (m.abortInternal u) :=
  hd.finish hi rfl fun h => chain_abortWriter.trans ((hi.keys _).abort_of_not_pending h)

lemma DeletesHide.publish (u ts : Nat) : DeletesHide M (m.publish u ts) :=
  hd.finish hi rfl fun h => chain_commitWriter.trans ((hi.keys _).commit_of_not_pending h ts)

end

lemma DeletesHide.runGc (hd : DeletesHide M m) : DeletesHide M m.runGc.1 := by
  refine hd.frame (fun h => ⟨_, h, rfl⟩) fun {t a key} _ _ v hv => ?_
  rw [chain_runGc] at hv
  exact mem_of_mem_filter hv

section

variable (hi : MgrInv M m) (hd : DeletesHide M m)

include hi hd

lemma DeletesHide.note {a : ActiveTxn} (ht : m.active.lookup t = some a) (hkey : key ∈ a.written)
    {val : Option Bytes} {store : MemVersionedStore}
    (hother : ∀ k, k ≠ key → store.chain k = m.store.chain k)
    (hnew : val = none → ∀ v ∈ store.chain key, expiredAfter a.snapshot.ts v = false) :
    DeletesHide (M.note t key val) { m with store } := by
  intro t' b k hb hpend v hv
  have hb : m.active.lookup t' = some b := hb
  rw [MvMap.note_pending] at hpend
  by_cases hk : k = key
  · subst hk
    by_cases ht' : t' = t
    · subst ht'
      cases ht.symm.trans hb
      rw [if_pos ⟨rfl, rfl⟩] at hpend
      exact hnew (Option.some.inj hpend) v hv
    · -- the key is claimed by `t`, so no other transaction has an operation on it
      rw [if_neg fun h => ht' h.1] at hpend
      refine absurd (hi.eq_of_pendingOn ht hkey ?_) ht'
      rw [pendingOn_of_active hb, hpend]
      nofun
  · rw [if_neg fun h => hk h.2] at hpend
    rw [hother k hk] at hv
    exact hd t' b k hb hpend v hv

lemma DeletesHide.write (t key : Nat) (payload : Bytes) :
    DeletesHide (M.apply (.write t key payload, (m.call (.write t key payload)).2))
      (m.call (.write t key payload)).1 := by
  rw [TxnManager.call, TxnManager.write]
  rcases modifyKey_cases m t key fun store => .ok (store.createVersion key t payload) with
    ⟨e, he⟩ | ⟨a, ha, hfree, ⟨e, he⟩ | ⟨store, hstore, -, he⟩⟩
  · rw [he]
    exact hd
  · rw [he]
    exact hd.claim t key
  · rw [he]
    cases hstore
    obtain ⟨b, hb, -⟩ := lookup_claim_of_some t key ha
    have hother : ∀ k, k ≠ key → (m.store.createVersion key t payload).chain k = m.store.chain k :=
      fun k hk => by rw [chain_createVersion, if_neg hk]
    exact DeletesHide.note (hi.claim hfree)
      (hd.claim t key) hb (mem_claim_written hb) hother fun h => by cases h

variable {log : List (Call × Reply)}

lemma DeletesHide.delete (t key : Nat) (hsafe : DeleteSafe ⟨m, log⟩ (.delete t key)) :
    DeletesHide (M.apply (.delete t key, (m.call (.delete t key)).2))
    (m.call (.delete t key)).1 := by
  have hsafe : (m.delete t key).2.isOk = true → ∀ a ∈ m.active.lookup t,
    ∀ v ∈ m.store.chain key, expiredAfter a.snapshot.ts v = false := hsafe
  rw [TxnManager.call]
  rw [TxnManager.delete] at hsafe ⊢
  rcases modifyKey_cases m t key _ with
    ⟨e, he⟩ | ⟨a, ha, hfree, ⟨e, he⟩ | ⟨store, hstore, -, he⟩⟩
  · rw [he]
    exact hd
  · rw [he]
    exact hd.claim t key
  · rw [he] at hsafe ⊢
    cases hexp : m.store.expireVersion key t with
    | none => simp [hexp] at hstore
    | some store' =>
      obtain rfl : store' = store := by simpa [hexp] using hstore
      obtain ⟨head, rest, hchain, -, hafter⟩ := expireVersion_eq_some hexp
      obtain ⟨b, hb, hsnap, -⟩ := lookup_claim_of_some t key ha
      have hother : ∀ k, k ≠ key → store'.chain k = m.store.chain k :=
        fun k hk => by rw [hafter, if_neg hk]
      have hnew : ∀ v ∈ store'.chain key, expiredAfter b.snapshot.ts v = false := by
        intro v hv
        rw [hafter, if_pos rfl] at hv
        rcases mem_cons.1 hv with rfl | hv
        · simp [expiredAfter, VersionStamp.committedAfter]
        · rw [hsnap]
          exact hsafe rfl a ha v (hchain ▸ mem_cons_of_mem _ hv)
      exact DeletesHide.note (hi.claim hfree)
        (hd.claim t key) hb (mem_claim_written hb) hother fun _ => hnew

lemma DeletesHide.hardenAndPublish (durable : Bool) :
    DeletesHide (M.apply (.commit t durable, .ofExcept .committed (m.hardenAndPublish t durable).2))
      (m.hardenAndPublish t durable).1 := by
  unfold TxnManager.hardenAndPublish
  cases h : m.oracle.commitTs with
  | none => exact DeletesHide.abortInternal hi hd t
  | some r =>
    obtain ⟨oracle, ts⟩ := r
    have hd' : DeletesHide M { m with oracle } := hd
    cases durable with
    | true => exact DeletesHide.publish (hi.tick h) hd' t ts
    | false => exact DeletesHide.abortInternal (hi.tick h) hd' t

lemma DeletesHide.call (c : Call) (hsafe : DeleteSafe ⟨m, log⟩ c) :
    DeletesHide (M.apply (c, (m.call c).2)) (m.call c).1 := by
  cases c with
  | begin isolation =>
    show DeletesHide M (m.beginTxn isolation).1
    rcases beginTxn_cases (m := m) isolation with ⟨e, he⟩ | ⟨-, -, he⟩
    · rw [he]
      exact hd
    · rw [he]
      exact DeletesHide.begin hi hd isolation
  | read t key =>
    show DeletesHide M (m.read t key).1
    unfold TxnManager.read
    cases m.active.lookup t with
    | none => exact hd
    | some a => exact hd
  | write t key payload => exact DeletesHide.write hi hd t key payload
  | delete t key => exact DeletesHide.delete hi hd t key hsafe
  | commit t durable =>
    show DeletesHide (M.apply (_, .ofExcept .committed (m.commit t durable).2))
      (m.commit t durable).1
    rcases commit_cases m t durable with ⟨e, he⟩ | ⟨a, ht, ⟨e, he⟩ | ⟨m0, hm0, he⟩⟩
    · rw [he]
      exact hd
    · rw [he]
      exact DeletesHide.abortInternal hi hd t
    · rw [he]
      rcases hm0 with rfl | ⟨victim, hne, rfl⟩
      · exact DeletesHide.hardenAndPublish hi hd durable
      · exact DeletesHide.hardenAndPublish (hi.abortInternal victim)
          (DeletesHide.abortInternal hi hd victim) durable
  | rollback t =>
    show DeletesHide M (m.rollback t).1
    unfold TxnManager.rollback
    cases m.active.lookup t with
    | none => exact hd
    | some a => exact DeletesHide.abortInternal hi hd t
  | runGc => exact hd.runGc

end

end DeletesHide

/-! ## Runs -/

/-- A session with no calls made yet. -/
def Session.start (maxActiveTxns : Nat) : Session := ⟨{ maxActiveTxns }, []⟩

lemma mvMapOf_snoc (log : List (Call × Reply)) (e : Call × Reply) :
    mvMapOf (log ++ [e]) = (mvMapOf log).apply e := by
  rw [mvMapOf, foldl_append]
  rfl

lemma MgrInv.start (max : Nat) :
    MgrInv (mvMapOf (Session.start max).log) (Session.start max).mgr := MgrInv.init

lemma DeletesHide.start (max : Nat) :
    DeletesHide (mvMapOf (Session.start max).log) (Session.start max).mgr := fun t a key _ h => by
  cases h

open Session (start step)

section Run

variable {max : Nat} {tr : List Call} {s : Session}

section

variable (hrun : exec step (.start max) tr = some s)

include hrun

lemma MgrInv.of_exec : MgrInv (mvMapOf s.log) s.mgr := by
  refine Run.exec_preserves (C := fun _ _ => True) (I := fun s => MgrInv (mvMapOf s.log) s.mgr)
    (fun {s c s'} hi _ hstep => ?_) (MgrInv.start max) Run.Along.always hrun
  cases hstep
  rw [mvMapOf_snoc]
  exact hi.call c

lemma DeletesHide.of_exec (hsafe : Run.Along step DeleteSafe (.start max) tr) :
    DeletesHide (mvMapOf s.log) s.mgr := by
  refine (Run.exec_preserves (C := DeleteSafe)
    (I := fun s => MgrInv (mvMapOf s.log) s.mgr ∧ DeletesHide (mvMapOf s.log) s.mgr)
    (fun {s c s'} hi hc hstep => ?_) ⟨MgrInv.start max, DeletesHide.start max⟩ hsafe hrun).2
  cases hstep
  rw [mvMapOf_snoc]
  exact ⟨hi.1.call c, DeletesHide.call hi.1 hi.2 c hc⟩

end

/-- **Snapshot reads.** In a run whose deletes are safe, a read of an active transaction returns
its own last operation on the key, else the value of the newest commit on the key at or before its
begin timestamp. A garbage collection before the read does not change it. -/
theorem read_isRead (hrun : exec step (.start max) tr = some s)
    (hsafe : Run.Along step DeleteSafe (.start max) tr) {t : Nat} {a : ActiveTxn}
    (ha : s.mgr.active.lookup t = some a) (key : Nat) :
    ∃ r, (s.mgr.read t key).2 = .ok r ∧ (s.mgr.runGc.1.read t key).2 = .ok r ∧
      (mvMapOf s.log).IsRead a.snapshot key r := by
  have hi := MgrInv.of_exec hrun
  have ha' : s.mgr.runGc.1.active.lookup t = some a := ha
  refine ⟨_, ?_, ?_, hi.isRead (DeletesHide.of_exec hrun hsafe) ha key⟩
  · exact read_of_active ha key
  · rw [read_of_active ha', hi.readVisible_runGc ha]

/-- **A key is claimed once.** An active snapshot is pinned once, and no other is. -/
theorem claimed_once (hrun : exec step (.start max) tr = some s) :
    (∀ t a u b key, s.mgr.active.lookup t = some a → s.mgr.active.lookup u = some b →
      key ∈ a.written → key ∈ b.written → t = u) ∧
    (∀ t a, s.mgr.active.lookup t = some a →
      s.mgr.oracle.activeBegins.lookup a.snapshot.ts = some 1) ∧
    ∀ ts ∈ s.mgr.oracle.activeBegins, ∃ t a, s.mgr.active.lookup t = some a ∧
    a.snapshot.ts = ts := by
  have hb := (MgrInv.of_exec hrun).books
  exact ⟨fun _ _ _ _ _ => hb.holder, fun _ _ => hb.registered, fun _ => hb.begins⟩

end Run

/-- Transaction 2 is refused the key that transaction 1 has written, 3 is rolled back, 1 commits,
and 4 writes the key. -/
def twoWriters : List Call :=
  [.begin .snapshot, .begin .serializable, .begin .serializable, .write 1 7 [1], .write 2 7 [2],
    .write 2 8 [2], .write 3 9 [3], .rollback 3, .commit 1 true, .begin .snapshot, .write 4 7 [4]]

theorem claimed_once_twoWriters : ∃ s, exec step (.start 10) twoWriters = some s ∧
    (s.log.map (·.2))[4]? = some (.refused (.writeWriteConflict 7 1)) ∧
    ((s.mgr.active.lookup 2).map (·.written), (s.mgr.active.lookup 4).map (·.written)) =
      (some [8], some [7]) ∧
    (∀ t a u b key, s.mgr.active.lookup t = some a → s.mgr.active.lookup u = some b →
      key ∈ a.written → key ∈ b.written → t = u) ∧
    (∀ t a, s.mgr.active.lookup t = some a →
      s.mgr.oracle.activeBegins.lookup a.snapshot.ts = some 1) ∧
    ∀ ts ∈ s.mgr.oracle.activeBegins, ∃ t a, s.mgr.active.lookup t = some a ∧
    a.snapshot.ts = ts := by
  have heval : (exec step (.start 10) twoWriters).map (fun s =>
      ((s.log.map (·.2))[4]?, (s.mgr.active.lookup 2).map (·.written),
        (s.mgr.active.lookup 4).map (·.written))) =
      some (some (.refused (.writeWriteConflict 7 1)), some [8], some [7]) := by decide +kernel
  obtain ⟨s, hrun, hs⟩ := Option.map_eq_some_iff.1 heval
  rw [Prod.mk.injEq] at hs
  exact ⟨s, hrun, hs.1, hs.2, claimed_once hrun⟩

/-- A reader that began before a delete committed, and a garbage collection after it. -/
def deletedUnderReader : List Call :=
  [.begin .serializable, .write 1 7 [1], .commit 1 true, .begin .serializable,
    .begin .serializable, .delete 3 7, .commit 3 true, .runGc]

theorem read_isRead_deletedUnderReader : ∃ s a, exec step (.start 10)
      deletedUnderReader = some s ∧ s.mgr.active.lookup 2 = some a ∧
    ∃ r, (s.mgr.read 2 7).2 = .ok r ∧ (s.mgr.runGc.1.read 2 7).2 = .ok r ∧
    (mvMapOf s.log).IsRead a.snapshot 7 r := by
  have heval : (exec step (.start 10) deletedUnderReader).map
      (fun s => (s.mgr.active.lookup 2).isSome) = some true := by decide +kernel
  obtain ⟨s, hrun, ha⟩ := Option.map_eq_some_iff.1 heval
  obtain ⟨a, ha⟩ := Option.isSome_iff_exists.1 ha
  exact ⟨s, a, hrun, ha, read_isRead hrun (by decide +kernel) ha 7⟩

/-- Transaction 2 writes a key that transaction 3 has deleted after transaction 2 began, and then
deletes it. -/
def deleteOverDelete : List Call :=
  [.begin .serializable, .write 1 7 [1], .commit 1 true, .begin .serializable,
    .begin .serializable, .delete 3 7, .commit 3 true, .write 2 7 [2], .delete 2 7]

/-- **The deleted key comes back.** Its last operation on the key is a delete, but transaction 2
reads the version that was current when it began. -/
theorem deleteOverDelete_not_isRead : ∃ s a, exec step (.start 10)
      deleteOverDelete = some s ∧ s.mgr.active.lookup 2 = some a ∧
    (mvMapOf s.log).pending 2 7 = some none ∧ (s.mgr.read 2 7).2 = .ok (some [1]) ∧
      ¬ (mvMapOf s.log).IsRead a.snapshot 7 (some [1]) := by
  have heval : (exec step (.start 10) deleteOverDelete).map
      (fun s => ((s.mgr.active.lookup 2).map fun a => a.snapshot.owner,
        (mvMapOf s.log).pending 2 7, (s.mgr.read 2 7).2.toOption)) =
      some (some 2, some none, some (some [1])) := by decide +kernel
  obtain ⟨s, hrun, h⟩ := Option.map_eq_some_iff.1 heval
  simp only [Prod.mk.injEq] at h
  obtain ⟨ha, hpend, hread⟩ := h
  obtain ⟨a, ha, howner⟩ := Option.map_eq_some_iff.1 ha
  have hok := read_of_active ha 7
  rw [hok] at hread
  refine ⟨s, a, hrun, ha, hpend, by rw [hok, Option.some.inj hread], fun hwrong => ?_⟩
  rw [MvMap.IsRead, howner, hpend] at hwrong
  cases hwrong

end Graphus
