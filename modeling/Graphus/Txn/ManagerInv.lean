import Graphus.Txn.Books
import Graphus.Txn.KeyHistory

/-!
# The manager implements a multi-version map

`MvMap` is what the manager is for: every transaction's last operation on every key, and for every
key the committed values with their commit timestamps. It is computed from the calls and their
replies alone, and knows nothing of version chains, the registry or garbage collection.

`MgrInv M m` relates it to the manager's state: the tables agree (`Books`), and the chain of every
key represents its history (`KeyInv`). `MgrInv.call` shows that every call preserves it, whatever
the reply.
-/

namespace Graphus

open MultiVersion Function TxnManager MemVersionedStore CommitRegistry

/-- A multi-version map with the pending operations of transactions. -/
structure MvMap where
  /-- transaction, key ↦ its last write (`some`) or delete (`none`) of the key -/
  pending : Nat → Nat → Option (Option Bytes) := fun _ _ => none
  versions : Nat → List (Nat × Option Bytes) := fun _ => []

namespace MvMap

def note (M : MvMap) (txn key : Nat) (val : Option Bytes) : MvMap :=
  { M with pending := update M.pending txn (update (M.pending txn) key (some val)) }

/-- The operations of `txn` take effect at `ts`. -/
def commit (M : MvMap) (txn ts : Nat) : MvMap :=
  { M with versions := fun key =>
      match M.pending txn key with
      | none => M.versions key
      | some val => (ts, val) :: M.versions key }

/-- What a call that got this reply does to the map. -/
def apply (M : MvMap) : Call × Reply → MvMap
  | (.write txn key payload, .done) => M.note txn key (some payload)
  | (.delete txn key, .done) => M.note txn key none
  | (.commit txn _, .committed ts) => M.commit txn ts
  | _ => M

lemma note_pending {M : MvMap} {txn key t k : Nat} {val : Option Bytes} :
    (M.note txn key val).pending t k = if t = txn ∧ k = key then some val else M.pending t k := by
  unfold note
  by_cases ht : t = txn
  · by_cases hk : k = key <;> simp [ht, hk]
  · simp [ht]

end MvMap

/-- The map a log of calls and replies denotes. -/
def mvMapOf (log : List (Call × Reply)) : MvMap := log.foldl MvMap.apply {}

/-! ## The invariant -/

/-- The operation pending on `key` of each active transaction. -/
def TxnManager.pendingOn (m : TxnManager) (M : MvMap) (key : Nat) : PendingOps := fun u =>
  (m.active.lookup u).bind fun _ => M.pending u key

/-- A timestamp some active or future transaction can read at. -/
def TxnManager.Relevant (m : TxnManager) (s : Nat) : Prop :=
  (∃ t a, m.active.lookup t = some a ∧ a.snapshot.ts ≤ s) ∨ m.oracle.nextCounter ≤ s

structure MgrInv (M : MvMap) (m : TxnManager) : Prop where
  books : Books m
  fresh : ∀ {u key}, M.pending u key ≠ none → u ≤ m.nextTxnId
  claimed : ∀ {t a key}, m.active.lookup t = some a → M.pending t key ≠ none → key ∈ a.written
  keys : ∀ key, KeyInv m.oracle.nextCounter m.Relevant (m.pendingOn M key) (m.store.chain key)
    (M.versions key)

section MgrInv

variable {M : MvMap} {m m' : TxnManager} {u t key : Nat}

lemma MgrInv.init {max : Nat} : MgrInv {} { maxActiveTxns := max } where
  books := Books.init
  fresh h := absurd rfl h
  claimed _ h := absurd rfl h
  keys key := by
    exact KeyInv.init

variable {a : ActiveTxn}

lemma pendingOn_of_active (h : m.active.lookup u = some a) :
    m.pendingOn M key u = M.pending u key := by
  rw [pendingOn, h]
  rfl

lemma pendingOn_ne_none (h : m.pendingOn M key u ≠ none) :
    ∃ a, m.active.lookup u = some a ∧ M.pending u key ≠ none := by
  unfold pendingOn at h
  cases hu : m.active.lookup u with
  | none => simp [hu] at h
  | some a => exact ⟨a, rfl, by simpa [hu] using h⟩

/-- The conflict tracker is no part of the invariant. -/
lemma MgrInv.setSsi (hi : MgrInv M m) (ssi : SsiTracker) : MgrInv M { m with ssi } :=
  { hi with
    books := { hi.books with } }

lemma MgrInv.begin (hi : MgrInv M m) (isolation : IsolationLevel) :
    MgrInv M (m.begun isolation (m.oracle.nextCounter + 1)) := by
  have hfresh : ∀ key, M.pending (m.nextTxnId + 1) key = none := by
    intro key
    by_contra h
    exact absurd (hi.fresh h) (Nat.not_succ_le_self _)
  refine
    { books := hi.books.begin isolation
      fresh h := Nat.le_succ_of_le (hi.fresh h)
      claimed h hpend := ?_
      keys key := (hi.keys key).mono (Nat.le_succ _) (fun s hs => ?_) fun u => ?_ }
  · rcases lookup_begun_some h with ⟨rfl, -⟩ | ⟨-, h⟩
    · exact absurd (hfresh _) hpend
    · exact hi.claimed h hpend
  · rcases hs with ⟨t, a, h, hle⟩ | hle
    · rcases lookup_begun_some h with ⟨-, rfl⟩ | ⟨-, h⟩
      · exact .inr (le_trans (Nat.le_succ _) hle)
      · exact .inl ⟨t, a, h, hle⟩
    · exact .inr (le_trans (Nat.le_succ _) hle)
  · unfold pendingOn
    rw [begun, Dict.lookup_insert]
    split
    · subst u
      cases h : m.active.lookup (m.nextTxnId + 1) with
      | none => exact hfresh key
      | some a => exact absurd (hi.books.idLe h) (Nat.not_succ_le_self _)
    · rfl

variable {ts w : Nat}

variable {oracle : TimestampOracle}

lemma MgrInv.tick (hi : MgrInv M m)
    (h : m.oracle.tick = some (oracle, ts)) : MgrInv M { m with oracle } := by
  have hbooks := hi.books.tick h
  obtain ⟨rfl, -, rfl⟩ := TimestampOracle.tick_eq_some h
  exact { hi with
      books := hbooks
      keys key := (hi.keys key).mono (Nat.le_succ _)
        (fun s hs => hs.imp_right (le_trans (Nat.le_succ _))) fun u => rfl }

lemma MgrInv.claim (hi : MgrInv M m) (hfree : m.holder t key = none) :
    MgrInv M (m.claim t key) where
  books := hi.books.claim hfree
  fresh := hi.fresh
  claimed h hpend := by
    obtain ⟨b, hb, -, ⟨-, hw⟩ | ⟨-, hw⟩⟩ := lookup_claim_some h
    · exact hw ▸ hi.claimed hb hpend
    · exact hw ▸ List.mem_insert_of_mem (hi.claimed hb hpend)
  keys k := by
    refine (hi.keys k).mono le_rfl (fun s hs => ?_) fun u => ?_
    · refine hs.imp_left ?_
      rintro ⟨t', a, h, hle⟩
      obtain ⟨b, hb, hs, -⟩ := lookup_claim_some h
      exact ⟨t', b, hb, hs ▸ hle⟩
    · unfold pendingOn
      rw [TxnManager.claim, Dict.lookup_modify]
      split
      · subst u
        cases m.active.lookup t <;> rfl
      · rfl

/-! ### The end of a transaction -/

lemma pendingOn_erase (hact : m'.active = m.active.erase u) :
    m'.pendingOn M key w = if w = u then none else m.pendingOn M key w := by
  unfold pendingOn
  rw [hact, Dict.lookup_erase]
  split <;> rfl

lemma relevant_erase (hact : m'.active = m.active.erase u)
    (hcounter : m.oracle.nextCounter ≤ m'.oracle.nextCounter) (s : Nat) (hs : m'.Relevant s) :
    m.Relevant s := by
  rcases hs with ⟨t, a, h, hle⟩ | hle
  · exact .inl ⟨t, a, (Dict.of_lookup_erase (hact ▸ h)).2, hle⟩
  · exact .inr (le_trans hcounter hle)

/-- No operation is pending on the key of an aborted or committed transaction, or of another one
when it was the one that had an operation there. -/
lemma MgrInv.pendingOn_finish (hi : MgrInv M m) (hact : m'.active = m.active.erase u) (key : Nat)
    (hu : m.pendingOn M key u ≠ none) : m'.pendingOn M key = fun _ => none := by
  funext w
  rw [pendingOn_erase hact]
  split
  · rfl
  · by_contra hw
    exact absurd ((hi.keys key).single hw hu) ‹_›

lemma pendingOn_finish_of_none (hact : m'.active = m.active.erase u)
    (hu : m.pendingOn M key u = none) (w : Nat) : m'.pendingOn M key w = m.pendingOn M key w := by
  rw [pendingOn_erase hact]
  split
  · rename_i hw
    rw [hw, hu]
  · rfl

lemma outcome_insert_of_ne {r : CommitRegistry} {o : TxnOutcome} (h : t ≠ u) :
    outcome ⟨r.outcomes.insert u o⟩ t = r.outcome t := by
  rw [outcome, Dict.lookup_insert, if_neg h]
  rfl

lemma MgrInv.abortInternal (hi : MgrInv M m) (u : Nat) : MgrInv M (m.abortInternal u) where
  books := hi.books.finish fun _ => outcome_insert_of_ne
  fresh := hi.fresh
  claimed h := hi.claimed (Dict.of_lookup_erase h).2
  keys key := by
    have hcounter : (m.abortInternal u).oracle.nextCounter = m.oracle.nextCounter :=
      releasedOracle_nextCounter
    have hchain : (m.abortInternal u).store.chain key = abortChain u (m.store.chain key) :=
      chain_abortWriter
    have hrel : ∀ s, (m.abortInternal u).Relevant s → m.Relevant s :=
      relevant_erase (m := m) (u := u) rfl (le_of_eq hcounter.symm)
    rw [hcounter, hchain]
    by_cases hu : m.pendingOn M key u = none
    · rw [(hi.keys key).abort_of_not_pending hu]
      exact (hi.keys key).mono le_rfl hrel (pendingOn_finish_of_none rfl hu)
    have hnone : (m.abortInternal u).pendingOn M key = fun _ => none :=
      hi.pendingOn_finish rfl key hu
    rw [hnone]
    exact (hi.keys key).abort (fun w hw => (hi.keys key).single hw hu) hrel

/-- A commit: the clock ticks, and the pending operations of the transaction take effect at the
new timestamp. -/
lemma MgrInv.publish (hi : MgrInv M m) (hu : m.active.lookup u = some a)
    (htick : m.oracle.tick = some (oracle, ts)) :
    MgrInv (M.commit u ts) (({ m with oracle } : TxnManager).publish u ts) := by
  have hbooks : Books (({ m with oracle } : TxnManager).publish u ts) :=
    (hi.books.tick htick).finish fun _ => outcome_insert_of_ne
  obtain ⟨hts, -, rfl⟩ := TimestampOracle.tick_eq_some htick
  set m' :=
    TxnManager.publish { m with oracle := { m.oracle with nextCounter := ts } } u ts with hm'
  have hcounter : m'.oracle.nextCounter = ts := releasedOracle_nextCounter
  have hrel : ∀ s, m'.Relevant s → m.Relevant s := relevant_erase (m := m) (u := u) rfl (by omega)
  refine
    { books := hbooks
      fresh := hi.fresh
      claimed h := hi.claimed (Dict.of_lookup_erase h).2
      keys key := ?_ }
  have hchain : m'.store.chain key = (m.store.chain key).map (commitVersion u ts) :=
    chain_commitWriter
  rw [hcounter, hchain]
  have hpend : m.pendingOn M key u = M.pending u key := pendingOn_of_active hu
  show KeyInv ts m'.Relevant (m'.pendingOn M key) _ _
  cases hval : M.pending u key with
  | none =>
    have hnone : m.pendingOn M key u = none := hpend.trans hval
    have hversions : (M.commit u ts).versions key = M.versions key := by simp [MvMap.commit, hval]
    rw [(hi.keys key).commit_of_not_pending hnone, hversions]
    exact (hi.keys key).mono (by omega) hrel (pendingOn_finish_of_none rfl hnone)
  | some val =>
    have hsome : m.pendingOn M key u = some val := hpend.trans hval
    have hne : m.pendingOn M key u ≠ none := by rw [hsome]; nofun
    have hversions : (M.commit u ts).versions key = (ts, val) :: M.versions key := by
      simp [MvMap.commit, hval]
    have hdone : m'.pendingOn M key = fun _ => none := hi.pendingOn_finish rfl key hne
    rw [hversions, hdone]
    exact (hi.keys key).commit (by omega) (fun w hw => (hi.keys key).single hw hne) hsome hrel

/-! ### Writes and deletes -/

section

variable (hi : MgrInv M m) (ht : m.active.lookup t = some a) (hkey : key ∈ a.written)

include hi ht hkey

/-- A transaction that has claimed the key is the only one with an operation on it. -/
lemma MgrInv.eq_of_pendingOn (hw : m.pendingOn M key w ≠ none) : w = t := by
  obtain ⟨b, hb, hpend⟩ := pendingOn_ne_none hw
  exact hi.books.holder hb ht (hi.claimed hb hpend) hkey

variable {store : MemVersionedStore}

lemma MgrInv.note {val : Option Bytes}
    (hother : ∀ k, k ≠ key → store.chain k = m.store.chain k)
    (hchange : KeyInv m.oracle.nextCounter m.Relevant (update (m.pendingOn M key) t (some val))
      (store.chain key) (M.versions key)) :
    MgrInv (M.note t key val) { m with store } where
  books := { hi.books with }
  fresh {u k} h := by
    rw [MvMap.note_pending] at h
    split at h
    · rename_i heq
      exact heq.1 ▸ hi.books.idLe ht
    · exact hi.fresh h
  claimed {u b k} hu h := by
    rw [MvMap.note_pending] at h
    split at h
    · rename_i heq
      obtain ⟨rfl, rfl⟩ := heq
      cases hu.symm.trans ht
      exact hkey
    · exact hi.claimed hu h
  keys k := by
    have hP : ∀ u, m.pendingOn (M.note t key val) k u = if k =
        key then update (m.pendingOn M k) t (some val) u else m.pendingOn M k u := by
      intro u
      by_cases hut : u = t
      · rw [hut, pendingOn_of_active ht, pendingOn_of_active ht, MvMap.note_pending]
        by_cases hk : k = key <;> simp [hk]
      · simp [pendingOn, MvMap.note_pending, hut]
    by_cases hk : k = key
    · subst hk
      exact hchange.mono le_rfl (fun s hs => hs) fun u => (hP u).trans (if_pos rfl)
    · have hchain : ({ m with store } : TxnManager).store.chain k = m.store.chain k := hother k hk
      rw [hchain]
      exact (hi.keys k).mono le_rfl (fun s hs => hs) fun u => (hP u).trans (if_neg hk)

lemma MgrInv.createVersion (payload : Bytes) :
    MgrInv (M.note t key (some payload))
    { m with store := m.store.createVersion key t payload } := by
  refine hi.note ht hkey (fun k hk => ?_) ?_
  · rw [chain_createVersion, if_neg hk]
  · rw [chain_createVersion, if_pos rfl]
    exact (hi.keys key).create fun w => hi.eq_of_pendingOn ht hkey

lemma MgrInv.expireVersion (hexp : m.store.expireVersion key t = some store) :
    MgrInv (M.note t key none) { m with store } := by
  obtain ⟨head, rest, hchain, hx, hafter⟩ := expireVersion_eq_some hexp
  refine hi.note ht hkey (fun k hk => ?_) ?_
  · rw [hafter, if_neg hk]
  · rw [hafter, if_pos rfl]
    exact (hchain ▸ hi.keys key).expire hx fun w => hi.eq_of_pendingOn ht hkey

end

lemma ensureNoConcurrentCommittedWrite_ok (ht : m.active.lookup t = some a)
    (h : (m.claim t key).ensureNoConcurrentCommittedWrite t key = .ok ())
    (hhead : m.store.headXmin key = some (.committed ts)) : ts ≤ a.snapshot.ts := by
  obtain ⟨b, hb, hsnap, -⟩ := lookup_claim_of_some t key ht
  have hhead' : (m.claim t key).store.headXmin key = some (.committed ts) := hhead
  rw [ensureNoConcurrentCommittedWrite, hb, hhead'] at h
  rw [← hsnap]
  by_contra hlt
  simp [not_le.1 hlt] at h

/-- What a write or a delete can do: nothing, take the claim only, or take it and change the
store. The head version's creator is then no commit above the snapshot. -/
lemma modifyKey_cases (m : TxnManager) (t key : Nat)
    (change : MemVersionedStore → Except TxnError MemVersionedStore) :
    (∃ e, m.modifyKey t key change = (m, .error e)) ∨
    ∃ a, m.active.lookup t = some a ∧ m.holder t key = none ∧
      ((∃ e, m.modifyKey t key change = (m.claim t key, .error e)) ∨
      ∃ store, change m.store = .ok store ∧
          (∀ ts, m.store.headXmin key = some (.committed ts) → ts ≤ a.snapshot.ts) ∧
          m.modifyKey t key change =
            ({ m.claim t key with store, ssi := m.ssi.recordWrite t key }, .ok ())) := by
  cases ht : m.active.lookup t with
  | none => exact .inl ⟨.writeInactive t, by rw [modifyKey, ht]⟩
  | some a =>
    cases hfree : m.holder t key with
    | some h =>
      refine .inl ⟨.writeWriteConflict key h, ?_⟩
      rw [modifyKey, ht, acquireWrite, hfree]
    | none =>
      refine .inr ⟨a, rfl, rfl, ?_⟩
      rw [modifyKey, ht, acquireWrite, hfree]
      dsimp only
      rw [← claim]
      cases hcheck : (m.claim t key).ensureNoConcurrentCommittedWrite t key with
      | error e => exact .inl ⟨e, rfl⟩
      | ok _ =>
        cases hchange : change m.store with
        | error e => exact .inl ⟨e, rfl⟩
        | ok store =>
          exact .inr ⟨store, rfl, fun ts => ensureNoConcurrentCommittedWrite_ok ht hcheck, rfl⟩

/-! ### Garbage collection -/

/-- A version garbage collection removes is expired for every relevant snapshot. -/
lemma MgrInv.keeps_eq_false (hi : MgrInv M m) {v : Version} (hv : v ∈ m.store.chain key)
    (hkeep : keeps m.oracle.lowWaterMark m.registry v = false) :
    ∃ e, v.xmax = .committed e ∧ ∀ s, m.Relevant s → e ≤ s := by
  have hok := (hi.keys key).xmax hv
  unfold keeps at hkeep
  cases hx : v.xmax with
  | none => simp [hx, resolveCommitTs] at hkeep
  | inFlight u =>
    rw [hx] at hok
    obtain ⟨a, ha, -⟩ := pendingOn_ne_none hok
    simp [hx, resolveCommitTs, hi.books.inFlight ha] at hkeep
  | committed e =>
    rw [hx] at hok
    refine ⟨e, rfl, fun s hs => ?_⟩
    rcases hs with ⟨t, a, ht, hle⟩ | hle
    · refine le_trans ?_ hle
      have hmem := Dict.mem_of_lookup (hi.books.registered ht)
      cases hmark : m.oracle.lowWaterMark with
      | none => exact absurd hmem (TimestampOracle.not_mem_of_lowWaterMark_none hmark)
      | some mark =>
        have hlt : e ≤ mark := by
          simpa [hx, resolveCommitTs, hmark] using hkeep
        exact le_trans hlt (TimestampOracle.lowWaterMark_le hmark hmem)
    · exact le_trans hok.2 hle

lemma outcome_pruneSettled {r : CommitRegistry} {lowWater : Option Nat}
    (h : r.outcome t = .inFlight) : (r.pruneSettled lowWater).1.outcome t = .inFlight := by
  unfold outcome at h
  rw [pruneSettled, outcome, Dict.lookup_retain]
  cases ho : r.outcomes.lookup t with
  | none => simp [ho] at h
  | some o =>
    obtain rfl : o = .inFlight := by simpa [ho] using h
    rfl

lemma chain_runGc {key : Nat} :
    m.runGc.1.store.chain key =
    (m.store.chain key).filter (keeps m.oracle.lowWaterMark m.registry) :=
  chain_gc

lemma MgrInv.runGc (hi : MgrInv M m) : MgrInv M m.runGc.1 :=
  { hi with
    books := { hi.books with inFlight := fun h => outcome_pruneSettled (hi.books.inFlight h) }
    keys key := by
      rw [chain_runGc]
      exact (hi.keys key).collect fun v hv => hi.keeps_eq_false hv }

/-! ### Every call -/

/-- The state and the map after a call. -/
def MgrInvAfter (M : MvMap) (m : TxnManager) (c : Call) : Prop :=
  MgrInv (M.apply (c, (m.call c).2)) (m.call c).1

lemma MgrInv.modifyKey (hi : MgrInv M m) {c : Call} {val : Option Bytes}
    (change : MemVersionedStore → Except TxnError MemVersionedStore)
    (hcall : m.call c = (m.modifyKey t key change).map id (.ofExcept fun _ => .done))
    (hdone : M.apply (c, .done) = M.note t key val)
    (hrefused : ∀ e, M.apply (c, .refused e) = M)
    (hchange : ∀ {a store}, (m.claim t key).active.lookup t = some a → key ∈ a.written →
      MgrInv M (m.claim t key) → change m.store = .ok store →
      MgrInv (M.note t key val) { m.claim t key with store }) : MgrInvAfter M m c := by
  rw [MgrInvAfter, hcall]
  rcases modifyKey_cases m t key change with
    ⟨e, he⟩ | ⟨a, ha, hfree, ⟨e, he⟩ | ⟨store, hstore, -, he⟩⟩
  · rw [he]
    exact (hrefused e).symm ▸ hi
  · rw [he]
    exact (hrefused e).symm ▸ hi.claim hfree
  · rw [he]
    obtain ⟨b, hb, -⟩ := lookup_claim_of_some t key ha
    exact hdone.symm ▸ (hchange hb (mem_claim_written hb) (hi.claim hfree) hstore).setSsi _

lemma MgrInv.write (hi : MgrInv M m) (t key : Nat) (payload : Bytes) :
    MgrInvAfter M m (.write t key payload) := by
  refine hi.modifyKey _ (by rw [TxnManager.call, TxnManager.write]) rfl (fun _ => rfl)
    fun hb hkey hclaim hstore => ?_
  cases hstore
  exact hclaim.createVersion hb hkey payload

lemma MgrInv.delete (hi : MgrInv M m) (t key : Nat) : MgrInvAfter M m (.delete t key) := by
  refine hi.modifyKey _ (by rw [TxnManager.call, TxnManager.delete]) rfl (fun _ => rfl)
    fun {a store} hb hkey hclaim hstore => ?_
  cases hexp : m.store.expireVersion key t with
  | none => simp [hexp] at hstore
  | some store' =>
    obtain rfl : store' = store := by simpa [hexp] using hstore
    exact hclaim.expireVersion hb hkey hexp

lemma lookup_abortInternal {victim : Nat} (h : m.active.lookup t = some a) (hne : victim ≠ t) :
    (m.abortInternal victim).active.lookup t = some a := by
  rw [abortInternal, Dict.lookup_erase, if_neg (Ne.symm hne), h]

lemma MgrInv.hardenAndPublish (hi : MgrInv M m) (ht : m.active.lookup t = some a) (durable : Bool) :
    MgrInv (M.apply (.commit t durable, .ofExcept .committed (m.hardenAndPublish t durable).2))
      (m.hardenAndPublish t durable).1 := by
  unfold TxnManager.hardenAndPublish
  cases h : m.oracle.commitTs with
  | none => exact hi.abortInternal t
  | some r =>
    cases durable with
    | true => exact hi.publish ht h
    | false => exact (hi.tick h).abortInternal t

/-- A commit is refused, or the transaction is the victim, or another victim, if any, is aborted
and the commit goes on. -/
lemma commit_cases (m : TxnManager) (t : Nat) (durable : Bool) :
    (∃ e, m.commit t durable = (m, .error e)) ∨
    ∃ a, m.active.lookup t = some a ∧ ((∃ e, m.commit t durable = (m.abortInternal t, .error e)) ∨
        ∃ m0, (m0 = m ∨ ∃ victim, victim ≠ t ∧ m0 = m.abortInternal victim) ∧
          m.commit t durable = m0.hardenAndPublish t durable) := by
  cases ht : m.active.lookup t with
  | none => exact .inl ⟨.commitInactive t, by rw [commit, ht]⟩
  | some a =>
    refine .inr ⟨a, rfl, ?_⟩
    rw [commit, ht]
    cases hv : m.ssiVictim a.isolation t with
    | none => exact .inr ⟨m, .inl rfl, by simp only [hv]⟩
    | some victim =>
      by_cases hself : victim = t
      · exact .inl ⟨.serializationFailure t, by simp only [hv, if_pos hself]⟩
      · exact .inr ⟨_, .inr ⟨victim, hself, rfl⟩, by simp only [hv, if_neg hself]⟩

lemma MgrInv.commit (hi : MgrInv M m) (t : Nat) (durable : Bool) :
    MgrInvAfter M m (.commit t durable) := by
  show MgrInv (M.apply (_, .ofExcept .committed (m.commit t durable).2)) (m.commit t durable).1
  rcases commit_cases m t durable with ⟨e, he⟩ | ⟨a, ht, ⟨e, he⟩ | ⟨m0, hm0, he⟩⟩
  · rw [he]
    exact hi
  · rw [he]
    exact hi.abortInternal t
  · rw [he]
    rcases hm0 with rfl | ⟨victim, hne, rfl⟩
    · exact hi.hardenAndPublish ht durable
    · exact (hi.abortInternal victim).hardenAndPublish (lookup_abortInternal ht hne) durable

/-- **Every call keeps the manager in step with the map**, whatever it replies. -/
lemma MgrInv.call (hi : MgrInv M m) (c : Call) : MgrInvAfter M m c := by
  cases c with
  | begin isolation =>
    show MgrInv M (m.beginTxn isolation).1
    rcases beginTxn_cases (m := m) isolation with ⟨e, he⟩ | ⟨hid, hts, he⟩
    · rw [he]
      exact hi
    · rw [he]
      exact hi.begin isolation
  | read t key =>
    show MgrInv M (m.read t key).1
    unfold TxnManager.read
    cases m.active.lookup t with
    | none => exact hi
    | some a => exact hi.setSsi _
  | write t key payload => exact hi.write t key payload
  | delete t key => exact hi.delete t key
  | commit t durable => exact hi.commit t durable
  | rollback t =>
    show MgrInv M (m.rollback t).1
    unfold rollback
    cases m.active.lookup t with
    | none => exact hi
    | some a => exact hi.abortInternal t
  | runGc => exact hi.runGc

end MgrInv

end Graphus
