import Graphus.Txn.Manager

/-!
# Bookkeeping of the manager

`Books m` says how the tables of active transactions, begin timestamps, outcomes and write claims
agree. There is one lemma per change the manager makes to them: a begin, the end of a transaction,
a tick of the clock and a write claim.
-/

namespace Graphus

open TxnManager List

/-- The tables of the manager agree. -/
structure Books (m : TxnManager) : Prop where
  owner : ∀ {t a}, m.active.lookup t = some a → a.snapshot.owner = t
  idLe : ∀ {t a}, m.active.lookup t = some a → t ≤ m.nextTxnId
  tsLe : ∀ {t a}, m.active.lookup t = some a → a.snapshot.ts ≤ m.oracle.nextCounter
  tsInj : ∀ {t a u b}, m.active.lookup t = some a → m.active.lookup u = some b →
    a.snapshot.ts = b.snapshot.ts → t = u
  begins : ∀ {ts}, ts ∈ m.oracle.activeBegins → ∃ t a, m.active.lookup t = some a ∧
    a.snapshot.ts = ts
  registered : ∀ {t a}, m.active.lookup t = some a →
    m.oracle.activeBegins.lookup a.snapshot.ts = some 1
  inFlight : ∀ {t a}, m.active.lookup t = some a → m.registry.outcome t = .inFlight
  holder : ∀ {t a u b key}, m.active.lookup t = some a → m.active.lookup u = some b →
    key ∈ a.written → key ∈ b.written → t = u

/-- What remains of the oracle when `txn` is done. -/
def TxnManager.releasedOracle (m : TxnManager) (txn : Nat) : TimestampOracle :=
  match m.active.lookup txn with
  | none => m.oracle
  | some a => (m.oracle.releaseBegin a.snapshot.ts).1

section Books

variable {m : TxnManager} {u : Nat}

lemma releasedOracle_nextCounter : (m.releasedOracle u).nextCounter = m.oracle.nextCounter := by
  unfold releasedOracle
  split
  · rfl
  · exact TimestampOracle.releaseBegin_nextCounter

lemma Books.init {max : Nat} : Books { maxActiveTxns := max } := by
  constructor <;> first | exact Nat.zero_le _ | (intros; simp_all [AList.lookup_empty])

variable {ts t txn key : Nat}

/-- After `u` is done, the oracle has its begin timestamp no more. -/
lemma Books.lookup_released (hb : Books m) : (m.releasedOracle u).activeBegins.lookup ts =
      if (m.active.lookup u).any (fun a => a.snapshot.ts = ts) then none
      else m.oracle.activeBegins.lookup ts := by
  unfold releasedOracle
  cases hu : m.active.lookup u with
  | none => rfl
  | some a =>
    show (m.oracle.releaseBegin a.snapshot.ts).1.activeBegins.lookup ts = _
    rw [TimestampOracle.releaseBegin_of_one (hb.registered hu), Dict.lookup_erase]
    by_cases h : ts = a.snapshot.ts
    · simp [h]
    · simp [h, Ne.symm h]

variable {a : ActiveTxn}

/-- A transaction is done, by commit or abort. -/
lemma Books.finish (hb : Books m) {registry store ssi}
    (hreg : ∀ t, t ≠ u → registry.outcome t = m.registry.outcome t) :
    Books { m with
      active := m.active.erase u
      oracle := m.releasedOracle u
      registry, store, ssi } := by
  have hold : ∀ {t a}, (m.active.erase u).lookup t = some a → t ≠ u ∧ m.active.lookup t = some a :=
    Dict.of_lookup_erase
  have hcounter : (m.releasedOracle u).nextCounter = m.oracle.nextCounter :=
    releasedOracle_nextCounter
  exact { hb with
      owner h := hb.owner (hold h).2
      idLe h := hb.idLe (hold h).2
      tsLe h := hcounter ▸ hb.tsLe (hold h).2
      tsInj h h' := hb.tsInj (hold h).2 (hold h').2
      begins := fun {ts} hts => by
        rw [Dict.mem_iff_lookup, hb.lookup_released] at hts
        obtain ⟨n, hn⟩ := hts
        split at hn
        · cases hn
        rename_i hne
        obtain ⟨t, a, ht, rfl⟩ := hb.begins (Dict.mem_of_lookup hn)
        refine ⟨t, a, ?_, rfl⟩
        rw [Dict.lookup_erase, if_neg, ht]
        rintro rfl
        exact hne (by simp [ht])
      registered := fun {t a} h => by
        obtain ⟨hne, ht⟩ := hold h
        rw [hb.lookup_released, if_neg, hb.registered ht]
        intro hany
        obtain ⟨b, hu, hts⟩ := (Option.any_eq_true _ _).1 hany
        exact hne (hb.tsInj ht hu (of_decide_eq_true hts).symm)
      inFlight h := (hreg _ (hold h).1).trans (hb.inFlight (hold h).2)
      holder h h' := hb.holder (hold h).2 (hold h').2 }

/-- The clock advances. -/
lemma Books.tick (hb : Books m) {oracle : TimestampOracle} (h : m.oracle.tick = some (oracle, ts))
    : Books { m with oracle } := by
  obtain ⟨rfl, -, rfl⟩ := TimestampOracle.tick_eq_some h
  exact { hb with tsLe h := Nat.le_succ_of_le (hb.tsLe h) }

/-- The state after a begin that is accepted. -/
def TxnManager.begun (m : TxnManager) (isolation : IsolationLevel) (ts : Nat) : TxnManager :=
  { m with
    oracle :=
      { nextCounter := ts
        activeBegins :=
          m.oracle.activeBegins.insert ts ((m.oracle.activeBegins.lookup ts).getD 0 + 1) }
    nextTxnId := m.nextTxnId + 1
    registry := m.registry.registerBegin (m.nextTxnId + 1)
    ssi := m.ssi.register (m.nextTxnId + 1) ts
    active := m.active.insert (m.nextTxnId + 1) { snapshot := ⟨m.nextTxnId + 1, ts⟩, isolation } }

lemma beginTxn_cases (isolation : IsolationLevel) :
    (∃ e, m.beginTxn isolation = (m, .error e)) ∨
      (m.nextTxnId + 1 ≤ maxTimestamp ∧ m.oracle.nextCounter + 1 ≤ maxTimestamp ∧
        m.beginTxn isolation =
          (m.begun isolation (m.oracle.nextCounter + 1), .ok (m.nextTxnId + 1))) := by
  unfold beginTxn
  split
  · exact .inl ⟨_, rfl⟩
  split
  · exact .inl ⟨_, rfl⟩
  cases h : m.oracle.beginTs with
  | none => exact .inl ⟨_, rfl⟩
  | some r =>
    obtain ⟨oracle, ts⟩ := r
    obtain ⟨rfl, hle, rfl⟩ := TimestampOracle.beginTs_eq_some h
    exact .inr ⟨not_lt.1 ‹_›, hle, rfl⟩

lemma lookup_begun_some {isolation : IsolationLevel}
    (h : (m.begun isolation ts).active.lookup t = some a) :
    (t = m.nextTxnId + 1 ∧ a = { snapshot := ⟨t, ts⟩, isolation }) ∨
      (t ≠ m.nextTxnId + 1 ∧ m.active.lookup t = some a) := by
  rcases Dict.of_lookup_insert h with ⟨rfl, rfl⟩ | h
  · exact .inl ⟨rfl, rfl⟩
  · exact .inr h

/-- The next timestamp is not yet active. -/
lemma Books.lookup_succ (hb : Books m) :
    m.oracle.activeBegins.lookup (m.oracle.nextCounter + 1) = none := by
  refine AList.lookup_eq_none.2 fun hmem => ?_
  obtain ⟨t, a, ht, hts⟩ := hb.begins hmem
  have := hb.tsLe ht
  omega

lemma Books.begin (hb : Books m) (isolation : IsolationLevel) :
    Books (m.begun isolation (m.oracle.nextCounter + 1)) := by
  have hlook : ∀ {ts},
    (m.begun isolation (m.oracle.nextCounter + 1)).oracle.activeBegins.lookup ts =
      if ts = m.oracle.nextCounter + 1 then some 1 else m.oracle.activeBegins.lookup ts := by
    intro ts
    rw [begun, Dict.lookup_insert, hb.lookup_succ]
    rfl
  refine
    { owner h := ?_, idLe := fun h => ?_, tsLe := fun h => ?_
      tsInj h h' heq := ?_, begins := fun {ts} h => ?_, registered := fun h => ?_
      inFlight := fun {t a} h => ?_, holder := fun h h' hk hk' => ?_ }
  · rcases lookup_begun_some h with ⟨-, rfl⟩ | ⟨-, h⟩
    · rfl
    · exact hb.owner h
  · rcases lookup_begun_some h with ⟨rfl, -⟩ | ⟨-, h⟩
    · exact le_rfl
    · exact Nat.le_succ_of_le (hb.idLe h)
  · rcases lookup_begun_some h with ⟨-, rfl⟩ | ⟨-, h⟩
    · exact le_rfl
    · exact Nat.le_succ_of_le (hb.tsLe h)
  · rcases lookup_begun_some h with ⟨rfl, rfl⟩ | ⟨-, h⟩ <;>
      rcases lookup_begun_some h' with ⟨rfl, rfl⟩ | ⟨-, h'⟩
    · rfl
    · exact absurd (heq ▸ hb.tsLe h') (Nat.not_succ_le_self _)
    · exact absurd (heq ▸ hb.tsLe h) (Nat.not_succ_le_self _)
    · exact hb.tsInj h h' heq
  · rw [Dict.mem_iff_lookup, hlook] at h
    split at h
    · rename_i hts
      exact ⟨m.nextTxnId + 1, _, by rw [begun, Dict.lookup_insert, if_pos rfl], hts.symm⟩
    obtain ⟨n, hn⟩ := h
    obtain ⟨t, a, ht, rfl⟩ := hb.begins (Dict.mem_of_lookup hn)
    refine ⟨t, a, ?_, rfl⟩
    have := hb.idLe ht
    rw [begun, Dict.lookup_insert, if_neg (by omega), ht]
  · rw [hlook]
    rcases lookup_begun_some h with ⟨-, rfl⟩ | ⟨-, h⟩
    · exact if_pos rfl
    · have := hb.tsLe h
      rw [if_neg (by omega), hb.registered h]
  · have hout : (m.begun isolation (m.oracle.nextCounter + 1)).registry.outcome t =
        if t = m.nextTxnId + 1 then .inFlight else m.registry.outcome t := by
      unfold begun CommitRegistry.registerBegin CommitRegistry.outcome
      rw [Dict.lookup_insert]
      split <;> rfl
    rw [hout]
    rcases lookup_begun_some h with ⟨rfl, -⟩ | ⟨hne, h⟩
    · exact if_pos rfl
    · rw [if_neg hne, hb.inFlight h]
  · rcases lookup_begun_some h with ⟨-, rfl⟩ | ⟨-, h⟩
    · cases hk
    · rcases lookup_begun_some h' with ⟨-, rfl⟩ | ⟨-, h'⟩
      · cases hk'
      · exact hb.holder h h' hk hk'

/-! ### Claiming a key -/

/-- The state after `txn` has claimed `key`. -/
def TxnManager.claim (m : TxnManager) (txn key : Nat) : TxnManager :=
  { m with active := m.active.modify txn fun a => { a with written := a.written.insert key } }

lemma holder_eq_none (h : m.holder txn key = none) (ht : m.active.lookup t = some a)
    (hkey : key ∈ a.written) : t = txn := by
  by_contra hne
  have := find?_eq_none.1 h t (Dict.mem_keys_iff_lookup.2 ⟨a, ht⟩)
  simp [ht, hkey, hne] at this

lemma lookup_claim_some (h : (m.claim txn key).active.lookup t = some a) :
    ∃ b, m.active.lookup t = some b ∧ a.snapshot = b.snapshot ∧
      (t ≠ txn ∧ a.written = b.written ∨ t = txn ∧ a.written = b.written.insert key) := by
  rcases Dict.of_lookup_modify h with ⟨rfl, b, hb, rfl⟩ | ⟨hne, h⟩
  · exact ⟨b, hb, rfl, .inr ⟨rfl, rfl⟩⟩
  · exact ⟨a, h, rfl, .inl ⟨hne, rfl⟩⟩

lemma lookup_claim_of_some (txn key : Nat) {b : ActiveTxn} (h : m.active.lookup t = some b) :
    ∃ a, (m.claim txn key).active.lookup t = some a ∧ a.snapshot = b.snapshot ∧ ∀ k ∈ b.written,
    k ∈ a.written := by
  rw [claim, Dict.lookup_modify]
  by_cases ht : t = txn
  · subst t
    rw [if_pos rfl, h]
    exact ⟨_, rfl, rfl, fun k hk => mem_insert_of_mem hk⟩
  · rw [if_neg ht]
    exact ⟨b, h, rfl, fun k hk => hk⟩

lemma mem_claim_written (h : (m.claim txn key).active.lookup txn = some a) : key ∈ a.written := by
  obtain ⟨b, -, -, ⟨hne, -⟩ | ⟨-, hw⟩⟩ := lookup_claim_some h
  · exact absurd rfl hne
  · rw [hw]
    exact mem_insert_self

/-- A claimed key had no other holder, so each key still has at most one. -/
lemma Books.claim (hb : Books m) (hfree : m.holder txn key = none) : Books (m.claim txn key) := by
  have hin : ∀ {t a k}, (m.claim txn key).active.lookup t = some a → k ∈ a.written →
      ∃ b, m.active.lookup t = some b ∧ (k ∈ b.written ∨ t = txn ∧ k = key) := by
    intro t a k h hk
    obtain ⟨b, hb', -, ⟨-, hw⟩ | ⟨ht, hw⟩⟩ := lookup_claim_some h
    · exact ⟨b, hb', .inl (hw ▸ hk)⟩
    · rw [hw, mem_insert_iff] at hk
      exact ⟨b, hb', hk.symm.imp_right fun hk => ⟨ht, hk⟩⟩
  have hsnap : ∀ {t a}, (m.claim txn key).active.lookup t = some a →
      ∃ b, m.active.lookup t = some b ∧ a.snapshot = b.snapshot := fun h =>
    let ⟨b, hb', hs, _⟩ := lookup_claim_some h
    ⟨b, hb', hs⟩
  refine
    { owner h := ?_, idLe := fun h => ?_, tsLe := fun h => ?_
      tsInj h h' heq := ?_, begins := fun h => ?_, registered := fun h => ?_
      inFlight h := ?_, holder := fun h h' hk hk' => ?_ }
  · obtain ⟨b, h, hs⟩ := hsnap h
    exact hs ▸ hb.owner h
  · obtain ⟨b, h, -⟩ := hsnap h
    exact hb.idLe h
  · obtain ⟨b, h, hs⟩ := hsnap h
    exact hs ▸ hb.tsLe h
  · obtain ⟨b, h, hs⟩ := hsnap h
    obtain ⟨b', h', hs'⟩ := hsnap h'
    exact hb.tsInj h h' (hs ▸ hs' ▸ heq)
  · obtain ⟨t, b, ht, hts⟩ := hb.begins h
    obtain ⟨a, ha, hs, -⟩ := lookup_claim_of_some txn key ht
    exact ⟨t, a, ha, hs ▸ hts⟩
  · obtain ⟨b, h, hs⟩ := hsnap h
    exact hs ▸ hb.registered h
  · obtain ⟨b, h, -⟩ := hsnap h
    exact hb.inFlight h
  · obtain ⟨b, h, hk⟩ := hin h hk
    obtain ⟨b', h', hk'⟩ := hin h' hk'
    rcases hk with hk | ⟨ht, hkey⟩ <;> rcases hk' with hk' | ⟨ht', hkey'⟩
    · exact hb.holder h h' hk hk'
    · exact (holder_eq_none hfree h (hkey' ▸ hk)).trans ht'.symm
    · exact ht.trans (holder_eq_none hfree h' (hkey ▸ hk')).symm
    · exact ht.trans ht'.symm

end Books

end Graphus
