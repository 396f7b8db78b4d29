import Graphus.Txn.SnapshotReads

/-!
# First committer wins

Two committed transactions that both modified a key are not concurrent: one of them began after the
other had committed. Begin, commit and modification are read off the log of calls and replies.

The check behind this looks at the creator of the head version only. A committed delete changes no
creator, so a transaction that began before the delete can still write the key. `WriteSafe` says
that a write is not of this kind.

**Theorem (`first_committer_wins`).** In every run whose writes are safe, any two committed
transactions that modified a key are ordered.

The invariant (`FcwInv`) compares timestamps: an active transaction with an operation on a key began
after every commit on that key (`latest`), and a commit at or before its begin timestamp precedes
its begin in the log (`after`).
-/

namespace Graphus

open MultiVersion List

/-! ## What the log says -/

def Commits (e : Call × Reply) (t c : Nat) :
    Prop := ∃ durable, e = (.commit t durable, .committed c)

def Begins (e : Call × Reply) (t : Nat) : Prop := ∃ isolation, e = (.begin isolation, .began t)

/-- The event is an accepted write or delete of the key. -/
def Modifies (e : Call × Reply) (t key : Nat) : Prop :=
  (∃ payload, e = (.write t key payload, .done)) ∨ e = (.delete t key, .done)

def CommittedAt (log : List (Call × Reply)) (t c : Nat) : Prop := ∃ e ∈ log, Commits e t c

def Modified (log : List (Call × Reply)) (t key : Nat) : Prop := ∃ e ∈ log, Modifies e t key

/-- Transaction `b` began after `a` had committed. -/
def BeganAfterCommit (log : List (Call × Reply)) (a b : Nat) : Prop :=
  ∃ pre post, log = pre ++ post ∧ (∃ c, CommittedAt pre a c) ∧ ∃ e ∈ post, Begins e b

/-- A write that is accepted does not go over a head version that a commit above the snapshot has
deleted. -/
def WriteSafe (s : Session) : Call → Prop
  | .write txn key payload =>
    (s.mgr.write txn key payload).2.isOk = true → ∀ a ∈ s.mgr.active.lookup txn,
      ∀ v ∈ (s.mgr.store.chain key).head?, v.xmax.committedAfter a.snapshot.ts = false
  | _ => True

instance (s : Session) (c : Call) : Decidable (WriteSafe s c) := by
  unfold WriteSafe
  split <;> infer_instance

section Log

variable {log : List (Call × Reply)} {e : Call × Reply} {a b t c key : Nat}

lemma committedAt_snoc : CommittedAt (log ++ [e]) t c ↔ CommittedAt log t c ∨ Commits e t c := by
  simp [CommittedAt, or_and_right, exists_or]

lemma modified_snoc : Modified (log ++ [e]) t key ↔ Modified log t key ∨ Modifies e t key := by
  simp [Modified, or_and_right, exists_or]

lemma BeganAfterCommit.snoc (h : BeganAfterCommit log a b) (e : Call × Reply) :
    BeganAfterCommit (log ++ [e]) a b := by
  obtain ⟨pre, post, rfl, hc, e', he', hb⟩ := h
  exact ⟨pre, post ++ [e], append_assoc .., hc, e', mem_append_left _ he', hb⟩

/-- A cut of the log with the commit of `a` behind it and the begin of `b` before it. -/
lemma not_beganAfterCommit (pre post : List (Call × Reply)) (hlog : log = pre ++ post)
    (hcommit : ∀ e ∈ pre, ∀ c, ¬ Commits e a c) (hbegin : ∀ e ∈ post, ¬ Begins e b) :
    ¬ BeganAfterCommit log a b := by
  rintro ⟨pre', post', hlog', ⟨c, e, he, hc⟩, e', he', hb⟩
  rcases append_eq_append_iff.1 (hlog.symm.trans hlog') with ⟨x, -, rfl⟩ | ⟨x, rfl, -⟩
  · exact hbegin e' (mem_append_right x he') hb
  · exact hcommit e (mem_append_left x he) c hc

end Log

/-! ## The invariant -/

structure FcwInv (M : MvMap) (log : List (Call × Reply)) (m : TxnManager) : Prop where
  modified : ∀ {t key}, Modified log t key → M.pending t key ≠ none
  version : ∀ {t c key}, CommittedAt log t c → M.pending t key ≠ none → ∃ v, (c, v) ∈ M.versions key
  idLe : ∀ {t c}, CommittedAt log t c → t ≤ m.nextTxnId
  inactive : ∀ {t c}, CommittedAt log t c → m.active.lookup t = none
  after : ∀ {t a u c}, m.active.lookup t = some a → CommittedAt log u c → c ≤ a.snapshot.ts →
    BeganAfterCommit log u t
  latest : ∀ {t a key}, m.active.lookup t = some a → M.pending t key ≠ none →
    ∀ e ∈ M.versions key, e.1 ≤ a.snapshot.ts
  ordered : ∀ {a b c d key}, a ≠ b → CommittedAt log a c → CommittedAt log b d →
    M.pending a key ≠ none → M.pending b key ≠ none →
    BeganAfterCommit log a b ∨ BeganAfterCommit log b a

section FcwInv

variable {M : MvMap} {log : List (Call × Reply)} {m m' : TxnManager} {t key : Nat}

lemma FcwInv.start (max : Nat) :
    FcwInv (mvMapOf (Session.start max).log) (Session.start max).log (Session.start max).mgr := by
  have hnone : ∀ {t c}, ¬ CommittedAt (Session.start max).log t c := by
    rintro t c ⟨e, he, -⟩
    cases he
  refine
    { modified := ?_, version := fun h => absurd h hnone
      idLe h := absurd h hnone, inactive := fun h => absurd h hnone
      after _ h := absurd h hnone, latest := fun _ h => absurd rfl h
      ordered _ h := absurd h hnone }
  rintro t key ⟨e, he, -⟩
  cases he

/-- A step that begins and commits nothing and keeps the pending operations. -/
lemma FcwInv.shrink (hf : FcwInv M log m) (hactive : ∀ {t a}, m'.active.lookup t = some a →
      ∃ b, m.active.lookup t = some b ∧ a.snapshot = b.snapshot)
    (hid : m'.nextTxnId = m.nextTxnId) : FcwInv M log m' :=
  { hf with
    idLe h := hid ▸ hf.idLe h
    inactive {t c} h := by
      cases ht : m'.active.lookup t with
      | none => rfl
      | some a =>
        obtain ⟨b, hb, -⟩ := hactive ht
        cases (hf.inactive h).symm.trans hb
    after ha hc hle := by
      obtain ⟨b, hb, hsnap⟩ := hactive ha
      exact hf.after hb hc (hsnap ▸ hle)
    latest ha hpend e he := by
      obtain ⟨b, hb, hsnap⟩ := hactive ha
      exact hsnap ▸ hf.latest hb hpend e he }

/-- The invariant after a call. -/
def FcwInvAfter (M : MvMap) (log : List (Call × Reply)) (m : TxnManager) (c : Call) : Prop :=
  FcwInv (M.apply (c, (m.call c).2)) (log ++ [(c, (m.call c).2)]) (m.call c).1

/-- An event that commits nothing. -/
lemma FcwInv.append (hf : FcwInv M log m) {e : Call × Reply} (hcommit : ∀ t c, ¬ Commits e t c)
    (hmodify : ∀ t key, Modifies e t key → M.pending t key ≠ none) : FcwInv M (log ++ [e]) m := by
  have hold : ∀ {t c}, CommittedAt (log ++ [e]) t c → CommittedAt log t c := fun h =>
    (committedAt_snoc.1 h).resolve_right (hcommit _ _)
  exact
    { modified h := (modified_snoc.1 h).elim hf.modified (hmodify _ _)
      version h := hf.version (hold h)
      idLe h := hf.idLe (hold h)
      inactive h := hf.inactive (hold h)
      after ha hc hle := (hf.after ha (hold hc) hle).snoc e
      latest := hf.latest
      ordered hne h h' hp hp' :=
        (hf.ordered hne (hold h) (hold h') hp hp').imp (·.snoc e) (·.snoc e) }

/-- An event that commits and modifies nothing. -/
lemma FcwInv.quiet (hf : FcwInv M log m) {e : Call × Reply}
    (hquiet : ∀ t c key, ¬ (Commits e t c ∨ Modifies e t key)) : FcwInv M (log ++ [e]) m :=
  hf.append (fun t c h => hquiet t c 0 (.inl h)) fun t key h => absurd (.inr h) (hquiet t 0 key)

lemma FcwInv.refused (hf : FcwInv M log m) (c : Call) (err : TxnError) :
    FcwInv (M.apply (c, .refused err)) (log ++ [(c, .refused err)]) m := by
  have hM : M.apply (c, .refused err) = M := by cases c <;> rfl
  rw [hM]
  refine hf.quiet ?_
  rintro t c key (⟨d, h⟩ | ⟨p, h⟩ | h) <;> cases h

lemma FcwInv.begin (hi : MgrInv M m) (hf : FcwInv M log m) (isolation : IsolationLevel) :
    FcwInv M (log ++ [(.begin isolation, .began (m.nextTxnId + 1))])
      (m.begun isolation (m.oracle.nextCounter + 1)) := by
  have hbegin : ∀ t c key, ¬ (Commits (.begin isolation, .began (m.nextTxnId + 1)) t c ∨
      Modifies (.begin isolation, .began (m.nextTxnId + 1)) t key) := by
    rintro t c key (⟨d, h⟩ | ⟨p, h⟩ | h) <;> cases h
  have hq := hf.quiet hbegin
  refine { hq with
    idLe h := Nat.le_succ_of_le (hq.idLe h)
    inactive := fun {t c} h => ?_, after := fun ha hc hle => ?_, latest := fun ha hpend => ?_ }
  · have hid := hq.idLe h
    rw [TxnManager.begun, Dict.lookup_insert, if_neg (by omega)]
    exact hq.inactive h
  · rcases lookup_begun_some ha with ⟨rfl, -⟩ | ⟨-, ha⟩
    · have hc := (committedAt_snoc.1 hc).resolve_right fun h => hbegin _ _ 0 (.inl h)
      exact ⟨log, _, rfl, ⟨_, hc⟩, _, mem_singleton_self _, isolation, rfl⟩
    · exact hq.after ha hc hle
  · rcases lookup_begun_some ha with ⟨rfl, -⟩ | ⟨-, ha⟩
    · exact absurd (hi.fresh hpend) (Nat.not_succ_le_self _)
    · exact hf.latest ha hpend

variable {a : ActiveTxn} {val : Option Bytes}

/-- An accepted operation on a key whose commits are all visible to the transaction. -/
lemma FcwInv.note (hf : FcwInv M log m) (ht : m.active.lookup t = some a)
    (hseen : ∀ e ∈ M.versions key, e.1 ≤ a.snapshot.ts) : FcwInv (M.note t key val) log m := by
  have hpending : ∀ {u c k}, CommittedAt log u c →
    (M.note t key val).pending u k = M.pending u k := by
    intro u c k h
    rw [MvMap.note_pending, if_neg]
    rintro ⟨rfl, -⟩
    cases (hf.inactive h).symm.trans ht
  refine { hf with
    modified := fun {u k} h => ?_
    version h hp := hf.version h (hpending h ▸ hp)
    latest := fun {u b k} hb hp => ?_
    ordered hne h h' hp hp' := hf.ordered hne h h' (hpending h ▸ hp) (hpending h' ▸ hp') }
  · rw [MvMap.note_pending]
    split
    · nofun
    · exact hf.modified h
  · rw [MvMap.note_pending] at hp
    split at hp
    · rename_i heq
      obtain ⟨rfl, rfl⟩ := heq
      cases ht.symm.trans hb
      exact hseen
    · exact hf.latest hb hp

/-- When no operation on the key is pending, its head version carries a commit the transaction
does not see. -/
lemma MgrInv.head_carries (hi : MgrInv M m) (ht : m.active.lookup t = some a)
    (hfree : m.holder t key = none) (hpend : M.pending t key = none) {c : Nat}
    {h : List (Nat × Option Bytes)} (hversions : M.versions key = (c, val) :: h)
    (hlt : a.snapshot.ts < c) : ∃ v, (m.store.chain key).head? = some v ∧ Carries c val v := by
  have hk := hi.keys key
  have hnone : ∀ u, m.pendingOn M key u = none := by
    intro u
    by_contra hu
    obtain ⟨b, hb, hpend'⟩ := pendingOn_ne_none hu
    obtain rfl := holder_eq_none hfree hb (hi.claimed hb hpend')
    exact hpend' hpend
  have hcommitted : (m.store.chain key).filter Version.isCommitted = m.store.chain key := by
    refine filter_eq_self.2 fun v hv => ?_
    have hne := hk.created hv
    have hok := hk.xmin hv
    unfold Version.isCommitted
    cases hx : v.xmin with
    | none => exact absurd hx hne
    | committed t => rfl
    | inFlight u =>
      rw [hx] at hok
      exact absurd (hnone u) hok
  obtain ⟨v, rest, hf, hcar⟩ := hk.newest hversions (.inl ⟨t, a, ht, le_rfl⟩) hlt
  rw [hcommitted] at hf
  exact ⟨v, by rw [hf]; rfl, hcar⟩

lemma FcwInv.abortInternal (hf : FcwInv M log m) (u : Nat) : FcwInv M log (m.abortInternal u) :=
  hf.shrink (fun h => ⟨_, (Dict.of_lookup_erase h).2, rfl⟩) rfl

section

variable (hi : MgrInv M m) (hf : FcwInv M log m)

include hi hf

/-- An operation that passes the head check, on a head that no later commit has deleted, sees every
commit on the key. -/
lemma FcwInv.seen (ht : m.active.lookup t = some a) (hfree : m.holder t key = none)
    (hcheck : ∀ ts, m.store.headXmin key = some (.committed ts) → ts ≤ a.snapshot.ts)
    (hsafe : ∀ v ∈ (m.store.chain key).head?, v.xmax.committedAfter a.snapshot.ts = false) :
    ∀ e ∈ M.versions key, e.1 ≤ a.snapshot.ts := by
  by_cases hpend : M.pending t key = none
  · cases hversions : M.versions key with
    | nil => simp
    | cons e h =>
      obtain ⟨c, val⟩ := e
      have hc : c ≤ a.snapshot.ts := by
        by_contra hlt
        obtain ⟨v, hhead, hcar⟩ := hi.head_carries ht hfree hpend hversions (not_le.1 hlt)
        cases val with
        | some p => exact hlt (hcheck c (by rw [MemVersionedStore.headXmin, hhead]; simp [hcar.1]))
        | none =>
          have hx : v.xmax = .committed c := hcar
          have := hsafe v hhead
          rw [hx] at this
          simp only [VersionStamp.committedAfter, decide_eq_false_iff_not, Nat.not_lt] at this
          exact hlt this
      have hdesc := (hi.keys key).desc
      rw [hversions] at hdesc
      intro e he
      rcases mem_cons.1 he with rfl | he
      · exact hc
      · exact le_trans (le_of_lt ((pairwise_cons.1 hdesc).1 e he)) hc
  · exact hf.latest ht hpend

lemma FcwInv.modifyKey {c : Call} (change : MemVersionedStore → Except TxnError MemVersionedStore)
    (hcall : m.call c = (m.modifyKey t key change).map id (.ofExcept fun _ => .done))
    (hdone : M.apply (c, .done) = M.note t key val) (hcommit : ∀ u ts, ¬ Commits (c, .done) u ts)
    (hmodify : ∀ u k, Modifies (c, .done) u k → u = t ∧ k = key)
    (hsafe : ∀ {store}, change m.store = .ok store → (m.modifyKey t key change).2.isOk = true →
    ∀ a ∈ m.active.lookup t, ∀ v ∈ (m.store.chain key).head?,
    v.xmax.committedAfter a.snapshot.ts = false) :
    FcwInvAfter M log m c := by
  have hclaim : FcwInv M log (m.claim t key) :=
    hf.shrink (fun h =>
        let ⟨b, hb, hs, _⟩ := lookup_claim_some h
        ⟨b, hb, hs⟩)
      rfl
  rw [FcwInvAfter, hcall]
  rcases modifyKey_cases m t key change with
    ⟨e, he⟩ | ⟨a, ha, hfree, ⟨e, he⟩ | ⟨store, hstore, hcheck, he⟩⟩
  · rw [he]
    exact hf.refused c e
  · rw [he]
    exact hclaim.refused c e
  · have hseen := hf.seen hi ha hfree hcheck (hsafe hstore (by rw [he]; rfl) a ha)
    rw [he]
    obtain ⟨b, hb, hsnap, -⟩ := lookup_claim_of_some t key ha
    have hnote : FcwInv (M.note t key val) (log ++ [(c, .done)]) (m.claim t key) :=
      (hclaim.note hb (hsnap ▸ hseen)).append hcommit fun u k h => by
        obtain ⟨rfl, rfl⟩ := hmodify u k h
        simp [MvMap.note_pending]
    exact hdone.symm ▸ hnote.shrink (fun h => ⟨_, h, rfl⟩) rfl

lemma FcwInv.write (payload : Bytes) (hsafe : WriteSafe ⟨m, log⟩ (.write t key payload)) :
    FcwInvAfter M log m (.write t key payload) := by
  refine FcwInv.modifyKey hi hf _ (by rw [TxnManager.call, TxnManager.write]) rfl ?_ ?_
    fun _ hok => hsafe hok
  · rintro u ts ⟨d, h⟩
    cases h
  · rintro u k (⟨p, h⟩ | h) <;> cases h
    exact ⟨rfl, rfl⟩

lemma FcwInv.delete : FcwInvAfter M log m (.delete t key) := by
  refine FcwInv.modifyKey hi hf _ (by rw [TxnManager.call, TxnManager.delete]) rfl ?_ ?_ ?_
  · rintro u ts ⟨d, h⟩
    cases h
  · rintro u k (⟨p, h⟩ | h) <;> cases h
    exact ⟨rfl, rfl⟩
  · -- a delete needs a live head
    intro store hstore _ a _ v hv
    cases hexp : m.store.expireVersion key t with
    | none => simp [hexp] at hstore
    | some store' =>
      obtain ⟨head, rest, hchain, hx, -⟩ := MemVersionedStore.expireVersion_eq_some hexp
      rw [hchain] at hv
      cases hv
      rw [hx]
      rfl

/-- A commit: whoever committed on a key of the transaction is seen by it, so it committed before
the transaction began. -/
lemma FcwInv.publish (ht : m.active.lookup t = some a) {oracle : TimestampOracle} {ts : Nat}
    (htick : m.oracle.tick = some (oracle, ts)) :
    FcwInv (M.commit t ts) (log ++ [(.commit t true, .committed ts)])
      (({ m with oracle } : TxnManager).publish t ts) := by
  obtain ⟨hts, -, rfl⟩ := TimestampOracle.tick_eq_some htick
  set m' :=
    TxnManager.publish { m with oracle := { m.oracle with nextCounter := ts } } t ts with hm'
  set e : Call × Reply := (.commit t true, .committed ts) with he
  have hcounter : m'.oracle.nextCounter = ts := releasedOracle_nextCounter
  have hcases : ∀ {u c}, CommittedAt (log ++ [e]) u c → CommittedAt log u c ∨ u = t ∧ c = ts := by
    intro u c h
    refine (committedAt_snoc.1 h).imp_right ?_
    rintro ⟨d, h⟩
    cases he.symm.trans h
    exact ⟨rfl, rfl⟩
  have hversions : ∀ {key x}, x ∈ M.versions key → x ∈ (M.commit t ts).versions key := by
    intro key x hx
    unfold MvMap.commit
    cases hp : M.pending t key with
    | none => simpa [hp] using hx
    | some val => simp [hp, hx]
  have hold : ∀ {u b}, m'.active.lookup u = some b → u ≠ t ∧ m.active.lookup u = some b :=
    fun h => Dict.of_lookup_erase h
  have hnew : ∀ {u c key}, CommittedAt log u c → M.pending u key ≠ none →
      M.pending t key ≠ none → BeganAfterCommit (log ++ [e]) u t := by
    intro u c key hc hp hpt
    obtain ⟨v, hv⟩ := hf.version hc hp
    exact (hf.after ht hc (hf.latest ht hpt _ hv)).snoc e
  refine
    { modified h := ?_, version := fun {u c key} h hp => ?_
      idLe h := ?_, inactive := fun {u c} h => ?_, after := fun hb hc hle => ?_
      latest := fun {u b key} hb hp => ?_, ordered := fun {u w c d key} hne h h' hp hp' => ?_ }
  · refine hf.modified ((modified_snoc.1 h).resolve_right ?_)
    rintro (⟨p, h⟩ | h) <;> cases he.symm.trans h
  · rcases hcases h with h | ⟨rfl, rfl⟩
    · obtain ⟨v, hv⟩ := hf.version h hp
      exact ⟨v, hversions hv⟩
    · have hp : M.pending u key ≠ none := hp
      obtain ⟨val, hval⟩ := Option.ne_none_iff_exists'.1 hp
      exact ⟨val, by simp [MvMap.commit, hval]⟩
  · rcases hcases h with h | ⟨rfl, -⟩
    · exact hf.idLe h
    · exact hi.books.idLe ht
  · cases hb : m'.active.lookup u with
    | none => rfl
    | some b =>
      obtain ⟨hne, hb⟩ := hold hb
      rcases hcases h with h | ⟨rfl, -⟩
      · cases (hf.inactive h).symm.trans hb
      · exact absurd rfl hne
  · obtain ⟨-, hb'⟩ := hold hb
    rcases hcases hc with hc' | ⟨-, hc'⟩
    · exact (hf.after hb' hc' hle).snoc e
    · have := hi.books.tsLe hb'
      omega
  · -- another active transaction with an operation on the key: `t` has none there
    obtain ⟨hne, hb⟩ := hold hb
    have hnone := hi.pendingOn_of_ne hb hp hne
    rw [pendingOn_of_active ht] at hnone
    have : (M.commit t ts).versions key = M.versions key := by simp [MvMap.commit, hnone]
    rw [this]
    exact hf.latest hb hp
  · rcases hcases h with h1 | ⟨h1, -⟩ <;> rcases hcases h' with h2 | ⟨h2, -⟩
    · exact (hf.ordered hne h1 h2 hp hp').imp (·.snoc e) (·.snoc e)
    · exact .inl (h2 ▸ hnew h1 hp (h2 ▸ hp'))
    · exact .inr (h1 ▸ hnew h2 hp' (h1 ▸ hp))
    · exact absurd (h1.trans h2.symm) hne

lemma FcwInv.hardenAndPublish (ht : m.active.lookup t = some a) (durable : Bool) {r : Reply}
    (hr : r = .ofExcept .committed (m.hardenAndPublish t durable).2) :
    FcwInv (M.apply (.commit t durable, r)) (log ++ [(.commit t durable, r)])
    (m.hardenAndPublish t durable).1 := by
  subst hr
  unfold TxnManager.hardenAndPublish
  cases h : m.oracle.commitTs with
  | none => exact (hf.abortInternal t).refused _ _
  | some r =>
    obtain ⟨oracle, ts⟩ := r
    cases durable with
    | true => exact FcwInv.publish hi hf ht h
    | false =>
      have htick : FcwInv M log { m with oracle } := hf.shrink (fun h => ⟨_, h, rfl⟩) rfl
      exact (htick.abortInternal t).refused _ _

lemma FcwInv.commit (t : Nat) (durable : Bool) {r : Reply}
    (hr : r = .ofExcept .committed (m.commit t durable).2) :
    FcwInv (M.apply (.commit t durable, r)) (log ++ [(.commit t durable, r)])
    (m.commit t durable).1 := by
  rcases commit_cases m t durable with ⟨e, he⟩ | ⟨a, ht, ⟨e, he⟩ | ⟨m0, hm0, he⟩⟩
  · rw [he] at hr ⊢
    exact hr ▸ hf.refused _ e
  · rw [he] at hr ⊢
    exact hr ▸ (hf.abortInternal t).refused _ e
  · rw [he] at hr ⊢
    rcases hm0 with rfl | ⟨victim, hne, rfl⟩
    · exact FcwInv.hardenAndPublish hi hf ht durable hr
    · exact FcwInv.hardenAndPublish (hi.abortInternal victim) (hf.abortInternal victim)
        (lookup_abortInternal ht hne) durable hr

lemma FcwInv.call (c : Call) (hsafe : WriteSafe ⟨m, log⟩ c) : FcwInvAfter M log m c := by
  unfold FcwInvAfter
  cases c with
  | begin isolation =>
    rw [TxnManager.call]
    rcases beginTxn_cases (m := m) isolation with ⟨e, he⟩ | ⟨-, -, he⟩
    · rw [he]
      exact hf.refused _ e
    · rw [he]
      exact FcwInv.begin hi hf isolation
  | read t key =>
    rw [TxnManager.call, TxnManager.read]
    cases m.active.lookup t with
    | none => exact hf.refused _ _
    | some a =>
      have hread : FcwInv M log { m with ssi := m.ssi.recordRead t key } :=
        hf.shrink (fun h => ⟨_, h, rfl⟩) rfl
      refine hread.quiet ?_
      rintro u ts k (⟨d, h⟩ | ⟨p, h⟩ | h) <;> cases h
  | write t key payload => exact FcwInv.write hi hf payload hsafe
  | delete t key => exact FcwInv.delete hi hf
  | commit t durable => exact FcwInv.commit hi hf t durable rfl
  | rollback t =>
    rw [TxnManager.call, TxnManager.rollback]
    cases m.active.lookup t with
    | none => exact hf.refused _ _
    | some a =>
      refine (hf.abortInternal t).quiet ?_
      rintro u ts k (⟨d, h⟩ | ⟨p, h⟩ | h) <;> cases h
  | runGc =>
    have hgc : FcwInv M log m.runGc.1 := hf.shrink (fun h => ⟨_, h, rfl⟩) rfl
    refine hgc.quiet ?_
    rintro u ts k (⟨d, h⟩ | ⟨p, h⟩ | h) <;> cases h

end

end FcwInv

open Session (log start step)

/-! ## Runs -/

section Run

variable {max : Nat} {tr : List Call} {s : Session}

lemma FcwInv.of_exec (hrun : Run.exec step (.start max) tr = some s)
    (hsafe : Run.Along step WriteSafe (.start max) tr) :
    FcwInv (mvMapOf s.log) s.log s.mgr := by
  refine (Run.exec_preserves (C := WriteSafe)
    (I := fun s => MgrInv (mvMapOf s.log) s.mgr ∧ FcwInv (mvMapOf s.log) s.log s.mgr)
    (fun {s c s'} hi hc hstep => ?_) ⟨MgrInv.start max, FcwInv.start max⟩ hsafe hrun).2
  cases hstep
  rw [mvMapOf_snoc]
  exact ⟨hi.1.call c, FcwInv.call hi.1 hi.2 c hc⟩

/-- **First committer wins.** In a run whose writes are safe, of two committed transactions that
wrote or deleted one key, one began after the other had committed. -/
theorem first_committer_wins (hrun : Run.exec step (.start max) tr = some s)
    (hsafe : Run.Along step WriteSafe (.start max) tr) {a b c d key : Nat} (hne : a ≠ b)
    (ha : CommittedAt s.log a c) (hb : CommittedAt s.log b d) (hma : Modified s.log a key)
    (hmb : Modified s.log b key) :
    BeganAfterCommit s.log a b ∨ BeganAfterCommit s.log b a :=
  have hf := FcwInv.of_exec hrun hsafe
  hf.ordered hne ha hb (hf.modified hma) (hf.modified hmb)

end Run

/-- Transaction 3 rewrites the key after transaction 2, which deleted it, has committed. -/
def rewriteAfterDelete : List Call :=
  [.begin .serializable, .write 1 7 [1], .commit 1 true, .begin .serializable, .delete 2 7,
    .commit 2 true, .begin .serializable, .write 3 7 [2], .commit 3 true]

def rewriteAfterDeleteLog : List (Call × Reply) :=
  [(.begin .serializable, .began 1), (.write 1 7 [1], .done), (.commit 1 true, .committed 2),
    (.begin .serializable, .began 2), (.delete 2 7, .done), (.commit 2 true, .committed 4),
    (.begin .serializable, .began 3), (.write 3 7 [2], .done), (.commit 3 true, .committed 6)]

theorem first_committer_wins_rewriteAfterDelete : ∃ s, Run.exec step (.start 10)
      rewriteAfterDelete = some s ∧ CommittedAt s.log 2 4 ∧ CommittedAt s.log 3 6 ∧
    (BeganAfterCommit s.log 2 3 ∨ BeganAfterCommit s.log 3 2) := by
  have heval : (Run.exec step (.start 10) rewriteAfterDelete).map log =
      some rewriteAfterDeleteLog := by decide +kernel
  obtain ⟨s, hrun, hlog⟩ := Option.map_eq_some_iff.1 heval
  have h2 : CommittedAt s.log 2 4 :=
    ⟨(.commit 2 true, .committed 4), by rw [hlog]; decide, true, rfl⟩
  have h3 : CommittedAt s.log 3 6 :=
    ⟨(.commit 3 true, .committed 6), by rw [hlog]; decide, true, rfl⟩
  have hmod : Modified s.log 2 7 := ⟨(.delete 2 7, .done), by rw [hlog]; decide, .inr rfl⟩
  have hmod' : Modified s.log 3 7 :=
    ⟨(.write 3 7 [2], .done), by rw [hlog]; decide, .inl ⟨[2], rfl⟩⟩
  exact ⟨s, hrun, h2, h3, first_committer_wins hrun (by decide +kernel)
    (by decide) h2 h3 hmod hmod'⟩

/-- Transaction 2 writes a key that transaction 3 has deleted after transaction 2 began. -/
def writeOverDelete : List Call :=
  [.begin .serializable, .write 1 7 [1], .commit 1 true, .begin .serializable,
    .begin .serializable, .delete 3 7, .commit 3 true, .write 2 7 [2], .commit 2 true]

def writeOverDeleteLog : List (Call × Reply) :=
  [(.begin .serializable, .began 1), (.write 1 7 [1], .done), (.commit 1 true, .committed 2),
    (.begin .serializable, .began 2), (.begin .serializable, .began 3), (.delete 3 7, .done),
    (.commit 3 true, .committed 5), (.write 2 7 [2], .done), (.commit 2 true, .committed 6)]

/-- **Both win.** Transactions 2 and 3 are concurrent, both modify the key and both commit. -/
theorem writeOverDelete_both_commit : ∃ s, Run.exec step (.start 10)
      writeOverDelete = some s ∧ CommittedAt s.log 2 6 ∧ CommittedAt s.log 3 5 ∧
    Modified s.log 2 7 ∧ Modified s.log 3 7 ∧ ¬ BeganAfterCommit s.log 2 3 ∧
    ¬ BeganAfterCommit s.log 3 2 := by
  have heval : (Run.exec step (.start 10) writeOverDelete).map log =
      some writeOverDeleteLog := by decide +kernel
  obtain ⟨s, hrun, hlog⟩ := Option.map_eq_some_iff.1 heval
  refine ⟨s, hrun, ⟨(.commit 2 true, .committed 6), by rw [hlog]; decide, true, rfl⟩,
    ⟨(.commit 3 true, .committed 5), by rw [hlog]; decide, true, rfl⟩,
    ⟨(.write 2 7 [2], .done), by rw [hlog]; decide, .inl ⟨[2], rfl⟩⟩,
    ⟨(.delete 3 7, .done), by rw [hlog]; decide, .inr rfl⟩, ?_, ?_⟩
  -- both have begun after five events, and no commit of either is among them
  all_goals
    refine not_beganAfterCommit (writeOverDeleteLog.take 5) (writeOverDeleteLog.drop 5)
      (hlog.trans (take_append_drop 5 _).symm) ?_ ?_
    · simp [writeOverDeleteLog, Commits]
    · simp [writeOverDeleteLog, Begins]

end Graphus
