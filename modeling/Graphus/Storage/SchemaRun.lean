import Graphus.Storage.SchemaChain

/-!
# The schema entries over whole runs

The invariant of the schema entries: the mutations are numbered in the order in which they were
made, the catalog and what the open transactions remember are the chains over the mutations whose
transactions have not rolled back, and the undo log of an open transaction lists all its mutations,
the oldest first. Every operation keeps it, with no condition on the run (`SchemaInv.step`).
-/

namespace Graphus.CatalogState

open Generations Function List Dict
open SchemaUndo (seq)

variable {Tid Key Val : Type} [DecidableEq Tid] {c c' : CatalogState Tid Key Val}
  {schema0 : Key → Option Val} {txn u : Tid} {a a' : CatalogTxn Key Val} {op : Op Tid Key Val}

/-- The mutations whose transactions have not rolled back. -/
def alive (c : CatalogState Tid Key Val) (w : Write Tid Key (Option Val)) : Bool :=
  decide (c.outcome w.owner ≠ .rolledBack)

/-! ## Active-set entries and outcomes -/

/-- An active-set entry is that of a transaction that is running or has committed. -/
structure TxnInv (c : CatalogState Tid Key Val) : Prop where
  outcome : ∀ u a, c.active.lookup u = some a →
    c.outcome u = if a.stage = .running then .running else .committed
  running : ∀ u, c.outcome u = .running → ∃ a, c.active.lookup u = some a

lemma TxnInv.outcome_running (hc : TxnInv c) (hu : c.active.lookup u = some a)
    (hstage : a.stage = .running) : c.outcome u = .running := by
  rw [hc.outcome u a hu, if_pos hstage]

lemma TxnInv.lookup_none (hc : TxnInv c) (hu : c.outcome u = .unused) :
    c.active.lookup u = none := by
  cases ha : c.active.lookup u with
  | none => rfl
  | some a =>
    have := hc.outcome u a ha
    rw [hu] at this
    split at this <;> cases this

lemma TxnInv.init (schema0 : Key → Option Val) (counts0 : CountKey → Nat) :
    TxnInv (init schema0 counts0 : CatalogState Tid Key Val) := by
  exact ⟨nofun, nofun⟩

/-- An active-set entry changes in place. -/
lemma TxnInv.insert (hc : TxnInv c) {outcome : Outcome}
    (hactive : c'.active = c.active.insert txn a')
    (houtcome : c'.outcome = update c.outcome txn outcome)
    (hstage : outcome = if a'.stage = .running then .running else .committed) : TxnInv c' := by
  refine ⟨fun u a hu => ?_, fun u hu => ?_⟩
  · rw [houtcome]
    rcases of_lookup_insert (hactive ▸ hu) with ⟨rfl, rfl⟩ | ⟨hk, hu⟩
    · rw [update_self, hstage]
    · rw [update_of_ne hk, hc.outcome u a hu]
  · rw [hactive, lookup_insert]
    by_cases hk : u = txn
    · exact ⟨a', if_pos hk⟩
    · rw [if_neg hk]
      rw [houtcome, update_of_ne hk] at hu
      exact hc.running u hu

lemma active_countBump (ha : c.active.lookup txn = some a) (key : CountKey) (increment : Bool) :
    (c.countBump txn key increment).active = c.active.insert txn { a with
      counts := update a.counts key (a.counts key + if increment then 1 else -1) } := by
  simp only [countBump, Dict.modify, ha]

variable {writes : List (Key × Option Val)}

lemma undoEntries_congr {schema schema' : Key → Option Val}
    {lastSeq lastSeq' : Key → Nat} (seq : Nat)
    (hagree : ∀ k ∈ writes.map Prod.fst, schema k = schema' k ∧ lastSeq k = lastSeq' k) :
    undoEntries schema lastSeq seq writes = undoEntries schema' lastSeq' seq writes := by
  induction writes generalizing seq with
  | nil => rfl
  | cons w writes ih =>
    obtain ⟨hschema, hlast⟩ := hagree w.1 mem_cons_self
    rw [undoEntries, undoEntries, hschema, hlast, ih _ fun k hk => hagree k (mem_cons_of_mem _ hk)]

/-- An active-set entry changes, and its undo log does not. -/
lemma schemaUndo_of_insert {u : Tid} {b : CatalogTxn Key Val} (ha : c.active.lookup txn = some a)
    (hu : (c.active.insert txn a').lookup u = some b) (hundo : a'.schemaUndo = a.schemaUndo) :
    ∃ a, c.active.lookup u = some a ∧ b.schemaUndo = a.schemaUndo := by
  rcases of_lookup_insert hu with ⟨rfl, rfl⟩ | ⟨-, hu⟩
  · exact ⟨a, ha, hundo⟩
  · exact ⟨b, hu, rfl⟩

variable [DecidableEq Key]

/-- The splices of a rollback change neither the count deltas nor the stages. -/
lemma lookup_undoAll (es : List (SchemaUndo Key Val))
    (r : Entries Key Val × Dict Tid (CatalogTxn Key Val))
    (u : Tid) : ∃ f : CatalogTxn Key Val → CatalogTxn Key Val,
      (es.foldl applyUndoEntry r).2.lookup u = (r.2.lookup u).map f ∧
      ∀ a, (f a).counts = a.counts ∧ (f a).stage = a.stage ∧
        (f a).schemaUndo.map seq = a.schemaUndo.map seq := by
  induction es generalizing r with
  | nil => exact ⟨id, by simp, fun a => ⟨rfl, rfl, rfl⟩⟩
  | cons e es ih =>
    obtain ⟨f, hf, hfields⟩ := lookup_applyUndoEntry r e u
    obtain ⟨g, hg, hgields⟩ := ih (applyUndoEntry r e)
    refine ⟨g ∘ f, ?_, fun a => ?_⟩
    · rw [foldl_cons, hg, hf, Option.map_map]
    · obtain ⟨h1, h2, h3⟩ := hfields a
      obtain ⟨h1', h2', h3'⟩ := hgields (f a)
      exact ⟨h1'.trans h1, h2'.trans h2, h3'.trans h3⟩

/-- The active set after a rollback. -/
lemma lookup_rollbackLogical (hu : (c.rollbackLogical txn a).active.lookup u = some a') :
    u ≠ txn ∧ ∃ b, c.active.lookup u = some b ∧ a'.counts = b.counts ∧ a'.stage = b.stage ∧
      a'.schemaUndo.map seq = b.schemaUndo.map seq := by
  change (a.schemaUndo.reverse.foldl applyUndoEntry (_, c.active.erase txn)).2.lookup u =
    some a' at hu
  obtain ⟨f, hf, hfields⟩ := lookup_undoAll a.schemaUndo.reverse
    (⟨(CountDelta.withdrawFrom a.counts c.statistics).schema, c.schemaLastSeq⟩,
    c.active.erase txn) u
  rw [hf, Option.map_eq_some_iff] at hu
  obtain ⟨b, hb, rfl⟩ := hu
  obtain ⟨hk, hb⟩ := of_lookup_erase hb
  exact ⟨hk, b, hb, hfields b⟩

lemma TxnInv.rollbackLogical (hc : TxnInv c) : TxnInv (c.rollbackLogical txn a) := by
  refine ⟨fun u a' hu => ?_, fun u hu => ?_⟩
  · obtain ⟨hne, b, hb, -, hstage, -⟩ := lookup_rollbackLogical hu
    change update c.outcome txn .rolledBack u = _
    rw [update_of_ne hne, hstage, hc.outcome u b hb]
  change update c.outcome txn .rolledBack u = _ at hu
  by_cases hk : u = txn
  · rw [hk, update_self] at hu
    cases hu
  rw [update_of_ne hk] at hu
  obtain ⟨b, hb⟩ := hc.running u hu
  obtain ⟨f, hf, -⟩ := lookup_undoAll a.schemaUndo.reverse
    (⟨(CountDelta.withdrawFrom a.counts c.statistics).schema, c.schemaLastSeq⟩,
    c.active.erase txn) u
  refine ⟨f b, ?_⟩
  change (a.schemaUndo.reverse.foldl applyUndoEntry (_, c.active.erase txn)).2.lookup u = _
  rw [hf, lookup_erase, if_neg hk, hb]
  rfl

/-! ## The schema entries -/

structure SchemaInv (schema0 : Key → Option Val) (c : CatalogState Tid Key Val) : Prop where
  ordered : Ordered c.mutations
  seq_le : ∀ w ∈ c.mutations, w.seq ≤ c.schemaSeq
  begun : ∀ w ∈ c.mutations, c.outcome w.owner ≠ .unused
  chain : Chain c.alive c.mutations schema0 ⟨c.statistics.schema, c.schemaLastSeq⟩ c.active
  ascending : ∀ u a, c.active.lookup u = some a → (a.schemaUndo.map seq).Pairwise (· < ·)
  complete : ∀ u a, c.active.lookup u = some a →
    ∀ w ∈ c.mutations, w.owner = u → w.seq ∈ a.schemaUndo.map seq

lemma SchemaInv.init (schema0 : Key → Option Val) (counts0 : CountKey → Nat) :
    SchemaInv schema0 (init schema0 counts0 : CatalogState Tid Key Val) where
  ordered := ⟨List.Pairwise.nil, nofun⟩
  seq_le := nofun
  begun := nofun
  chain := ⟨fun _ => rfl, nofun⟩
  ascending := nofun
  complete := nofun

omit [DecidableEq Tid] in
lemma EntryOk.congr {A B : Write Tid Key (Option Val) → Bool}
    {h : List (Write Tid Key (Option Val))}
    {e : SchemaUndo Key Val} (hAB : ∀ w ∈ h, A w = B w) (he : EntryOk A h schema0 txn e) :
    EntryOk B h schema0 txn e := by
  obtain ⟨w, hw, hseq, hkey, howner, halive⟩ := he.mutation
  refine ⟨⟨w, hw, hseq, hkey, howner, (hAB w hw).symm.trans halive⟩, ?_⟩
  rw [he.prev]
  refine content_congr fun w hw _ => ?_
  simp only [below, hAB w hw]

/-- An operation that changes no schema entry: an undo log stays as it is, or is that of a
transaction that begins. -/
lemma SchemaInv.frame {active outcome counts bumps} (hc : SchemaInv schema0 c)
    (halive : ∀ u, outcome u = .rolledBack ↔ c.outcome u = .rolledBack)
    (hbegun : ∀ u, c.outcome u ≠ .unused → outcome u ≠ .unused)
    (hactive : ∀ u a', active.lookup u = some a' →
      (∃ a, c.active.lookup u = some a ∧ a'.schemaUndo = a.schemaUndo) ∨
      (a'.schemaUndo = [] ∧ c.outcome u = .unused)) :
    SchemaInv schema0
    { c with active, outcome, bumps, statistics := { c.statistics with counts } } := by
  have halive' : alive { c with outcome } = c.alive := by
    funext w
    simp only [alive, ne_eq, halive]
  constructor
  case ordered => exact hc.ordered
  case seq_le => exact hc.seq_le
  case begun => exact fun w hw => hbegun _ (hc.begun w hw)
  case chain =>
    change Chain (alive { c with outcome }) _ _ _ _
    rw [halive']
    refine ⟨hc.chain.content, fun u a' hu e he => ?_⟩
    rcases hactive u a' hu with ⟨a, ha, hundo⟩ | ⟨hundo, -⟩
    · exact hc.chain.undo u a ha e (hundo ▸ he)
    · rw [hundo] at he
      cases he
  case ascending =>
    intro u a' hu
    rcases hactive u a' hu with ⟨a, ha, hundo⟩ | ⟨hundo, -⟩
    · exact hundo ▸ hc.ascending u a ha
    · rw [hundo]
      exact List.Pairwise.nil
  case complete =>
    intro u a' hu w hw howner
    rcases hactive u a' hu with ⟨a, ha, hundo⟩ | ⟨-, hunused⟩
    · exact hundo ▸ hc.complete u a ha w hw howner
    · exact absurd (howner ▸ hunused) (hc.begun w hw)

/-! ## A mutation -/

/-- A mutation of several keys is a sequence of mutations of one key. -/
lemma withSchemaUndo_cons {k : Key} {v : Option Val}
    (ha : c.active.lookup txn = some a) (hk : k ∉ writes.map Prod.fst) :
    c.withSchemaUndo txn ((k, v) :: writes) = (c.withSchemaUndo txn [(k, v)]).withSchemaUndo
    txn writes := by
  have hentries : undoEntries c.statistics.schema c.schemaLastSeq (c.schemaSeq + 1) writes =
      undoEntries (c.withSchemaUndo txn [(k, v)]).statistics.schema
        (c.withSchemaUndo txn [(k, v)]).schemaLastSeq (c.schemaSeq + 1) writes := by
    refine undoEntries_congr _ fun k' hk' => ?_
    have hne : k' ≠ k := fun h => hk (h ▸ hk')
    simp [withSchemaUndo, undoEntries, Statistics.schemaPut, hne]
  have hactive : (c.withSchemaUndo txn [(k, v)]).active = c.active.insert txn { a with schemaUndo :=
          a.schemaUndo ++ [⟨c.schemaSeq + 1, c.schemaLastSeq k, k, c.statistics.schema k⟩] } := by
    simp only [withSchemaUndo, Dict.modify, ha]
    rfl
  have hseq : (c.withSchemaUndo txn [(k, v)]).schemaSeq = c.schemaSeq + 1 := rfl
  rw [withSchemaUndo, withSchemaUndo, undoEntries, hactive, hseq, ← hentries]
  congr 1
  · simp only [length_cons]
    omega
  · simp only [Dict.modify, ha, AList.lookup_insert, AList.insert_insert, append_assoc,
      singleton_append]
  · simp [recorded, withSchemaUndo]

lemma lookup_withSchemaUndo
    (hu : (c.withSchemaUndo txn writes).active.lookup u = some a') :
    ∃ a, c.active.lookup u = some a ∧ a'.stage = a.stage ∧ a'.schemaUndo = a.schemaUndo ++
        if u = txn then undoEntries c.statistics.schema c.schemaLastSeq c.schemaSeq
          writes else [] := by
  rcases of_lookup_modify hu with ⟨rfl, a, ha, rfl⟩ | ⟨hk, hu⟩
  · exact ⟨a, ha, rfl, by rw [if_pos rfl]⟩
  · exact ⟨a', hu, rfl, by rw [if_neg hk, append_nil]⟩

lemma TxnInv.withSchemaUndo (hc : TxnInv c) (writes : List (Key × Option Val)) :
    TxnInv (c.withSchemaUndo txn writes) := by
  refine ⟨fun u a' hu => ?_, fun u hu => ?_⟩
  · obtain ⟨a, ha, hstage, -⟩ := lookup_withSchemaUndo hu
    rw [hstage]
    exact hc.outcome u a ha
  · obtain ⟨a, ha⟩ := hc.running u hu
    exact mem_iff_lookup.1 ((mem_modify _ _ _ _).2 (mem_of_lookup ha))

section

variable (hc : SchemaInv schema0 c) (houtcome : c.outcome txn = .running)

include hc houtcome

/-- **One key is written.** -/
lemma SchemaInv.put (k : Key)
    (v : Option Val) : SchemaInv schema0 (c.withSchemaUndo txn [(k, v)]) := by
  let w : Write Tid Key (Option Val) := ⟨c.schemaSeq + 1, txn, k, v⟩
  have hmutations : (c.withSchemaUndo txn [(k, v)]).mutations = w :: c.mutations := rfl
  have halive : (c.withSchemaUndo txn [(k, v)]).alive = c.alive := rfl
  have hw : c.alive w = true := decide_eq_true (houtcome ▸ nofun)
  have hlt : ∀ w' ∈ c.mutations, w'.seq < c.schemaSeq + 1 :=
    fun w' hw' => Nat.lt_succ_of_le (hc.seq_le w' hw')
  -- the entries of the undo logs are of mutations in the history, which the new one leaves
  -- as they are
  have hold : ∀ u e, EntryOk c.alive c.mutations schema0 u e →
    EntryOk c.alive (w :: c.mutations) schema0 u e := by
    rintro u e ⟨⟨w', hw', hseq, hrest⟩, hprev⟩
    refine ⟨⟨w', mem_cons_of_mem w hw', hseq, hrest⟩, ?_⟩
    rw [content_below_cons w (le_of_lt (hseq ▸ hlt w' hw')), hprev]
  have hnew : EntryOk c.alive (w :: c.mutations) schema0 txn
      ⟨c.schemaSeq + 1, c.schemaLastSeq k, k, c.statistics.schema k⟩ := by
    refine ⟨⟨w, mem_cons_self, rfl, rfl, rfl, hw⟩, ?_⟩
    rw [content_below_cons w le_rfl, content_below_of_lt hlt]
    exact hc.chain.content k
  constructor
  case ordered =>
    exact ⟨pairwise_cons.2 ⟨hlt, hc.ordered.sorted⟩,
      forall_mem_cons.2 ⟨Nat.succ_pos _, hc.ordered.pos⟩⟩
  case seq_le => exact forall_mem_cons.2 ⟨le_rfl, fun w' hw' => le_of_lt (hlt w' hw')⟩
  case begun => exact forall_mem_cons.2 ⟨houtcome ▸ nofun, hc.begun⟩
  case chain =>
    rw [halive, hmutations]
    refine ⟨fun k' => ?_, fun u a' hu e he => ?_⟩
    · rw [content_cons w hw, ← hc.chain.content k']
      by_cases hk : k' = k <;> simp [withSchemaUndo, undoEntries, Statistics.schemaPut, w, hk]
    · obtain ⟨a, ha, -, hundo⟩ := lookup_withSchemaUndo hu
      rw [hundo, mem_append] at he
      rcases he with he | he
      · exact hold u e (hc.chain.undo u a ha e he)
      by_cases hk : u = txn
      · rw [if_pos hk, undoEntries, undoEntries, mem_singleton] at he
        rw [he, hk]
        exact hnew
      · rw [if_neg hk] at he
        cases he
  case ascending =>
    intro u a' hu
    obtain ⟨a, ha, -, hundo⟩ := lookup_withSchemaUndo hu
    rw [hundo, map_append, pairwise_append]
    refine ⟨hc.ascending u a ha, ?_, ?_⟩
    · split <;> simp [undoEntries]
    intro n hn m hm
    obtain ⟨e, he, rfl⟩ := mem_map.1 hn
    obtain ⟨w', hw', hseq, -⟩ := (hc.chain.undo u a ha e he).mutation
    split at hm
    · have hm' : m = c.schemaSeq + 1 := mem_singleton.1 hm
      have := hlt w' hw'
      omega
    · cases hm
  case complete =>
    intro u a' hu w' hw' howner
    obtain ⟨a, ha, -, hundo⟩ := lookup_withSchemaUndo hu
    rw [hundo, map_append, mem_append]
    rcases mem_cons.1 hw' with rfl | hw'
    · right
      rw [if_pos howner.symm]
      exact mem_singleton.2 rfl
    · exact .inl (hc.complete u a ha w' hw' howner)

lemma SchemaInv.withSchemaUndo (ha : c.active.lookup txn = some a)
    (hkeys : (writes.map Prod.fst).Nodup) : SchemaInv schema0 (c.withSchemaUndo txn writes) := by
  induction writes generalizing c a with
  | nil =>
    refine hc.frame (fun _ => Iff.rfl) (fun _ => id) fun u a' hu => ?_
    obtain ⟨b, hb, -, hundo⟩ := lookup_withSchemaUndo hu
    exact .inl ⟨b, hb, by simpa [undoEntries] using hundo⟩
  | cons w writes ih =>
    obtain ⟨hk, hkeys⟩ := nodup_cons.1 hkeys
    rw [withSchemaUndo_cons ha hk]
    have hmem : txn ∈ (c.withSchemaUndo txn [(w.1, w.2)]).active :=
      (mem_modify _ _ _ _).2 (mem_of_lookup ha)
    obtain ⟨b, hb⟩ := mem_iff_lookup.1 hmem
    exact ih (hc.put houtcome w.1 w.2) houtcome hb hkeys

end

/-! ## A rollback -/

/-- **The mutations of a transaction are withdrawn.** -/
lemma SchemaInv.rollbackLogical (hc : SchemaInv schema0 c) (ha : c.active.lookup txn = some a) :
    SchemaInv schema0 (c.rollbackLogical txn a) := by
  have hown := hc.chain.undo txn a ha
  have herased : Chain c.alive c.mutations schema0 ⟨c.statistics.schema, c.schemaLastSeq⟩
    (c.active.erase txn) := by
    exact ⟨hc.chain.content, fun u b hb => hc.chain.undo u b (of_lookup_erase hb).2⟩
  have hdesc : a.schemaUndo.reverse.Pairwise fun e e' => e'.seq < e.seq := by
    rw [pairwise_reverse]
    exact pairwise_map.1 (hc.ascending txn a ha)
  have hundone := herased.undoAll hc.ordered (fun e he => hown e (mem_reverse.1 he)) hdesc
    (by rw [lookup_erase, if_pos rfl])
  -- the mutations withdrawn are those of the transaction
  have halive : ∀ w ∈ c.mutations, withdrawAll c.alive (a.schemaUndo.reverse.map seq) w =
      (c.rollbackLogical txn a).alive w := by
    intro w hw
    change (c.alive w && _) = decide (update c.outcome txn .rolledBack w.owner ≠ .rolledBack)
    by_cases howner : w.owner = txn
    · have hmem := hc.complete txn a ha w hw howner
      simp only [map_reverse, mem_reverse, hmem, not_true, decide_false, Bool.and_false, howner,
        update_self, ne_eq]
    have hmem : w.seq ∉ a.schemaUndo.map seq := by
      intro hmem
      obtain ⟨e, he, hseq⟩ := mem_map.1 hmem
      obtain ⟨w', hw', hseq', -, howner', -⟩ := (hown e he).mutation
      exact howner (seq_inj hc.ordered hw hw' (hseq.symm.trans hseq'.symm) ▸ howner')
    simp only [map_reverse, mem_reverse, hmem, not_false_iff, decide_true, Bool.and_true,
      update_of_ne howner, alive]
  constructor
  case ordered => exact hc.ordered
  case seq_le => exact hc.seq_le
  case begun =>
    intro w hw
    change update c.outcome txn .rolledBack w.owner ≠ .unused
    by_cases howner : w.owner = txn <;> simp [howner, hc.begun w hw]
  case chain =>
    refine ⟨fun k => ?_, fun u b hb e he => ?_⟩
    · exact (hundone.content k).trans (content_congr fun w hw _ => halive w hw)
    · exact EntryOk.congr halive (hundone.undo u b hb e he)
  case ascending =>
    intro u b hb
    obtain ⟨-, b', hb', -, -, hundo⟩ := lookup_rollbackLogical hb
    exact hundo ▸ hc.ascending u b' hb'
  case complete =>
    intro u b hb w hw howner
    obtain ⟨-, b', hb', -, -, hundo⟩ := lookup_rollbackLogical hb
    exact hundo ▸ hc.complete u b' hb' w hw howner

/-! ## Every operation -/

/-- What an operation does, and when it is not refused. -/
def Effect (c c' : CatalogState Tid Key Val) : Op Tid Key Val → Prop
  | .start txn => c.outcome txn = .unused ∧
      c' = { c with active := c.active.insert txn {}, outcome := update c.outcome txn .running }
  | .withSchemaUndo txn writes => ∃ a, c.active.lookup txn = some a ∧ a.stage = .running ∧
      (writes.map Prod.fst).Nodup ∧ c' = c.withSchemaUndo txn writes
  | .countBump txn key increment => ∃ a, c.active.lookup txn = some a ∧ a.stage = .running ∧
      c' = c.countBump txn key increment
  | .appendCommit txn => ∃ a, c.active.lookup txn = some a ∧ a.stage = .running ∧
      c' = { c.setStage txn a .logged with outcome := update c.outcome txn .committed }
  | .retireCounts txn => ∃ a, c.active.lookup txn = some a ∧ a.stage = .logged ∧
      c' = c.setStage txn { a with counts := fun _ => 0 } .retired
  | .settle txn => ∃ a, c.active.lookup txn = some a ∧ a.stage = .retired ∧
      c' = { c with active := c.active.erase txn }
  | .rollbackLogical txn => ∃ a, c.active.lookup txn = some a ∧ a.stage = .running ∧
      c' = c.rollbackLogical txn a

lemma step_effect (h : step c op = some c') : Effect c c' op := by
  cases op with
  | start txn =>
    simp only [step, Option.ite_none_right_eq_some, Option.some.injEq] at h
    exact ⟨h.1, h.2.symm⟩
  | _ txn =>
    simp only [step] at h
    split at h
    · next a ha =>
      simp only [Option.ite_none_right_eq_some, Option.some.injEq] at h
      first
        | exact ⟨a, ha, h.1, h.2.symm⟩
        | exact ⟨a, ha, h.1.1, h.1.2, h.2.symm⟩
    · cases h

lemma TxnInv.step (hc : TxnInv c) (h : step c op = some c') : TxnInv c' := by
  cases op with
  | start txn =>
    obtain ⟨-, rfl⟩ := step_effect h
    exact hc.insert rfl rfl rfl
  | withSchemaUndo txn writes =>
    obtain ⟨a, -, -, -, rfl⟩ := step_effect h
    exact hc.withSchemaUndo writes
  | countBump txn key increment =>
    obtain ⟨a, ha, hstage, rfl⟩ := step_effect h
    exact hc.insert (active_countBump ha key increment)
      (update_eq_self _ _).symm (hc.outcome txn a ha)
  | appendCommit txn =>
    obtain ⟨a, ha, hstage, rfl⟩ := step_effect h
    exact hc.insert rfl rfl rfl
  | retireCounts txn =>
    obtain ⟨a, ha, hstage, rfl⟩ := step_effect h
    refine hc.insert rfl (update_eq_self _ _).symm ?_
    change c.outcome txn = .committed
    rw [hc.outcome txn a ha, hstage]
    rfl
  | settle txn =>
    obtain ⟨a, ha, hstage, rfl⟩ := step_effect h
    refine ⟨fun u b hu => ?_, fun u hu => ?_⟩
    · exact hc.outcome u b (of_lookup_erase hu).2
    obtain ⟨b, hb⟩ := hc.running u hu
    refine ⟨b, ?_⟩
    rw [lookup_erase, if_neg, hb]
    rintro rfl
    -- the transaction that settles has committed
    have hcommitted := hc.outcome u a ha
    rw [hstage] at hcommitted
    cases hu.symm.trans hcommitted
  | rollbackLogical txn =>
    obtain ⟨a, ha, hstage, rfl⟩ := step_effect h
    exact hc.rollbackLogical

/-- **Every operation keeps the schema entries**, in any state. -/
lemma SchemaInv.step (hc : SchemaInv schema0 c) (ht : TxnInv c)
    (h : step c op = some c') : SchemaInv schema0 c' := by
  cases op with
  | start txn =>
    obtain ⟨hunused, rfl⟩ := step_effect h
    refine hc.frame (fun u => ?_) (fun u hu => ?_) fun u b hu => ?_
    · by_cases hk : u = txn <;> simp [hk, hunused]
    · by_cases hk : u = txn <;> simp [hk, hu]
    · rcases of_lookup_insert hu with ⟨rfl, rfl⟩ | ⟨-, hu⟩
      · exact .inr ⟨rfl, hunused⟩
      · exact .inl ⟨b, hu, rfl⟩
  | withSchemaUndo txn writes =>
    obtain ⟨a, ha, hstage, hkeys, rfl⟩ := step_effect h
    exact hc.withSchemaUndo (ht.outcome_running ha hstage) ha hkeys
  | countBump txn key increment =>
    obtain ⟨a, ha, hstage, rfl⟩ := step_effect h
    refine hc.frame (fun _ => Iff.rfl) (fun _ => id) fun u b hu => .inl ?_
    rw [Dict.modify, ha] at hu
    exact schemaUndo_of_insert ha hu rfl
  | appendCommit txn =>
    obtain ⟨a, ha, hstage, rfl⟩ := step_effect h
    have hrunning := ht.outcome_running ha hstage
    refine hc.frame (fun u => ?_) (fun u hu => ?_) fun u b hu =>
      .inl (schemaUndo_of_insert ha hu rfl)
    · by_cases hk : u = txn <;> simp [hk, hrunning]
    · by_cases hk : u = txn <;> simp [hk, hu]
  | retireCounts txn =>
    obtain ⟨a, ha, hstage, rfl⟩ := step_effect h
    exact hc.frame (fun _ => Iff.rfl) (fun _ => id) fun u b hu =>
      .inl (schemaUndo_of_insert ha hu rfl)
  | settle txn =>
    obtain ⟨a, ha, hstage, rfl⟩ := step_effect h
    exact hc.frame (fun _ => Iff.rfl) (fun _ => id) fun u b hu =>
      .inl ⟨b, (of_lookup_erase hu).2, rfl⟩
  | rollbackLogical txn =>
    obtain ⟨a, ha, hstage, rfl⟩ := step_effect h
    exact hc.rollbackLogical ha

end Graphus.CatalogState
