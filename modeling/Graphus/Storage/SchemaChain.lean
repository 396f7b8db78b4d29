import Graphus.Storage.SchemaCatalog

/-!
# The chains of schema undo entries

An open transaction remembers, for each schema entry it has written, the content below its own
generation among the mutations that have not been rolled back (`EntryOk`). With the live catalog
being the content of all of them, these are the two halves of the invariant (`Chain`).

**Theorem (`Chain.undo`).** Undoing one entry withdraws one mutation from both halves: either the
mutation was on top, and the entry is restored, or it was not, and it is spliced out of what the
others remember. A rollback does this for all mutations of its transaction, the newest first
(`Chain.applySchemaUndo`).

A withdrawal from a copy needs no splice, when the mutations of all other transactions are withdrawn
in descending order (`content_undoAll`).
-/

namespace Graphus.CatalogState

open Generations List
open SchemaUndo (seq)

variable {Tid Key Val : Type} {A B : Write Tid Key (Option Val) → Bool}
  {h : List (Write Tid Key (Option Val))} {init : Key → Option Val} {txn : Tid}
  {e e' : SchemaUndo Key Val} {entries : Entries Key Val} {n : Nat}

lemma seq_inj (hh : Ordered h) {w w' : Write Tid Key (Option Val)} (hw : w ∈ h) (hw' : w' ∈ h)
    (hseq : w.seq = w'.seq) : w = w' := by
  induction h with
  | nil => cases hw
  | cons x h ih =>
    obtain ⟨hx, hsorted⟩ := pairwise_cons.1 hh.sorted
    have hrest : Ordered h := ⟨hsorted, fun w hw => hh.pos w (mem_cons_of_mem x hw)⟩
    rcases mem_cons.1 hw with rfl | hmem <;> rcases mem_cons.1 hw' with rfl | hmem'
    · rfl
    · exact absurd (hx w' hmem') (by omega)
    · exact absurd (hx w hmem) (by omega)
    · exact ih hrest hmem hmem'

lemma below_withdraw_comm (m : Nat) : below (withdraw A n) m = withdraw (below A m) n := by
  funext w
  exact Bool.and_right_comm _ _ _

/-- The mutations alive when several are withdrawn. -/
def withdrawAll (A : Write Tid Key (Option Val) → Bool) (seqs : List Nat)
    (w : Write Tid Key (Option Val)) : Bool :=
  A w && decide (w.seq ∉ seqs)

lemma withdrawAll_nil : withdrawAll A [] = A := by
  funext w
  simp [withdrawAll]

lemma withdrawAll_cons (A : Write Tid Key (Option Val) → Bool) (seqs : List Nat) :
    withdrawAll (withdraw A n) seqs = withdrawAll A (n :: seqs) := by
  funext w
  simp [withdrawAll, withdraw, Bool.and_assoc]

variable [DecidableEq Key]

/-- A mutation alive of a transaction, with the content below it. -/
structure EntryOk (A : Write Tid Key (Option Val) → Bool) (h : List (Write Tid Key (Option Val)))
    (init : Key → Option Val) (txn : Tid) (e : SchemaUndo Key Val) : Prop where
  mutation : ∃ w ∈ h, w.seq = e.seq ∧ w.key = e.key ∧ w.owner = txn ∧ A w = true
  prev : (e.prevSeq, e.prev) = content (below A e.seq) h init e.key

/-- The catalog is the content of the mutations alive. -/
def ContentOk (A : Write Tid Key (Option Val) → Bool) (h : List (Write Tid Key (Option Val)))
    (init : Key → Option Val) (entries : Entries Key Val) : Prop :=
  ∀ k, (entries.lastSeq k, entries.schema k) = content A h init k

/-! ## One mutation is withdrawn -/

/-- The generation of an entry is the content of no other key. -/
lemma EntryOk.key_eq (hh : Ordered h) (he : EntryOk A h init txn e) {k : Key}
    (hk : (content B h init k).1 = e.seq) : k = e.key := by
  obtain ⟨w, hw, hseq, hkey, -, -⟩ := he.mutation
  rcases content_fst B h init k with hzero | ⟨w', hw', hkey', -, hseq'⟩
  · have := hh.pos w hw
    omega
  · rw [← hkey', ← hkey, seq_inj hh hw hw' (by omega)]

lemma EntryOk.pos (hh : Ordered h) (he : EntryOk A h init txn e) : 0 < e.seq := by
  obtain ⟨w, hw, hseq, -, -, -⟩ := he.mutation
  exact hseq ▸ hh.pos w hw

/-- What a transaction remembers does not depend on newer mutations. -/
lemma EntryOk.withdraw_newer (he : EntryOk A h init txn e) (hlt : e.seq < n) :
    EntryOk (withdraw A n) h init txn e := by
  obtain ⟨w, hw, hseq, hkey, howner, halive⟩ := he.mutation
  refine ⟨⟨w, hw, hseq, hkey, howner, ?_⟩, ?_⟩
  · have : w.seq ≠ n := by omega
    simp [withdraw, halive, this]
  · rw [content_below_withdraw (le_of_lt hlt)]
    exact he.prev

/-- The catalog after an entry is undone. -/
theorem ContentOk.undo (hh : Ordered h) (hc : ContentOk A h init entries)
    (he : EntryOk A h init txn e) :
    ContentOk (withdraw A e.seq) h init (undoSchemaEntry entries e).1 := by
  intro k
  unfold undoSchemaEntry
  by_cases htop : entries.lastSeq e.key = e.seq
  · rw [if_pos htop]
    by_cases hk : k = e.key
    · subst hk
      have hcontent : (content A h init e.key).1 = e.seq := by rw [← hc e.key, htop]
      rw [content_withdraw_top hh (he.pos hh) hcontent, ← he.prev]
      simp
    · rw [content_withdraw_of_ne fun hseq => hk (he.key_eq hh hseq), ← hc k]
      simp [hk]
  · rw [if_neg htop, content_withdraw_of_ne, ← hc k]
    intro hseq
    have hk := he.key_eq hh hseq
    subst hk
    rw [← hc] at hseq
    exact htop hseq

/-- What another transaction remembers after a splice. -/
lemma EntryOk.splice {u : Tid} (hh : Ordered h) (he : EntryOk A h init txn e)
    (he' : EntryOk A h init u e') (hne : e'.seq ≠ e.seq) :
    EntryOk (withdraw A e.seq) h init u
      (if e'.prevSeq = e.seq then { e' with prev := e.prev, prevSeq := e.prevSeq } else e') := by
  obtain ⟨w', hw', hseq', hkey', howner', halive'⟩ := he'.mutation
  have hmutation : ∃ w ∈ h, w.seq = e'.seq ∧ w.key = e'.key ∧ w.owner = u ∧
    withdraw A e.seq w = true := by
    refine ⟨w', hw', hseq', hkey', howner', ?_⟩
    have : w'.seq ≠ e.seq := by omega
    simp [withdraw, halive', this]
  have hprev : (content (below A e'.seq) h init e'.key).1 = e'.prevSeq := by rw [← he'.prev]
  by_cases hdead : e'.prevSeq = e.seq
  · rw [if_pos hdead]
    refine ⟨hmutation, ?_⟩
    have hkey : e'.key = e.key := he.key_eq hh (hprev.trans hdead)
    rw [below_withdraw_comm, content_withdraw_top hh (he.pos hh) (hprev.trans hdead), he.prev, hkey]
    -- the dead mutation is below the one that remembered it
    have hlt : e.seq < e'.seq := by
      rcases content_fst (below A e'.seq) h init e'.key with hzero | ⟨w, -, -, hbelow, hw⟩
      · omega
      · simp only [below, Bool.and_eq_true, decide_eq_true_eq] at hbelow
        omega
    refine content_congr fun w _ _ => ?_
    simp only [below]
    by_cases hw : w.seq < e.seq
    · have : w.seq < e'.seq := by omega
      simp [this]
    · simp [hw]
  · rw [if_neg hdead]
    refine ⟨hmutation, ?_⟩
    rw [below_withdraw_comm, content_withdraw_of_ne (by rw [hprev]; exact hdead)]
    exact he'.prev

/-- Nothing remembers the mutation on top. -/
lemma EntryOk.prevSeq_ne_top {u : Tid} (hh : Ordered h) (he : EntryOk A h init txn e)
    (he' : EntryOk A h init u e') (htop : (content A h init e.key).1 = e.seq) :
    e'.prevSeq ≠ e.seq := by
  intro hprev
  have hcontent : (content (below A e'.seq) h init e'.key).1 = e.seq := by rw [← he'.prev, hprev]
  have hkey : e'.key = e.key := he.key_eq hh hcontent
  obtain ⟨w', hw', hseq', hkey', -, halive'⟩ := he'.mutation
  rcases content_fst (below A e'.seq) h init e'.key with hzero | ⟨w, -, -, hbelow, hw⟩
  · have := he.pos hh
    omega
  simp only [below, Bool.and_eq_true, decide_eq_true_eq] at hbelow
  cases ht : top A h e.key with
  | none =>
    rw [content, ht] at htop
    exact absurd htop (ne_of_lt (he.pos hh))
  | some x =>
    rw [content, ht] at htop
    have hle := seq_le_top hh ht hw' (hkey'.trans hkey) halive'
    have hx : x.seq = e.seq := htop
    omega

variable {es : List (SchemaUndo Key Val)}

/-- Mutations are withdrawn from a copy, the newest first. -/
lemma content_undoAll (hh : Ordered h)
    (hc : ContentOk A h init entries) (hes : ∀ e ∈ es, ∃ u, EntryOk A h init u e)
    (hdesc : es.Pairwise fun e e' => e'.seq < e.seq) :
    ContentOk (withdrawAll A (es.map seq)) h init
      (es.foldl (fun entries e => (undoSchemaEntry entries e).1) entries) := by
  induction es generalizing A entries with
  | nil =>
    rw [map_nil, withdrawAll_nil]
    exact hc
  | cons e es ih =>
    obtain ⟨hfirst, hrest⟩ := pairwise_cons.1 hdesc
    obtain ⟨u, he⟩ := hes e mem_cons_self
    rw [map_cons, ← withdrawAll_cons]
    refine ih (hc.undo hh he) (fun e' he' => ?_) hrest
    obtain ⟨u', hok⟩ := hes e' (mem_cons_of_mem e he')
    exact ⟨u', hok.withdraw_newer (hfirst e' he')⟩

/-! ## A rollback -/

variable [DecidableEq Tid] {live : Dict Tid (CatalogTxn Key Val)}

/-- The catalog and what the open transactions remember. -/
structure Chain (A : Write Tid Key (Option Val) → Bool) (h : List (Write Tid Key (Option Val)))
    (init : Key → Option Val) (entries : Entries Key Val)
    (live : Dict Tid (CatalogTxn Key Val)) : Prop where
  content : ContentOk A h init entries
  undo : ∀ u a, live.lookup u = some a → ∀ e ∈ a.schemaUndo, EntryOk A h init u e

/-- **One mutation is withdrawn.** -/
lemma Chain.applyUndoEntry (hh : Ordered h) (hc : Chain A h init entries live)
    (he : EntryOk A h init txn e) (hlive : live.lookup txn = none) :
    Chain (withdraw A e.seq) h init (applyUndoEntry (entries, live) e).1
    (applyUndoEntry (entries, live) e).2 := by
  have hcontent := hc.content.undo hh he
  -- the entries of the others are of other mutations
  have hne : ∀ u a, live.lookup u = some a → ∀ e' ∈ a.schemaUndo, e'.seq ≠ e.seq := by
    intro u a hu e' he' hseq
    obtain ⟨w, hw, hwseq, -, howner, -⟩ := he.mutation
    obtain ⟨w', hw', hwseq', -, howner', -⟩ := (hc.undo u a hu e' he').mutation
    have : w = w' := seq_inj hh hw hw' (by omega)
    rw [show u = txn by rw [← howner', ← this, howner], hlive] at hu
    cases hu
  unfold CatalogState.applyUndoEntry
  by_cases htop : entries.lastSeq e.key = e.seq
  · have hundo : undoSchemaEntry entries e = ((undoSchemaEntry entries e).1, true) := by
      simp only [undoSchemaEntry, if_pos htop]
    rw [hundo]
    refine ⟨hcontent, fun u a hu e' he' => ?_⟩
    have hok := hc.undo u a hu e' he'
    have htop' : (Generations.content A h init e.key).1 = e.seq := by rw [← hc.content e.key, htop]
    have hspliced := he.splice hh hok (hne u a hu e' he')
    rwa [if_neg (he.prevSeq_ne_top hh hok htop')] at hspliced
  · have hundo : undoSchemaEntry entries e = ((undoSchemaEntry entries e).1, false) := by
      simp only [undoSchemaEntry, if_neg htop]
    rw [hundo]
    refine ⟨hcontent, fun u a hu e' he' => ?_⟩
    rw [spliceSchemaPredecessor, Dict.lookup_mapVal, Option.map_eq_some_iff] at hu
    obtain ⟨a, hu, rfl⟩ := hu
    obtain ⟨e0, he0, rfl⟩ := mem_map.1 he'
    exact he.splice hh (hc.undo u a hu e0 he0) (hne u a hu e0 he0)

lemma lookup_applyUndoEntry (r : Entries Key Val × Dict Tid (CatalogTxn Key Val))
    (e : SchemaUndo Key Val) (u : Tid) : ∃ f : CatalogTxn Key Val → CatalogTxn Key Val,
      (applyUndoEntry r e).2.lookup u = (r.2.lookup u).map f ∧
      ∀ a, (f a).counts = a.counts ∧ (f a).stage = a.stage ∧
        (f a).schemaUndo.map seq = a.schemaUndo.map seq := by
  unfold applyUndoEntry
  split
  · exact ⟨id, by simp, fun a => ⟨rfl, rfl, rfl⟩⟩
  refine ⟨CatalogTxn.splice e, Dict.lookup_mapVal _ _ _, fun a => ⟨rfl, rfl, ?_⟩⟩
  rw [CatalogTxn.splice, map_map]
  refine map_congr_left fun e' _ => ?_
  simp only [Function.comp_apply]
  split <;> rfl

/-- **The mutations of a transaction are withdrawn**, the newest first. -/
lemma Chain.undoAll (hh : Ordered h)
    (hc : Chain A h init entries live) (hes : ∀ e ∈ es, EntryOk A h init txn e)
    (hdesc : es.Pairwise fun e e' => e'.seq < e.seq) (hlive : live.lookup txn = none) :
    Chain (withdrawAll A (es.map seq)) h init
    (es.foldl CatalogState.applyUndoEntry (entries, live)).1
      (es.foldl CatalogState.applyUndoEntry (entries, live)).2 := by
  induction es generalizing A entries live with
  | nil =>
    rw [map_nil, withdrawAll_nil]
    exact hc
  | cons e es ih =>
    obtain ⟨hfirst, hrest⟩ := pairwise_cons.1 hdesc
    have hstep := hc.applyUndoEntry hh (hes e mem_cons_self) hlive
    obtain ⟨f, hlookup, -⟩ := lookup_applyUndoEntry (entries, live) e txn
    rw [map_cons, ← withdrawAll_cons]
    have hgone : (CatalogState.applyUndoEntry (entries, live) e).2.lookup txn = none := by
      rw [hlookup, hlive]
      rfl
    refine ih hstep (fun e' he' => ?_) hrest hgone
    exact (hes e' (mem_cons_of_mem e he')).withdraw_newer (hfirst e' he')

end Graphus.CatalogState
