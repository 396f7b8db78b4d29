import Graphus.Wal.RedoPass

/-!
# Undo rolls the losers back

The undo loop goes down the back-chains of all losers at once, always at the greatest LSN. Its heap
has at most one pointer for each loser, to a record from which the back-chain leads through the
updates still to be undone (`HeapOk`). Each turn replaces one pointer by a smaller one and may write
a compensation record; with the record the log is still one that may be written, and the pages are
as that log leaves them (`UndoInv`).

**Theorem (`recover_spec`).** Recovery succeeds. It appends a compensation record for everything the
losers have not had undone, then their ends, and leaves the pages as the whole log leaves them.
-/

namespace Graphus

open List Analysis LogRecord WalManager
open LogSink (bufferedLen fuelFor sync)

/-! ## Pages that follow the log -/

/-- The pages have all the changes of the log. -/
structure PagesInv (sem : ImageSemantics) (s0 : Store) (L : Log)
    (pages : Pages (Nat → UInt8)) : Prop where
  reflects : Reflects sem s0 L pages
  done : ∀ x ∈ L, Touches x.pageId x → x.lsn ≤ (pages x.pageId).lsn
  lsnLt : ∀ p, (pages p).lsn < logEnd L

section Pages

variable {sem : ImageSemantics} {s0 : Store} {L : Log} {r : LogRecord}
  {pages : Pages (Nat → UInt8)} {p : Nat}

/-- A record behind the LSN of the page is not yet on it. -/
lemma PageReflects.snoc {page : Page (Nat → UInt8)} (h : PageReflects sem s0 L p page)
    (hlsn : page.lsn < r.lsn) : PageReflects sem s0 (L ++ [r]) p page :=
  (pageReflects_append fun _ hx => mem_singleton.1 hx ▸ hlsn).2 h

/-- A record that changes no page. -/
lemma PagesInv.skip (h : PagesInv sem s0 L pages) (hlsn : logEnd L ≤ r.lsn)
    (hno : ¬ Touches r.pageId r) : PagesInv sem s0 (L ++ [r]) pages where
  reflects p := (h.reflects p).snoc (lt_of_lt_of_le (h.lsnLt p) hlsn)
  done x hx hxt := by
    rcases mem_of_snoc hx with hx | rfl
    · exact h.done x hx hxt
    · exact absurd hxt hno
  lsnLt p := lt_trans (h.lsnLt p) (logEnd_lt_snoc hlsn).1

/-- A record that changes a page, applied to it. -/
lemma PagesInv.apply (hi : LogInv sem s0 L) (h : PagesInv sem s0 L pages)
    (hlsn : logEnd L ≤ r.lsn) (htouch : Touches r.pageId r) :
    PagesInv sem s0 (L ++ [r]) (pages.apply sem.apply r.pageId r.lsn r.redo) := by
  have hself : pages.apply sem.apply r.pageId r.lsn r.redo r.pageId =
      { lsn := r.lsn, content := sem.apply r.redo (pages r.pageId).content } :=
    Function.update_self ..
  have hother : ∀ p, p ≠ r.pageId → pages.apply sem.apply r.pageId r.lsn r.redo p = pages p :=
    fun p hp => Function.update_of_ne hp ..
  have hbehind : ∀ x ∈ L, x.lsn ≤ r.lsn := fun x hx => le_of_lt (lt_of_lt_of_le (hi.lsnLt hx) hlsn)
  refine ⟨fun p => ?_, fun x hx hxt => ?_, fun p => ?_⟩
  · by_cases hp : p = r.pageId
    · subst hp
      rw [hself]
      refine (h.reflects r.pageId).apply ?_
      have hall : L.filter (fun x => decide (x.lsn ≤ r.lsn)) = L :=
        filter_eq_self.2 fun x hx => decide_eq_true (hbehind x hx)
      have hold : (L.filter fun x => decide (x.lsn ≤ (pages r.pageId).lsn)).filter
          (Touches r.pageId) = L.filter (Touches r.pageId) := by
        rw [filter_filter]
        refine filter_congr fun x hx => ?_
        by_cases hxt : Touches r.pageId x
        · have := h.done x hx (hxt.2.1.symm ▸ hxt)
          rw [hxt.2.1] at this
          simp [hxt, this]
        · simp [hxt]
      simp [filter_append, hall, hold, htouch]
    · rw [hother p hp]
      exact (h.reflects p).snoc (lt_of_lt_of_le (h.lsnLt p) hlsn)
  · by_cases hp : x.pageId = r.pageId
    · rw [hp, hself]
      rcases mem_of_snoc hx with hx | rfl
      · exact hbehind x hx
      · exact le_rfl
    · rw [hother _ hp]
      refine h.done x ((mem_of_snoc hx).resolve_right ?_) hxt
      rintro rfl
      exact hp rfl
  · by_cases hp : p = r.pageId
    · subst hp
      rw [hself]
      exact (logEnd_lt_snoc hlsn).2
    · rw [hother p hp]
      exact lt_trans (h.lsnLt p) (logEnd_lt_snoc hlsn).1

end Pages

/-! ## The heap -/

/-- From the record the back-chain leads through `ch`: either it is the next one to undo, or it is a
compensation record that says where to go on. -/
def Pointer (L : Log) (r : LogRecord) (ch : Log) : Prop :=
  Linked L r.txnId r.lsn ch ∨ r.recType = .clr ∧ Linked L r.txnId r.undoNextLsn ch

/-- The pointers of the heap into `L`, when `L'` has been logged. -/
structure HeapOk (L L' : Log) (heap : List Nat) : Prop where
  nodup : heap.Nodup
  pointer : ∀ p ∈ heap, ∃ r ∈ L, r.lsn = p ∧ Loser L r.txnId ∧ Pointer L r (chain L' r.txnId)
  one : ∀ {r r'}, r ∈ L → r' ∈ L → r.lsn ∈ heap → r'.lsn ∈ heap → r.txnId = r'.txnId → r = r'
  all : ∀ {t}, Loser L t → chain L' t = [] ∨ ∃ r ∈ L, r.txnId = t ∧ r.lsn ∈ heap

section Heap

variable {sem : ImageSemantics} {s0 : Store} {L L' L'' : Log} {r : LogRecord}
  {heap : List Nat} {t q : Nat} {ch : Log}

/-- A back-chain ends at the null LSN, or goes on at a record of its transaction. -/
lemma Linked.target (hi : LogInv sem s0 L) (h : Linked L t q ch) :
    (q = 0 ∧ ch = []) ∨ q ≠ 0 ∧ ∃ r ∈ L, r.lsn = q ∧ r.txnId = t ∧ Linked L r.txnId r.lsn ch := by
  have hpos : ∀ {x}, x ∈ L → x.lsn ≠ 0 := fun hx h0 => by
    have := hi.lsnGe hx
    rw [h0] at this
    exact absurd this (by decide)
  cases h with
  | null => exact .inl ⟨rfl, rfl⟩
  | begin hb htype htxn hprev => exact .inr ⟨hpos hb, _, hb, rfl, htxn, .begin hb htype rfl hprev⟩
  | update hx htype htxn tail =>
    exact .inr ⟨hpos hx, _, hx, rfl, htxn, .update hx htype rfl (htxn.symm ▸ tail)⟩

/-- One pointer is replaced by the next one of its transaction. -/
lemma HeapOk.next (hi : LogInv sem s0 L) (hh : HeapOk L L' heap) (hr : r ∈ L)
    (hmem : r.lsn ∈ heap) (hlink : Linked L r.txnId q ch) (hself : chain L'' r.txnId = ch)
    (hothers : ∀ t, t ≠ r.txnId → chain L'' t = chain L' t) :
    HeapOk L L'' (pushLsn (heap.erase r.lsn) q) := by
  have herase : ∀ {p}, p ∈ heap.erase r.lsn ↔ p ≠ r.lsn ∧ p ∈ heap := hh.nodup.mem_erase_iff
  -- what stays in the heap belongs to other transactions
  have hstay : ∀ {x}, x ∈ L → x.lsn ∈ heap.erase r.lsn → x.txnId ≠ r.txnId := by
    intro x hx hxm ht
    have hxh := herase.1 hxm
    exact hxh.1 (congrArg lsn (hh.one hx hr hxh.2 hmem ht))
  have hpointer : ∀ p ∈ heap.erase r.lsn, ∃ x ∈ L, x.lsn = p ∧ Loser L x.txnId ∧
    Pointer L x (chain L'' x.txnId) := by
    intro p hp
    obtain ⟨x, hx, rfl, hlose, hptr⟩ := hh.pointer p (herase.1 hp).2
    exact ⟨x, hx, rfl, hlose, (hothers _ (hstay hx hp)).symm ▸ hptr⟩
  have hlose : Loser L r.txnId := by
    obtain ⟨x, hx, hlsn, hlose, -⟩ := hh.pointer _ hmem
    exact hi.eq_of_lsn hx hr hlsn ▸ hlose
  have hall : ∀ {t}, Loser L t → t ≠ r.txnId → chain L'' t = [] ∨
      ∃ x ∈ L, x.txnId = t ∧ x.lsn ∈ heap.erase r.lsn := by
    intro t hlose ht
    rw [hothers t ht]
    refine (hh.all hlose).imp_right fun ⟨x, hx, hxt, hxm⟩ => ⟨x, hx, hxt, herase.2 ⟨?_, hxm⟩⟩
    intro hlsn
    exact ht (hxt.symm.trans (congrArg txnId (hi.eq_of_lsn hx hr hlsn)))
  rcases hlink.target hi with ⟨rfl, rfl⟩ | ⟨h0, b, hb, rfl, hbt, hlink'⟩
  · refine ⟨hh.nodup.erase _, hpointer, fun {x x'} hx hx' hm hm' => ?_, fun {t} hlose => ?_⟩
    · exact hh.one hx hx' (herase.1 hm).2 (herase.1 hm').2
    · by_cases ht : t = r.txnId
      · exact .inl (ht ▸ hself)
      · exact hall hlose ht
  · rw [pushLsn, if_pos h0]
    refine ⟨nodup_cons.2 ⟨fun hm => hstay hb hm hbt, hh.nodup.erase _⟩, fun p hp => ?_,
      fun {x x'} hx hx' hm hm' ht => ?_, fun {t} hlose => ?_⟩
    · rcases mem_cons.1 hp with rfl | hp
      · refine ⟨b, hb, rfl, hbt.symm ▸ hlose, .inl ?_⟩
        rw [hbt, hself]
        exact hbt ▸ hlink'
      · exact hpointer p hp
    · rcases mem_cons.1 hm with hm | hm <;> rcases mem_cons.1 hm' with hm' | hm'
      · exact hi.eq_of_lsn hx hx' (hm.trans hm'.symm)
      · have := hi.eq_of_lsn hx hb hm
        exact absurd (ht.symm.trans (this ▸ hbt)) (hstay hx' hm')
      · have := hi.eq_of_lsn hx' hb hm'
        exact absurd (ht.trans (this ▸ hbt)) (hstay hx hm)
      · exact hh.one hx hx' (herase.1 hm).2 (herase.1 hm').2 ht
    · by_cases ht : t = r.txnId
      · exact .inr ⟨b, hb, hbt.trans ht.symm, mem_cons_self⟩
      · refine (hall hlose ht).imp_right fun ⟨x, hx, hxt, hxm⟩ => ?_
        exact ⟨x, hx, hxt, mem_cons_of_mem _ hxm⟩

end Heap

/-! ## The loop -/

/-- What holds in the undo pass when `C` has been appended to the log `L` of the sink. -/
structure UndoInv (sem : ImageSemantics) (s0 : Store) (sink : LogSink) (L C : Log)
    (st : UndoState (Nat → UInt8)) : Prop where
  sinkEq : st.wal.sink = { sink with pending := encodeAll C }
  logOk : LogOk sem s0 (L ++ C)
  placed : Placed sink.durable.length C
  endLe : logEnd (L ++ C) ≤ sink.durable.length + (encodeAll C).length
  fits : ∀ c ∈ C, c.lsn < 2 ^ 64 → c.Fits
  pages : PagesInv sem s0 (L ++ C) st.pages

/-- The records undo appends are compensations for losers. -/
def Compensates (L C : Log) : Prop := ∀ c ∈ C, c.recType = .clr ∧ Loser L c.txnId

section Loop

variable {sem : ImageSemantics} {s0 : Store} {sink : LogSink} {L C : Log}
  {torn : Bytes} {st : UndoState (Nat → UInt8)} {heap : List Nat} {r c : LogRecord}

variable {wal : WalManager} {pages : Pages (Nat → UInt8)}

/-- A record appended at the end of the log. -/
lemma UndoInv.append (hi : UndoInv sem s0 sink L C st)
    (hlsn : c.lsn = sink.durable.length + (encodeAll C).length)
    (hnext : CanFollow sem s0 (L ++ C) c) (hfits : c.lsn < 2 ^ 64 → c.Fits) {n : Nat}
    (hwal : wal.sink = { sink with pending := encodeAll C ++ c.encode })
    (hpages : PagesInv sem s0 (L ++ C ++ [c]) pages) :
    UndoInv sem s0 sink L (C ++ [c]) { wal, pages, clrsWritten := n } := by
  have hend : logEnd (L ++ C) ≤ c.lsn := hlsn ▸ hi.endLe
  refine ⟨?_, ?_, hi.placed.snoc hlsn, ?_, fun x hx => ?_, ?_⟩
  · rw [hwal, encodeAll_snoc]
  · rw [← append_assoc]
    exact hi.logOk.snoc hend hnext
  · rw [← append_assoc, logEnd_snoc, encodeAll_snoc, length_append, length_encode, hlsn,
      Nat.add_assoc]
  · rcases mem_of_snoc hx with hx | rfl
    · exact hi.fits x hx
    · exact hfits
  · rw [← append_assoc]
    exact hpages

/-- The compensation record for the update `x`. -/
def clrFor (x : LogRecord) (lsn : Nat) : LogRecord :=
  { recType := .clr, txnId := x.txnId, pageId := x.pageId, prevLsn := x.lsn,
    undoNextLsn := x.prevLsn, redo := x.undo, lsn }

lemma clrFor_fits {x : LogRecord} (hx : x.Fits) {lsn : Nat} (hlsn : lsn < 2 ^ 64) :
    (clrFor x lsn).Fits := by
  refine ⟨lt_of_le_of_lt ?_ hx.total, hlsn, hx.lsn, hx.txnId, hx.pageId, hx.prevLsn⟩
  unfold encodedLen clrFor
  simp
  omega

variable {t floor : Nat}

/-- The open transactions are the same while compensations are appended. -/
lemma Compensates.finished_iff (hC : Compensates L C) : Finished (L ++ C) t ↔ Finished L t := by
  constructor
  · rintro ⟨x, hx, ht, htype⟩
    refine ⟨x, (mem_append.1 hx).resolve_right fun hmem => ?_, ht, htype⟩
    simp [(hC x hmem).1] at htype
  · rintro ⟨x, hx, h⟩
    exact ⟨x, mem_append_left _ hx, h⟩

section

variable (hin : LogIn sink L torn)

include hin

/-- Undoing the newest update of a loser. -/
lemma UndoInv.compensate (hi : UndoInv sem s0 sink L C st)
    (hC : Compensates L C) (hr : r ∈ L) (hlose : Loser L r.txnId)
    {older : Log} (hchain : chain (L ++ C) r.txnId = r :: older) (n : Nat) :
    let c := clrFor r (sink.durable.length + (encodeAll C).length)
    let w := st.wal.writeClr r.txnId r.pageId r.lsn r.undo r.prevLsn
    UndoInv sem s0 sink L (C ++ [c])
        { wal := w.1
          pages := if r.undo ≠ [] then st.pages.apply sem.apply r.pageId w.2 r.undo else st.pages
          clrsWritten := n } ∧
      Compensates L (C ++ [c]) ∧ chain (L ++ (C ++ [c])) r.txnId = older ∧
      ∀ t, t ≠ r.txnId → chain (L ++ (C ++ [c])) t = chain (L ++ C) t := by
  intro c w
  have hlsn : w.2 = c.lsn := by
    simp [w, c, writeClr, WalManager.append, nextLsn, bufferedLen, hi.sinkEq, clrFor]
  have hsink : w.1.sink = { sink with pending := encodeAll C ++ c.encode } := by
    simp [w, c, writeClr, WalManager.append, nextLsn, bufferedLen, hi.sinkEq, clrFor,
      LogSink.append]
  have hopen : ¬ Finished (L ++ C) r.txnId := fun h => hlose.2.2 (hC.finished_iff.1 h)
  have hnext : CanFollow sem s0 (L ++ C) c :=
    .clr rfl hlose.1 hopen r [] older hchain nofun rfl rfl rfl rfl
  have hend : logEnd (L ++ C) ≤ c.lsn := hi.endLe
  have hpages : PagesInv sem s0 (L ++ C ++ [c])
      (if r.undo ≠ [] then st.pages.apply sem.apply r.pageId w.2 r.undo else st.pages) := by
    split
    · rename_i hu
      rw [hlsn]
      exact hi.pages.apply hi.logOk.inv hend ⟨rfl, rfl, hu⟩
    · rename_i hu
      exact hi.pages.skip hend fun h => h.2.2 (not_not.1 hu)
  have hchains : ∀ t, chain (L ++ (C ++ [c])) t = if r.txnId =
    t then older else chain (L ++ C) t := by
    intro t
    rw [← append_assoc, chain_snoc, chainStep]
    by_cases ht : r.txnId = t
    · subst ht
      rw [hchain]
      simp [c, clrFor]
    · rw [if_neg ht, if_neg (show ¬ c.txnId = t from ht)]
  refine ⟨hi.append rfl hnext (fun h => clrFor_fits (hin.written.fits hr) h) hsink hpages,
    fun x hx => ?_, ?_, fun t ht => ?_⟩
  · rcases mem_of_snoc hx with hx | rfl
    · exact hC x hx
    · exact ⟨rfl, hlose⟩
  · rw [hchains, if_pos rfl]
  · rw [hchains, if_neg (Ne.symm ht)]

/-- **One turn of the loop** processes the greatest pointer and leaves smaller ones only. -/
lemma undoStep_spec (hL : LogOk sem s0 L)
    (hfloor : ∀ r ∈ L, floor ≤ r.lsn) (hi : UndoInv sem s0 sink L C st) (hC : Compensates L C)
    (hh : HeapOk L (L ++ C) heap) (hne : heap ≠ []) :
    ∃ p heap' C' st', p ∈ heap ∧
      undoStep sem.apply floor heap st = .ok (some (heap', st')) ∧
      UndoInv sem s0 sink L C' st' ∧ Compensates L C' ∧ HeapOk L (L ++ C') heap' ∧ C <+: C' ∧
      ∀ q ∈ heap', q < p := by
  have hLi := hL.inv
  obtain ⟨p, hp⟩ := Option.ne_none_iff_exists'.1 fun h => hne (max?_eq_none_iff.1 h)
  obtain ⟨hmem, hmax⟩ := max?_eq_some_iff.1 hp
  obtain ⟨r, hr, rfl, hlose, hptr⟩ := hh.pointer p hmem
  have hless : ∀ q, q < r.lsn → ∀ q' ∈ pushLsn (heap.erase r.lsn) q, q' < r.lsn := by
    intro q hq q' hq'
    have hrest : ∀ q' ∈ heap.erase r.lsn, q' < r.lsn := fun q' h =>
      have h := hh.nodup.mem_erase_iff.1 h
      Nat.lt_of_le_of_ne (hmax q' h.2) h.1
    rw [pushLsn] at hq'
    split at hq'
    · exact (mem_cons.1 hq').elim (fun h => h ▸ hq) (hrest q')
    · exact hrest q' hq'
  have hread : st.wal.sink.readRecordAt r.lsn = .ok r := by
    rw [hi.sinkEq]
    exact hin.readRecordAt_eq hr
  have hstep : undoStep sem.apply floor heap st =
      if r.recType = .clr then .ok (some (pushLsn (heap.erase r.lsn) r.undoNextLsn, st))
      else if r.recType.isUndoableAction = true then
        let w := st.wal.writeClr r.txnId r.pageId r.lsn r.undo r.prevLsn
        let pages := if r.undo ≠ [] then st.pages.apply sem.apply r.pageId w.2 r.undo else st.pages
        .ok (some (pushLsn (heap.erase r.lsn) r.prevLsn,
          { wal := w.1, pages, clrsWritten := st.clrsWritten + 1 }))
      else .ok (some (pushLsn (heap.erase r.lsn) r.prevLsn, st)) := by
    unfold undoStep
    rw [hp]
    dsimp only
    rw [if_neg (not_lt.2 (hfloor r hr)), hread]
    rfl
  rw [hstep]
  rcases hptr with hlink | ⟨hclr, hlink⟩
  · generalize hch : chain (L ++ C) r.txnId = ch at hlink
    generalize hlsn : r.lsn = lsn at hlink
    cases hlink with
    | null => exact absurd (hlsn ▸ hLi.lsnGe hr) (by decide)
    | @begin b hb htype _ hprev =>
      -- the begin record ends the back-chain
      obtain rfl : r = b := hLi.eq_of_lsn hr hb hlsn
      rw [if_neg (by simp [htype]), if_neg (by simp [htype, RecordType.isUndoableAction])]
      refine ⟨_, _, C, st, hmem, rfl, hi, hC, ?_, prefix_refl C,
        hless _ (hprev ▸ lt_of_lt_of_le (by decide) (hLi.lsnGe hr))⟩
      exact hh.next hLi hr hmem (hprev.symm ▸ .null) hch fun _ _ => rfl
    | @update x older hx htype _ tail =>
      obtain rfl : r = x := hLi.eq_of_lsn hr hx hlsn
      rw [if_neg (by simp [htype]), if_pos (by simp [htype, RecordType.isUndoableAction])]
      obtain ⟨hi', hC', hself, hothers⟩ := hi.compensate hin hC hr hlose hch (st.clrsWritten + 1)
      exact ⟨_, _, _, _, hmem, rfl, hi', hC', hh.next hLi hr hmem tail hself hothers,
        prefix_append .., hless _ (hL.links.updateBack hr htype)⟩
  · rw [if_pos hclr]
    exact ⟨_, _, C, st, hmem, rfl, hi, hC, hh.next hLi hr hmem hlink rfl fun _ _ => rfl,
      prefix_refl C, hless _ (hL.links.clrBack hr hclr)⟩

/-- **The loop** ends with everything of the losers undone. -/
lemma undoLoop_spec (hL : LogOk sem s0 L) {fuel bound : Nat}
    (hfloor : ∀ r ∈ L, floor ≤ r.lsn) (hi : UndoInv sem s0 sink L C st) (hC : Compensates L C)
    (hh : HeapOk L (L ++ C) heap) (hbound : ∀ p ∈ heap, p < bound)
    (hfuel : (L.filter fun r => r.lsn < bound).length < fuel) :
    ∃ C' st', undoLoop sem.apply floor fuel heap st = .ok st' ∧
      UndoInv sem s0 sink L C' st' ∧ Compensates L C' ∧ (∀ t, Loser L t → chain (L ++ C') t = []) ∧
      C <+: C' ∧ ∀ st1 ∈ undoTrace sem.apply floor fuel heap st, ∃ C1,
        UndoInv sem s0 sink L C1 st1 ∧ C1 <+: C' := by
  induction fuel generalizing heap C st bound with
  | zero => exact absurd hfuel (Nat.not_lt_zero _)
  | succ fuel ih =>
    unfold undoLoop undoTrace
    by_cases hne : heap = []
    · subst hne
      refine ⟨C, st, rfl, hi, hC, fun t hlose => (hh.all hlose).resolve_right ?_, prefix_refl C,
        fun st1 h1 => ?_⟩
      · rintro ⟨r, -, -, hm⟩
        cases hm
      · rw [mem_singleton.1 h1]
        exact ⟨C, hi, prefix_refl C⟩
    · obtain ⟨p, heap', C', st', hmem, hstep, hi', hC', hh', hpre, hless⟩ :=
        undoStep_spec hin hL hfloor hi hC hh hne
      rw [hstep]
      suffices hfuel : (L.filter fun r => r.lsn < p).length < fuel by
        obtain ⟨C'', st'', hloop, hi'', hC'', hundone, hpre', htrace⟩ := ih hi' hC' hh' hless hfuel
        refine ⟨C'', st'', hloop, hi'', hC'', hundone, hpre.trans hpre', fun st1 h1 => ?_⟩
        rcases mem_cons.1 h1 with rfl | h1
        · exact ⟨C, hi, hpre.trans hpre'⟩
        · exact htrace st1 h1
      -- the record at `p` is done with
      obtain ⟨r, hr, rfl, -⟩ := hh.pointer p hmem
      have hsub : (L.filter fun x => x.lsn < r.lsn).length <
        (L.filter fun x => x.lsn < bound).length := by
        have hlt := hbound _ hmem
        have htwice : L.filter (fun x => decide (x.lsn < r.lsn)) =
            (L.filter fun x => decide (x.lsn < bound)).filter fun x => decide (x.lsn < r.lsn) := by
          rw [filter_filter]
          refine filter_congr fun x _ => ?_
          by_cases h : x.lsn < r.lsn
          · simp [h, lt_trans h hlt]
          · simp [h]
        rw [htwice]
        exact length_filter_lt_length_iff_exists.2
          ⟨r, mem_filter.2 ⟨hr, decide_eq_true hlt⟩, by simp⟩
      omega

end

/-! ## The start of the loop -/

lemma foldl_pushLsn (f : Nat → Nat) (ts : List Nat) (hf : ∀ t ∈ ts, f t ≠ 0) (heap : List Nat) :
    ts.foldl (fun heap t => pushLsn heap (f t)) heap = (ts.map f).reverse ++ heap := by
  induction ts generalizing heap with
  | nil => rfl
  | cons t ts ih =>
    rw [foldl_cons, ih fun t' h => hf t' (mem_cons_of_mem _ h), pushLsn,
      if_pos (hf t mem_cons_self)]
    simp

lemma Loser.last_mem (h : Loser L t) : ∃ r ∈ L, r.txnId = t ∧ r.lsn = lastLsnOf L t :=
  (lastLsnOf_cases L t).resolve_left fun h' => h'.2 h.2.1

/-- The heap undo starts with: the last record of every loser. -/
def undoHeap (L : Log) : List Nat :=
  (of L).losers.foldl (fun heap t => pushLsn heap (((of L).txnLast.lookup t).getD 0)) []

lemma undoHeap_eq (hi : LogInv sem s0 L) :
    undoHeap L = ((of L).losers.map (lastLsnOf L)).reverse := by
  have hlook : ∀ t ∈ (of L).losers, ((of L).txnLast.lookup t).getD 0 = lastLsnOf L t := by
    intro t ht
    have ht := mem_losers.1 ht
    rw [lookup_txnLast, if_pos ⟨ht.1, ht.2.1⟩]
    rfl
  rw [undoHeap, foldl_pushLsn, append_nil, map_congr_left hlook]
  intro t ht
  rw [hlook t ht]
  obtain ⟨r, hr, -, hlsn⟩ := (mem_losers.1 ht).last_mem
  have := hi.lsnGe hr
  rw [hlsn] at this
  exact Nat.ne_of_gt (lt_of_lt_of_le (by decide) this)

lemma mem_undoHeap (hi : LogInv sem s0 L) {p : Nat} :
    p ∈ undoHeap L ↔ ∃ t, Loser L t ∧ lastLsnOf L t = p := by
  rw [undoHeap_eq hi, mem_reverse, mem_map]
  simp only [mem_losers]

lemma HeapOk.undoHeap (hi : LogInv sem s0 L) : HeapOk L L (undoHeap L) := by
  have hmem : ∀ {p}, p ∈ Graphus.undoHeap L ↔ ∃ t, Loser L t ∧ lastLsnOf L t = p := mem_undoHeap hi
  have htxn : ∀ {r t}, r ∈ L → Loser L t → r.lsn = lastLsnOf L t → r.txnId = t := by
    intro r t hr ht hlsn
    obtain ⟨x, hx, rfl, hxl⟩ := ht.last_mem
    exact congrArg txnId (hi.eq_of_lsn hr hx (hlsn.trans hxl.symm))
  refine ⟨?_, fun p hp => ?_, fun {r r'} hr hr' hm hm' ht => ?_, fun {t} ht => ?_⟩
  · rw [undoHeap_eq hi, nodup_reverse]
    refine List.Nodup.map_on (fun t ht t' ht' h => ?_) nodup_losers
    obtain ⟨r, hr, rfl, hlsn⟩ := (mem_losers.1 ht).last_mem
    exact htxn hr (mem_losers.1 ht') (hlsn.trans h)
  · obtain ⟨t, ht, rfl⟩ := hmem.1 hp
    by_cases hroll : RollingBack L t
    · obtain ⟨c, hc, htype, rfl, hlast, hlink⟩ := hi.linkedClr ht.1 ht.2.2 hroll
      exact ⟨c, hc, hlast, ht, .inr ⟨htype, hlink⟩⟩
    · obtain ⟨r, hr, rfl, hlsn⟩ := ht.last_mem
      exact ⟨r, hr, hlsn, ht, .inl (hlsn.symm ▸ hi.linked ht.1 ht.2.2 hroll)⟩
  · obtain ⟨t, ht1, hlsn⟩ := hmem.1 hm
    obtain ⟨t', ht2, hlsn'⟩ := hmem.1 hm'
    have h1 := htxn hr ht1 hlsn.symm
    have h2 := htxn hr' ht2 hlsn'.symm
    refine hi.eq_of_lsn hr hr' ?_
    rw [← hlsn, ← hlsn', ← h1, ← h2, ht]
  · obtain ⟨r, hr, hrt, hlsn⟩ := ht.last_mem
    exact .inr ⟨r, hr, hrt, hmem.2 ⟨t, ht, hlsn.symm⟩⟩

/-! ## The ends of the losers -/

/-- The end record of `t`. -/
def endFor (t lsn : Nat) : LogRecord := { recType := .abort, txnId := t, lsn }

/-- Writing the end of a loser. -/
lemma UndoInv.writeEnd (hin : LogIn sink L torn) (hi : UndoInv sem s0 sink L C st)
    (ht : Loser L t) (hopen : ¬ Finished (L ++ C) t) :
    let e := endFor t (sink.durable.length + (encodeAll C).length)
    UndoInv sem s0 sink L (C ++ [e]) { st with wal := (st.wal.writeEnd t).1 } := by
  intro e
  have hsink : (st.wal.writeEnd t).1.sink = { sink with pending := encodeAll C ++ e.encode } := by
    simp [e, WalManager.writeEnd, WalManager.append, WalManager.nextLsn, bufferedLen,
      hi.sinkEq, endFor, LogSink.append]
  have hfits : e.lsn < 2 ^ 64 → e.Fits := by
    obtain ⟨r, hr, rfl, -⟩ := ht.last_mem
    intro hlsn
    refine ⟨?_, hlsn, ?_, (hin.written.fits hr).txnId, ?_, ?_⟩ <;>
      simp [e, endFor, encodedLen, recFixedPrefix]
  have hnext : CanFollow sem s0 (L ++ C) e := .abort rfl ht.1 hopen
  refine hi.append rfl hnext hfits hsink (hi.pages.skip hi.endLe ?_)
  exact fun h => absurd h.1 (by simp [e, endFor, RecordType.isPageChange])

/-- The records of `E` end the transactions `ts`. -/
def EndsAll (E : Log) (ts : List Nat) : Prop :=
  (∀ e ∈ E, e.recType = .abort ∧ e.txnId ∈ ts) ∧ ∀ t ∈ ts, ∃ e ∈ E, e.recType = .abort ∧ e.txnId = t

lemma UndoInv.writeEnds (hin : LogIn sink L torn) {ts : List Nat}
    (hi : UndoInv sem s0 sink L C st) (hts : ∀ t ∈ ts, Loser L t ∧ ¬ Finished (L ++ C) t)
    (hnodup : ts.Nodup) :
    ∃ E, UndoInv sem s0 sink L (C ++ E)
        { st with wal := ts.foldl (fun wal t => (wal.writeEnd t).1) st.wal } ∧ EndsAll E ts ∧
      ∀ ts', ts' <+: ts → ∃ E', E' <+: E ∧ UndoInv sem s0 sink L (C ++ E')
        { st with wal := ts'.foldl (fun wal t => (wal.writeEnd t).1) st.wal } := by
  induction ts generalizing C st with
  | nil =>
    refine ⟨[], by rwa [append_nil], ⟨nofun, nofun⟩, fun ts' h => ?_⟩
    rw [prefix_nil.1 h]
    exact ⟨[], prefix_refl _, by rwa [append_nil]⟩
  | cons t ts ih =>
    have hnodup := nodup_cons.1 hnodup
    have ht := hts t mem_cons_self
    obtain ⟨E, hE, ⟨honly, hall⟩, hpre⟩ := ih (hi.writeEnd hin ht.1 ht.2) (fun t' h => by
      have ht' := hts t' (mem_cons_of_mem _ h)
      refine ⟨ht'.1, fun hf => ?_⟩
      rw [← append_assoc] at hf
      rcases finished_snoc.1 hf with hf | ⟨hf, -⟩
      · exact ht'.2 hf
      · exact hnodup.1 ((show t = t' from hf) ▸ h)) hnodup.2
    refine ⟨endFor t (sink.durable.length + (encodeAll C).length) :: E, ?_, ⟨fun e he => ?_,
      fun t' h => ?_⟩, fun ts' h => ?_⟩
    · rw [append_cons]
      exact hE
    · rcases mem_cons.1 he with rfl | he
      · exact ⟨rfl, mem_cons_self⟩
      · exact ⟨(honly e he).1, mem_cons_of_mem _ (honly e he).2⟩
    · rcases mem_cons.1 h with rfl | h
      · exact ⟨_, mem_cons_self, rfl, rfl⟩
      · obtain ⟨e, he, h⟩ := hall t' h
        exact ⟨e, mem_cons_of_mem _ he, h⟩
    · cases ts' with
      | nil => exact ⟨[], nil_prefix, by rwa [append_nil]⟩
      | cons t' ts' =>
        obtain ⟨rfl, hts'⟩ := cons_prefix_cons.1 h
        obtain ⟨E', hE', hi'⟩ := hpre ts' hts'
        refine ⟨_ :: E', cons_prefix_cons.2 ⟨rfl, hE'⟩, ?_⟩
        rw [append_cons]
        exact hi'

/-! ## Recovery -/

/-- Device pages a recovery of `L` can start from: each one reflects the log up to its page LSN, no
page is ahead of the log, and what the redo start leaves out is on its page. The redo start is not
behind the log. -/
structure OnDevice (sem : ImageSemantics) (s0 : Store) (L : Log)
    (pages : Pages (Nat → UInt8)) : Prop where
  reflects : Reflects sem s0 L pages
  lsnLt : ∀ p, (pages p).lsn < logEnd L
  upToDate : UpToDate L (of L).redoStart pages
  redoLe : (of L).redoStart ≤ logEnd L

/-- What recovery of the log `L` in `sink` leaves: the compensations `C` and the ends `E` of the
losers are appended, and the pages have all the changes of the log. -/
structure Recovered (sem : ImageSemantics) (s0 : Store) (sink : LogSink) (L C E : Log)
    (wal : WalManager) (pages : Pages (Nat → UInt8)) : Prop where
  durable : wal.sink.durable = sink.durable ++ encodeAll (C ++ E)
  logOk : LogOk sem s0 (L ++ (C ++ E))
  placed : Placed sink.durable.length (C ++ E)
  fits : ∀ c ∈ C ++ E, c.lsn < 2 ^ 64 → c.Fits
  pages : PagesInv sem s0 (L ++ (C ++ E)) pages
  clrs : Compensates L C
  undone : ∀ t, Loser L t → chain (L ++ C) t = []
  ends : EndsAll E (of L).losers

lemma UndoInv.init (hin : LogIn sink L torn) (hL : LogOk sem s0 L) (hpending : sink.pending = [])
    (hwal : wal.sink = sink) (hpages : PagesInv sem s0 L pages) :
    UndoInv sem s0 sink L [] { wal, pages } where
  sinkEq := by
    rw [hwal]
    cases sink
    cases hpending
    rfl
  logOk := by rwa [append_nil]
  placed := .nil
  endLe := by
    rw [append_nil, hin.bytes, length_append, hin.written.length_logBytes]
    exact le_trans (Nat.le_add_right ..) (Nat.le_add_right ..)
  fits := nofun
  pages := by rwa [append_nil]

/-- Redo leaves the pages with all the changes of the log. -/
lemma OnDevice.redone (hL : LogOk sem s0 L) (h : OnDevice sem s0 L pages) :
    PagesInv sem s0 L
    (L.foldl (RedoState.onRecord sem.apply (of L).redoStart) { pages }).pages := by
  have hredo := redo_replays hL.inv.ascending h.reflects h.upToDate
  refine ⟨hredo.reflects, hredo.done, fun p => ?_⟩
  rcases hredo.lsn p with heq | ⟨x, hx, heq⟩
  · exact heq ▸ h.lsnLt p
  · exact heq ▸ hL.inv.lsnLt hx

/-- No record of the log is below the undo floor. -/
lemma floor_le (hi : LogInv sem s0 L) {first : Option Nat} {base : Nat}
    (hsome : L ≠ [] → first = some headerLen) : ∀ r ∈ L, first.getD base ≤ r.lsn := by
  intro r hr
  rw [hsome (ne_nil_of_mem hr)]
  exact hi.lsnGe hr

/-- The undo pass: how its loop ends, what is appended by the end, and what every state on the way
has appended. -/
lemma undo_states (hin : LogIn sink L torn) (hL : LogOk sem s0 L) (hpending : sink.pending = [])
    (hwal : wal.sink = sink) (hpages : PagesInv sem s0 L pages) (hfloor : ∀ r ∈ L, floor ≤ r.lsn) :
    ∃ C E st, undoLoop sem.apply floor (fuelFor (of L).recordsScanned) (undoHeap L)
    { wal, pages } = .ok st ∧
      Recovered sem s0 sink L C E
        ((of L).losers.foldl (fun wal t => (wal.writeEnd t).1) st.wal).harden st.pages ∧
      (∀ st1 ∈ undoTrace sem.apply floor (fuelFor (of L).recordsScanned)
          (undoHeap L) { wal, pages }, ∃ C1, UndoInv sem s0 sink L C1 st1 ∧ C1 <+: C ++ E) ∧
      ∀ ts, ts <+: (of L).losers → ∃ C1, C1 <+: C ++ E ∧ UndoInv sem s0 sink L C1
        { st with wal := ts.foldl (fun wal t => (wal.writeEnd t).1) st.wal } := by
  have hheap : HeapOk L (L ++ []) (undoHeap L) := by
    rw [append_nil]
    exact .undoHeap hL.inv
  have hbound : ∀ p ∈ undoHeap L, p < logEnd L := by
    intro p hp
    obtain ⟨t, -, rfl⟩ := (mem_undoHeap hL.inv).1 hp
    exact lastLsnOf_lt hL.inv t
  have hfuel : (L.filter fun r => r.lsn < logEnd L).length < fuelFor (of L).recordsScanned := by
    rw [recordsScanned_of]
    refine lt_of_le_of_lt (length_filter_le ..) ?_
    exact lt_of_le_of_lt (Nat.le_add_left ..) (fuelFor_enough L.length L.length 0)
  obtain ⟨C, st, hloop, hi, hC, hundone, -, htrace⟩ := undoLoop_spec hin hL hfloor
    (UndoInv.init hin hL hpending hwal hpages) nofun hheap hbound hfuel
  have hlosers : ∀ t ∈ (of L).losers, Loser L t ∧ ¬ Finished (L ++ C) t := by
    intro t ht
    have ht := mem_losers.1 ht
    exact ⟨ht, fun h => ht.2.2 (hC.finished_iff.1 h)⟩
  obtain ⟨E, hE, hends, hpre⟩ := hi.writeEnds hin hlosers nodup_losers
  have hsink := hE.sinkEq
  dsimp only at hsink
  refine ⟨C, E, st, hloop, ?_, fun st1 h1 => ?_, fun ts hts => ?_⟩
  · refine ⟨?_, hE.logOk, hE.placed, hE.fits, hE.pages, hC, hundone, hends⟩
    simp [harden, sync, hsink]
  · obtain ⟨C1, hi1, hC1⟩ := htrace st1 h1
    exact ⟨C1, hi1, hC1.trans (prefix_append ..)⟩
  · obtain ⟨E', hE', hi'⟩ := hpre ts hts
    exact ⟨C ++ E', (prefix_append_right_inj C).2 hE', hi'⟩

/-- The three passes one after the other. -/
lemma recover_eq {image : Bytes → (Nat → UInt8) → Nat → UInt8}
    {first : Option Nat} {tail : Bool} {redone : RedoState (Nat → UInt8)}
    (hanalyse : analyse wal.sink headerLen recoveryWindowBytes = .ok (first, of L, tail))
    (hredo : redo image wal.sink recoveryWindowBytes first (of L).redoStart pages = .ok redone)
    (hloop : undoLoop image (first.getD (max (max headerLen headerLen) wal.sink.reclaimedFloor))
      (fuelFor (of L).recordsScanned) (undoHeap L)
      { wal, pages := redone.pages } = .ok st) :
    ∃ report, recover image wal pages = .ok (report,
      ((of L).losers.foldl (fun wal t => (wal.writeEnd t).1) st.wal).harden, st.pages) := by
  unfold recover recoverFromWindowed undo
  rw [hanalyse]
  dsimp only [bind, Except.bind]
  rw [hredo]
  dsimp only
  rw [← undoHeap, hloop]
  exact ⟨_, rfl⟩

/-- **Recovery** of a log succeeds and rolls back its losers. -/
theorem recover_spec (hin : LogIn wal.sink L torn) (hL : LogOk sem s0 L)
    (hpending : wal.sink.pending = []) (hpages : OnDevice sem s0 L pages) :
    ∃ C E report wal' pages', recover sem.apply wal pages = .ok (report, wal', pages') ∧
      Recovered sem s0 wal.sink L C E wal' pages' := by
  obtain ⟨first, tail, hanalyse, hnone, hstart, hsome⟩ :=
    hin.analyse_eq (show 4 ≤ recoveryWindowBytes by decide)
  have hredo := hin.redo_eq sem.apply (show 0 < recoveryWindowBytes by decide) hnone hstart
    (of L).redoStart pages
  obtain ⟨C, E, st, hloop, hrec, -⟩ := undo_states hin hL hpending rfl (hpages.redone hL)
    (floor_le hL.inv hsome)
  obtain ⟨report, hrun⟩ := recover_eq hanalyse hredo hloop
  exact ⟨C, E, report, _, st.pages, hrun, hrec⟩

end Loop

end Graphus
