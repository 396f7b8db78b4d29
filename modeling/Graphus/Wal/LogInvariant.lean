import Mathlib.Data.List.Induction
import Mathlib.Data.List.Nodup
import Graphus.Wal.LogProtocol

/-!
# Replaying a log gives its survivors

**Theorem (`LogOk.inv`).** Of every log that may be written: replaying it gives the effect of the
survivors, every survivor can still be undone, and the back-chain of an unfinished transaction leads
through its updates still to be undone, newest first. No update is undone twice.

The proof goes record by record. An update joins the survivors at the end. A compensation record
takes one out: the survivors behind it are elsewhere, so undoing it now is the same as never having
made it.
-/

namespace Graphus

open UndoLog List
open ImageSemantics (replay replayRecord)

/-- The log sequence numbers ascend, between the header and the end. -/
structure LogOrder (L : Log) : Prop where
  lsnLt : ∀ {r}, r ∈ L → r.lsn < logEnd L
  lsnGe : ∀ {r}, r ∈ L → headerLen ≤ r.lsn
  endGe : headerLen ≤ logEnd L
  ascending : L.Pairwise fun r r' => r.lsn < r'.lsn

/-- What holds of every log. -/
structure LogInv (sem : ImageSemantics) (s0 : Store) (L : Log) : Prop extends LogOrder L where
  replay_eq : sem.replay L s0 = exec ((survivors L).map sem.entry) s0
  sound : Sound s0 ((survivors L).map sem.entry)
  sublist : (survivors L).Sublist L
  /-- an undoable survivor of an unfinished transaction is apart from what was logged since -/
  apart : (survivors L).Pairwise fun x y => x.undo ≠ [] → ¬ Finished L x.txnId →
    (y.txnId ≠ x.txnId ∨ y.undo = []) → Disjoint (sem.foot y) (sem.foot x)
  stack : ∀ {t}, ¬ Finished L t →
    (survivors L).filter (fun x => decide (x.txnId = t ∧ x.undo ≠ [])) =
      ((chain L t).filter fun x => decide (x.undo ≠ [])).reverse
  chainSub : ∀ {t}, (chain L t).reverse.Sublist L
  chainMem : ∀ {t x}, x ∈ chain L t → x.recType = .update ∧ x.txnId = t
  linked : ∀ {t}, t ≠ 0 → ¬ Finished L t → ¬ RollingBack L t →
    Linked L t (lastLsnOf L t) (chain L t)
  linkedClr : ∀ {t}, t ≠ 0 → ¬ Finished L t → RollingBack L t →
    ∃ c ∈ L, c.recType = .clr ∧ c.txnId = t ∧
    c.lsn = lastLsnOf L t ∧ Linked L t c.undoNextLsn (chain L t)
  clrPrev : ∀ {c}, c ∈ L → c.recType = .clr → c.prevLsn < logEnd L
  notUndone : ∀ {t x c}, x ∈ chain L t → c ∈ L → c.recType = .clr → c.prevLsn ≠ x.lsn
  undoneOnce : L.Pairwise fun c c' => c.recType = .clr → c'.recType = .clr → c.prevLsn ≠ c'.prevLsn

section LogInv

variable {sem : ImageSemantics} {s0 : Store} {L : Log} {r x : LogRecord} {t : Nat}

lemma LogInv.nil : LogInv sem s0 [] := by
  constructor <;> first
    | exact ⟨nofun, nofun, le_rfl, .nil⟩
    | exact fun _ _ _ => .null
    | (intros; simp_all [survivors, chain, replay, Sound, RollingBack])

lemma encodedLen_pos : 0 < r.encodedLen := by
  unfold LogRecord.encodedLen
  omega

lemma LogInv.eq_of_lsn (hi : LogInv sem s0 L) {y : LogRecord} (hx : x ∈ L) (hy : y ∈ L)
    (h : x.lsn = y.lsn) : x = y := by
  have hnodup : (L.map LogRecord.lsn).Nodup := pairwise_map.2 (hi.ascending.imp fun h => ne_of_lt h)
  exact inj_on_of_nodup_map hnodup hx hy h

lemma LogInv.chain_mem (hi : LogInv sem s0 L) (hx : x ∈ chain L t) : x ∈ L :=
  hi.chainSub.subset (mem_reverse.2 hx)

/-! ### What every record does -/

lemma logEnd_lt_snoc (hlsn : logEnd L ≤ r.lsn) :
    logEnd L < logEnd (L ++ [r]) ∧ r.lsn < logEnd (L ++ [r]) := by
  rw [logEnd_snoc]
  have : 0 < r.encodedLen := encodedLen_pos
  omega

lemma LogOrder.snoc (h : LogOrder L) (hlsn : logEnd L ≤ r.lsn) : LogOrder (L ++ [r]) := by
  obtain ⟨hend, hlast⟩ := logEnd_lt_snoc hlsn
  refine ⟨fun hx => ?_, fun hx => ?_, h.endGe.trans hend.le, ?_⟩
  · rcases mem_append.1 hx with hx | hx
    · exact (h.lsnLt hx).trans hend
    · rwa [mem_singleton.1 hx]
  · rcases mem_append.1 hx with hx | hx
    · exact h.lsnGe hx
    · rw [mem_singleton.1 hx]
      exact h.endGe.trans hlsn
  · refine pairwise_append.2 ⟨h.ascending, pairwise_singleton .., fun x hx y hy => ?_⟩
    rw [mem_singleton.1 hy]
    exact lt_of_lt_of_le (h.lsnLt hx) hlsn

lemma not_finished_of_snoc (h : ¬ Finished (L ++ [r]) t) : ¬ Finished L t :=
    fun h' => h (finished_snoc.2 (.inl h'))

/-- Finishing more transactions asks less of the survivors. -/
lemma apart_snoc (hi : LogInv sem s0 L) :
    (survivors L).Pairwise fun x y => x.undo ≠ [] → ¬ Finished (L ++ [r]) x.txnId →
      (y.txnId ≠ x.txnId ∨ y.undo = []) → Disjoint (sem.foot y) (sem.foot x) :=
  hi.apart.imp fun h hu hf => h hu (not_finished_of_snoc hf)

lemma chain_of_not_started (hi : LogInv sem s0 L) (h : ¬ Started L t) : chain L t = [] := by
  refine eq_nil_iff_forall_not_mem.2 fun x hx => h ⟨x, hi.chain_mem hx, (hi.chainMem hx).2⟩

lemma mem_snoc {y : LogRecord} (hx : y ∈ L) : y ∈ L ++ [r] := mem_append_left _ hx

lemma mem_of_snoc (h : x ∈ L ++ [r]) : x ∈ L ∨ x = r := (mem_append.1 h).imp_right mem_singleton.1

/-! ### What a record that compensates nothing leaves as it is -/

section NoClr

variable (hclr : r.recType ≠ .clr)
include hclr

lemma rollingBack_snoc_of_ne : RollingBack (L ++ [r]) t ↔ RollingBack L t :=
  rollingBack_snoc.trans (or_iff_left fun h => hclr h.2)

lemma clr_mem_of_snoc {c : LogRecord} (hc : c ∈ L ++ [r]) (htype : c.recType = .clr) : c ∈ L :=
  (mem_of_snoc hc).resolve_right fun h => hclr (h ▸ htype)

lemma clrPrev_snoc (hi : LogInv sem s0 L) (hlsn : logEnd L ≤ r.lsn) :
    ∀ {c}, c ∈ L ++ [r] → c.recType = .clr → c.prevLsn < logEnd (L ++ [r]) := fun hc htype =>
  lt_trans (hi.clrPrev (clr_mem_of_snoc hclr hc htype) htype) (logEnd_lt_snoc hlsn).1

lemma undoneOnce_snoc (hi : LogInv sem s0 L) :
    (L ++ [r]).Pairwise fun c c' => c.recType = .clr → c'.recType = .clr →
    c.prevLsn ≠ c'.prevLsn := by
  refine pairwise_append.2 ⟨hi.undoneOnce, pairwise_singleton .., fun c _ c' hc' => ?_⟩
  rw [mem_singleton.1 hc']
  exact fun _ h => absurd h hclr

end NoClr

/-! ### Control records -/

section

variable (hi : LogInv sem s0 L)

include hi

/-- A record that is neither an update nor a compensation. -/
lemma LogInv.control (hlsn : logEnd L ≤ r.lsn) (hpage : r.recType.isPageChange = false)
    (hself : r.txnId ≠ 0 → ¬ Finished (L ++ [r]) r.txnId → r.recType = .begin ∧ r.prevLsn = 0 ∧
      ¬ Started L r.txnId) :
    LogInv sem s0 (L ++ [r]) := by
  obtain ⟨hupd, hclr⟩ : r.recType ≠ .update ∧ r.recType ≠ .clr := by
    constructor <;> (intro h; rw [h] at hpage; cases hpage)
  have hsurv : survivors (L ++ [r]) = survivors L := by
    rw [survivors_snoc, survivorStep]
    split <;> first | contradiction | rfl
  have hchain : ∀ t, chain (L ++ [r]) t = chain L t := by
    intro t
    rw [chain_snoc, chainStep]
    split
    · split <;> first | contradiction | rfl
    · rfl
  have hreplay : sem.replay (L ++ [r]) s0 = sem.replay L s0 := by
    rw [sem.replay_snoc, replayRecord, hpage]
    rfl
  have hroll : ∀ {t}, RollingBack (L ++ [r]) t ↔ RollingBack L t := rollingBack_snoc_of_ne hclr
  refine
    { hi.toLogOrder.snoc hlsn with
      replay_eq := ?_, sound := ?_, sublist := ?_, apart := ?_, stack := fun hf => ?_
      chainSub := fun {t} => ?_, chainMem := fun hx => ?_, linked := fun {t} h0 hf hr => ?_
      linkedClr := fun {t} h0 hf hr => ?_, clrPrev := clrPrev_snoc hclr hi hlsn
      notUndone hx hc htype := ?_, undoneOnce := undoneOnce_snoc hclr hi }
  · rw [hreplay, hsurv, hi.replay_eq]
  · rw [hsurv]
    exact hi.sound
  · rw [hsurv]
    exact hi.sublist.trans (sublist_append_left ..)
  · rw [hsurv]
    exact apart_snoc hi
  · rw [hsurv, hchain]
    exact hi.stack (not_finished_of_snoc hf)
  · rw [hchain]
    exact hi.chainSub.trans (sublist_append_left ..)
  · rw [hchain] at hx
    exact hi.chainMem hx
  · rw [hchain, lastLsnOf_snoc]
    split
    · rename_i ht
      subst ht
      obtain ⟨hbegin, hprev, hnew⟩ := hself h0 hf
      rw [chain_of_not_started hi hnew]
      exact .begin (mem_append_right _ (mem_singleton_self r)) hbegin rfl hprev
    · exact (hi.linked h0 (not_finished_of_snoc hf) fun h => hr (hroll.2 h)).mono fun _ => mem_snoc
  · obtain ⟨c, hc, htype, htxn, hlast, hlink⟩ :=
      hi.linkedClr h0 (not_finished_of_snoc hf) (hroll.1 hr)
    refine ⟨c, mem_snoc hc, htype, htxn, ?_, hchain t ▸ hlink.mono fun _ => mem_snoc⟩
    rw [lastLsnOf_snoc, if_neg, hlast]
    rintro rfl
    obtain ⟨-, -, hnew⟩ := hself h0 hf
    exact hnew ⟨c, hc, htxn⟩
  · rw [hchain] at hx
    exact hi.notUndone hx (clr_mem_of_snoc hclr hc htype) htype

/-! ### Updates -/

lemma LogInv.update (hlsn : logEnd L ≤ r.lsn) (htype : r.recType = .update)
    (hroll : ¬ RollingBack L r.txnId) (hprev : r.prevLsn = lastLsnOf L r.txnId)
    (hinv : r.undo ≠ [] → (sem.entry r).Inverts (sem.replay L s0))
    (hapart : ∀ x ∈ survivors L, x.undo ≠ [] → ¬ Finished L x.txnId →
      (r.txnId ≠ x.txnId ∨ r.undo = []) → Disjoint (sem.foot r) (sem.foot x)) :
    LogInv sem s0 (L ++ [r]) := by
  have hclr : r.recType ≠ .clr := by simp [htype]
  have hsurv : survivors (L ++ [r]) = survivors L ++ [r] := by
    rw [survivors_snoc, survivorStep, htype]
  have hchain : ∀ t, chain (L ++ [r]) t = if r.txnId = t then r :: chain L t else chain L t := by
    intro t
    rw [chain_snoc, chainStep, htype]
  have hrolls : ∀ {t}, RollingBack (L ++ [r]) t ↔ RollingBack L t := rollingBack_snoc_of_ne hclr
  have hlast : r ∈ L ++ [r] := mem_append_right _ (mem_singleton_self r)
  refine
    { hi.toLogOrder.snoc hlsn with
      replay_eq := ?_, sound := ?_, sublist := ?_, apart := ?_, stack := fun {t} hf => ?_
      chainSub := fun {t} => ?_, chainMem := fun {t x} hx => ?_, linked := fun {t} h0 hf hr => ?_
      linkedClr := fun {t} h0 hf hr => ?_, clrPrev := clrPrev_snoc hclr hi hlsn
      notUndone := fun {t x c} hx hc hctype => ?_, undoneOnce := undoneOnce_snoc hclr hi }
  · have hpage : r.recType.isPageChange = true := by rw [htype]; rfl
    rw [sem.replay_snoc, replayRecord, if_pos hpage, hsurv, map_append, exec_append, ← hi.replay_eq]
    rfl
  · rw [hsurv, map_append]
    refine sound_snoc.2 ⟨hi.sound, fun hu => ?_⟩
    rw [← hi.replay_eq]
    exact hinv hu
  · rw [hsurv]
    exact hi.sublist.append_right [r]
  · rw [hsurv]
    refine pairwise_append.2 ⟨apart_snoc hi, pairwise_singleton .., fun x hx y hy => ?_⟩
    rw [mem_singleton.1 hy]
    exact fun hu hf => hapart x hx hu (not_finished_of_snoc hf)
  · have hstack := hi.stack (not_finished_of_snoc hf)
    rw [hsurv, hchain, filter_append, hstack]
    by_cases ht : r.txnId = t
    · by_cases hu : r.undo = [] <;> simp [ht, hu]
    · simp [ht]
  · rw [hchain]
    split
    · rw [reverse_cons]
      exact hi.chainSub.append_right [r]
    · exact hi.chainSub.trans (sublist_append_left ..)
  · rw [hchain] at hx
    split at hx
    · rename_i ht
      rcases mem_cons.1 hx with rfl | hx
      · exact ⟨htype, ht⟩
      · exact hi.chainMem hx
    · exact hi.chainMem hx
  · have hlink := hi.linked h0 (not_finished_of_snoc hf) fun h => hr (hrolls.2 h)
    rw [hchain, lastLsnOf_snoc]
    split
    · rename_i ht
      subst ht
      exact .update hlast htype rfl (hprev ▸ hlink.mono fun _ => mem_snoc)
    · exact hlink.mono fun _ => mem_snoc
  · have hr := hrolls.1 hr
    have hne : r.txnId ≠ t := fun h => hroll (h ▸ hr)
    obtain ⟨c, hc, hctype, hctxn, hclast, hlink⟩ := hi.linkedClr h0 (not_finished_of_snoc hf) hr
    rw [hchain, lastLsnOf_snoc, if_neg hne, if_neg hne]
    exact ⟨c, mem_snoc hc, hctype, hctxn, hclast, hlink.mono fun _ => mem_snoc⟩
  · have hcL := clr_mem_of_snoc hclr hc hctype
    rw [hchain] at hx
    split at hx
    · rcases mem_cons.1 hx with rfl | hx
      · exact ne_of_lt (lt_of_lt_of_le (hi.clrPrev hcL hctype) hlsn)
      · exact hi.notUndone hx hcL hctype
    · exact hi.notUndone hx hcL hctype

/-! ### Compensation records -/

lemma LogInv.chain_pairwise : (chain L t).Pairwise fun x y => y.lsn < x.lsn :=
  pairwise_reverse.1 (hi.ascending.sublist hi.chainSub)

lemma LogInv.survivors_pairwise : (survivors L).Pairwise fun x y => x.lsn < y.lsn :=
  hi.ascending.sublist hi.sublist

/-- What is left of the chain when one of its updates is compensated. -/
lemma LogInv.chain_drop {newer older : Log} (hchain : chain L t = newer ++ x :: older) :
    ((chain L t).dropWhile fun y => y.lsn ≠ x.lsn).tail = older := by
  have hnewer : ∀ y ∈ newer, decide (y.lsn ≠ x.lsn) = true := by
    intro y hy
    have hlt := (pairwise_append.1 (hchain ▸ hi.chain_pairwise)).2.2 y hy x mem_cons_self
    exact decide_eq_true (Nat.ne_of_gt hlt)
  rw [hchain, dropWhile_append_of_pos hnewer]
  simp

end

/-- A last element that does not occur again splits the list at its end. -/
lemma split_at_last {α : Type} {A B C : List α} {x : α} (h : A ++ x :: B = C ++ [x])
    (hx : x ∉ B) : A = C ∧ B = [] := by
  rcases eq_nil_or_concat B with rfl | ⟨D, z, rfl⟩
  · exact ⟨(append_inj' h rfl).1, rfl⟩
  rw [concat_eq_append, ← cons_append, ← append_assoc] at h
  have hz : [z] = [x] := (append_inj' h rfl).2
  rw [concat_eq_append, hz] at hx
  exact absurd (mem_append_right _ (mem_singleton_self x)) hx

/-- The survivors around the newest undoable update of an unfinished transaction: behind it there is
no undoable one of the same transaction. -/
lemma LogInv.around (hi : LogInv sem s0 L) {newer older : Log}
    (hopen : ¬ Finished L t) (hchain : chain L t = newer ++ x :: older)
    (hnewer : ∀ y ∈ newer, y.undo = []) (hu : x.undo ≠ []) :
    ∃ A B, survivors L = A ++ x :: B ∧ (∀ y ∈ B, y.txnId ≠ t ∨ y.undo = []) ∧
      (A ++ B).filter (fun y => decide (y.txnId = t ∧ y.undo ≠ [])) =
        (older.filter fun y => decide (y.undo ≠ [])).reverse := by
  have hstack := hi.stack hopen
  have hnone : newer.filter (fun y => decide (y.undo ≠ [])) = [] := by
    refine filter_eq_nil_iff.2 fun y hy => ?_
    simp [hnewer y hy]
  rw [hchain, filter_append, hnone, nil_append, filter_cons, if_pos (decide_eq_true hu),
    reverse_cons] at hstack
  have hx : x ∈ survivors L := by
    have : x ∈ (older.filter fun y => decide (y.undo ≠ [])).reverse ++ [x] :=
      mem_append_right _ (mem_singleton_self x)
    exact (mem_filter.1 (hstack ▸ this)).1
  have ht : x.txnId = t := (hi.chainMem (hchain ▸ mem_append_right _ mem_cons_self)).2
  obtain ⟨A, B, hAB⟩ := append_of_mem hx
  rw [hAB, filter_append, filter_cons, if_pos (decide_eq_true ⟨ht, hu⟩)] at hstack
  have hnot : x ∉ B := fun h =>
    have hpair := (pairwise_append.1 (hAB ▸ hi.survivors_pairwise)).2.1
    absurd ((pairwise_cons.1 hpair).1 x h) (Nat.lt_irrefl _)
  obtain ⟨hA, hB⟩ := split_at_last hstack fun h => hnot (mem_filter.1 h).1
  refine ⟨A, B, hAB, fun y hy => ?_, ?_⟩
  · have := filter_eq_nil_iff.1 hB y hy
    by_cases hyt : y.txnId = t
    · refine .inr ?_
      by_contra hyu
      exact this (decide_eq_true ⟨hyt, hyu⟩)
    · exact .inl hyt
  · rw [filter_append, hA, hB, append_nil]

section

variable (hi : LogInv sem s0 L) {newer older : Log} (htype : r.recType = .clr)
  (hopen : ¬ Finished L r.txnId) (hchain : chain L r.txnId = newer ++ x :: older)
  (hnewer : ∀ y ∈ newer, y.undo = []) (hpage : r.pageId = x.pageId) (hprev : r.prevLsn = x.lsn)
  (hredo : r.redo = x.undo)

include hi htype hopen hchain hnewer hpage hprev hredo

/-- Undoing the newest undoable update of an unfinished transaction takes it out of the survivors. A
redo-only update has nothing to undo and stays. -/
lemma LogInv.compensated :
    sem.replay (L ++ [r]) s0 = exec ((survivors (L ++ [r])).map sem.entry) s0 ∧
      Sound s0 ((survivors (L ++ [r])).map sem.entry) ∧
      (survivors (L ++ [r])).Sublist (survivors L) ∧
      (survivors (L ++ [r])).filter (fun y => decide (y.txnId = r.txnId ∧ y.undo ≠ [])) =
        (older.filter fun y => decide (y.undo ≠ [])).reverse ∧
      ∀ t' ≠ r.txnId, (survivors (L ++ [r])).filter (fun y => decide (y.txnId = t' ∧ y.undo ≠ [])) =
        (survivors L).filter fun y => decide (y.txnId = t' ∧ y.undo ≠ []) := by
  have hchange : r.recType.isPageChange = true := by rw [htype]; rfl
  rw [sem.replay_snoc, replayRecord, if_pos hchange, survivors_snoc, survivorStep,
    htype, hpage, hprev, hredo]
  by_cases hu : x.undo = []
  · rw [if_pos hu, hu, sem.onPage_nil]
    refine ⟨hi.replay_eq, hi.sound, List.Sublist.refl _, ?_, fun _ _ => rfl⟩
    have hnone : (newer ++ [x]).filter (fun y => decide (y.undo ≠ [])) = [] := by
      refine filter_eq_nil_iff.2 fun y hy => ?_
      rcases mem_append.1 hy with hy | hy
      · simp [hnewer y hy]
      · simp [mem_singleton.1 hy, hu]
    rw [hi.stack hopen, hchain, append_cons, filter_append, hnone, nil_append]
  · obtain ⟨A, B, hAB, hB, hfilter⟩ := hi.around hopen hchain hnewer hu
    have ht : x.txnId = r.txnId := (hi.chainMem (hchain ▸ mem_append_right _ mem_cons_self)).2
    have hpair := pairwise_append.1 (hAB ▸ hi.survivors_pairwise)
    have hrest : (survivors L).filter (fun y => decide (y.lsn ≠ x.lsn)) = A ++ B := by
      have hA : ∀ y ∈ A, decide (y.lsn ≠ x.lsn) = true := fun y hy =>
        decide_eq_true (ne_of_lt (hpair.2.2 y hy x mem_cons_self))
      have hB : ∀ y ∈ B, decide (y.lsn ≠ x.lsn) = true := fun y hy =>
        decide_eq_true (Nat.ne_of_gt ((pairwise_cons.1 hpair.2.1).1 y hy))
      rw [hAB, filter_append, filter_eq_self.2 hA, filter_cons, filter_eq_self.2 hB]
      simp
    -- what was logged behind `x` and survives is elsewhere
    have hapart : ∀ e ∈ B.map sem.entry, Disjoint e.foot (sem.entry x).foot := by
      intro e he
      obtain ⟨y, hy, rfl⟩ := mem_map.1 he
      have h := (pairwise_append.1 (hAB ▸ hi.apart)).2.1
      exact (pairwise_cons.1 h).1 y hy hu (ht ▸ hopen) (ht ▸ hB y hy)
    have hsound : Sound s0 (A.map sem.entry ++ sem.entry x :: B.map sem.entry) := by
      have := hi.sound
      rwa [hAB, map_append] at this
    rw [if_neg hu, hrest, map_append]
    refine ⟨?_, hsound.remove hapart, ?_, hfilter, fun t' ht' => ?_⟩
    · rw [hi.replay_eq, hAB, map_append]
      exact exec_undo hsound hu hapart
    · rw [hAB]
      exact (sublist_cons_self x B).append_left A
    · rw [hAB]
      simp [ht, Ne.symm ht']

lemma LogInv.clr (hlsn : logEnd L ≤ r.lsn) (hnext : r.undoNextLsn = x.prevLsn) :
    LogInv sem s0 (L ++ [r]) := by
  obtain ⟨hreplay, hsound, hsub, hself, hothers⟩ :=
    hi.compensated htype hopen hchain hnewer hpage hprev hredo
  have hxc : x ∈ chain L r.txnId := hchain ▸ mem_append_right _ mem_cons_self
  have hchains : ∀ t, chain (L ++ [r]) t = if r.txnId = t then older else chain L t := by
    intro t
    rw [chain_snoc, chainStep, htype, hprev]
    split
    · rename_i ht
      subst ht
      exact hi.chain_drop hchain
    · rfl
  have hlast : r ∈ L ++ [r] := mem_append_right _ (mem_singleton_self r)
  have holder : (older.reverse).Sublist (chain L r.txnId).reverse := by
    rw [hchain, append_cons]
    exact (sublist_append_right _ older).reverse
  have holderMem : ∀ y ∈ older, y ∈ chain L r.txnId := fun y hy =>
    mem_reverse.1 (holder.subset (mem_reverse.2 hy))
  refine
    { hi.toLogOrder.snoc hlsn with
      replay_eq := hreplay, sound := hsound
      sublist := (hsub.trans hi.sublist).trans (sublist_append_left ..)
      apart := (apart_snoc hi).sublist hsub, stack := fun {t} hf => ?_
      chainSub := fun {t} => ?_, chainMem := fun {t y} hy => ?_, linked := fun {t} h0 hf hr => ?_
      linkedClr := fun {t} h0 hf hr => ?_, clrPrev := fun {c} hc hctype => ?_
      notUndone := fun {t y c} hy hc hctype => ?_, undoneOnce := ?_ }
  · rw [hchains]
    split
    · rename_i ht
      exact ht ▸ hself
    · rename_i ht
      rw [hothers t (Ne.symm ht), hi.stack (not_finished_of_snoc hf)]
  · rw [hchains]
    split
    · exact (holder.trans hi.chainSub).trans (sublist_append_left ..)
    · exact hi.chainSub.trans (sublist_append_left ..)
  · rw [hchains] at hy
    split at hy
    · rename_i ht
      exact ht ▸ hi.chainMem (holderMem y hy)
    · exact hi.chainMem hy
  · have hne : r.txnId ≠ t := fun h => hr (rollingBack_snoc.2 (.inr ⟨h, htype⟩))
    rw [hchains, lastLsnOf_snoc, if_neg hne, if_neg hne]
    exact (hi.linked h0 (not_finished_of_snoc hf) fun h => hr (rollingBack_snoc.2 (.inl h))).mono
      fun _ => mem_snoc
  · have hf := not_finished_of_snoc hf
    rw [hchains, lastLsnOf_snoc]
    split
    · rename_i ht
      subst ht
      refine ⟨r, hlast, htype, rfl, rfl, ?_⟩
      rw [hnext]
      -- the rest of the chain hangs on the compensated update, whether or not others were before
      by_cases hroll : RollingBack L r.txnId
      · obtain ⟨c, -, -, -, -, hlink⟩ := hi.linkedClr h0 hf hroll
        exact (hchain ▸ hlink).older.mono fun _ => mem_snoc
      · exact (hchain ▸ hi.linked h0 hf hroll).older.mono fun _ => mem_snoc
    · rename_i ht
      have hroll : RollingBack L t := (rollingBack_snoc.1 hr).resolve_right fun h => ht h.1
      obtain ⟨c, hc, hctype, hctxn, hclast, hlink⟩ := hi.linkedClr h0 hf hroll
      exact ⟨c, mem_snoc hc, hctype, hctxn, hclast, hlink.mono fun _ => mem_snoc⟩
  · refine lt_trans ?_ (logEnd_lt_snoc hlsn).1
    rcases mem_append.1 hc with hc | hc
    · exact hi.clrPrev hc hctype
    · rw [mem_singleton.1 hc, hprev]
      exact hi.lsnLt (hi.chain_mem hxc)
  · -- the new record compensates `x`, which has just left the only chain it was on
    have hyt : y ∈ chain L t := by
      rw [hchains] at hy
      split at hy
      · rename_i ht
        exact ht ▸ holderMem y hy
      · exact hy
    rcases mem_append.1 hc with hc | hc
    · exact hi.notUndone hyt hc hctype
    rw [mem_singleton.1 hc, hprev]
    intro heq
    have hxy : x = y := hi.eq_of_lsn (hi.chain_mem hxc) (hi.chain_mem hyt) heq
    subst hxy
    have ht : r.txnId = t := (hi.chainMem hxc).2.symm.trans (hi.chainMem hyt).2
    rw [hchains, if_pos ht] at hy
    have hpair := (pairwise_append.1 (hchain ▸ hi.chain_pairwise)).2.1
    exact Nat.lt_irrefl _ ((pairwise_cons.1 hpair).1 x hy)
  · refine pairwise_append.2 ⟨hi.undoneOnce, pairwise_singleton .., fun c hc c' hc' => ?_⟩
    rw [mem_singleton.1 hc', hprev]
    exact fun hctype _ => hi.notUndone hxc hc hctype

end

end LogInv

/-! ### Every log -/

/-- **Every log that may be written** is replayed to the effect of its survivors. -/
theorem LogOk.inv {sem : ImageSemantics} {s0 : Store} {L : Log} (h : LogOk sem s0 L) :
    LogInv sem s0 L := by
  induction h with
  | nil => exact .nil
  | @snoc L r _ hlsn hnext hi =>
    cases hnext with
    | begin htype _ hnew hprev =>
      exact hi.control hlsn (by rw [htype]; rfl) fun _ _ => ⟨htype, hprev, hnew⟩
    | update htype _ _ hroll hprev hinv hapart => exact hi.update hlsn htype hroll hprev hinv hapart
    | commit htype =>
      exact hi.control hlsn (by rw [htype]; rfl) fun _ hf =>
        absurd (finished_snoc.2 (.inr ⟨rfl, .inl htype⟩)) hf
    | abort htype =>
      exact hi.control hlsn (by rw [htype]; rfl) fun _ hf =>
        absurd (finished_snoc.2 (.inr ⟨rfl, .inr htype⟩)) hf
    | clr htype _ hopen x newer older hchain hnewer hpage hprev hnext hredo =>
      exact hi.clr htype hopen hchain hnewer hpage hprev hredo hlsn hnext
    | checkpoint htype htxn =>
      refine hi.control hlsn ?_ fun h _ => absurd htxn h
      rcases htype with htype | htype <;> (rw [htype]; rfl)

/-! ### Where the records point -/

/-- What a record says about the ones it points to. -/
structure LogLinks (L : Log) : Prop where
  txnPos : ∀ {r}, r ∈ L → r.recType.isPageChange = true → r.txnId ≠ 0
  updateBack : ∀ {x}, x ∈ L → x.recType = .update → x.prevLsn < x.lsn
  clrBack : ∀ {c}, c ∈ L → c.recType = .clr → c.undoNextLsn < c.lsn
  /-- a compensation record undoes an update of its transaction -/
  clrOf : ∀ {c}, c ∈ L → c.recType = .clr → ∃ x ∈ L, x.recType = .update ∧
    x.txnId = c.txnId ∧ x.lsn = c.prevLsn ∧ x.undo = c.redo ∧ x.pageId = c.pageId
  /-- a transaction that commits is not being rolled back -/
  commitClean : ∀ {r}, r ∈ L → r.recType = .commit → ¬ RollingBack L r.txnId

section LogLinks

variable {sem : ImageSemantics} {s0 : Store} {L : Log} {r : LogRecord}

/-- The last LSN of a transaction is that of one of its records, or null. -/
lemma lastLsnOf_cases (L : Log) (t : Nat) :
    (lastLsnOf L t = 0 ∧ ¬ Started L t) ∨ ∃ r ∈ L, r.txnId = t ∧ r.lsn = lastLsnOf L t := by
  induction L using reverseRecOn with
  | nil => exact .inl ⟨rfl, by simp [Started]⟩
  | append_singleton L r ih =>
    rw [lastLsnOf_snoc]
    split
    · rename_i ht
      exact .inr ⟨r, mem_append_right _ (mem_singleton_self r), ht, rfl⟩
    rename_i ht
    rcases ih with ⟨h0, hnew⟩ | ⟨x, hx, h⟩
    · exact .inl ⟨h0, fun h => (started_snoc.1 h).elim hnew ht⟩
    · exact .inr ⟨x, mem_snoc hx, h⟩

lemma lastLsnOf_lt (hi : LogInv sem s0 L) (t : Nat) : lastLsnOf L t < logEnd L := by
  rcases lastLsnOf_cases L t with ⟨h0, -⟩ | ⟨r, hr, -, hlsn⟩
  · rw [h0]
    exact lt_of_lt_of_le (by decide) hi.endGe
  · exact hlsn ▸ hi.lsnLt hr

/-- The records before the last one keep their links; what is left is what the last one says. -/
lemma LogLinks.append (hl : LogLinks L) (hpos : r.recType.isPageChange = true → r.txnId ≠ 0)
    (hupdate : r.recType = .update → r.prevLsn < r.lsn)
    (hclr : r.recType = .clr → r.undoNextLsn < r.lsn ∧ ∃ x ∈ L, x.recType = .update ∧
      x.txnId = r.txnId ∧ x.lsn = r.prevLsn ∧ x.undo = r.redo ∧ x.pageId = r.pageId)
    (hroll : r.recType = .clr → ¬ Finished L r.txnId)
    (hcommit : r.recType = .commit → ¬ RollingBack L r.txnId) : LogLinks (L ++ [r]) := by
  refine ⟨fun hx hp => ?_, fun hx htype => ?_, fun hx htype => ?_, fun hx htype => ?_,
    fun hx htype h => ?_⟩ <;> rcases mem_of_snoc hx with hx | rfl
  · exact hl.txnPos hx hp
  · exact hpos hp
  · exact hl.updateBack hx htype
  · exact hupdate htype
  · exact hl.clrBack hx htype
  · exact (hclr htype).1
  · obtain ⟨x, hx, h⟩ := hl.clrOf hx htype
    exact ⟨x, mem_snoc hx, h⟩
  · obtain ⟨x, hx, h⟩ := (hclr htype).2
    exact ⟨x, mem_snoc hx, h⟩
  · rcases rollingBack_snoc.1 h with h | h
    · exact hl.commitClean hx htype h
    · exact hroll h.2 ⟨_, hx, h.1.symm, .inl htype⟩
  · refine hcommit htype ((rollingBack_snoc.1 h).resolve_right fun h => ?_)
    cases htype.symm.trans h.2

/-- A record that is neither an update nor a compensation points to nothing. -/
lemma LogLinks.control (hl : LogLinks L) (hpage : r.recType.isPageChange = false)
    (hcommit : r.recType = .commit → ¬ RollingBack L r.txnId) : LogLinks (L ++ [r]) := by
  have hclr : r.recType ≠ .clr := fun h => by rw [h] at hpage; cases hpage
  refine hl.append (fun h => ?_) (fun h => ?_) (fun h => absurd h hclr)
    (fun h => absurd h hclr) hcommit
  · cases hpage.symm.trans h
  · rw [h] at hpage
    cases hpage

lemma LogLinks.snoc (hi : LogInv sem s0 L) (hl : LogLinks L) (hlsn : logEnd L ≤ r.lsn)
    (hnext : CanFollow sem s0 L r) : LogLinks (L ++ [r]) := by
  cases hnext with
  | begin htype | abort htype =>
      exact hl.control (by rw [htype]; rfl) fun h => by cases htype.symm.trans h
  | commit htype _ _ hroll => exact hl.control (by rw [htype]; rfl) fun _ => hroll
  | checkpoint htype =>
    refine hl.control (by rcases htype with htype | htype <;> (rw [htype]; rfl)) fun h => ?_
    rw [h] at htype
    simp at htype
  | update htype htxn _ _ hprev =>
    refine hl.append (fun _ => htxn) (fun _ => ?_) (fun h => ?_) (fun h => ?_) fun h => ?_
    · exact hprev ▸ lt_of_lt_of_le (lastLsnOf_lt hi _) hlsn
    all_goals cases htype.symm.trans h
  | clr htype htxn hopen x newer older hchain _ hpage hprev hnext hredo =>
    have hxc : x ∈ chain L r.txnId := hchain ▸ mem_append_right _ mem_cons_self
    have hxL := hi.chain_mem hxc
    obtain ⟨hxu, hxt⟩ := hi.chainMem hxc
    refine hl.append (fun _ => htxn) (fun h => ?_) (fun _ => ⟨?_, ?_⟩) (fun _ => hopen) fun h => ?_
    · cases htype.symm.trans h
    · rw [hnext]
      exact lt_trans (hl.updateBack hxL hxu) (lt_of_lt_of_le (hi.lsnLt hxL) hlsn)
    · exact ⟨x, hxL, hxu, hxt, hprev.symm, hredo.symm, hpage.symm⟩
    · cases htype.symm.trans h

lemma LogOk.links (h : LogOk sem s0 L) : LogLinks L := by
  induction h with
  | nil => exact ⟨nofun, nofun, nofun, nofun, nofun⟩
  | snoc hL hlsn hnext ih => exact ih.snoc hL.inv hlsn hnext

end LogLinks

end Graphus
