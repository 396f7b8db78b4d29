import Graphus.Wal.UndoPass

/-!
# What a log amounts to

The effect of a log is that of the updates recovery leaves standing, in log order: those of
committed transactions, those that have no undo image, and those an ended transaction has not had
compensated. A transaction ends without compensating its updates by a plain abort, whose caller has
undone the changes by other means.

**Theorem (`Recovered.content_eq`).** Recovery leaves every page at the effect of the log it started
from.
-/

namespace Graphus

open UndoLog List

section Effect

variable (L : Log) (x : LogRecord)

/-- A compensation record for `x` has been logged. -/
def Compensated : Prop := ∃ c ∈ L, c.recType = .clr ∧ c.prevLsn = x.lsn

instance : Decidable (Compensated L x) := by
  unfold Compensated
  infer_instance

/-- `x` is one of the updates recovery leaves standing. -/
def Contributes : Prop :=
  x.recType = .update ∧
    (x.undo = [] ∨ CommitLogged L x.txnId ∨ AbortLogged L x.txnId ∧ ¬ Compensated L x)

instance : Decidable (Contributes L x) := by
  unfold Contributes
  infer_instance

/-- The updates that stand, applied in log order. -/
def effect (sem : ImageSemantics) (s0 : Store) : Store :=
  (L.filter fun x => Contributes L x).foldl (fun s x => sem.onPage x.pageId x.redo s) s0

end Effect

section Survivors

variable {sem : ImageSemantics} {s0 : Store} {L L' : Log} {x : LogRecord}

lemma LogOk.of_snoc {r : LogRecord} (h : LogOk sem s0 (L ++ [r])) :
    LogOk sem s0 L ∧ logEnd L ≤ r.lsn ∧ CanFollow sem s0 L r := by
  generalize hM : L ++ [r] = M at h
  cases h with
  | nil => simp at hM
  | snoc hL hlsn hnext =>
    obtain ⟨rfl, hr⟩ := append_inj' hM rfl
    obtain rfl := singleton_injective hr
    exact ⟨hL, hlsn, hnext⟩

/-- Every prefix of a log is one. -/
lemma LogOk.left (h : LogOk sem s0 (L ++ L')) : LogOk sem s0 L := by
  induction L' using reverseRecOn with
  | nil => rwa [append_nil] at h
  | append_singleton L' r ih =>
    rw [← append_assoc] at h
    exact ih h.of_snoc.1

/-- The records behind a prefix of the log have their LSNs behind it. -/
lemma LogOk.end_le (h : LogOk sem s0 (L ++ L')) :
    logEnd L ≤ logEnd (L ++ L') ∧ ∀ r ∈ L', logEnd L ≤ r.lsn := by
  induction L' using reverseRecOn with
  | nil => exact ⟨by rw [append_nil], nofun⟩
  | append_singleton L' r ih =>
    rw [← append_assoc] at h ⊢
    obtain ⟨hL, hlsn, -⟩ := h.of_snoc
    obtain ⟨hle, hall⟩ := ih hL
    refine ⟨le_trans hle (le_of_lt (logEnd_lt_snoc hlsn).1), fun x hx => ?_⟩
    exact (mem_of_snoc hx).elim (hall x) fun h => h ▸ le_trans hle hlsn

section

variable (h : LogOk sem s0 L)

include h

/-- **The survivors** are the updates that have nothing to undo or have not been compensated. -/
lemma survivors_eq :
    survivors L = L.filter fun x => x.recType = .update ∧ (x.undo = [] ∨ ¬ Compensated L x) := by
  induction h with
  | nil => rfl
  | @snoc L r hL hlsn hnext ih =>
    have hi := hL.inv
    have hnew : ∀ {c}, c ∈ L → c.recType = .clr → c.prevLsn ≠ r.lsn := fun hc htype =>
      ne_of_lt (lt_of_lt_of_le (hi.clrPrev hc htype) hlsn)
    -- a record that is no compensation changes nothing for the updates before it
    have hquiet : r.recType ≠ .clr → ∀ x, Compensated (L ++ [r]) x ↔ Compensated L x := by
      intro hclr x
      constructor
      · rintro ⟨c, hc, htype, hprev⟩
        rcases mem_of_snoc hc with hc | rfl
        · exact ⟨c, hc, htype, hprev⟩
        · exact absurd htype hclr
      · rintro ⟨c, hc, h⟩
        exact ⟨c, mem_snoc hc, h⟩
    rw [survivors_snoc, survivorStep, ih, filter_append]
    by_cases hupd : r.recType = .update
    · have hr : ¬ Compensated L r := by
        rintro ⟨c, hc, htype, hprev⟩
        exact hnew hc htype hprev
      simp only [hquiet (by simp [hupd])]
      simp [hupd, hr]
    · rw [filter_singleton, show decide (r.recType = RecordType.update ∧ _) = false by simp [hupd],
        cond_false, append_nil]
      by_cases hclr : r.recType = .clr
      · cases hnext with
        | clr _ _ hopen y newer older hchain hnewer hpage hprev hnext hredo =>
          have hyc : y ∈ chain L r.txnId := hchain ▸ mem_append_right _ mem_cons_self
          have hiff : ∀ x, Compensated (L ++ [r]) x ↔ Compensated L x ∨ x.lsn = y.lsn := by
            intro x
            constructor
            · rintro ⟨c, hc, htype, hcx⟩
              rcases mem_of_snoc hc with hc | rfl
              · exact .inl ⟨c, hc, htype, hcx⟩
              · exact .inr (hcx.symm.trans hprev)
            · rintro (⟨c, hc, h⟩ | h)
              · exact ⟨c, mem_snoc hc, h⟩
              · exact ⟨r, mem_append_right _ (mem_singleton_self r), hclr, hprev.trans h.symm⟩
          rw [hclr, hprev, hredo]
          simp only [hiff]
          -- with nothing to undo, `y` is the only record concerned, and it stays
          split
          on_goal 2 => rw [filter_filter]
          all_goals
            rename_i hu
            refine filter_congr fun x hx => ?_
            by_cases hxy : x.lsn = y.lsn
            · have := hi.eq_of_lsn hx (hi.chain_mem hyc) hxy
              simp [this, hu]
            · simp [hxy]
        | begin htype | update htype | commit htype | abort htype => cases htype.symm.trans hclr
        | checkpoint htype => rcases htype with htype | htype <;> cases htype.symm.trans hclr
      · simp only [hquiet hclr]

/-- A compensation record belongs to the transaction of the update it names. -/
lemma LogOk.txn_of_compensates {c : LogRecord} (hc : c ∈ L)
    (htype : c.recType = .clr) (hx : x ∈ L) (hprev : c.prevLsn = x.lsn) : c.txnId = x.txnId := by
  obtain ⟨y, hy, -, htxn, hlsn, -⟩ := h.links.clrOf hc htype
  exact htxn.symm.trans (congrArg LogRecord.txnId (h.inv.eq_of_lsn hy hx (hlsn.trans hprev)))

/-- The updates of a committed transaction are not compensated. -/
lemma LogOk.not_compensated_of_commit (hx : x ∈ L)
    (hcommit : CommitLogged L x.txnId) : ¬ Compensated L x := by
  rintro ⟨c, hc, htype, hprev⟩
  obtain ⟨r, hr, htxn, hcommit⟩ := hcommit
  refine h.links.commitClean hr hcommit ⟨c, hc, ?_, htype⟩
  exact (h.txn_of_compensates hc htype hx hprev).trans htxn.symm

/-- Where every transaction has finished, the survivors are the updates that stand. -/
lemma survivors_of_finished (hfin : ∀ x ∈ L, x.recType = .update → Finished L x.txnId) :
    survivors L = L.filter fun x => Contributes L x := by
  rw [survivors_eq h]
  refine filter_congr fun x hx => ?_
  rw [decide_eq_decide]
  refine and_congr_right fun htype => ?_
  by_cases hcommit : CommitLogged L x.txnId
  · simp [hcommit, h.not_compensated_of_commit hx hcommit]
  · have habort : AbortLogged L x.txnId := (finished_iff.1 (hfin x hx htype)).resolve_left hcommit
    simp [habort, hcommit]

end

end Survivors

/-! ## What a rollback appends -/

/-- `C` are records of rollbacks of losers of `L`: compensations, and ends of transactions with
nothing left to undo. -/
structure RollsBack (L C : Log) : Prop where
  kind : ∀ c ∈ C, (c.recType = .clr ∨ c.recType = .abort) ∧ Loser L c.txnId
  ended : ∀ A e B, C = A ++ e :: B → e.recType = .abort → ∀ x ∈ chain (L ++ A) e.txnId, x.undo = []

section RollsBack

variable {sem : ImageSemantics} {s0 : Store} {L C C' : Log} {x : LogRecord} {t : Nat}

lemma RollsBack.of_prefix (h : RollsBack L C) (hpre : C' <+: C) : RollsBack L C' where
  kind c hc := h.kind c (hpre.subset hc)
  ended A e B hC' := by
    obtain ⟨D, rfl⟩ := hpre
    exact h.ended A e (B ++ D) (by rw [hC', append_assoc]; rfl)

lemma RollsBack.commitLogged_iff (h : RollsBack L C) :
    CommitLogged (L ++ C) t ↔ CommitLogged L t := by
  constructor
  · rintro ⟨r, hr, ht, htype⟩
    rcases mem_append.1 hr with hr | hr
    · exact ⟨r, hr, ht, htype⟩
    · rcases (h.kind r hr).1 with h | h <;> cases htype.symm.trans h
  · rintro ⟨r, hr, h⟩
    exact ⟨r, mem_append_left _ hr, h⟩

/-- Nothing is appended for a finished transaction. -/
lemma RollsBack.abortLogged_iff (h : RollsBack L C) (hfin : Finished L t) :
    AbortLogged (L ++ C) t ↔ AbortLogged L t := by
  constructor
  · rintro ⟨r, hr, rfl, htype⟩
    rcases mem_append.1 hr with hr | hr
    · exact ⟨r, hr, rfl, htype⟩
    · exact absurd hfin (h.kind r hr).2.2.2
  · rintro ⟨r, hr, h⟩
    exact ⟨r, mem_append_left _ hr, h⟩

section

variable (hL : LogOk sem s0 (L ++ C)) (h : RollsBack L C)

include hL h

lemma RollsBack.compensated_iff (hx : x ∈ L) (hfin : Finished L x.txnId) :
    Compensated (L ++ C) x ↔ Compensated L x := by
  constructor
  · rintro ⟨c, hc, htype, hprev⟩
    have htxn := hL.txn_of_compensates hc htype (mem_append_left _ hx) hprev
    rcases mem_append.1 hc with hc | hc
    · exact ⟨c, hc, htype, hprev⟩
    · exact absurd (htxn ▸ hfin) (h.kind c hc).2.2.2
  · rintro ⟨c, hc, h⟩
    exact ⟨c, mem_append_left _ hc, h⟩

/-- A transaction ended by a rollback has all its undoable updates compensated. -/
lemma RollsBack.compensated_of_abort (hx : x ∈ L) (htype : x.recType = .update) (hu : x.undo ≠ [])
    (hopen : ¬ Finished L x.txnId) (habort : AbortLogged (L ++ C) x.txnId) :
    Compensated (L ++ C) x := by
  obtain ⟨e, he, het, hetype⟩ := habort
  have he : e ∈ C := (mem_append.1 he).resolve_left fun he => hopen ⟨e, he, het, .inr hetype⟩
  obtain ⟨A, B, rfl⟩ := append_of_mem he
  rw [append_cons, ← append_assoc, ← append_assoc] at hL
  have hLA : LogOk sem s0 (L ++ A) := hL.left.left
  -- at its end record the transaction was still open
  have hopenA : ¬ Finished (L ++ A) x.txnId := by
    cases hL.left.of_snoc.2.2 with
    | abort _ _ hopen => exact het ▸ hopen
    | begin ht | update ht | commit ht | clr ht => cases ht.symm.trans hetype
    | checkpoint ht => rcases ht with ht | ht <;> cases ht.symm.trans hetype
  by_contra hnot
  have hnotA : ¬ Compensated (L ++ A) x := fun ⟨c, hc, hcomp⟩ =>
    hnot ⟨c, by rw [← append_assoc]; exact mem_append_left _ hc, hcomp⟩
  have hsurv : x ∈ (survivors (L ++ A)).filter fun y =>
    decide (y.txnId = x.txnId ∧ y.undo ≠ []) := by
    rw [survivors_eq hLA, mem_filter, mem_filter]
    exact ⟨⟨mem_append_left _ hx, decide_eq_true ⟨htype, .inr hnotA⟩⟩, decide_eq_true ⟨rfl, hu⟩⟩
  rw [hLA.inv.stack hopenA, mem_reverse, mem_filter] at hsurv
  exact hu (h.ended A e B rfl hetype x (het.symm ▸ hsurv.1))

/-- **A partial rollback does not change the effect of the log.** -/
lemma RollsBack.effect_append : effect (L ++ C) sem s0 = effect L sem s0 := by
  have hnone : C.filter (fun x => decide (Contributes (L ++ C) x)) = [] := by
    refine filter_eq_nil_iff.2 fun c hc => ?_
    rw [decide_eq_true_iff]
    rintro ⟨htype, -⟩
    rcases (h.kind c hc).1 with h | h <;> cases htype.symm.trans h
  have hsame : L.filter (fun x => decide (Contributes (L ++ C) x)) = L.filter fun x =>
    decide (Contributes L x) := by
    refine filter_congr fun x hx => ?_
    rw [decide_eq_decide]
    refine and_congr_right fun htype => ?_
    by_cases hu : x.undo = []
    · simp [hu]
    simp only [hu]
    rw [h.commitLogged_iff]
    by_cases hfin : Finished L x.txnId
    · rw [h.abortLogged_iff hfin, h.compensated_iff hL hx hfin]
    have hcommit : ¬ CommitLogged L x.txnId := fun hc => hfin (finished_iff.2 (.inl hc))
    have habort : ¬ AbortLogged L x.txnId := fun ha => hfin (finished_iff.2 (.inr ha))
    simp only [hcommit, habort, false_or, false_and, iff_false, not_and, not_not]
    exact h.compensated_of_abort hL hx htype hu hfin
  rw [effect, effect, filter_append, hnone, append_nil, hsame]

end

end RollsBack

/-! ## What recovery leaves -/

section Recovered

variable {sem : ImageSemantics} {s0 : Store} {sink : LogSink} {L C E : Log}
  {wal : WalManager} {pages : Pages (Nat → UInt8)}

/-- End records leave the chains alone. -/
lemma chain_append_ends (hE : ∀ e ∈ E, e.recType = .abort) (t : Nat) :
    chain (L ++ E) t = chain L t := by
  induction E using reverseRecOn with
  | nil => rw [append_nil]
  | append_singleton E e ih =>
    rw [← append_assoc, chain_snoc, chainStep, hE e (mem_append_right _ (mem_singleton_self e)),
      ih fun e he => hE e (mem_append_left _ he)]
    split <;> rfl

section

variable (h : Recovered sem s0 sink L C E wal pages)

include h

lemma Recovered.rollsBack : RollsBack L (C ++ E) where
  kind c hc := by
    rcases mem_append.1 hc with hc | hc
    · exact ⟨.inl (h.clrs c hc).1, (h.clrs c hc).2⟩
    · exact ⟨.inr (h.ends.1 c hc).1, Analysis.mem_losers.1 (h.ends.1 c hc).2⟩
  ended A e B hsplit htype x hx := by
    -- the end record is one of `E`, so all of `C` is before it
    rcases append_eq_append_iff.1 hsplit.symm with ⟨D, rfl, hD⟩ | ⟨D, rfl, rfl⟩
    · cases D with
      | nil =>
        have he : e ∈ E := by
          rw [nil_append] at hD
          exact hD ▸ mem_cons_self
        rw [append_nil] at h
        have hlose := Analysis.mem_losers.1 (h.ends.1 e he).2
        rw [h.undone _ hlose] at hx
        cases hx
      | cons d D =>
        obtain ⟨rfl, -⟩ := cons.inj hD
        have := (h.clrs e (mem_append_right _ mem_cons_self)).1
        cases htype.symm.trans this
    · have he : e ∈ D ++ e :: B := mem_append_right _ mem_cons_self
      have hlose := Analysis.mem_losers.1 (h.ends.1 e he).2
      rw [← append_assoc, chain_append_ends fun d hd =>
        (h.ends.1 d (mem_append_left _ hd)).1, h.undone _ hlose] at hx
      cases hx

/-- After recovery every transaction with updates has finished. -/
lemma Recovered.finished :
    ∀ x ∈ L ++ (C ++ E), x.recType = .update → Finished (L ++ (C ++ E)) x.txnId := by
  intro x hx htype
  rcases mem_append.1 hx with hx | hx
  · by_cases hfin : Finished L x.txnId
    · obtain ⟨r, hr, hfin⟩ := hfin
      exact ⟨r, mem_append_left _ hr, hfin⟩
    · have h0 := h.logOk.left.links.txnPos hx (by rw [htype]; rfl)
      obtain ⟨e, he, hetype, het⟩ :=
        h.ends.2 x.txnId (Analysis.mem_losers.2 ⟨h0, ⟨x, hx, rfl⟩, hfin⟩)
      exact ⟨e, mem_append_right _ (mem_append_right _ he), het, .inr hetype⟩
  · rcases (h.rollsBack.kind x hx).1 with h | h <;> cases htype.symm.trans h

/-- **Recovery leaves the effect of the log.** -/
theorem Recovered.content_eq (p i : Nat) : (pages p).content i = effect L sem s0 (p, i) := by
  rw [← h.rollsBack.effect_append h.logOk, h.pages.reflects.replay_eq h.pages.done,
    h.logOk.inv.replay_eq, survivors_of_finished h.logOk h.finished, effect, exec, foldl_map]
  rfl

end

end Recovered

end Graphus
