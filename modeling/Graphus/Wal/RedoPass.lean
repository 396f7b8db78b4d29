import Graphus.Wal.AnalysisPass

/-!
# Redo repeats history

A device page reflects the changes of the log up to its page LSN (`Reflects`). What is on the page
already is skipped, by LSN, and what lies before the redo start is on its page by the contract of
the checkpoint (`UpToDate`).

**Theorem (`redo_replays`).** After redo every page is as the whole log leaves it.

At every point of the pass each page still reflects the log up to its page LSN.
-/

namespace Graphus

open List

/-! ## A page in the log -/

/-- The record changes page `p`. -/
def Touches (p : Nat) (r : LogRecord) : Prop :=
  r.recType.isPageChange = true ∧ r.pageId = p ∧ r.redo ≠ []

instance (p : Nat) : DecidablePred (Touches p) := fun r => by
  unfold Touches
  infer_instance

namespace ImageSemantics

variable (sem : ImageSemantics)

/-- The changes of one page, in order. -/
def pageReplay (p : Nat) (L : Log) (c : Nat → UInt8) : Nat → UInt8 :=
  (L.filter (Touches p)).foldl (fun c r => sem.apply r.redo c) c

lemma replay_page (p : Nat) (L : Log) (s : Store) :
    (fun i => sem.replay L s (p, i)) = sem.pageReplay p L fun i => s (p, i) := by
  induction L using reverseRecOn with
  | nil => rfl
  | append_singleton L r ih =>
    have hsnoc : sem.pageReplay p (L ++ [r]) (fun i => s (p, i)) =
        sem.pageReplay p [r] (sem.pageReplay p L fun i => s (p, i)) := by
      rw [pageReplay, filter_append, foldl_append]
      rfl
    rw [hsnoc, ← ih, pageReplay]
    funext i
    rw [sem.replay_snoc, replayRecord]
    by_cases htouch : Touches p r
    · rw [if_pos htouch.1, onPage, if_pos htouch.2.1.symm]
      simp [htouch]
    rw [filter_singleton, decide_eq_false htouch]
    split
    · rename_i hpage
      by_cases hp : p = r.pageId
      · have hredo : r.redo = [] := by
          by_contra h
          exact htouch ⟨hpage, hp.symm, h⟩
        rw [hredo, sem.onPage_nil]
        rfl
      · rw [onPage, if_neg hp]
        rfl
    · rfl

/-- A page depends on its own changes only. -/
lemma replay_congr {p : Nat} {L L' : Log} (s : Store)
    (h : L.filter (Touches p) = L'.filter (Touches p)) (i : Nat) :
    sem.replay L s (p, i) = sem.replay L' s (p, i) := by
  have hpage : (fun i => sem.replay L s (p, i)) = fun i => sem.replay L' s (p, i) := by
    rw [sem.replay_page, sem.replay_page, pageReplay, pageReplay, h]
  exact congrFun hpage i

end ImageSemantics

/-- The page has the logged changes up to its page LSN and no others. -/
def PageReflects (sem : ImageSemantics) (s0 : Store) (L : Log) (p : Nat)
    (page : Page (Nat → UInt8)) : Prop :=
  ∀ i, page.content i = sem.replay (L.filter fun r => r.lsn ≤ page.lsn) s0 (p, i)

def Reflects (sem : ImageSemantics) (s0 : Store) (L : Log)
    (pages : Pages (Nat → UInt8)) : Prop :=
  ∀ p, PageReflects sem s0 L p (pages p)

/-- The changes before `start` are on their pages. -/
def UpToDate (L : Log) (start : Nat) (pages : Pages (Nat → UInt8)) : Prop :=
  ∀ r ∈ L, Touches r.pageId r → r.lsn < start → r.lsn ≤ (pages r.pageId).lsn

/-! ## The pass -/

section Redo

variable {sem : ImageSemantics} {s0 : Store} {L L' P Q : Log} {r : LogRecord}
  {pages : Pages (Nat → UInt8)} {st : RedoState (Nat → UInt8)} {start : Nat}

/-- The changes of a page up to the next record to redo, when those before it are on the page. -/
lemma filter_next {p m : Nat} (hasc : (P ++ r :: Q).Pairwise fun r r' => r.lsn < r'.lsn)
    (htouch : Touches p r) (hm : m < r.lsn) (hdone : ∀ x ∈ P, Touches p x → x.lsn ≤ m) :
    ((P ++ r :: Q).filter fun x => x.lsn ≤ r.lsn).filter (Touches p) =
      ((P ++ r :: Q).filter fun x => x.lsn ≤ m).filter (Touches p) ++ [r] := by
  obtain ⟨hP, hrQ, hcross⟩ := pairwise_append.1 hasc
  have hQ : ∀ x ∈ Q, r.lsn < x.lsn := (pairwise_cons.1 hrQ).1
  have hQnone : ∀ k, k ≤ r.lsn → Q.filter (fun x => decide (x.lsn ≤ k)) = [] := fun k hk =>
    filter_eq_nil_iff.2 fun x hx => by
      have := hQ x hx
      simp only [decide_eq_true_eq]
      omega
  have hPall : P.filter (fun x => decide (x.lsn ≤ r.lsn)) = P :=
    filter_eq_self.2 fun x hx => decide_eq_true (le_of_lt (hcross x hx r mem_cons_self))
  have hPtouch : (P.filter fun x => decide (x.lsn ≤ m)).filter (Touches p) =
    P.filter (Touches p) := by
    rw [filter_filter]
    refine filter_congr fun x hx => ?_
    by_cases h : Touches p x
    · simp [h, hdone x hx h]
    · simp [h]
  have hrm : ¬ r.lsn ≤ m := not_le.2 hm
  simp [filter_append, hQnone, hPall, hPtouch, htouch, hrm, le_of_lt hm]

variable {page : Page (Nat → UInt8)}

/-- A page to which the next of its changes is applied. -/
lemma PageReflects.apply {p lsn : Nat} (h : PageReflects sem s0 L p page)
    (hnext : (L'.filter fun x => x.lsn ≤ lsn).filter (Touches p) =
      (L.filter fun x => x.lsn ≤ page.lsn).filter (Touches p) ++ [r]) :
    PageReflects sem s0 L' p { lsn, content := sem.apply r.redo page.content } := by
  have hold : page.content = fun i =>
      sem.replay (L.filter fun x => x.lsn ≤ page.lsn) s0 (p, i) := funext h
  have hnew := sem.replay_page p (L'.filter fun x => x.lsn ≤ lsn) s0
  rw [sem.replay_page, ImageSemantics.pageReplay] at hold
  rw [ImageSemantics.pageReplay, hnext, foldl_append, ← hold] at hnew
  exact fun i => (congrFun hnew i).symm

/-- Records behind the LSN of the page are not on it. -/
lemma pageReflects_append {p : Nat} {R : Log}
    (hR : ∀ r ∈ R, page.lsn < r.lsn) :
    PageReflects sem s0 (L ++ R) p page ↔ PageReflects sem s0 L p page := by
  have hnone : R.filter (fun r => decide (r.lsn ≤ page.lsn)) = [] :=
    filter_eq_nil_iff.2 fun r hr => by
      have := hR r hr
      simp only [decide_eq_true_eq]
      omega
  unfold PageReflects
  rw [filter_append, hnone, append_nil]

/-- What holds in redo behind the records `P`. -/
structure RedoInv (sem : ImageSemantics) (s0 : Store) (L P : Log)
    (pages : Pages (Nat → UInt8)) (st : RedoState (Nat → UInt8)) : Prop where
  reflects : Reflects sem s0 L st.pages
  done : ∀ x ∈ P, Touches x.pageId x → x.lsn ≤ (st.pages x.pageId).lsn
  mono : ∀ p, (pages p).lsn ≤ (st.pages p).lsn
  lsn : ∀ p, (st.pages p).lsn = (pages p).lsn ∨ ∃ x ∈ P, x.lsn = (st.pages p).lsn

lemma RedoInv.skip (hi : RedoInv sem s0 L P pages st)
    (h : Touches r.pageId r → r.lsn ≤ (st.pages r.pageId).lsn) :
    RedoInv sem s0 L (P ++ [r]) pages st :=
  { hi with
    done x hx := (mem_of_snoc hx).elim (hi.done x) fun hxr => hxr ▸ h
    lsn p := (hi.lsn p).imp_right fun ⟨x, hx, h⟩ => ⟨x, mem_snoc hx, h⟩ }

section

variable (hL : L = P ++ r :: Q) (hasc : L.Pairwise fun r r' => r.lsn < r'.lsn)

include hL hasc

/-- Applying the next change of a page. -/
lemma RedoInv.apply (hi : RedoInv sem s0 L P pages st) (htouch : Touches r.pageId r)
    (hlsn : (st.pages r.pageId).lsn < r.lsn) (n : Nat) :
    RedoInv sem s0 L (P ++ [r]) pages
    { pages := st.pages.apply sem.apply r.pageId r.lsn r.redo, applied := n } := by
  have hself : st.pages.apply sem.apply r.pageId r.lsn r.redo r.pageId =
      { lsn := r.lsn, content := sem.apply r.redo (st.pages r.pageId).content } :=
    Function.update_self ..
  have hother : ∀ p, p ≠ r.pageId → st.pages.apply sem.apply r.pageId r.lsn r.redo p = st.pages p :=
    fun p hp => Function.update_of_ne hp ..
  refine ⟨fun p => ?_, fun x hx hxt => ?_, fun p => ?_, fun p => ?_⟩
  · dsimp only
    by_cases hp : p = r.pageId
    · subst hp
      rw [hself]
      have hdone : ∀ x ∈ P, Touches r.pageId x → x.lsn ≤ (st.pages r.pageId).lsn := by
        intro x hx hxt
        have := hi.done x hx (hxt.2.1.symm ▸ hxt)
        rwa [hxt.2.1] at this
      have hnext := filter_next (hL ▸ hasc) htouch hlsn hdone
      rw [← hL] at hnext
      exact (hi.reflects r.pageId).apply hnext
    · rw [hother p hp]
      exact hi.reflects p
  · dsimp only
    by_cases hp : x.pageId = r.pageId
    · rw [hp, hself]
      rcases mem_of_snoc hx with hx | rfl
      · have := hi.done x hx hxt
        rw [hp] at this
        exact le_of_lt (lt_of_le_of_lt this hlsn)
      · exact le_rfl
    · rw [hother _ hp]
      refine hi.done x ((mem_of_snoc hx).resolve_right ?_) hxt
      rintro rfl
      exact hp rfl
  · dsimp only
    by_cases hp : p = r.pageId
    · subst hp
      rw [hself]
      exact le_trans (hi.mono _) (le_of_lt hlsn)
    · rw [hother p hp]
      exact hi.mono p
  · dsimp only
    by_cases hp : p = r.pageId
    · subst hp
      rw [hself]
      exact .inr ⟨r, mem_append_right _ (mem_singleton_self r), rfl⟩
    · rw [hother p hp]
      exact (hi.lsn p).imp_right fun ⟨x, hx, h⟩ => ⟨x, mem_snoc hx, h⟩

lemma RedoInv.onRecord (hup : UpToDate L start pages) (hi : RedoInv sem s0 L P pages st) :
    RedoInv sem s0 L (P ++ [r]) pages (st.onRecord sem.apply start r) := by
  unfold RedoState.onRecord
  split
  · rename_i hguard
    exact hi.apply hL hasc ⟨hguard.2.1, rfl, hguard.2.2.1⟩ hguard.2.2.2 _
  rename_i hguard
  refine hi.skip fun htouch => ?_
  by_cases hstart : start ≤ r.lsn
  · exact not_lt.1 fun hlt => hguard ⟨hstart, htouch.1, htouch.2.2, hlt⟩
  · have hr : r ∈ L := hL ▸ mem_append_right _ mem_cons_self
    exact le_trans (hup r hr htouch (not_le.1 hstart)) (hi.mono _)

end

/-- The pass, from the records `P` on over the next ones. -/
lemma RedoInv.foldl (hL : P ++ Q <+: L) (hasc : L.Pairwise fun r r' => r.lsn < r'.lsn)
    (hup : UpToDate L start pages) (hi : RedoInv sem s0 L P pages st) :
    RedoInv sem s0 L (P ++ Q) pages (Q.foldl (RedoState.onRecord sem.apply start) st) := by
  induction Q generalizing P st with
  | nil => rwa [append_nil]
  | cons r Q ih =>
    obtain ⟨R, hR⟩ := hL
    have hnext : L = P ++ r :: (Q ++ R) := by rw [← hR, append_assoc, cons_append]
    rw [append_cons]
    refine ih ⟨R, ?_⟩ (hi.onRecord hnext hasc hup)
    rw [← hR, append_cons P r Q]

section

variable (hasc : L.Pairwise fun r r' => r.lsn < r'.lsn) (hreflects : Reflects sem s0 L pages)
  (hup : UpToDate L start pages)

include hasc hreflects hup

/-- The pages behind the first records of the pass. -/
lemma redo_prefix (hP : P <+: L) :
    RedoInv sem s0 L P pages (P.foldl (RedoState.onRecord sem.apply start) { pages }) := by
  have hinit : RedoInv sem s0 L [] pages { pages } :=
    ⟨hreflects, fun _ h => absurd h not_mem_nil, fun _ => le_rfl, fun _ => .inl rfl⟩
  have := hinit.foldl (show [] ++ P <+: L from hP) hasc hup
  rwa [nil_append] at this

/-- **Redo repeats history**: it leaves every page as the whole log does. -/
theorem redo_replays :
    RedoInv sem s0 L L pages (L.foldl (RedoState.onRecord sem.apply start) { pages }) :=
  redo_prefix hasc hreflects hup (prefix_refl L)

end

/-- Pages that have all the changes of the log and no others. -/
lemma Reflects.replay_eq (h : Reflects sem s0 L pages)
    (hall : ∀ x ∈ L, Touches x.pageId x → x.lsn ≤ (pages x.pageId).lsn) (p i : Nat) :
    (pages p).content i = sem.replay L s0 (p, i) := by
  rw [h p i]
  refine sem.replay_congr s0 ?_ i
  rw [filter_filter]
  refine filter_congr fun x hx => ?_
  by_cases htouch : Touches p x
  · have := hall x hx (htouch.2.1.symm ▸ htouch)
    rw [htouch.2.1] at this
    simp [htouch, this]
  · simp [htouch]

end Redo

end Graphus
