import Graphus.Lib.UndoLog
import Graphus.Wal.Sink

/-!
# What may be logged

`LogOk sem s0 L` says that each record of the log `L` may follow the ones before it: a transaction
begins once, an update continues the back-chain of its transaction, a compensation record undoes the
newest action of its transaction that is still to be undone, and a finished transaction logs nothing
more. Every prefix of such a log is one.

Images act on the bytes of a page (`ImageSemantics`). The undo image of an update inverts its redo
image in the state it is logged in, and no update touches bytes of an undoable update of another
unfinished transaction; a redo-only update does not touch bytes of an undoable update of its own
transaction either.

The survivors of a log are its updates less the compensated ones, and the chain of a transaction is
what recovery would still have to undo of it.
-/

namespace Graphus

open UndoLog List

/-! ## Images -/

/-- What an image does to the bytes of a page: it reads and writes its footprint only, and the empty
image does nothing. -/
structure ImageSemantics where
  apply : Bytes → (Nat → UInt8) → Nat → UInt8
  footprint : Bytes → Set Nat
  frame : ∀ image c, ∀ i ∉ footprint image, apply image c i = c i
  reads : ∀ image c c', (∀ i ∈ footprint image, c i = c' i) →
    ∀ i ∈ footprint image, apply image c i = apply image c' i
  apply_nil : ∀ c, apply [] c = c

/-- The bytes of all pages: page, offset ↦ byte. -/
abbrev Store := Nat × Nat → UInt8

namespace ImageSemantics

variable (sem : ImageSemantics)

def onPage (pageId : Nat) (image : Bytes) (s : Store) : Store := fun a =>
  if a.1 = pageId then sem.apply image (fun i => s (a.1, i)) a.2 else s a

/-- The bytes an update and its undo touch. -/
def foot (r : LogRecord) : Set (Nat × Nat) :=
  { a | a.1 = r.pageId ∧ (a.2 ∈ sem.footprint r.redo ∨ a.2 ∈ sem.footprint r.undo) }

lemma onPage_local {F : Set (Nat × Nat)} {pageId : Nat} {image : Bytes}
    (hF : ∀ a, a.1 = pageId → a.2 ∈ sem.footprint image → a ∈ F) :
    Local F (sem.onPage pageId image) where
  frame s a ha := by
    unfold onPage
    split
    · rename_i hp
      exact sem.frame image _ a.2 fun h => ha (hF a hp h)
    · rfl
  reads s s' h a ha := by
    unfold onPage
    split
    · rename_i hp
      by_cases hi : a.2 ∈ sem.footprint image
      · exact sem.reads image _ _ (fun i hi => h (a.1, i) (hF (a.1, i) hp hi)) a.2 hi
      · rw [sem.frame image _ a.2 hi, sem.frame image _ a.2 hi]
        exact h a ha
    · exact h a ha

/-- An update as an entry of an undo log. -/
def entry (r : LogRecord) : Entry (Nat × Nat) UInt8 where
  foot := sem.foot r
  redo := sem.onPage r.pageId r.redo
  undo := sem.onPage r.pageId r.undo
  redo_local := sem.onPage_local fun _ hp hi => ⟨hp, .inl hi⟩
  undo_local := sem.onPage_local fun _ hp hi => ⟨hp, .inr hi⟩
  undoable := r.undo ≠ []

lemma onPage_nil (pageId : Nat) (s : Store) : sem.onPage pageId [] s = s := by
  funext a
  unfold onPage
  split
  · rw [sem.apply_nil]
  · rfl

/-- A record's change of the store. -/
def replayRecord (s : Store) (r : LogRecord) : Store :=
  if r.recType.isPageChange then sem.onPage r.pageId r.redo s else s

/-- All page changes of the log, in order. -/
def replay (L : Log) (s : Store) : Store := L.foldl sem.replayRecord s

lemma replay_snoc (L : Log) (r : LogRecord) (s : Store) :
    sem.replay (L ++ [r]) s = sem.replayRecord (sem.replay L s) r := by
  rw [replay, foldl_append]
  rfl

end ImageSemantics

/-! ## The state a log leaves its transactions in -/

section Log

variable (L : Log) (t : Nat)

/-- Where the last record ends. -/
def logEnd : Nat := L.foldl (fun _ r => r.lsn + r.encodedLen) headerLen

def Started : Prop := ∃ r ∈ L, r.txnId = t

def Finished : Prop := ∃ r ∈ L, r.txnId = t ∧ (r.recType = .commit ∨ r.recType = .abort)

def CommitLogged : Prop := ∃ r ∈ L, r.txnId = t ∧ r.recType = .commit

def AbortLogged : Prop := ∃ r ∈ L, r.txnId = t ∧ r.recType = .abort

def RollingBack : Prop := ∃ r ∈ L, r.txnId = t ∧ r.recType = .clr

instance : Decidable (Started L t) := inferInstanceAs (Decidable (∃ r ∈ L, r.txnId = t))

instance : Decidable (Finished L t) := by
  unfold Finished
  infer_instance

instance : Decidable (CommitLogged L t) := by
  unfold CommitLogged
  infer_instance

instance : Decidable (AbortLogged L t) := by
  unfold AbortLogged
  infer_instance

instance : Decidable (RollingBack L t) := by
  unfold RollingBack
  infer_instance

/-- A transaction recovery has to roll back. -/
def Loser : Prop := t ≠ 0 ∧ Started L t ∧ ¬ Finished L t

instance : Decidable (Loser L t) :=
  inferInstanceAs (Decidable (t ≠ 0 ∧ Started L t ∧ ¬ Finished L t))

/-- The LSN of the last record of `t`, or the null LSN. -/
def lastLsnOf : Nat := L.foldl (fun l r => if r.txnId = t then r.lsn else l) 0

/-- One record's effect on the updates of `t` still to be undone. -/
def chainStep (chain : Log) (r : LogRecord) : Log :=
  if r.txnId = t then
    match r.recType with
    | .update => r :: chain
    | .clr => (chain.dropWhile fun x => x.lsn ≠ r.prevLsn).tail
    | _ => chain
  else chain

/-- The updates of `t` still to be undone, newest first. -/
def chain : Log := L.foldl (chainStep t) []

def survivorStep (S : Log) (r : LogRecord) : Log :=
  match r.recType with
  | .update => S ++ [r]
  | .clr => if r.redo = [] then S else S.filter fun x => x.lsn ≠ r.prevLsn
  | _ => S

/-- The updates that have not been undone, in log order. -/
def survivors : Log := L.foldl survivorStep []

variable {L t} {r : LogRecord}

lemma logEnd_snoc : logEnd (L ++ [r]) = r.lsn + r.encodedLen := by
  rw [logEnd, foldl_append]
  rfl

lemma started_snoc : Started (L ++ [r]) t ↔ Started L t ∨ r.txnId = t := by
  simp [Started, or_and_right, exists_or]

lemma finished_snoc : Finished (L ++ [r]) t ↔
    Finished L t ∨ r.txnId = t ∧ (r.recType = .commit ∨ r.recType = .abort) := by
  simp [Finished, or_and_right, exists_or]

lemma commitLogged_snoc : CommitLogged (L ++ [r]) t ↔ CommitLogged L t ∨ r.txnId = t ∧
    r.recType = .commit := by
  simp [CommitLogged, or_and_right, exists_or]

lemma abortLogged_snoc : AbortLogged (L ++ [r]) t ↔ AbortLogged L t ∨ r.txnId = t ∧
    r.recType = .abort := by
  simp [AbortLogged, or_and_right, exists_or]

lemma finished_iff : Finished L t ↔ CommitLogged L t ∨ AbortLogged L t := by
  simp [Finished, CommitLogged, AbortLogged, and_or_left, exists_or]

lemma rollingBack_snoc : RollingBack (L ++ [r]) t ↔ RollingBack L t ∨ r.txnId = t ∧
    r.recType = .clr := by
  simp [RollingBack, or_and_right, exists_or]

lemma lastLsnOf_snoc : lastLsnOf (L ++ [r]) t = if r.txnId = t then r.lsn else lastLsnOf L t := by
  rw [lastLsnOf, foldl_append]
  rfl

lemma chain_snoc : chain (L ++ [r]) t = chainStep t (chain L t) r := by
  rw [chain, foldl_append]
  rfl

lemma survivors_snoc : survivors (L ++ [r]) = survivorStep (survivors L) r := by
  rw [survivors, foldl_append]
  rfl

end Log

/-! ## Logs -/

/-- The record may follow the log. -/
inductive CanFollow (sem : ImageSemantics) (s0 : Store) (L : Log) (r : LogRecord) : Prop
  | begin (htype : r.recType = .begin) (htxn : r.txnId ≠ 0) (hnew : ¬ Started L r.txnId)
      (hprev : r.prevLsn = 0)
  | update (htype : r.recType = .update) (htxn : r.txnId ≠ 0) (hopen : ¬ Finished L r.txnId)
      (hroll : ¬ RollingBack L r.txnId) (hprev : r.prevLsn = lastLsnOf L r.txnId)
      (hinv : r.undo ≠ [] → (sem.entry r).Inverts (sem.replay L s0))
      (hapart : ∀ x ∈ survivors L, x.undo ≠ [] → ¬ Finished L x.txnId →
        (r.txnId ≠ x.txnId ∨ r.undo = []) → Disjoint (sem.foot r) (sem.foot x))
  | commit (htype : r.recType = .commit) (htxn : r.txnId ≠ 0) (hopen : ¬ Finished L r.txnId)
      (hroll : ¬ RollingBack L r.txnId)
  | abort (htype : r.recType = .abort) (htxn : r.txnId ≠ 0) (hopen : ¬ Finished L r.txnId)
  | clr (htype : r.recType = .clr) (htxn : r.txnId ≠ 0) (hopen : ¬ Finished L r.txnId)
      (x : LogRecord) (newer older : Log)
      (hchain : chain L r.txnId = newer ++ x :: older) (hnewer : ∀ y ∈ newer, y.undo = [])
      (hpage : r.pageId = x.pageId) (hprev : r.prevLsn = x.lsn) (hnext : r.undoNextLsn = x.prevLsn)
      (hredo : r.redo = x.undo)
  | checkpoint (htype : r.recType = .checkpointBegin ∨ r.recType = .checkpointEnd)
      (htxn : r.txnId = 0)

/-- Every record may follow the ones before it and has its LSN behind them. -/
inductive LogOk (sem : ImageSemantics) (s0 : Store) : Log → Prop
  | nil : LogOk sem s0 []
  | snoc {L : Log} {r : LogRecord} (hL : LogOk sem s0 L) (hlsn : logEnd L ≤ r.lsn)
      (hnext : CanFollow sem s0 L r) : LogOk sem s0 (L ++ [r])

/-- Following the back-chain of `t` from the LSN `p` leads through the updates `ch`. -/
inductive Linked (L : Log) (t : Nat) : Nat → Log → Prop
  | null : Linked L t 0 []
  | begin {b : LogRecord} (hb : b ∈ L) (htype : b.recType = .begin) (htxn : b.txnId = t)
      (hprev : b.prevLsn = 0) : Linked L t b.lsn []
  | update {x : LogRecord} {ch : Log} (hx : x ∈ L) (htype : x.recType = .update)
      (htxn : x.txnId = t) (tail : Linked L t x.prevLsn ch) : Linked L t x.lsn (x :: ch)

lemma Linked.mono {L L' : Log} {t p : Nat} {ch : Log}
    (h : Linked L t p ch) (hsub : ∀ r ∈ L, r ∈ L') : Linked L' t p ch := by
  induction h with
  | null => exact .null
  | begin hb htype htxn hprev => exact .begin (hsub _ hb) htype htxn hprev
  | update hx htype htxn _ ih => exact .update (hsub _ hx) htype htxn ih

/-- The chain of an older update. -/
lemma Linked.older {L : Log} {t p : Nat} {x : LogRecord} {newer older : Log}
    (h : Linked L t p (newer ++ x :: older)) : Linked L t x.prevLsn older := by
  induction newer generalizing p with
  | nil =>
    cases h with
    | update _ _ _ tail => exact tail
  | cons y newer ih =>
    cases h with
    | update _ _ _ tail => exact ih tail

end Graphus
