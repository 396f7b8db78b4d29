import Graphus.Txn.SsiHistory

/-!
# Every tracker operation keeps the representation

Recording an access, registering, committing, forgetting and pruning take a tracker state that
mirrors a history to one that mirrors the history extended by what the operation did. Forgetting
and pruning leave the history as it is: only the set of known transactions shrinks.
-/

namespace Graphus

open SsiTracker Dict History TxnConflict List

/-! ## Recording reads and writes -/

namespace TxnConflict

variable {e : TxnConflict} {a a' : Access} {m m' : Marker}

lemma has_insert : (e.insert a m).has a' m' ↔ e.has a' m' ∨ (a' = a ∧ m' = m) := by
  cases a <;> cases m <;> cases a' <;> cases m' <;> simp [insert, has, or_comm]

lemma not_has_new {ts : Nat} : ¬ ({ beginTs := ts } : TxnConflict).has a m := by
  cases a <;> cases m <;> simp [has]

/-- Two entries that differ at most in their read and write sets. -/
def SameStatus (e e' : TxnConflict) : Prop :=
  e'.inConflict = e.inConflict ∧ e'.outConflict = e.outConflict ∧ e'.outEdges = e.outEdges ∧
    e'.inEdges = e.inEdges ∧ e'.commitTs = e.commitTs ∧ e'.beginTs = e.beginTs

lemma sameStatus_insert : SameStatus e (e.insert a m) := by
  cases a <;> cases m <;> exact ⟨rfl, rfl, rfl, rfl, rfl, rfl⟩

end TxnConflict

section Marks

variable {H : History} {E : Nat → Nat → Prop} {s : SsiTracker} {a : Access} {t : Nat} {m : Marker}

lemma SsiTracker.mark_txns : (s.mark a t m).txns = modify s.txns t (·.insert a m) := by
  cases a <;> cases m <;> rfl

lemma SsiTracker.mark_doomed : (s.mark a t m).doomed = s.doomed := by
  cases a <;> cases m <;> rfl

lemma SsiTracker.mem_enter {κ : Type} [DecidableEq κ] {index : κ → List Nat} {k k' : κ}
    {x : Nat} : x ∈ enter index k t k' ↔ x ∈ index k' ∨ (x = t ∧ k' = k) := by
  by_cases hk : k' = k
  · subst hk
    simp [enter, or_comm]
  · simp [enter, hk]

lemma SsiTracker.mem_holders_mark {a' : Access} {m' : Marker} {x : Nat} :
    x ∈ (s.mark a t m).holders a' m' ↔ x ∈ s.holders a' m' ∨ (a' = a ∧ x = t ∧ m' = m) := by
  cases a <;> cases m <;> cases a' <;> cases m' <;> simp [mark, holders, mem_enter]

/-- Replacing one entry by one of the same status leaves the edges as they are. -/
lemma EdgesMirror.modify (h : EdgesMirror E s) {s' : SsiTracker}
    {f : TxnConflict → TxnConflict} (hs : s'.txns = modify s.txns t f)
    (hf : ∀ e, (f e).inConflict = e.inConflict ∧ (f e).outConflict = e.outConflict ∧
      (f e).outEdges = e.outEdges ∧ (f e).inEdges = e.inEdges) : EdgesMirror E s' := by
  have hmem : ∀ x, x ∈ s'.txns ↔ x ∈ s.txns := fun x => by rw [hs, mem_modify]
  have inv : ∀ {x e}, s'.txns.lookup x = some e → ∃ e0, s.txns.lookup x = some e0 ∧
    e.inConflict = e0.inConflict ∧
        e.outConflict = e0.outConflict ∧ e.outEdges = e0.outEdges ∧ e.inEdges = e0.inEdges := by
    intro x e he
    rcases of_lookup_modify (hs ▸ he) with ⟨-, e0, he0, rfl⟩ | ⟨-, he⟩
    · exact ⟨e0, he0, hf e0⟩
    · exact ⟨e, he, rfl, rfl, rfl, rfl⟩
  constructor
  all_goals
    intros
    obtain ⟨e0, he0, h1, h2, h3, h4⟩ := inv (by assumption)
  · rw [h3, h.out he0, hmem]
  · rw [h4, h.into he0, hmem]
  · rw [h2, h3, h.outFlag he0]
  · rw [h1, h4, h.inFlag he0]

lemma MarkersMirror.mark (h : MarkersMirror H s) (ht : t ∈ s.txns) :
    MarkersMirror (H.record a t m) (s.mark a t m) := by
  have inv : ∀ {x e}, (s.mark a t m).txns.lookup x = some e → ∃ e0, s.txns.lookup x = some e0 ∧
      e.beginTs = e0.beginTs ∧ e.commitTs = e0.commitTs ∧
      (∀ a' m', e.has a' m' ↔ e0.has a' m' ∨ (a' = a ∧ x = t ∧ m' = m)) := by
    intro x e he
    rw [mark_txns] at he
    rcases of_lookup_modify he with ⟨rfl, e0, he0, rfl⟩ | ⟨hx, he⟩
    · obtain ⟨-, -, -, -, h5, h6⟩ := sameStatus_insert (e := e0) (a := a) (m := m)
      exact ⟨e0, he0, h6, h5, fun a' m' => by simp [has_insert]⟩
    · exact ⟨e, he, rfl, rfl, by simp [hx]⟩
  constructor
  case holders =>
    intro a' x m'
    rw [mem_holders_mark, h.holders, mark_txns, mem_modify]
    refine ⟨?_, fun ⟨hx, hd⟩ => hd.imp (fun hd => ⟨hx, hd⟩) id⟩
    intro hx
    rcases hx with ⟨hx, hd⟩ | ⟨rfl, rfl, rfl⟩
    · exact ⟨hx, .inl hd⟩
    · exact ⟨ht, .inr ⟨rfl, rfl, rfl⟩⟩
  all_goals
    intros
    obtain ⟨e0, he0, h1, h2, h3⟩ := inv (by assumption)
  · rw [h1]
    exact h.begun he0
  · rw [h2]
    exact h.committed he0
  · rw [h3, h.did he0]
    rfl

end Marks

section Operations

variable {H : History} {s : SsiTracker} {t : Nat}

variable {x y o w : Nat}

lemma SsiTracker.areConcurrent_iff (h : MarkersMirror H s) :
    s.areConcurrent x y = true ↔ x ∈ s.txns ∧ y ∈ s.txns ∧ H.Concurrent x y := by
  unfold areConcurrent
  cases hx : s.txns.lookup x with
  | none => simp [← AList.lookup_isSome, hx]
  | some ex =>
    cases hy : s.txns.lookup y with
    | none => simp [← AList.lookup_isSome, hy]
    | some ey =>
      simp only [← AList.lookup_isSome, hx, hy, History.Concurrent, History.Before, h.begun hx,
        h.begun hy, h.committed hx, h.committed hy]
      cases ex.commitTs <;> cases ey.commitTs <;> simp

lemma SsiTracker.register_of_not_mem (hs : t ∉ s.txns) (ts : Nat) :
    s.register t ts = { s with txns := s.txns.insert t { beginTs := ts } } := by
  unfold register
  rw [AList.lookup_eq_none.2 hs]

lemma SsiTracker.mem_register (hs : t ∉ s.txns) {ts x : Nat} :
    x ∈ (s.register t ts).txns ↔ x = t ∨ x ∈ s.txns := by
  rw [register_of_not_mem hs]
  exact AList.mem_insert _

lemma SsiTracker.doomed_register (hs : t ∉ s.txns) (ts : Nat) :
    (s.register t ts).doomed = s.doomed := by
  rw [register_of_not_mem hs]

lemma Mirrors.register (h : Mirrors H s) (hwf : H.WellFormed) (ht : H.beginTs t = none)
    (hs : t ∉ s.txns) {ts : Nat} : Mirrors (H.register t ts) (s.register t ts) := by
  rw [register_of_not_mem hs]
  have hdid : ∀ a m, ¬ H.did a t m := by
    intro a m hd
    simpa [ht] using hwf.did hd
  have hedge : ∀ x, ¬ H.Edge t x ∧ ¬ H.Edge x t := by
    intro x
    refine ⟨?_, ?_⟩
    · intro ⟨_, ⟨m, hr, _⟩, _⟩
      exact hdid _ m hr
    · intro ⟨_, ⟨m, _, hw⟩, _⟩
      exact hdid _ m hw
  have inv : ∀ {x e}, (s.txns.insert t { beginTs := ts }).lookup x = some e →
      (x = t ∧ e = { beginTs := ts }) ∨ (x ≠ t ∧ s.txns.lookup x = some e) :=
    fun he => (of_lookup_insert he).imp_left (.imp_right .symm)
  have hcom : H.commitTs t = none := by
    cases hc : H.commitTs t with
    | none => rfl
    | some c => simpa [ht] using hwf.commit hc
  have mem : ∀ {P : Nat → Prop} {x}, ¬ P t →
    (x ∈ s.txns ∧ P x ↔ x ∈ s.txns.insert t { beginTs := ts } ∧ P x) := by
    intro P x hP
    rw [AList.mem_insert]
    refine ⟨fun ⟨hx, h⟩ => ⟨.inr hx, h⟩, fun ⟨hx, h⟩ => ⟨hx.resolve_left ?_, h⟩⟩
    intro hxt
    exact hP (hxt ▸ h)
  refine ⟨?_, EdgesMirror.congr (E := H.Edge) ?_ fun a b _ _ => edge_register hwf ht⟩
  · constructor
    case holders =>
      intro a x m
      exact h.markers.holders.trans (mem (P := fun x => H.did a x m) (hdid a m))
    all_goals
      intros
      rcases inv (by assumption) with ⟨rfl, rfl⟩ | ⟨hx, he⟩
    · simp [History.register]
    · simpa [History.register, Function.update_of_ne hx] using h.markers.begun he
    · exact hcom
    · exact h.markers.committed he
    · exact iff_of_false not_has_new (hdid _ _)
    · exact h.markers.did he
  · constructor
    all_goals
      intros
      rcases inv (by assumption) with ⟨rfl, rfl⟩ | ⟨hx, he⟩
    · simp [(hedge _).1]
    · exact (h.edges.out he).trans (mem (P := H.Edge _) (hedge _).2)
    · simp [(hedge _).2]
    · exact (h.edges.into he).trans (mem (P := (H.Edge · _)) (hedge _).1)
    · simp
    · exact h.edges.outFlag he
    · simp
    · exact h.edges.inFlag he

lemma Mirrors.commit (h : Mirrors H s) {c : Nat} (hnew : H.commitTs t = none)
    (hc : ∀ b ts, H.beginTs b = some ts → ts < c) (ht : t ∈ s.txns) :
    Mirrors (H.commit t c) (s.recordCommit t c) := by
  have inv : ∀ {x e}, (s.recordCommit t c).txns.lookup x = some e → ∃ e0,
      s.txns.lookup x = some e0 ∧ e.beginTs = e0.beginTs ∧ (∀ a m, e.has a m ↔ e0.has a m) ∧
        e.commitTs = if x = t then some c else e0.commitTs := by
    intro x e he
    rcases of_lookup_modify he with ⟨rfl, e0, he0, rfl⟩ | ⟨hx, he⟩
    · exact ⟨e0, he0, rfl, fun a m => by cases a <;> cases m <;> rfl, by simp⟩
    · exact ⟨e, he, rfl, fun _ _ => Iff.rfl, by simp [hx]⟩
  refine ⟨?_, EdgesMirror.congr (E := H.Edge) ?_ fun a b _ _ => edge_commit hnew hc⟩
  · constructor
    case holders =>
      intro a x m
      show x ∈ s.holders a m ↔ x ∈ modify s.txns t _ ∧ H.did a x m
      rw [h.markers.holders, mem_modify]
    all_goals
      intros
      obtain ⟨e0, he0, h1, h2, h3⟩ := inv (by assumption)
    · rw [h1]
      exact h.markers.begun he0
    · rename_i x _ _
      rw [h3]
      by_cases hx : x = t
      · subst hx
        simp [commit]
      · simpa [History.commit, Function.update_of_ne hx, hx] using h.markers.committed he0
    · rw [h2, h.markers.did he0]
      rfl
  · exact h.edges.modify rfl fun e => ⟨rfl, rfl, rfl, rfl⟩

variable {a : Access}

lemma History.concurrent_reader_writer :
    H.Concurrent (a.reader t o) (a.writer t o) ↔ H.Concurrent o t := by
  cases a with
  | read => exact ⟨Concurrent.symm, Concurrent.symm⟩
  | write => exact Iff.rfl

/-- The holders of the conflicting access that get an edge when `t` makes the access `a`. -/
def SsiTracker.conflicting (s : SsiTracker) (a : Access) (t : Nat) (m : Marker) : List Nat :=
  ((s.mark a t m).holders a.other m).filter fun o =>
    decide (o ≠ t) && (s.mark a t m).areConcurrent (a.reader t o) (a.writer t o)

lemma SsiTracker.record_eq (a : Access) (t : Nat) (m : Marker) :
    s.record a t m = (s.mark a t m).addEdges (a.reader t) (a.writer t) (s.conflicting a t m) := rfl

variable {m : Marker}

lemma SsiTracker.mem_conflicting (h : MarkersMirror H s) (ht : t ∈ s.txns) :
    o ∈ s.conflicting a t m ↔ o ∈ s.txns ∧ o ≠ t ∧ H.did a.other o m ∧ H.Concurrent o t := by
  have hm := h.mark (a := a) (m := m) ht
  have hdid : (H.record a t m).did a.other o m ↔ H.did a.other o m := by
    cases a <;> simp [History.record, Access.other]
  have hmem : ∀ x, x ∈ (s.mark a t m).txns ↔ x ∈ s.txns := fun x => by
    rw [mark_txns, mem_modify]
  rw [conflicting, mem_filter, hm.holders, hdid, Bool.and_eq_true, decide_eq_true_eq,
    areConcurrent_iff hm, hmem, hmem, hmem]
  rw [concurrent_reader_writer]
  refine ⟨fun ⟨⟨ho, hd⟩, hne, _, _, hc⟩ => ⟨ho, hne, hd, hc⟩, fun ⟨ho, hne, hd, hc⟩ => ?_⟩
  cases a with
  | read => exact ⟨⟨ho, hd⟩, hne, ht, ho, hc⟩
  | write => exact ⟨⟨ho, hd⟩, hne, ho, ht, hc⟩

lemma SsiTracker.mem_record (h : MarkersMirror H s) (ht : t ∈ s.txns) :
    x ∈ (s.record a t m).txns ↔ x ∈ s.txns := by
  rw [record_eq, mem_addEdges, mark_txns, mem_modify]
  intro o ho
  exact Access.reader_ne_writer ((mem_conflicting h ht).1 ho).2.1

/-- **Recording keeps the representation.** -/
lemma Mirrors.record (h : Mirrors H s) (ht : t ∈ s.txns) :
    Mirrors (H.record a t m) (s.record a t m) := by
  have hl : ∀ o ∈ s.conflicting a t m, a.reader t o ≠ a.writer t o := fun o ho =>
    Access.reader_ne_writer ((mem_conflicting h.markers ht).1 ho).2.1
  have hmem : ∀ x, x ∈ (s.mark a t m).txns ↔ x ∈ s.txns := fun x => by
    rw [mark_txns, mem_modify]
  have hrw : ∀ o ∈ s.conflicting a t m, a.reader t o ∈ (s.mark a t m).txns ∧
    a.writer t o ∈ (s.mark a t m).txns := by
    intro o ho
    have ho' := ((mem_conflicting h.markers ht).1 ho).1
    rw [hmem, hmem]
    cases a with
    | read => exact ⟨ht, ho'⟩
    | write => exact ⟨ho', ht⟩
  have hmark : EdgesMirror H.Edge (s.mark a t m) := by
    refine h.edges.modify mark_txns fun e => ?_
    obtain ⟨h1, h2, h3, h4, -, -⟩ := sameStatus_insert (e := e) (a := a) (m := m)
    exact ⟨h1, h2, h3, h4⟩
  have hedges := hmark.addEdges hl (fun o ho => (hrw o ho).1) fun o ho => (hrw o ho).2
  refine ⟨(h.markers.mark ht).addEdges hl, hedges.congr fun x y hx hy => ?_⟩
  rw [mem_addEdges hl, hmem] at hx hy
  rw [edge_record]
  refine or_congr_right (exists_congr fun o => ?_)
  rw [mem_conflicting h.markers ht]
  refine ⟨fun ⟨hne, hd, hc, hx', hy'⟩ => ⟨⟨?_, hne, hd, hc⟩, hx', hy'⟩,
    fun ⟨⟨_, hne, hd, hc⟩, hx', hy'⟩ => ⟨hne, hd, hc, hx', hy'⟩⟩
  cases a with
  | read =>
    subst hy'
    exact hy
  | write =>
    subst hx'
    exact hx

variable {e et : TxnConflict}

/-- A flag says that the transaction has an edge with a known one. -/
lemma Mirrors.pivotFlag_iff (h : Mirrors H s) (ho : s.txns.lookup o = some e) :
    pivotFlag a e = true ↔ ∃ y ∈ s.txns, H.Edge (a.reader o y) (a.writer o y) := by
  cases a with
  | read =>
    rw [pivotFlag, h.edges.outFlag ho]
    simp [eq_nil_iff_forall_not_mem, h.edges.out ho, Access.reader, Access.writer]
  | write =>
    rw [pivotFlag, h.edges.inFlag ho]
    simp [eq_nil_iff_forall_not_mem, h.edges.into ho, Access.reader, Access.writer]

/-- **An access dooms its transaction exactly if it closes an edge with a committed transaction that
has one in the other direction.** -/
lemma SsiTracker.mem_doomed_record (h : Mirrors H s) (ht : t ∈ s.txns)
    (hact : H.commitTs t = none) :
    x ∈ (s.record a t m).doomed ↔ x ∈ s.doomed ∨ x = t ∧ ∃ o ∈ s.txns, o ≠ t ∧ H.did a.other o m ∧
      H.Concurrent o t ∧ (H.commitTs o).isSome ∧ ∃ y ∈ s.txns, H.Edge (a.reader o y)
        (a.writer o y) := by
  obtain ⟨e, he⟩ := mem_iff_lookup.1 ht
  have he' : (s.mark a t m).txns.lookup t = some (e.insert a m) := by
    rw [mark_txns, lookup_modify, if_pos rfl, he]
    rfl
  have hact' : (e.insert a m).commitTs = none :=
    sameStatus_insert.2.2.2.2.1.trans ((h.markers.committed he).symm.trans hact)
  rw [record_eq, mem_doomed_addEdges (fun o ho => ((mem_conflicting h.markers ht).1 ho).2.1) he'
    hact', mark_doomed]
  refine or_congr_right (and_congr_right fun _ => exists_congr fun o => ?_)
  rw [mem_conflicting h.markers ht, and_assoc, and_assoc, and_assoc]
  refine and_congr_right fun ho => and_congr_right fun hne => and_congr_right fun _ =>
    and_congr_right fun _ => ?_
  obtain ⟨f, hf⟩ := mem_iff_lookup.1 ho
  rw [mark_txns, lookup_modify, if_neg hne, hf, h.markers.committed hf, ← h.pivotFlag_iff hf]
  simp

/-! ## Forgetting -/

/-- Taking `t` out of a list when `c` says that it is there. -/
lemma mem_without {l : List Nat} {c : Prop} [Decidable c] (h : t ∈ l → c) :
    x ∈ (if c then l.filter (· ≠ t) else l) ↔ x ∈ l ∧ x ≠ t := by
  split
  · simp
  rename_i hc
  refine ⟨fun hx => ⟨hx, ?_⟩, And.left⟩
  intro hxt
  exact hc (h (hxt ▸ hx))

/-- The entry of a survivor `x` after the entry `et` of `t` is forgotten. -/
def SsiTracker.edgesRemoved (t : Nat) (et : TxnConflict) (x : Nat) (e : TxnConflict) :
    TxnConflict :=
  let e := if x ∈ et.outEdges then e.removeInEdge t else e
  if x ∈ et.inEdges then e.removeOutEdge t else e

lemma SsiTracker.lookup_forget (ht : s.txns.lookup t = some et) (x : Nat) :
    (s.forget t).txns.lookup x =
      if x = t then none else (s.txns.lookup x).map (edgesRemoved t et x) := by
  have h1 := fun m => lookup_foldl_modify (f := (removeInEdge · t))
    (fun e => by simp [removeInEdge]) m et.outEdges x
  have h2 := fun m => lookup_foldl_modify (f := (removeOutEdge · t))
    (fun e => by simp [removeOutEdge]) m et.inEdges x
  simp only [forget, ht, h1, h2, lookup_erase]
  by_cases hx : x = t
  · simp [hx]
  · rw [if_neg hx, if_neg hx]
    cases s.txns.lookup x <;> by_cases h1 : x ∈ et.outEdges <;> by_cases h2 : x ∈ et.inEdges <;>
      simp [edgesRemoved, h1, h2]

lemma SsiTracker.mem_forget : x ∈ (s.forget t).txns ↔ x ∈ s.txns ∧ x ≠ t := by
  cases ht : s.txns.lookup t with
  | none =>
    have hs : (s.forget t).txns = s.txns := by simp [forget, ht]
    rw [hs]
    refine ⟨fun hx => ⟨hx, ?_⟩, And.left⟩
    intro hxt
    subst hxt
    exact AList.lookup_eq_none.1 ht hx
  | some et =>
    rw [mem_iff_lookup, mem_iff_lookup, lookup_forget ht]
    by_cases hx : x = t <;> simp [hx]

lemma SsiTracker.mem_doomed_forget : x ∈ (s.forget t).doomed ↔ x ∈ s.doomed ∧ x ≠ t := by
  cases ht : s.txns.lookup t with
  | none => simp [forget, ht]
  | some et => simp [forget, ht]

lemma SsiTracker.mem_holders_forget (h : MarkersMirror H s) :
    x ∈ (s.forget t).holders a m ↔ x ∈ s.holders a m ∧ x ≠ t := by
  cases ht : s.txns.lookup t with
  | none =>
    have hs : (s.forget t).holders a m = s.holders a m := by
      cases a <;> cases m <;> simp [forget, ht, holders]
    rw [hs]
    refine ⟨fun hx => ⟨hx, ?_⟩, And.left⟩
    intro hxt
    subst hxt
    exact AList.lookup_eq_none.1 ht (h.holders.1 hx).1
  | some et =>
    have hown : t ∈ s.holders a m → et.has a m := fun hm => (h.did ht).2 (h.holders.1 hm).2
    cases a <;> cases m <;> simp only [forget, ht] <;> exact mem_without hown

/-- **Forgetting keeps the representation**: the edges of the forgotten transaction go, and the
flags follow the edges that remain. -/
lemma Mirrors.forget (h : Mirrors H s) : Mirrors H (s.forget t) := by
  have inv : ∀ {x e'}, (s.forget t).txns.lookup x = some e' → ∃ e, s.txns.lookup x = some e ∧
      e'.beginTs = e.beginTs ∧ e'.commitTs = e.commitTs ∧ (∀ a m, e'.has a m ↔ e.has a m) ∧
      (∀ w, w ∈ e'.outEdges ↔ w ∈ e.outEdges ∧ w ≠ t) ∧
      (∀ w, w ∈ e'.inEdges ↔ w ∈ e.inEdges ∧ w ≠ t) ∧
      (e'.outConflict = true ↔ e'.outEdges ≠ []) ∧ (e'.inConflict = true ↔ e'.inEdges ≠ []) := by
    intro x e' he'
    cases ht : s.txns.lookup t with
    | none =>
      have hs : (s.forget t).txns = s.txns := by simp [SsiTracker.forget, ht]
      rw [hs] at he'
      have hne : ∀ w, w ∈ s.txns → w ≠ t := fun w hw hwt => AList.lookup_eq_none.1 ht (hwt ▸ hw)
      refine ⟨e', he', rfl, rfl, fun _ _ => Iff.rfl, fun w => ?_, fun w => ?_,
        h.edges.outFlag he', h.edges.inFlag he'⟩
      · exact ⟨fun hw => ⟨hw, hne w ((h.edges.out he').1 hw).1⟩, And.left⟩
      · exact ⟨fun hw => ⟨hw, hne w ((h.edges.into he').1 hw).1⟩, And.left⟩
    | some et =>
      rw [lookup_forget ht] at he'
      split at he'
      · cases he'
      rw [Option.map_eq_some_iff] at he'
      obtain ⟨e, he, rfl⟩ := he'
      have hx := mem_of_lookup he
      have hout := h.edges.outFlag he
      have hin := h.edges.inFlag he
      -- `x` holds an edge to or from `t` exactly when `t` holds the same edge
      have hto : t ∈ e.outEdges → x ∈ et.inEdges :=
        fun hw => (h.edges.into ht).2 ⟨hx, ((h.edges.out he).1 hw).2⟩
      have hti : t ∈ e.inEdges → x ∈ et.outEdges :=
        fun hw => (h.edges.out ht).2 ⟨hx, ((h.edges.into he).1 hw).2⟩
      refine ⟨e, he, ?_⟩
      unfold edgesRemoved
      split <;> split <;> refine ⟨rfl, rfl, fun a m => by cases a <;> cases m <;> rfl, ?_⟩ <;>
        grind [removeInEdge, removeOutEdge]
  constructor <;> constructor
  case markers.holders =>
    intro a x m
    rw [mem_holders_forget h.markers, h.markers.holders, mem_forget]
    tauto
  all_goals
    intros
    obtain ⟨e, he, h1, h2, h3, h4, h5, h6, h7⟩ := inv (by assumption)
  · rw [h1]
    exact h.markers.begun he
  · rw [h2]
    exact h.markers.committed he
  · rw [h3]
    exact h.markers.did he
  · rw [h4, h.edges.out he, mem_forget]
    tauto
  · rw [h5, h.edges.into he, mem_forget]
    tauto
  · exact h6
  · exact h7

section Prune

variable {ids : List Nat} {x : Nat}

lemma Mirrors.foldl_forget (h : Mirrors H s) : Mirrors H (ids.foldl SsiTracker.forget s) := by
  induction ids generalizing s with
  | nil => exact h
  | cons i ids ih => exact ih h.forget

lemma SsiTracker.mem_foldl_forget : x ∈ (ids.foldl forget s).txns ↔ x ∈ s.txns ∧ x ∉ ids := by
  induction ids generalizing s with
  | nil => simp
  | cons i ids ih =>
    rw [foldl_cons, ih, mem_forget, mem_cons]
    tauto

lemma SsiTracker.mem_doomed_foldl_forget :
    x ∈ (ids.foldl forget s).doomed ↔ x ∈ s.doomed ∧ x ∉ ids := by
  induction ids generalizing s with
  | nil => simp
  | cons i ids ih =>
    rw [foldl_cons, ih, mem_doomed_forget, mem_cons]
    tauto

/-- What pruning removes: the known transactions that committed at or below the mark. -/
lemma SsiTracker.mem_settled (h : MarkersMirror H s) {lowWater : Option Nat} :
    x ∈ s.settled lowWater ↔
      x ∈ s.txns ∧ ∃ c, H.commitTs x = some c ∧ settledBy lowWater c = true := by
  rw [settled, mem_filter, mem_keys_iff_lookup, ← mem_iff_lookup]
  refine and_congr_right fun hx => ?_
  obtain ⟨e, he⟩ := mem_iff_lookup.1 hx
  rw [he, h.committed he, Option.any_some]
  cases e.commitTs <;> simp

end Prune

end Operations

end Graphus
