import Graphus.Txn.Ssi

/-!
# The conflict graph the tracker mirrors

A `History` is what happened, with nothing forgotten: when each transaction began and committed
and which markers it read and wrote. It has an rw-antidependency `a → b` when `a` read a marker
that `b` wrote and neither committed at or before the other's begin timestamp.

`Mirrors H s` says that the tracker state `s` represents `H` on the transactions it still knows:
its read and write sets and reverse indexes are those of `H`, and its edges are exactly the
antidependencies of `H` between two known transactions. Adding edges to a tracker state adds them
to the relation it mirrors, and dooms the readers that close a structure around a committed pivot.
-/

namespace Graphus

open TxnConflict (insertInEdge insertOutEdge)
open Function (update update_apply update_of_ne)

/-- What a set of transactions did, including the ones the tracker has forgotten. -/
structure History where
  beginTs : Nat → Option Nat
  commitTs : Nat → Option Nat
  did : Access → Nat → Marker → Prop

namespace History

def empty : History := ⟨fun _ => none, fun _ => none, fun _ _ _ => False⟩

/-- `a` committed at or before `b`'s begin timestamp. -/
def Before (H : History) (a b : Nat) : Prop :=
  ∃ c ts, H.commitTs a = some c ∧ H.beginTs b = some ts ∧ c ≤ ts

def Concurrent (H : History) (a b : Nat) : Prop := ¬ H.Before a b ∧ ¬ H.Before b a

/-- The rw-antidependency `a → b`. -/
def Edge (H : History) (a b : Nat) : Prop :=
  a ≠ b ∧ (∃ m, H.did .read a m ∧ H.did .write b m) ∧ H.Concurrent a b

def register (H : History) (t ts : Nat) : History :=
  { H with beginTs := update H.beginTs t (some ts) }

def commit (H : History) (t c : Nat) : History :=
  { H with commitTs := update H.commitTs t (some c) }

def record (H : History) (a : Access) (t : Nat) (m : Marker) : History :=
  { H with did := fun a' t' m' => H.did a' t' m' ∨ (a' = a ∧ t' = t ∧ m' = m) }

lemma beginTs_register (H : History) (t ts x : Nat) :
    (H.register t ts).beginTs x = if x = t then some ts else H.beginTs x :=
  update_apply _ _ _ _

lemma commitTs_commit (H : History) (t c x : Nat) :
    (H.commit t c).commitTs x = if x = t then some c else H.commitTs x :=
  update_apply _ _ _ _

/-- A timestamp of an extended history is the new one or an old one. -/
lemma update_eq_some {f : Nat → Option Nat} {t c x d : Nat} (h : update f t (some c) x = some d) :
    (x = t ∧ d = c) ∨ (x ≠ t ∧ f x = some d) := by
  rw [update_apply] at h
  split at h
  · exact .inl ⟨‹_›, (Option.some.inj h).symm⟩
  · exact .inr ⟨‹_›, h⟩

lemma commitTs_commit_none {H : History} {t c x : Nat} :
    (H.commit t c).commitTs x = none ↔ x ≠ t ∧ H.commitTs x = none := by
  rw [commitTs_commit]
  split <;> simp [*]

/-- Only transactions that began read, write or commit. -/
structure WellFormed (H : History) : Prop where
  did : ∀ {a t m}, H.did a t m → (H.beginTs t).isSome
  commit : ∀ {t c}, H.commitTs t = some c → (H.beginTs t).isSome

variable {H : History} {a b t : Nat}

lemma Concurrent.symm (h : H.Concurrent a b) : H.Concurrent b a := ⟨h.2, h.1⟩

/-- The edges of an extended history: the old ones, and one for each concurrent transaction that
made the conflicting access. -/
lemma edge_record {a : Access} {m : Marker} {x y : Nat} : (H.record a t m).Edge x y ↔
      H.Edge x y ∨ ∃ o, o ≠ t ∧ H.did a.other o m ∧ H.Concurrent o t ∧ x = a.reader t o ∧
        y = a.writer t o := by
  constructor
  · intro ⟨hne, ⟨m', hr, hw⟩, hc⟩
    rcases hr with hr | ⟨rfl, rfl, rfl⟩
    · rcases hw with hw | ⟨rfl, rfl, rfl⟩
      · exact .inl ⟨hne, ⟨m', hr, hw⟩, hc⟩
      · exact .inr ⟨x, hne, hr, hc, rfl, rfl⟩
    · rcases hw with hw | ⟨ha, -, -⟩
      · exact .inr ⟨y, hne.symm, hw, hc.symm, rfl, rfl⟩
      · cases ha
  · intro h
    rcases h with ⟨hne, ⟨m', hr, hw⟩, hc⟩ | ⟨o, hne, hd, hc, hx, hy⟩
    · exact ⟨hne, ⟨m', .inl hr, .inl hw⟩, hc⟩
    cases a with
    | read =>
      subst hx hy
      exact ⟨hne.symm, ⟨m, .inr ⟨rfl, rfl, rfl⟩, .inl hd⟩, hc.symm⟩
    | write =>
      subst hx hy
      exact ⟨hne, ⟨m, .inl hd, .inr ⟨rfl, rfl, rfl⟩⟩, hc⟩

/-- An edge between two committed transactions is not new. -/
lemma Edge.of_record {a : Access} {m : Marker} {x y c d : Nat} (ht : H.commitTs t = none)
    (hx : H.commitTs x = some c) (hy : H.commitTs y = some d) (h : (H.record a t m).Edge x y) :
    H.Edge x y := by
  have hne : ∀ {z c}, H.commitTs z = some c → z ≠ t := by
    intro z c hz hzt
    rw [hzt, ht] at hz
    cases hz
  rcases edge_record.1 h with h | ⟨o, _, _, _, h1, h2⟩
  · exact h
  cases a with
  | read => exact absurd h1 (hne hx)
  | write => exact absurd h2 (hne hy)

/-- A transaction that has done nothing yet has no edges. -/
lemma edge_register (hwf : H.WellFormed) {ts : Nat} (hfresh : H.beginTs t = none) :
    (H.register t ts).Edge a b ↔ H.Edge a b := by
  have key : ∀ {acc x m}, H.did acc x m → x ≠ t := by
    intro acc x m hd hx
    subst hx
    simpa [hfresh] using hwf.did hd
  refine and_congr_right fun _ => and_congr_right fun ⟨m, hr, hw⟩ => ?_
  simp [Concurrent, Before, register, update_of_ne (key hr), update_of_ne (key hw)]

/-- A commit above every begin timestamp creates and removes no edge. -/
lemma edge_commit {c : Nat} (hnew : H.commitTs t = none)
    (hc : ∀ b ts, H.beginTs b = some ts → ts < c) : (H.commit t c).Edge a b ↔ H.Edge a b := by
  have key : ∀ a b, (H.commit t c).Before a b ↔ H.Before a b := by
    intro a b
    by_cases ha : a = t
    · subst ha
      constructor
      · rintro ⟨c', ts, h1, h2, h3⟩
        simp only [commit, Function.update_self, Option.some.injEq] at h1
        have := hc b ts h2
        omega
      · rintro ⟨c', ts, h1, -, -⟩
        rw [hnew] at h1
        cases h1
    · simp [Before, commit, update_of_ne ha]
  simp only [Edge, Concurrent, key]
  rfl

end History

/-! ## The representation relation -/

open SsiTracker List

/-- The tracker's transactions, read and write sets and reverse indexes are those of `H`. -/
structure MarkersMirror (H : History) (s : SsiTracker) : Prop where
  begun : ∀ {t e}, s.txns.lookup t = some e → H.beginTs t = some e.beginTs
  committed : ∀ {t e}, s.txns.lookup t = some e → H.commitTs t = e.commitTs
  did : ∀ {a t e m}, s.txns.lookup t = some e → (e.has a m ↔ H.did a t m)
  holders : ∀ {a t m}, t ∈ s.holders a m ↔ t ∈ s.txns ∧ H.did a t m

/-- The tracker's edges are those of `E` between two known transactions, and the conflict flags
say whether there are any. -/
structure EdgesMirror (E : Nat → Nat → Prop) (s : SsiTracker) : Prop where
  out : ∀ {t e w}, s.txns.lookup t = some e → (w ∈ e.outEdges ↔ w ∈ s.txns ∧ E t w)
  into : ∀ {t e w}, s.txns.lookup t = some e → (w ∈ e.inEdges ↔ w ∈ s.txns ∧ E w t)
  outFlag : ∀ {t e}, s.txns.lookup t = some e → (e.outConflict = true ↔ e.outEdges ≠ [])
  inFlag : ∀ {t e}, s.txns.lookup t = some e → (e.inConflict = true ↔ e.inEdges ≠ [])

/-- The tracker represents the history on the transactions it still knows. -/
structure Mirrors (H : History) (s : SsiTracker) : Prop where
  markers : MarkersMirror H s
  edges : EdgesMirror H.Edge s

variable {s : SsiTracker}

/-- Only edges between known transactions matter. -/
lemma EdgesMirror.congr {E E' : Nat → Nat → Prop} (h : EdgesMirror E s)
    (hE : ∀ a b, a ∈ s.txns → b ∈ s.txns → (E' a b ↔ E a b)) : EdgesMirror E' s := by
  refine ⟨?_, ?_, h.outFlag, h.inFlag⟩
  · intro t e w he
    rw [h.out he]
    exact and_congr_right fun hw => (hE t w (Dict.mem_of_lookup he) hw).symm
  · intro t e w he
    rw [h.into he]
    exact and_congr_right fun hw => (hE w t hw (Dict.mem_of_lookup he)).symm

/-! ## Adding edges -/

lemma Access.reader_ne_writer {a : Access} {t o : Nat} (h : o ≠ t) :
    a.reader t o ≠ a.writer t o := by
  cases a with
  | read => exact h.symm
  | write => exact h

namespace SsiTracker

variable {s : SsiTracker}

@[simp] lemma doomIf_txns (c : Bool) (v : Nat) : (s.doomIf c v).txns = s.txns := by
  unfold doomIf
  split <;> rfl

@[simp] lemma doomIf_holders (c : Bool) (v : Nat) : (s.doomIf c v).holders = s.holders := by
  unfold doomIf
  split <;> rfl

variable {x a b t : Nat}

lemma mem_doomIf {c : Bool} {v : Nat} :
    x ∈ (s.doomIf c v).doomed ↔ x ∈ s.doomed ∨ (c = true ∧ x = v) := by
  unfold doomIf
  split
  · simp [*, or_comm]
  · simp [*]

/-- The entry of `t` after the edge `a → b` is added. -/
def edgeAdded (a b t : Nat) (e : TxnConflict) : TxnConflict :=
  let e := if t = a then e.insertOutEdge b else e
  if t = b then e.insertInEdge a else e

lemma lookup_addEdge (hab : a ≠ b) (t : Nat) :
    (s.addEdge a b).txns.lookup t = (s.txns.lookup t).map (edgeAdded a b t) := by
  simp only [addEdge, if_neg hab, doomIf_txns, Dict.lookup_modify]
  by_cases ha : t = a
  · subst ha
    cases s.txns.lookup t <;> simp [edgeAdded, hab]
  by_cases hb : t = b
  · subst hb
    cases s.txns.lookup t <;> simp [edgeAdded, ha]
  · cases s.txns.lookup t <;> simp [edgeAdded, ha, hb]

lemma of_lookup_addEdge (hab : a ≠ b) {t : Nat} {e : TxnConflict}
    (he : (s.addEdge a b).txns.lookup t = some e) :
    ∃ e0, s.txns.lookup t = some e0 ∧ edgeAdded a b t e0 = e := by
  rwa [lookup_addEdge hab, Option.map_eq_some_iff] at he

lemma addEdge_holders (a b : Nat) : (s.addEdge a b).holders = s.holders := by
  unfold addEdge
  split
  · rfl
  · simp only [doomIf_holders]
    rfl

lemma mem_addEdge (hab : a ≠ b) (t : Nat) : t ∈ (s.addEdge a b).txns ↔ t ∈ s.txns := by
  rw [Dict.mem_iff_lookup, Dict.mem_iff_lookup, lookup_addEdge hab]
  simp

/-- The flag that makes a committed transaction a pivot once it gets an edge by the access. -/
def pivotFlag : Access → TxnConflict → Bool
  | .read, e => e.outConflict
  | .write, e => e.inConflict

/-- An edge between an active `t` and a committed transaction with the other flag dooms `t`, and no
edge of `t` dooms anything else. -/
lemma mem_doomed_addEdge {acc : Access} {o : Nat} {e : TxnConflict} (ho : o ≠ t)
    (ht : s.txns.lookup t = some e) (hact : e.commitTs = none) :
    x ∈ (s.addEdge (acc.reader t o) (acc.writer t o)).doomed ↔ x ∈ s.doomed ∨
      x = t ∧ ∃ f, s.txns.lookup o = some f ∧ f.commitTs.isSome ∧ pivotFlag acc f = true := by
  rw [addEdge, if_neg (Access.reader_ne_writer ho), mem_doomIf, mem_doomIf]
  cases acc <;> cases hf : s.txns.lookup o <;>
    simp [pivotCommitted, isActive, Dict.lookup_modify, Access.reader, Access.writer, ht,
      hf, ho, ho.symm, hact, insertInEdge, insertOutEdge, pivotFlag, and_comm]

variable {e : TxnConflict}

@[simp] lemma edgeAdded_beginTs : (edgeAdded a b t e).beginTs = e.beginTs := by
  unfold edgeAdded
  split <;> split <;> rfl

@[simp] lemma edgeAdded_commitTs : (edgeAdded a b t e).commitTs = e.commitTs := by
  unfold edgeAdded
  split <;> split <;> rfl

@[simp] lemma edgeAdded_has {acc : Access} {m : Marker} :
    (edgeAdded a b t e).has acc m ↔ e.has acc m := by
  unfold edgeAdded
  split <;> split <;> cases acc <;> cases m <;> rfl

end SsiTracker

lemma MarkersMirror.addEdge {H : History} (h : MarkersMirror H s) {a b : Nat} (hab : a ≠ b) :
    MarkersMirror H (s.addEdge a b) := by
  constructor
  case holders =>
    intro acc t m
    rw [addEdge_holders, mem_addEdge hab, h.holders]
  all_goals
    intros
    obtain ⟨e0, he0, rfl⟩ := of_lookup_addEdge hab (by assumption)
  · simpa using h.begun he0
  · simpa using h.committed he0
  · simpa using h.did he0

lemma EdgesMirror.addEdge {E : Nat → Nat → Prop} (h : EdgesMirror E s) {a b : Nat} (hab : a ≠ b)
    (ha : a ∈ s.txns) (hb : b ∈ s.txns) :
    EdgesMirror (fun x y => E x y ∨ (x = a ∧ y = b)) (s.addEdge a b) := by
  constructor
  all_goals
    intros
    obtain ⟨e0, he0, rfl⟩ := of_lookup_addEdge hab (by assumption)
    have houtFlag := h.outFlag he0
    have hinFlag := h.inFlag he0
  · have hout := fun w => @h.out _ _ w he0
    grind [edgeAdded, insertOutEdge, insertInEdge, mem_addEdge]
  · have hinto := fun w => @h.into _ _ w he0
    grind [edgeAdded, insertOutEdge, insertInEdge, mem_addEdge]
  all_goals
    unfold edgeAdded
    split <;> split <;>
      simp_all [insertOutEdge, insertInEdge, ListSet.insert_ne_nil]

section AddEdges

variable {s : SsiTracker} {H : History} {E : Nat → Nat → Prop} (source target : Nat → Nat)

/-- The edges `source i → target i` for the elements of `l`, added one after the other. -/
def SsiTracker.addEdges (s : SsiTracker) (l : List Nat) : SsiTracker :=
  l.foldl (fun s i => s.addEdge (source i) (target i)) s

variable {source target}

variable {l : List Nat}

lemma SsiTracker.mem_addEdges (hl : ∀ i ∈ l, source i ≠ target i) (t : Nat) :
    t ∈ (s.addEdges source target l).txns ↔ t ∈ s.txns := by
  induction l generalizing s with
  | nil => rfl
  | cons i l ih =>
    have hi := hl i mem_cons_self
    show t ∈ ((s.addEdge (source i) (target i)).addEdges source target l).txns ↔ _
    rw [ih fun j hj => hl j (mem_cons_of_mem _ hj), mem_addEdge hi]

/-- **Edges with committed pivots doom the active transaction**, and nothing else. -/
lemma SsiTracker.mem_doomed_addEdges {acc : Access} {t x : Nat} {e : TxnConflict}
    (hl : ∀ o ∈ l, o ≠ t) (ht : s.txns.lookup t = some e) (hact : e.commitTs = none) :
    x ∈ (s.addEdges (acc.reader t) (acc.writer t) l).doomed ↔ x ∈ s.doomed ∨
      x = t ∧ ∃ o ∈ l, ∃ f, s.txns.lookup o = some f ∧ f.commitTs.isSome ∧
        pivotFlag acc f = true := by
  induction l generalizing s e with
  | nil => simp [addEdges]
  | cons i l ih =>
    have hi := hl i mem_cons_self
    have hne : acc.reader t i ≠ acc.writer t i := Access.reader_ne_writer hi
    -- an edge changes neither a commit timestamp nor the flag that counts
    have hflag : ∀ o ≠ t, ∀ f, pivotFlag acc (edgeAdded (acc.reader t i) (acc.writer t i) o f) =
      pivotFlag acc f := by
      intro o ho f
      rcases eq_or_ne o i with rfl | hoi <;> cases acc <;>
        simp [edgeAdded, pivotFlag, Access.reader, Access.writer, insertInEdge,
          insertOutEdge, *]
    have hlookup := lookup_addEdge (s := s) hne
    show x ∈ ((s.addEdge (acc.reader t i) (acc.writer t i)).addEdges (acc.reader t)
      (acc.writer t) l).doomed ↔ _
    rw [ih (fun o ho => hl o (mem_cons_of_mem _ ho)) ((hlookup t).trans (congrArg _ ht))
      (by simpa using hact),
      mem_doomed_addEdge hi ht hact, exists_mem_cons_iff, and_or_left, or_assoc]
    refine or_congr_right
      (or_congr_right (and_congr_right fun _ => exists_congr fun o => and_congr_right fun ho => ?_))
    have hot := hl o (mem_cons_of_mem _ ho)
    rw [hlookup]
    cases s.txns.lookup o <;> simp [hflag o hot]

lemma MarkersMirror.addEdges (h : MarkersMirror H s) (hl : ∀ i ∈ l, source i ≠ target i) :
    MarkersMirror H (s.addEdges source target l) := by
  induction l generalizing s with
  | nil => exact h
  | cons i l ih => exact ih (h.addEdge (hl i mem_cons_self)) fun j hj => hl j (mem_cons_of_mem _ hj)

lemma EdgesMirror.addEdges (h : EdgesMirror E s) (hl : ∀ i ∈ l, source i ≠ target i)
    (hs : ∀ i ∈ l, source i ∈ s.txns) (ht : ∀ i ∈ l, target i ∈ s.txns) :
    EdgesMirror (fun x y => E x y ∨ ∃ i ∈ l, x = source i ∧ y = target i)
    (s.addEdges source target l) := by
  induction l generalizing s E with
  | nil => exact h.congr fun a b _ _ => by simp
  | cons i l ih =>
    have hi := hl i mem_cons_self
    have h1 := h.addEdge hi (hs i mem_cons_self) (ht i mem_cons_self)
    have h2 := ih h1 (fun j hj => hl j (mem_cons_of_mem _ hj))
      (fun j hj => (mem_addEdge hi _).2 (hs j (mem_cons_of_mem _ hj)))
      (fun j hj => (mem_addEdge hi _).2 (ht j (mem_cons_of_mem _ hj)))
    refine h2.congr fun a b _ _ => ?_
    simp [or_assoc]

end AddEdges

end Graphus
