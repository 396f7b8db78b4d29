import Mathlib.Data.Set.Lattice
import Mathlib.Order.CompletePartialOrder

/-!
# Undoing local changes

A state assigns a value to every address. A change is local to a set of addresses when it reads and
writes these only; changes with disjoint footprints do not see each other. An entry is a change with
a second change meant to undo it.

Undoing an entry in the middle of a sequence removes it from the sequence, when the entries behind
it have footprints disjoint from its own (`exec_undo`); the entries that remain can still be undone
(`Sound.remove`).
-/

namespace UndoLog

open List

variable {α β : Type}

/-- `f` reads and writes addresses of `F` only. -/
structure Local (F : Set α) (f : (α → β) → α → β) : Prop where
  frame : ∀ s, ∀ a ∉ F, f s a = s a
  reads : ∀ s s', (∀ a ∈ F, s a = s' a) → ∀ a ∈ F, f s a = f s' a

structure Entry (α β : Type) where
  foot : Set α
  redo : (α → β) → α → β
  undo : (α → β) → α → β
  redo_local : Local foot redo
  undo_local : Local foot undo
  /-- is `undo` meant to invert `redo`? -/
  undoable : Prop

variable {s s' : α → β} {F : Set α} {e x : Entry α β} {A B S : List (Entry α β)}

/-- A change elsewhere keeps states that agree off `F` in agreement. -/
lemma Local.agree_off {G : Set α} {f : (α → β) → α → β} (hf : Local G f) (hFG : Disjoint G F)
    (h : ∀ a ∉ F, s a = s' a) : ∀ a ∉ F, f s a = f s' a := by
  intro a ha
  by_cases hG : a ∈ G
  · exact hf.reads s s' (fun b hb => h b (Set.disjoint_left.1 hFG hb)) a hG
  · rw [hf.frame s a hG, hf.frame s' a hG, h a ha]

namespace Entry

/-- The undo takes the state after the entry back to `s`. -/
def Inverts (e : Entry α β) (s : α → β) : Prop := e.undo (e.redo s) = s

lemma Inverts.congr (h : e.Inverts s) (hs : ∀ a ∈ e.foot, s a = s' a) : e.Inverts s' := by
  funext a
  by_cases ha : a ∈ e.foot
  · have hredo : ∀ b ∈ e.foot, e.redo s b = e.redo s' b := e.redo_local.reads s s' hs
    have hundo := e.undo_local.reads (e.redo s) (e.redo s') hredo a ha
    rw [← hundo, ← hs a ha]
    exact congrFun h a
  · rw [e.undo_local.frame _ a ha, e.redo_local.frame _ a ha]

end Entry

/-- Perform the entries in order. -/
def exec (S : List (Entry α β)) (s : α → β) : α → β := S.foldl (fun s e => e.redo s) s

@[simp] lemma exec_nil : exec [] s = s := rfl

@[simp] lemma exec_cons : exec (e :: S) s = exec S (e.redo s) := rfl

lemma exec_append : exec (A ++ B) s = exec B (exec A s) := foldl_append ..

/-- Every undoable entry is inverted at the state it is performed in. -/
def Sound : (α → β) → List (Entry α β) → Prop
  | _, [] => True
  | s, e :: S => (e.undoable → e.Inverts s) ∧ Sound (e.redo s) S

lemma sound_append : Sound s (A ++ B) ↔ Sound s A ∧ Sound (exec A s) B := by
  induction A generalizing s with
  | nil => simp [Sound]
  | cons e A ih => simp [Sound, ih, and_assoc]

lemma sound_snoc : Sound s (S ++ [e]) ↔ Sound s S ∧ (e.undoable → e.Inverts (exec S s)) := by
  rw [sound_append]
  simp [Sound]

section

variable (hB : ∀ b ∈ B, Disjoint b.foot F)

include hB

/-- Entries with footprints outside `F` keep states that agree off `F` in agreement. -/
lemma exec_agree_off (h : ∀ a ∉ F, s a = s' a) :
    ∀ a ∉ F, exec B s a = exec B s' a := by
  induction B generalizing s s' with
  | nil => exact h
  | cons b B ih =>
    refine ih (fun b' hb' => hB b' (mem_cons_of_mem _ hb')) ?_
    exact b.redo_local.agree_off (hB b mem_cons_self) h

lemma exec_frame : ∀ a ∈ F, exec B s a = s a := by
  induction B generalizing s with
  | nil => exact fun a _ => rfl
  | cons b B ih =>
    intro a ha
    rw [exec_cons, ih (fun b' hb' => hB b' (mem_cons_of_mem _ hb')) a ha]
    exact b.redo_local.frame s a (Set.disjoint_right.1 (hB b mem_cons_self) ha)

lemma Sound.agree_off (h : ∀ a ∉ F, s a = s' a)
    (hs : Sound s B) : Sound s' B := by
  induction B generalizing s s' with
  | nil => trivial
  | cons b B ih =>
    have hb := hB b mem_cons_self
    refine ⟨fun hu => (hs.1 hu).congr fun a ha => h a (Set.disjoint_left.1 hb ha), ?_⟩
    exact ih (fun b' hb' => hB b' (mem_cons_of_mem _ hb')) (b.redo_local.agree_off hb h) hs.2

end

/-- An entry changes nothing off its footprint. -/
lemma Entry.redo_agree (x : Entry α β) (s : α → β) : ∀ a ∉ x.foot, x.redo s a = s a :=
  x.redo_local.frame s

/-- **Undoing an entry removes it**, when the entries behind it are elsewhere. -/
lemma exec_undo (hs : Sound s (A ++ x :: B)) (hx : x.undoable)
    (hB : ∀ b ∈ B, Disjoint b.foot x.foot) : x.undo (exec (A ++ x :: B) s) = exec (A ++ B) s := by
  have hinv : x.Inverts (exec A s) := (sound_append.1 hs).2.1 hx
  rw [exec_append, exec_append, exec_cons]
  generalize exec A s = t at hinv
  funext a
  by_cases ha : a ∈ x.foot
  · -- on the footprint the entries behind change nothing, and the undo inverts the entry
    have hread : ∀ b ∈ x.foot, exec B (x.redo t) b = x.redo t b := exec_frame hB
    rw [x.undo_local.reads _ _ hread a ha, exec_frame hB a ha]
    exact congrFun hinv a
  · rw [x.undo_local.frame _ a ha]
    exact exec_agree_off hB (x.redo_agree t) a ha

/-- The entries that remain can still be undone. -/
lemma Sound.remove (hs : Sound s (A ++ x :: B)) (hB : ∀ b ∈ B, Disjoint b.foot x.foot) :
    Sound s (A ++ B) := by
  obtain ⟨hA, hxB⟩ := sound_append.1 hs
  exact sound_append.2 ⟨hA, hxB.2.agree_off hB (x.redo_agree _)⟩

end UndoLog
