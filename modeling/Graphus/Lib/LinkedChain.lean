import Mathlib.Data.List.Nodup

/-!
# Singly linked chains

A chain is read by following `next` from a head until the null link. `Spells next null head l` says
that it reads as `l`, and `walk` reads it with a bound on the steps; they agree as soon as the bound
covers the chain (`Spells.walk_eq`).
-/

namespace LinkedChain

open List

variable {α : Type} {next next' : α → α} {null head x : α} {l l' : List α}

/-- Follow the links from `head`, for at most `fuel` entries. -/
def walk [DecidableEq α] (next : α → α) (null : α) : Nat → α → List α
  | 0, _ => []
  | fuel + 1, head => if head = null then [] else head :: walk next null fuel (next head)

/-- The chain from `head` reads as the list. -/
def Spells (next : α → α) (null : α) : α → List α → Prop
  | head, [] => head = null
  | head, x :: l => head = x ∧ x ≠ null ∧ Spells next null (next x) l

section

variable (h : Spells next null head l)

include h

lemma Spells.walk_eq [DecidableEq α] : ∀ fuel, l.length ≤ fuel → walk next null fuel head = l := by
  induction l generalizing head with
  | nil =>
    cases (h : head = null)
    intro fuel _
    cases fuel <;> simp [walk]
  | cons x l ih =>
    obtain ⟨rfl, hnull, hrest⟩ := h
    intro fuel hfuel
    cases fuel with
    | zero => simp at hfuel
    | succ fuel => rw [walk, if_neg hnull, ih hrest fuel (by simpa using hfuel)]

/-- Links off the chain do not matter. -/
lemma Spells.congr (hnext : ∀ y ∈ l, next' y = next y) : Spells next' null head l := by
  induction l generalizing head with
  | nil => exact h
  | cons x l ih =>
    obtain ⟨rfl, hnull, hrest⟩ := h
    refine ⟨rfl, hnull, ?_⟩
    rw [hnext _ mem_cons_self]
    exact ih hrest fun y hy => hnext y (mem_cons_of_mem _ hy)

/-- Writing the link of an entry off the chain. -/
lemma Spells.update [DecidableEq α] (hx : x ∉ l) (y : α) :
    Spells (Function.update next x y) null head l := by
  refine h.congr fun z hz => Function.update_of_ne ?_ y next
  rintro rfl
  exact hx hz

/-- Each entry links to the one behind it, and the last to null. -/
lemma Spells.map_next : head :: l.map next = l ++ [null] := by
  induction l generalizing head with
  | nil =>
    cases (h : head = null)
    rfl
  | cons x l ih =>
    obtain ⟨rfl, -, hrest⟩ := h
    rw [map_cons, ih hrest]
    rfl

lemma Spells.null_not_mem : null ∉ l := by
  induction l generalizing head with
  | nil => simp
  | cons x l ih =>
    obtain ⟨rfl, hnull, hrest⟩ := h
    simp [hnull.symm, ih hrest]

lemma Spells.unique (h' : Spells next null head l') : l = l' := by
  induction l generalizing head l' with
  | nil =>
    cases l' with
    | nil => rfl
    | cons y l' => exact absurd (h'.1.symm.trans h) h'.2.1
  | cons x l ih =>
    obtain ⟨rfl, hnull, hrest⟩ := h
    cases l' with
    | nil => exact absurd h' hnull
    | cons y l' =>
      obtain ⟨rfl, -, hrest'⟩ := h'
      rw [ih hrest hrest']

lemma Spells.head_eq {head' : α} (h' : Spells next null head' l) : head = head' := by
  cases l with
  | nil => exact Eq.trans h (Eq.symm h')
  | cons x l => exact h.1.trans h'.1.symm

/-- Without a repeated entry, no two entries have the same successor. -/
lemma Spells.nodup_map_next (hl : l.Nodup) : (l.map next).Nodup := by
  have hall : (head :: l.map next).Nodup := by
    rw [h.map_next]
    exact nodup_append.2 ⟨hl, by simp, by
      rintro x hx y hy rfl
      exact h.null_not_mem ((mem_singleton.1 hy) ▸ hx)⟩
  exact (nodup_cons.1 hall).2

end

end LinkedChain
