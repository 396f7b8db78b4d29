import Mathlib.Data.List.Nodup
import Mathlib.Order.Nat

/-!
# The horizon of a sequencer

A sequencer hands out numbers in order to parties that settle them later, in any order. The numbers
that are out are kept in a set. The *horizon* is the number below the smallest one that is out, or
the last number handed out when none is.

**Theorem (`Inv.step`).** Every step keeps the published horizon below every number that is out, and
at the last number handed out once none is.
-/

namespace Horizon

open Function List

/-- What a party has of the sequencer. -/
inductive Ticket where
  | fresh
  | out (n : ℕ)
  | settled (n : ℕ)

/-- The number of a ticket. -/
def Ticket.number : Ticket → Option ℕ
  | .fresh => none
  | .out n => some n
  | .settled n => some n

/-- The last number handed out, the published horizon, the numbers that are out, and the tickets. -/
structure State (Tid : Type) where
  clock : ℕ
  visible : ℕ
  out : List ℕ
  ticket : Tid → Ticket

/-- The horizon of a set of numbers that are out. -/
def horizon (clock : ℕ) (out : List ℕ) : ℕ := (out.min?.map (· - 1)).getD clock

lemma horizon_lt {clock visible : ℕ} {out : List ℕ} (hlt : ∀ n ∈ out, visible < n) {n : ℕ}
    (hn : n ∈ out) : horizon clock out < n := by
  obtain ⟨m, hm⟩ := Option.isSome_iff_exists.1 (isSome_min?_of_mem hn)
  obtain ⟨hmem, hle⟩ := min?_eq_some_iff.1 hm
  have := hle n hn
  have := hlt m hmem
  rw [horizon, hm, Option.map_some, Option.getD_some]
  omega

lemma horizon_le {clock : ℕ} {out : List ℕ} (hle : ∀ n ∈ out, n ≤ clock) :
    horizon clock out ≤ clock := by
  unfold horizon
  cases hm : out.min? with
  | none => exact le_rfl
  | some m =>
    have := hle m (min?_eq_some_iff.1 hm).1
    rw [Option.map_some, Option.getD_some]
    omega

variable {Tid : Type} {s s' : State Tid} {start : ℕ}

/-! ## Steps -/

namespace State

variable [DecidableEq Tid]

def issue (s : State Tid) (t : Tid) : State Tid :=
  { s with
    clock := s.clock + 1
    out := s.out.insert (s.clock + 1)
    ticket := update s.ticket t (.out (s.clock + 1)) }

/-- Take a number back, before the horizon is published. -/
def retire (s : State Tid) (t : Tid) (n : ℕ) : State Tid :=
  { s with out := s.out.erase n, ticket := update s.ticket t (.settled n) }

omit [DecidableEq Tid] in
/-- Publish the horizon, never going back. -/
def publish (s : State Tid) :
    State Tid := { s with visible := max s.visible (horizon s.clock s.out) }

def settle (s : State Tid) (t : Tid) (n : ℕ) : State Tid := (s.retire t n).publish

end State

/-- A step of the sequencer: a number is handed out, a number is settled, or the horizon is
published again. -/
inductive Step [DecidableEq Tid] : State Tid → State Tid → Prop
  | issue {s : State Tid} (t : Tid) (h : s.ticket t = .fresh) : Step s (s.issue t)
  | settle {s : State Tid} (t : Tid) (n : ℕ) (h : s.ticket t = .out n) : Step s (s.settle t n)
  | publish (s : State Tid) : Step s s.publish

/-! ## The invariant -/

/-- The numbers that are out are those of the parties, and the published horizon is below them. -/
structure Sound (start : ℕ) (s : State Tid) : Prop where
  nodup : s.out.Nodup
  out_iff : ∀ n, n ∈ s.out ↔ ∃ t, s.ticket t = .out n
  lt_out : ∀ n ∈ s.out, s.visible < n
  visible_le : s.visible ≤ s.clock
  number_le : ∀ t n, (s.ticket t).number = some n → n ≤ s.clock
  injective : ∀ t t' n, (s.ticket t).number = some n → (s.ticket t').number = some n → t = t'
  last : s.clock = start ∨ ∃ t, (s.ticket t).number = some s.clock

/-- The horizon is the clock when no number is out. -/
structure Inv (start : ℕ) (s : State Tid) : Prop extends Sound start s where
  caught_up : s.out = [] → s.visible = s.clock

/-- Nothing handed out. -/
lemma Inv.init (start : ℕ) : Inv start (⟨start, start, [], fun _ => .fresh⟩ : State Tid) where
  nodup := nodup_nil
  out_iff n := ⟨fun h => absurd h not_mem_nil, fun ⟨_, h⟩ => by cases h⟩
  lt_out n h := absurd h not_mem_nil
  visible_le := le_rfl
  number_le := nofun
  injective := nofun
  last := .inl rfl
  caught_up _ := rfl

namespace Sound

lemma out_number {t : Tid} {n : ℕ} (h : s.ticket t = .out n) : (s.ticket t).number = some n := by
  rw [h]
  rfl

lemma out_le (hs : Sound start s) {n : ℕ} (hn : n ∈ s.out) : n ≤ s.clock := by
  obtain ⟨t, ht⟩ := (hs.out_iff n).1 hn
  exact hs.number_le t n (out_number ht)

/-- Publishing makes good what a retired number has left. -/
lemma publish (hs : Sound start s) : Inv start s.publish :=
  { hs with
    lt_out n hn := Nat.max_lt.2 ⟨hs.lt_out n hn, horizon_lt hs.lt_out hn⟩
    visible_le := Nat.max_le.2 ⟨hs.visible_le, horizon_le fun _ => hs.out_le⟩
    caught_up := by
      intro hnil
      change max s.visible (horizon s.clock s.out) = s.clock
      rw [show s.out = [] from hnil]
      exact max_eq_right hs.visible_le }

variable [DecidableEq Tid]

lemma issue (hs : Sound start s) {t : Tid} (ht : s.ticket t = .fresh) : Inv start (s.issue t) := by
  have hother : ∀ u n, ((s.issue t).ticket u).number = some n →
      u = t ∧ n = s.clock + 1 ∨ (s.ticket u).number = some n := by
    intro u n hn
    by_cases hu : u = t
    · subst hu
      simp only [State.issue, update_self, Ticket.number, Option.some.injEq] at hn
      exact .inl ⟨rfl, hn.symm⟩
    · simp only [State.issue, update_of_ne hu] at hn
      exact .inr hn
  refine ⟨⟨?_, fun n => ?_, fun n hn => ?_, ?_, fun u n hn => ?_, fun u u' n hn hn' => ?_, ?_⟩,
    fun hnil => ?_⟩
  · exact hs.nodup.insert
  · rw [State.issue, mem_insert_iff, hs.out_iff]
    constructor
    · rintro (rfl | ⟨u, hu⟩)
      · exact ⟨t, update_self ..⟩
      · have hne : u ≠ t := by
          rintro rfl
          rw [ht] at hu
          cases hu
        exact ⟨u, (update_of_ne hne ..).trans hu⟩
    · rintro ⟨u, hu⟩
      by_cases hut : u = t
      · subst hut
        simp only [update_self, Ticket.out.injEq] at hu
        exact .inl hu.symm
      · simp only [update_of_ne hut] at hu
        exact .inr ⟨u, hu⟩
  · rcases mem_insert_iff.1 hn with rfl | hmem
    · exact Nat.lt_succ_of_le hs.visible_le
    · exact hs.lt_out n hmem
  · exact Nat.le_succ_of_le hs.visible_le
  · rcases hother u n hn with ⟨-, rfl⟩ | hold
    · exact le_rfl
    · exact Nat.le_succ_of_le (hs.number_le u n hold)
  · -- the new number is above all others
    rcases hother u n hn with ⟨rfl, rfl⟩ | hold
    · rcases hother u' _ hn' with ⟨rfl, -⟩ | hold'
      · rfl
      · exact absurd (hs.number_le _ _ hold') (by omega)
    · rcases hother u' n hn' with ⟨rfl, rfl⟩ | hold'
      · exact absurd (hs.number_le _ _ hold) (by omega)
      · exact hs.injective u u' n hold hold'
  · refine .inr ⟨t, ?_⟩
    simp only [State.issue, update_self, Ticket.number]
  · exact absurd (mem_insert_self (l := s.out) (a := s.clock + 1)) (by
      rw [show s.out.insert (s.clock + 1) = [] from hnil]
      exact not_mem_nil)

lemma retire (hs : Sound start s) {t : Tid} {n : ℕ} (ht : s.ticket t = .out n) :
    Sound start (s.retire t n) := by
  -- a ticket keeps its number
  have hnumber : ∀ u, ((s.retire t n).ticket u).number = (s.ticket u).number := by
    intro u
    by_cases hu : u = t
    · subst hu
      simp only [State.retire, update_self, ht, Ticket.number]
    · simp only [State.retire, update_of_ne hu]
  refine ⟨hs.nodup.erase n, fun m => ?_, fun m hm => hs.lt_out m (mem_of_mem_erase hm),
    hs.visible_le, fun u m hm => hs.number_le u m ((hnumber u).symm.trans hm),
    fun u u' m hm hm' => hs.injective u u' m ((hnumber u).symm.trans hm)
      ((hnumber u').symm.trans hm'),
    hs.last.imp_right fun ⟨u, hu⟩ => ⟨u, (hnumber u).trans hu⟩⟩
  rw [State.retire, hs.nodup.mem_erase_iff, hs.out_iff]
  constructor
  · rintro ⟨hne, u, hu⟩
    have hut : u ≠ t := by
      rintro rfl
      rw [ht] at hu
      exact hne (Ticket.out.inj hu).symm
    exact ⟨u, (update_of_ne hut ..).trans hu⟩
  · rintro ⟨u, hu⟩
    by_cases hut : u = t
    · subst hut
      simp only [update_self] at hu
      cases hu
    simp only [update_of_ne hut] at hu
    refine ⟨?_, u, hu⟩
    rintro rfl
    exact hut (hs.injective u t m (out_number hu) (out_number ht))

end Sound

variable [DecidableEq Tid]

theorem Inv.step (hs : Inv start s) (h : Step s s') : Inv start s' := by
  cases h with
  | issue t ht => exact hs.issue ht
  | settle t n ht => exact (hs.retire ht).publish
  | publish => exact hs.publish

end Horizon
