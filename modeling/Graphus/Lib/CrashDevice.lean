import Mathlib.Data.List.Basic

/-!
# Devices that can crash

A device holds a value for each page, and a list of writes that no barrier has covered yet. Reads
see all writes; a barrier makes them durable. At a crash each uncovered write is applied, lost or
torn, in any combination.

A page with no uncovered write is after a crash what it was (`crash_of_clean`). For any other page,
the crash leaves the durable value, the value of an uncovered write, or a torn page (`crash_cases`).
-/

/-- A device with uncovered writes, the oldest first. -/
structure CrashDevice (A V : Type) where
  durable : A → V
  pending : List (A × V)

namespace CrashDevice

open Function List

/-- What becomes of an uncovered write. -/
inductive Fate where
  | applied
  | lost
  | torn

variable {A V : Type} {d : CrashDevice A V} {x y : A} {v v' torn : V}

def write (d : CrashDevice A V) (x : A) (v : V) : CrashDevice A V :=
  { d with pending := d.pending ++ [(x, v)] }

/-- No write of the page is uncovered. -/
def Clean (d : CrashDevice A V) (x : A) : Prop := ∀ w ∈ d.pending, w.1 ≠ x

/-- The values of a page that a crash can leave whole. -/
def Holds (d : CrashDevice A V) (x : A) (v : V) : Prop := d.durable x = v ∨ (x, v) ∈ d.pending

lemma Clean.write (h : d.Clean x) (hne : y ≠ x) : (d.write y v).Clean x := by
  intro w hw
  rcases mem_append.1 hw with hw | hw
  · exact h w hw
  · rw [mem_singleton.1 hw]
    exact hne

lemma holds_write (h : (d.write y v).Holds x v') : d.Holds x v' ∨ (x = y ∧ v' = v) := by
  rcases h with h | h
  · exact .inl (.inl h)
  rcases mem_append.1 h with h | h
  · exact .inl (.inr h)
  · have := mem_singleton.1 h
    simp only [Prod.mk.injEq] at this
    exact .inr this

variable [DecidableEq A]

/-- Apply a write. -/
def put (f : A → V) (w : A × V) : A → V := update f w.1 w.2

/-- What a read returns. -/
def current (d : CrashDevice A V) : A → V := d.pending.foldl put d.durable

/-- The durability barrier. -/
def sync (d : CrashDevice A V) : CrashDevice A V := ⟨d.current, []⟩

instance (d : CrashDevice A V) (x : A) : Decidable (d.Clean x) := by
  unfold Clean
  infer_instance

/-- One write at a crash. -/
def strike (torn : V) (f : A → V) (w : Fate × A × V) : A → V :=
  match w.1 with
  | .applied => update f w.2.1 w.2.2
  | .lost => f
  | .torn => update f w.2.1 torn

/-- The pages after a crash. A write without a fate is lost. -/
def crash (torn : V) (d : CrashDevice A V) (fates : List Fate) : A → V :=
  (fates.zip d.pending).foldl (strike torn) d.durable

/-! ## Reads -/

lemma current_write : (d.write x v).current = update d.current x v := by
  simp only [current, write, foldl_append]
  rfl

lemma foldl_put_of_clean {ws : List (A × V)} {f : A → V} (h : ∀ w ∈ ws, w.1 ≠ x) :
    ws.foldl put f x = f x := by
  induction ws generalizing f with
  | nil => rfl
  | cons w ws ih =>
    rw [foldl_cons, ih fun w hw => h w (mem_cons_of_mem _ hw)]
    exact update_of_ne (Ne.symm (h w mem_cons_self)) _ _

lemma Clean.durable_eq (h : d.Clean x) : d.durable x = d.current x := (foldl_put_of_clean h).symm

lemma clean_sync : d.sync.Clean x := nofun

/-! ## Values -/

lemma holds_foldl_put (ws : List (A × V)) (f : A → V) (x : A) :
    ws.foldl put f x = f x ∨ (x, ws.foldl put f x) ∈ ws := by
  induction ws generalizing f with
  | nil => exact .inl rfl
  | cons w ws ih =>
    rw [foldl_cons]
    rcases ih (put f w) with h | h
    · by_cases hx : x = w.1
      · right
        rw [h, put, hx, update_self]
        exact mem_cons_self
      · left
        rw [h, put, update_of_ne hx]
    · exact .inr (mem_cons_of_mem _ h)

/-- What a read returns is one of the values of the page. -/
lemma holds_current (d : CrashDevice A V) (x : A) : d.Holds x (d.current x) := by
  rcases holds_foldl_put d.pending d.durable x with h | h
  · exact .inl h.symm
  · exact .inr h

lemma holds_sync (h : d.sync.Holds x v) : v = d.current x := by
  rcases h with h | h
  · exact h.symm
  · cases h

/-! ## Crashes -/

lemma foldl_strike_of_clean {ws : List (Fate × A × V)} {f : A → V} (h : ∀ w ∈ ws, w.2.1 ≠ x) :
    ws.foldl (strike torn) f x = f x := by
  induction ws generalizing f with
  | nil => rfl
  | cons w ws ih =>
    rw [foldl_cons, ih fun w hw => h w (mem_cons_of_mem _ hw)]
    have hne := Ne.symm (h w mem_cons_self)
    obtain ⟨fate, y, v⟩ := w
    cases fate with
    | applied | torn => exact update_of_ne hne _ _
    | lost => rfl

/-- A page with no uncovered write. -/
lemma crash_of_clean (h : d.Clean x) (fates : List Fate) : crash torn d fates x = d.durable x :=
  foldl_strike_of_clean fun w hw => h w.2 (of_mem_zip hw).2

lemma strike_cases (torn : V) (ws : List (Fate × A × V)) (f : A → V) (x : A) :
    ws.foldl (strike torn) f x = f x ∨ (∃ w ∈ ws, w.2.1 = x ∧ ws.foldl (strike torn) f x = w.2.2) ∨
      (ws.foldl (strike torn) f x = torn ∧ ∃ w ∈ ws, w.2.1 = x) := by
  induction ws generalizing f with
  | nil => exact .inl rfl
  | cons w ws ih =>
    rw [foldl_cons]
    rcases ih (strike torn f w) with h | ⟨w', hw', hx, h⟩ | ⟨h, w', hw', hx⟩
    · by_cases hx : w.2.1 = x
      · rw [h]
        subst hx
        obtain ⟨fate, y, v⟩ := w
        cases fate with
        | applied => exact .inr (.inl ⟨_, mem_cons_self, rfl, update_self _ _ _⟩)
        | lost => exact .inl rfl
        | torn => exact .inr (.inr ⟨update_self _ _ _, _, mem_cons_self, rfl⟩)
      · left
        have hone : [w].foldl (strike torn) f x = f x := by
          refine foldl_strike_of_clean fun w' hw' => ?_
          rw [mem_singleton.1 hw']
          exact hx
        exact h.trans hone
    · exact .inr (.inl ⟨w', mem_cons_of_mem _ hw', hx, h⟩)
    · exact .inr (.inr ⟨h, w', mem_cons_of_mem _ hw', hx⟩)

/-- What a crash leaves in a page. -/
lemma crash_cases (torn : V) (d : CrashDevice A V) (fates : List Fate) (x : A) :
    d.Holds x (crash torn d fates x) ∨ (crash torn d fates x = torn ∧ ∃ v, (x, v) ∈ d.pending) := by
  rcases strike_cases torn (fates.zip d.pending) d.durable x with
    h | ⟨w, hw, hx, h⟩ | ⟨h, w, hw, hx⟩
  · exact .inl (.inl h.symm)
  · left
    right
    have hmem := (of_mem_zip hw).2
    rw [show crash torn d fates x = w.2.2 from h, ← hx]
    exact hmem
  · right
    refine ⟨h, w.2.2, ?_⟩
    rw [← hx]
    exact (of_mem_zip hw).2

lemma holds_of_crash {fates : List Fate} (h : crash torn d fates x = v) (hv : v ≠ torn) :
    d.Holds x v := by
  rcases crash_cases torn d fates x with hx | ⟨hx, -⟩
  · exact h ▸ hx
  · exact absurd (h.symm.trans hx) hv

end CrashDevice
