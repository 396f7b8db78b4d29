import Graphus.Core.TemporalCalc

/-!
# Local times in a named zone

`resolve_local` (`timezone.rs`) never sees the transition of a zone: it reads the offsets two days
before and after the local time, and asks of each whether it round-trips. A transition that is near
enough to matter is the only one between the two probes.
-/

namespace Graphus

def probeSeconds : Int := 2 * 86400

/-- `offsetAt` is `find_local_time_type` of the zone that was looked up. -/
def resolveLocal (offsetAt : Int → Checked Int) (l : LocalDateTime) (preferred : Option Int) :
    Checked (LocalDateTime × Int) := do
  let wall := l.epochSeconds.toInt
  let before ← offsetAt (saturatingSub wall probeSeconds)
  let after ← offsetAt (saturate (wall + probeSeconds))
  let valid (offset : Int) : Checked
    Bool := do return (← offsetAt (← i64 (wall - offset))) == offset
  match ← valid before, ← valid after with
  | true, true =>
    if before ≠ after then
      return (l, match preferred with
        | some p => if p = before ∨ p = after then p else before
        | none => before)
    else return (l, before)
  | true, false => return (l, before)
  | false, true => return (l, after)
  | false, false =>
      return ({ l with epochSeconds := .ofInt (saturate (wall + (after - before))) }, after)

/-- A zone: its offsets are at most 18 hours, and it changes them more than four days apart. -/
structure ZoneRules where
  offset : Int → Int
  bounded : ∀ u, -64800 ≤ offset u ∧ offset u ≤ 64800
  apart : ∀ {t t'}, offset t ≠ offset (t - 1) → offset t' ≠ offset (t' - 1) → t < t' →
    4 * 86400 < t' - t

namespace ZoneRules

variable {z : ZoneRules} {w t a b u v offset : Int} {preferred : Option Int}

/-- The local time at an instant. -/
def wall (z : ZoneRules) (u : Int) : Int := u + z.offset u

/-- What a local time `w` resolves to. -/
structure Resolves (z : ZoneRules) (w : Int) (preferred : Option Int) (w' offset : Int) : Prop where
  real : z.offset (w' - offset) = offset
  kept : ∀ u, z.wall u = w → w' = w
  twice : ∀ u v, u < v → z.wall u = w → z.wall v = w →
    offset = if preferred = some (z.offset v) then z.offset v else z.offset u
  /-- the transition at `t` skips the local times from `t + z.offset (t - 1)` to `t + z.offset t` -/
  skipped : (∀ u, z.wall u ≠ w) → ∃ t, t + z.offset (t - 1) ≤ w ∧ w < t + z.offset t ∧
    w' = w + (z.offset t - z.offset (t - 1))

lemma offset_eq_of_quiet (huv : u ≤ v) (h : ∀ t, u < t → t ≤ v → z.offset t = z.offset (t - 1)) :
    z.offset v = z.offset u := by
  induction v, huv using Int.leInduction with
  | base => rfl
  | succ v huv ih =>
    rw [h (v + 1) (by omega) le_rfl, Int.add_sub_cancel]
    exact ih fun t hut htv => h t hut (by omega)

/-- The two probes have at most one transition between them. -/
lemma exists_transition (z : ZoneRules) (w : Int) : ∃ t, ∀ u, w - 86400 ≤ u → u ≤ w + 86400 →
    z.offset u = if u < t then z.offset (w - 2 * 86400) else z.offset (w + 2 * 86400) := by
  by_cases hex : ∃ t, w - 2 * 86400 < t ∧ t ≤ w + 2 * 86400 ∧ z.offset t ≠ z.offset (t - 1)
  · obtain ⟨t, hlo, hhi, ht⟩ := hex
    refine ⟨t, fun u hu hu' => ?_⟩
    split
    · refine offset_eq_of_quiet (by omega) fun s hs hsu => ?_
      by_contra hne
      have := z.apart hne ht (by omega)
      omega
    · refine (offset_eq_of_quiet (by omega) fun s hs hsu => ?_).symm
      by_contra hne
      have := z.apart ht hne (by omega)
      omega
  · refine ⟨w + 2 * 86400, fun u hu hu' => ?_⟩
    rw [if_pos (by omega)]
    refine offset_eq_of_quiet (by omega) fun s hs hsu => ?_
    by_contra hne
    exact hex ⟨s, hs, by omega, hne⟩

section Near

variable (h : ∀ u, w - 86400 ≤ u → u ≤ w + 86400 → z.offset u = if u < t then b else a)
include h

/-- The two instants that can have the local time. -/
lemma of_wall (hu : z.wall u = w) :
    z.offset u = b ∧ z.offset (w - b) = b ∧ u < t ∨ z.offset u = a ∧
    z.offset (w - a) = a ∧ t ≤ u := by
  have hbound := z.bounded u
  unfold wall at hu
  have hu' : u = w - z.offset u := by omega
  have hoff := h u (by omega) (by omega)
  split at hoff
  · exact .inl ⟨hoff, by rw [← hoff, ← hu'], ‹_›⟩
  · exact .inr ⟨hoff, by rw [← hoff, ← hu'], by omega⟩

/-- A skipped local time is moved behind the gap. -/
lemma resolves_none (hb : -64800 ≤ b ∧ b ≤ 64800) (ha : -64800 ≤ a ∧ a ≤ 64800)
    (hvb : z.offset (w - b) ≠ b) (hva : z.offset (w - a) ≠ a) :
    z.Resolves w preferred (w + (a - b)) a := by
  have hnone : ∀ u, z.wall u ≠ w := fun u hu => (of_wall h hu).elim (hvb ·.2.1) (hva ·.2.1)
  have hwb := h (w - b) (by omega) (by omega)
  have hwa := h (w - a) (by omega) (by omega)
  have htb : t ≤ w - b := not_lt.1 fun hlt => hvb (hwb.trans (if_pos hlt))
  have hta : w - a < t := not_le.1 fun hle => hva (hwa.trans (if_neg (not_lt.2 hle)))
  refine ⟨?_, fun u hu => absurd hu (hnone u), fun u _ _ hu => absurd hu (hnone u),
    fun _ => ⟨t, ?_⟩⟩
  · rw [show w + (a - b) - a = w - b by omega, hwb, if_neg (by omega)]
  · rw [h (t - 1) (by omega) (by omega), h t (by omega) (by omega), if_pos (by omega),
      if_neg (by omega)]
    omega

end Near

/-- A local time that is kept, with an offset that round-trips. -/
lemma Resolves.of_valid (hvalid : z.offset (w - offset) = offset)
    (htwice : ∀ u v, u < v → z.wall u = w → z.wall v = w →
      offset = if preferred = some (z.offset v) then z.offset v else z.offset u) :
    z.Resolves w preferred w offset where
  real := hvalid
  kept _ _ := rfl
  twice := htwice
  skipped h := by
    refine absurd ?_ (h (w - offset))
    rw [wall, hvalid, Int.sub_add_cancel]

/-- **Local times resolve to real instants.** -/
theorem resolveLocal_resolves (z : ZoneRules) (l : LocalDateTime) (preferred : Option Int)
    (hlo : -2 ^ 63 + probeSeconds ≤ l.epochSeconds.toInt)
    (hhi : l.epochSeconds.toInt + probeSeconds < 2 ^ 63) :
    ∃ l' offset, resolveLocal (fun u => .ok (z.offset u)) l preferred = .ok (l', offset) ∧
      l'.nanos = l.nanos ∧
        z.Resolves l.epochSeconds.toInt preferred l'.epochSeconds.toInt offset := by
  obtain ⟨t, h⟩ := z.exists_transition l.epochSeconds.toInt
  have hb := z.bounded (l.epochSeconds.toInt - 2 * 86400)
  have ha := z.bounded (l.epochSeconds.toInt + 2 * 86400)
  unfold resolveLocal
  simp only [probeSeconds, saturatingSub, saturate, i64] at *
  generalize hw : l.epochSeconds.toInt = w at *
  rw [max_eq_right (by omega), min_eq_right (by omega), max_eq_right (by omega),
    min_eq_right (by omega)]
  generalize z.offset (w - 2 * 86400) = b at *
  generalize z.offset (w + 2 * 86400) = a at *
  simp only [bind, Except.bind, pure, Except.pure,
    if_pos (show -2 ^ 63 ≤ w - b ∧ w - b < 2 ^ 63 by omega),
    if_pos (show -2 ^ 63 ≤ w - a ∧ w - a < 2 ^ 63 by omega)]
  by_cases hvb : z.offset (w - b) = b
  · rw [beq_iff_eq.2 hvb]
    by_cases hva : z.offset (w - a) = a
    · rw [beq_iff_eq.2 hva]
      refine ⟨l, if preferred = some a then a else b, by cases preferred <;> grind, rfl, ?_⟩
      rw [hw]
      refine .of_valid (by split <;> assumption) fun u v huv hu hv => ?_
      rcases of_wall h hu with hu' | hu' <;> rcases of_wall h hv with hv' | hv' <;>
        rw [hu'.1, hv'.1]
      all_goals unfold wall at hu hv; omega
    · rw [beq_false_of_ne hva]
      refine ⟨l, b, rfl, rfl, ?_⟩
      rw [hw]
      have hone {u} (hu : z.wall u = w) := (of_wall h hu).resolve_right fun h => hva h.2.1
      exact .of_valid hvb fun u v _ hu hv => by rw [(hone hu).1, (hone hv).1, ite_self]
  · rw [beq_false_of_ne hvb]
    by_cases hva : z.offset (w - a) = a
    · rw [beq_iff_eq.2 hva]
      refine ⟨l, a, rfl, rfl, ?_⟩
      rw [hw]
      have hone {u} (hu : z.wall u = w) := (of_wall h hu).resolve_left fun h => hvb h.2.1
      exact .of_valid hva fun u v _ hu hv => by rw [(hone hu).1, (hone hv).1, ite_self]
    · rw [beq_false_of_ne hva]
      refine ⟨_, a, rfl, rfl, ?_⟩
      rw [max_eq_right (by omega), min_eq_right (by omega),
        Int64.toInt_ofInt_of_le (by omega) (by omega)]
      exact resolves_none h hb ha hvb hva

/-- An hour is skipped at the epoch. -/
def springForward : ZoneRules where
  offset u := if u < 0 then 0 else 3600
  bounded u := by split <;> omega
  apart := by grind

theorem resolveLocal_resolves_in_gap : ∃ l' offset,
    resolveLocal (fun u => .ok (springForward.offset u)) ⟨1800, 0⟩ none = .ok (l', offset) ∧
      l'.nanos = 0 ∧ springForward.Resolves 1800 none l'.epochSeconds.toInt offset :=
  springForward.resolveLocal_resolves ⟨1800, 0⟩ none (by decide) (by decide)

end Graphus.ZoneRules
