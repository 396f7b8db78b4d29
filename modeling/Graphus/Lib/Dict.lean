import Mathlib.Data.List.AList
import Mathlib.Algebra.Ring.Int.Defs
import Mathlib.Algebra.Ring.Nat

/-!
# Finite maps and list sets

`Dict K V` is a finite map with one entry per key: Mathlib's association lists at a constant
value type. The lemmas give the lookup after each update as one `if`, which is the form the
proofs about keyed states rewrite with. A set that a program iterates over is a list used up
to membership.
-/

/-- A finite map from `K` to `V`. -/
abbrev Dict (K V : Type) := AList fun _ : K => V

namespace Dict

open List

variable {K V W : Type} [DecidableEq K]

/-- Replace the value at `k`, if there is one. -/
def modify (m : Dict K V) (k : K) (f : V → V) : Dict K V :=
  match m.lookup k with
  | none => m
  | some v => m.insert k (f v)

lemma lookup_insert (m : Dict K V) (k k' : K) (v : V) :
    (m.insert k v).lookup k' = if k' = k then some v else m.lookup k' := by
  by_cases h : k' = k
  · subst h
    simp
  · rw [AList.lookup_insert_ne h, if_neg h]

lemma lookup_erase (m : Dict K V) (k k' : K) :
    (m.erase k).lookup k' = if k' = k then none else m.lookup k' := by
  by_cases h : k' = k
  · subst h
    simp
  · rw [AList.lookup_erase_ne h, if_neg h]

lemma lookup_modify (m : Dict K V) (k k' : K) (f : V → V) :
    (m.modify k f).lookup k' = if k' = k then (m.lookup k).map f else m.lookup k' := by
  unfold modify
  cases hk : m.lookup k with
  | none =>
    by_cases h : k' = k
    · subst h
      simp [hk]
    · simp [h]
  | some v => simp [lookup_insert]

section Inversion

variable {m : Dict K V} {k k' : K} {v v' : V}

lemma of_lookup_insert (h : (m.insert k v).lookup k' = some v') :
    k' = k ∧ v = v' ∨ k' ≠ k ∧ m.lookup k' = some v' := by
  rw [lookup_insert] at h
  by_cases hk : k' = k
  · exact .inl ⟨hk, Option.some.inj ((if_pos hk).symm.trans h)⟩
  · exact .inr ⟨hk, (if_neg hk).symm.trans h⟩

lemma of_lookup_erase (h : (m.erase k).lookup k' = some v) : k' ≠ k ∧ m.lookup k' = some v := by
  rw [lookup_erase] at h
  split at h
  · cases h
  · exact ⟨‹_›, h⟩

lemma of_lookup_modify {f : V → V} (h : (m.modify k f).lookup k' = some v) :
    k' = k ∧ (∃ u, m.lookup k' = some u ∧ f u = v) ∨ k' ≠ k ∧ m.lookup k' = some v := by
  rw [lookup_modify] at h
  by_cases hk : k' = k
  · subst hk
    exact .inl ⟨rfl, Option.map_eq_some_iff.1 ((if_pos rfl).symm.trans h)⟩
  · exact .inr ⟨hk, (if_neg hk).symm.trans h⟩

end Inversion

lemma mem_modify (m : Dict K V) (k k' : K) (f : V → V) : k' ∈ m.modify k f ↔ k' ∈ m := by
  rw [← AList.lookup_isSome, ← AList.lookup_isSome, lookup_modify]
  by_cases h : k' = k
  · subst h
    simp
  · simp [h]

lemma lookup_foldl_modify {f : V → V} (hf : ∀ v, f (f v) = f v) (m : Dict K V) (ks : List K)
    (k : K) : (ks.foldl (fun m k => modify m k f) m).lookup k =
      if k ∈ ks then (m.lookup k).map f else m.lookup k := by
  induction ks generalizing m with
  | nil => simp
  | cons k' ks ih =>
    rw [foldl_cons, ih, lookup_modify]
    by_cases hk : k = k' <;> by_cases hks : k ∈ ks
    · subst hk
      simp [hks, hf, Function.comp_def]
    · subst hk
      simp [hks]
    · simp [hk, hks]
    · simp [hk, hks]

/-- Apply `f` to every value. -/
def mapVal (f : V → W) (m : Dict K V) : Dict K W :=
  ⟨m.entries.map fun e => ⟨e.1, f e.2⟩, by
    have h := m.nodupKeys
    rw [List.NodupKeys, keys] at h ⊢
    rwa [map_map]⟩

/-- Keep the entries whose value satisfies `p`. -/
def retain (p : V → Bool) (m : Dict K V) : Dict K V :=
  ⟨m.entries.filter fun e => p e.2, m.nodupKeys.sublist (filter_sublist)⟩

lemma lookup_mapVal (f : V → W) (m : Dict K V) (k : K) :
    (mapVal f m).lookup k = (m.lookup k).map f := by
  obtain ⟨l, hl⟩ := m
  show (l.map fun e => (⟨e.1, f e.2⟩ : Sigma fun _ : K => W)).dlookup k = (l.dlookup k).map f
  clear hl
  induction l with
  | nil => rfl
  | cons e l ih =>
    obtain ⟨k', v⟩ := e
    by_cases h : k' = k
    · subst h
      simp
    · have h' : k ≠ k' := fun h'' => h h''.symm
      rw [map_cons, dlookup_cons_ne _ _ h', dlookup_cons_ne _ _ h', ih]

lemma lookup_retain (p : V → Bool) (m : Dict K V) (k : K) :
    (retain p m).lookup k = (m.lookup k).filter p := by
  obtain ⟨l, hl⟩ := m
  show (l.filter _).dlookup k = (l.dlookup k).filter p
  induction l with
  | nil => rfl
  | cons e l ih =>
    obtain ⟨k', v⟩ := e
    have ih := ih (nodupKeys_cons.1 hl).2
    by_cases h : k' = k
    · subst h
      have hk : (l.filter fun e => p e.2).dlookup k' = none := by
        rw [ih, dlookup_eq_none.2 (nodupKeys_cons.1 hl).1]
        rfl
      by_cases hp : p v
      · simp [Option.filter, hp]
      · simp [Option.filter, hp, hk]
    · have h' : k ≠ k' := fun h'' => h h''.symm
      rw [dlookup_cons_ne _ _ h', ← ih, filter_cons]
      split
      · rw [dlookup_cons_ne _ _ h']
      · rfl

lemma mem_iff_lookup {m : Dict K V} {k : K} : k ∈ m ↔ ∃ v, m.lookup k = some v := by
  rw [← AList.lookup_isSome, Option.isSome_iff_exists]

lemma mem_of_lookup {m : Dict K V} {k : K} {v : V} (h : m.lookup k = some v) : k ∈ m :=
  mem_iff_lookup.2 ⟨v, h⟩

lemma mem_keys_iff_lookup {m : Dict K V} {k : K} : k ∈ m.keys ↔ ∃ v, m.lookup k = some v := by
  rw [← AList.mem_keys, mem_iff_lookup]

/-! ## Sums over the entries -/

/-- The sum of `f` over the entries. -/
def sum (f : K → V → Int) (m : Dict K V) : Int :=
  (m.entries.map fun e => f e.1 e.2).sum

variable (f : K → V → Int)

/-- An entry is one of the summands. -/
lemma sum_erase {m : Dict K V} {k : K} {v : V} (h : m.lookup k = some v) :
    sum f (m.erase k) + f k v = sum f m := by
  obtain ⟨v', l1, l2, -, hl, hk⟩ := exists_of_kerase (AList.mem_keys.1 (mem_of_lookup h))
  have hv : v' = v := by
    have hmem : (⟨k, v'⟩ : Sigma fun _ : K => V) ∈ m.entries := by
      rw [hl]
      simp
    exact Option.some.inj ((AList.mem_lookup_iff.2 hmem).symm.trans h)
  change ((m.entries.kerase k).map _).sum + _ = (m.entries.map _).sum
  rw [hk, hl, hv]
  simp only [map_append, map_cons, sum_append, sum_cons]
  omega

lemma sum_insert_erase (m : Dict K V) (k : K) (v : V) :
    sum f (m.insert k v) = f k v + sum f (m.erase k) := by
  rfl

/-- A new entry is one more summand. -/
lemma sum_insert_of_none {m : Dict K V} {k : K} (h : m.lookup k = none) (v : V) :
    sum f (m.insert k v) = f k v + sum f m := by
  rw [sum_insert_erase, sum, sum]
  have hk : k ∉ m.entries.keys := dlookup_eq_none.1 h
  rw [show (m.erase k).entries = m.entries.kerase k from rfl, kerase_of_notMem_keys hk]

/-- An entry that changes is a summand that changes. -/
lemma sum_insert_of_lookup {m : Dict K V} {k : K} {v : V} (h : m.lookup k = some v)
    (v' : V) : sum f (m.insert k v') = sum f m + (f k v' - f k v) := by
  have := sum_erase f h
  rw [sum_insert_erase]
  omega

omit [DecidableEq K] in
lemma sum_mapVal (f : K → W → Int) (g : V → W) (m : Dict K V) :
    sum f (mapVal g m) = sum (fun k v => f k (g v)) m := by
  rw [sum, mapVal, map_map]
  rfl

end Dict

/-! ## Lists as sets -/

lemma ListSet.insert_ne_nil {α : Type} [DecidableEq α] (a : α) (l : List α) : l.insert a ≠ [] :=
  List.ne_nil_of_mem List.mem_insert_self
