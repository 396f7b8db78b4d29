import Mathlib.Order.Compare

/-!
# Ordered maps

A map as its entries in strictly ascending order of their keys, with the order as part of the type.
Besides insertion and removal it is scanned: a scan visits the entries with keys in a range, in
order. `mem_insertEntry` and `mem_scan` say which entries an operation leaves or visits.
-/

/-- Entries in strictly ascending order of their keys. -/
structure OrderedMap (K V : Type) [Ord K] where
  entries : List (K × V)
  sorted : entries.Pairwise fun x y => compare x.1 y.1 = .lt

namespace OrderedMap

open List

variable {K V : Type} [Ord K]

def empty : OrderedMap K V := ⟨[], List.Pairwise.nil⟩

/-- Insert an entry, in place of one with the same key. -/
def insertEntry (k : K) (v : V) : List (K × V) → List (K × V)
  | [] => [(k, v)]
  | e :: es =>
    match compare k e.1 with
    | .lt => (k, v) :: e :: es
    | .eq => (k, v) :: es
    | .gt => e :: insertEntry k v es

/-- Is the key at or above `lo` and below `hi`, where these are given? -/
def inRange (lo : K) (hi : Option K) (k : K) : Bool :=
  (compare lo k).isLE && hi.all fun hi => compare k hi == .lt

variable (m : OrderedMap K V)

/-- The entries with keys in the range. -/
def scan (lo : K) (hi : Option K) : List (K × V) :=
  m.entries.filter fun e => inRange lo hi e.1

def contains (k : K) : Bool := m.entries.any fun e => compare k e.1 == .eq

def erase (k : K) : OrderedMap K V where
  entries := m.entries.filter fun e => compare k e.1 != .eq
  sorted := m.sorted.filter _

lemma mem_scan {m : OrderedMap K V} {lo : K} {hi : Option K} {e : K × V} :
    e ∈ m.scan lo hi ↔ e ∈ m.entries ∧ (compare lo e.1).isLE = true ∧
    ∀ k ∈ hi, compare e.1 k = .lt := by
  rw [scan, mem_filter, inRange]
  cases hi <;> simp

variable [Std.TransOrd K] [Std.LawfulEqOrd K] {k : K} {v : V}

lemma mem_insertEntry {es : List (K × V)} (h : es.Pairwise fun x y => compare x.1 y.1 = .lt)
    (e : K × V) : e ∈ insertEntry k v es ↔ e = (k, v) ∨ (e ∈ es ∧ e.1 ≠ k) := by
  induction es with
  | nil => simp [insertEntry]
  | cons x es ih =>
    obtain ⟨hx, hes⟩ := pairwise_cons.1 h
    have hne : ∀ {a b : K}, compare a b = .lt → b ≠ a := fun hlt hba => by
      rw [hba, Std.ReflOrd.compare_self] at hlt
      exact nomatch hlt
    unfold insertEntry
    split
    case h_1 hk =>
      -- Every entry is above the new key.
      have hall : ∀ y ∈ x :: es, y.1 ≠ k := by
        intro y hy
        rcases mem_cons.1 hy with rfl | hy
        · exact hne hk
        · exact hne (Std.TransCmp.lt_trans hk (hx y hy))
      exact ⟨fun he => (mem_cons.1 he).imp_right fun he => ⟨he, hall e he⟩,
        fun he => mem_cons.2 (he.imp_right And.left)⟩
    case h_2 hk =>
      have hkx : k = x.1 := Std.LawfulEqOrd.eq_of_compare hk
      have hall : ∀ y ∈ es, y.1 ≠ k := fun y hy => hkx ▸ hne (hx y hy)
      constructor
      · intro he
        exact (mem_cons.1 he).imp_right fun he => ⟨mem_cons_of_mem x he, hall e he⟩
      rintro (he | ⟨he, hk'⟩)
      · exact mem_cons.2 (.inl he)
      · rcases mem_cons.1 he with rfl | he
        · exact absurd hkx.symm hk'
        · exact mem_cons_of_mem _ he
    case h_3 hk =>
      have hxk : x.1 ≠ k := fun hxk => by
        rw [hxk, Std.ReflOrd.compare_self] at hk
        exact nomatch hk
      rw [mem_cons, ih hes, mem_cons]
      constructor
      · rintro (rfl | he | ⟨he, hk'⟩)
        · exact .inr ⟨.inl rfl, hxk⟩
        · exact .inl he
        · exact .inr ⟨.inr he, hk'⟩
      · rintro (he | ⟨rfl | he, hk'⟩)
        · exact .inr (.inl he)
        · exact .inl rfl
        · exact .inr (.inr ⟨he, hk'⟩)

lemma pairwise_insertEntry {es : List (K × V)} (h : es.Pairwise fun x y => compare x.1 y.1 = .lt) :
    (insertEntry k v es).Pairwise fun x y => compare x.1 y.1 = .lt := by
  induction es with
  | nil => exact pairwise_singleton _ _
  | cons x es ih =>
    obtain ⟨hx, hes⟩ := pairwise_cons.1 h
    unfold insertEntry
    split
    case h_1 hk =>
      refine pairwise_cons.2 ⟨fun y hy => ?_, h⟩
      rcases mem_cons.1 hy with rfl | hy
      · exact hk
      · exact Std.TransCmp.lt_trans hk (hx y hy)
    case h_2 hk =>
      refine pairwise_cons.2 ⟨fun y hy => ?_, hes⟩
      rw [Std.LawfulEqOrd.eq_of_compare hk]
      exact hx y hy
    case h_3 hk =>
      refine pairwise_cons.2 ⟨fun y hy => ?_, ih hes⟩
      rcases (mem_insertEntry hes y).1 hy with rfl | ⟨hy, -⟩
      · exact Std.OrientedCmp.lt_of_gt hk
      · exact hx y hy

def insert (k : K) (v : V) : OrderedMap K V :=
  ⟨insertEntry k v m.entries, pairwise_insertEntry m.sorted⟩

end OrderedMap
