import Graphus.Cypher.Ordering

/-!
# Order of row values, and of maps

A row carries property values and also nodes, relationships, paths, and lists and maps of them.
`cmp_row_values` puts all of these into one order: the ranks that property values leave free belong
to the entities, lists of either representation compare element by element, and a map that holds
entities compares as the property map it collapses to.

Two facts about the whole order are proved here. It is a total preorder, for property values
and for row values. And two maps with the same entries in another order compare alike only
if entries of one key do: a map keeps every entry it is built from, the sort by key is stable, and
so two entries of one key stay in the order they came in.

**Theorem (`cmpValues_totalPreorder`).** Both comparators are reflexive, swap with their
arguments and are transitive; and for the entries of a map, at any depth, the order of insertion
plays no role exactly if any two entries with the same key have values that compare equal one
level deeper.
-/

namespace Graphus

open List
open Ordering (eq_then then_eq then_eq_eq)
open List (compareLex compareLex_cons_cons)
open Std.ReflCmp (compare_self)

/-! ## Row values -/

structure PathStep where
  forward : Bool
  rel : Nat
  node : Nat

structure PathValue where
  start : Nat
  steps : List PathStep

inductive RowValue where
  | value (v : Value)
  | node (id : Nat)
  | rel (id : Nat)
  | path (p : PathValue)
  | list (items : List RowValue)
  | map (entries : List (Text × RowValue))

/-- The derived order of steps: field by field. -/
def PathStep.cmp : PathStep → PathStep → Ordering :=
  compareLex (compareOn PathStep.forward)
    (compareLex (compareOn PathStep.rel) (compareOn PathStep.node))

def PathValue.cmp (p q : PathValue) : Ordering :=
  (compare p.start q.start).then (compareLex PathStep.cmp p.steps q.steps)

@[simp] def rowValueRank : RowValue → Nat
  | .node _ => 1
  | .rel _ => 2
  | .path _ => 4
  | .list _ => classRank (.list [])
  | .map _ => classRank (.map [])
  | .value x => classRank x

@[simp] def isListKind : RowValue → Bool
  | .list _ | .value (.list _) => true
  | _ => false

def asListElems : RowValue → Option (List RowValue)
  | .list items => some items
  | .value (.list items) => some (items.map .value)
  | _ => none

mutual

/-- The property value a row value is compared as; entities become null. -/
def collapseForOrdering : RowValue → Value
  | .value x => x
  | .list items => .list (collapseItems items)
  | .map entries => .map (collapseEntries entries)
  | .node _ | .rel _ | .path _ => .null

def collapseItems : List RowValue → List Value
  | [] => []
  | x :: xs => collapseForOrdering x :: collapseItems xs

def collapseEntries : List (Text × RowValue) → List (Text × Value)
  | [] => []
  | (k, v) :: es => (k, collapseForOrdering v) :: collapseEntries es

end

/-- Two row values of one class, with the comparison of list elements. -/
def cmpRowSameClass (cmp : RowValue → RowValue → Ordering) (a b : RowValue) : Ordering :=
  if isListKind a && isListKind b then
    compareLex cmp ((asListElems a).getD []) ((asListElems b).getD [])
  else
    match a, b with
    | .value x, .value y => cmpValues x y
    | .node x, .node y => compare x y
    | .rel x, .rel y => compare x y
    | .path x, .path y => x.cmp y
    | a, b => cmpValues (collapseForOrdering a) (collapseForOrdering b)

/-- The comparison to a given depth of nested lists. -/
def cmpRowValuesAt : Nat → RowValue → RowValue → Ordering
  | 0, a, b => compare (rowValueRank a) (rowValueRank b)
  | depth + 1, a, b =>
    if rowValueRank a ≠ rowValueRank b then compare (rowValueRank a) (rowValueRank b)
    else cmpRowSameClass (cmpRowValuesAt depth) a b

mutual

def Value.listDepth : Value → Nat
  | .list items => Value.listsDepth items + 1
  | _ => 0

def Value.listsDepth : List Value → Nat
  | [] => 0
  | x :: xs => max x.listDepth (Value.listsDepth xs)

end

mutual

/-- How deep lists are nested in a row value. -/
def RowValue.listDepth : RowValue → Nat
  | .value v => v.listDepth
  | .list items => RowValue.listsDepth items + 1
  | _ => 0

def RowValue.listsDepth : List RowValue → Nat
  | [] => 0
  | x :: xs => max x.listDepth (RowValue.listsDepth xs)

end

/-- The comparator recurses through lists without a limit: to the depth of its first argument. -/
def cmpRowValues (a b : RowValue) : Ordering := cmpRowValuesAt (a.listDepth + 1) a b

/-! ## The depth is enough -/

lemma Value.listDepth_le {x : Value} {xs : List Value} (h : x ∈ xs) :
    x.listDepth ≤ Value.listsDepth xs := by
  induction h with
  | head => exact le_max_left _ _
  | tail _ _ ih => exact ih.trans (le_max_right _ _)

variable {x a : RowValue}

lemma RowValue.listDepth_le {xs : List RowValue} (h : x ∈ xs) :
    x.listDepth ≤ RowValue.listsDepth xs := by
  induction h with
  | head => exact le_max_left _ _
  | tail _ _ ih => exact ih.trans (le_max_right _ _)

/-- The elements of a list, of either representation. -/
def elems (a : RowValue) : List RowValue := (asListElems a).getD []

lemma listDepth_lt_of_mem_elems (h : x ∈ elems a) : x.listDepth < a.listDepth := by
  cases a with
  | list xs => exact Nat.lt_succ_of_le (RowValue.listDepth_le h)
  | value v =>
    cases v with
    | list xs =>
      obtain ⟨y, hy, rfl⟩ := mem_map.1 h
      exact Nat.lt_succ_of_le (Value.listDepth_le hy)
    | _ => exact absurd h not_mem_nil
  | _ => exact absurd h not_mem_nil

lemma compareLex_congr {α : Type*} {cmp cmp' : α → α → Ordering} :
    ∀ {xs : List α} (ys : List α), (∀ x ∈ xs, ∀ y, cmp x y = cmp' x y) →
      compareLex cmp xs ys = compareLex cmp' xs ys
  | [], [], _ => rfl
  | [], _ :: _, _ => rfl
  | _ :: _, [], _ => rfl
  | x :: xs, y :: ys, h => by
    rw [compareLex_cons_cons, compareLex_cons_cons, h x List.mem_cons_self,
      compareLex_congr ys fun z hz => h z (mem_cons_of_mem x hz)]

lemma cmpRowSameClass_congr {cmp cmp' : RowValue → RowValue → Ordering} (b : RowValue)
    (h : ∀ x ∈ elems a, ∀ y, cmp x y = cmp' x y) :
    cmpRowSameClass cmp a b = cmpRowSameClass cmp' a b := by
  unfold cmpRowSameClass
  split
  · exact compareLex_congr _ h
  · rfl

/-- Any depth above that of the first argument gives the same result. -/
lemma cmpRowValuesAt_eq : ∀ {n m : Nat} {a : RowValue} (b : RowValue), a.listDepth < n →
    a.listDepth < m → cmpRowValuesAt n a b = cmpRowValuesAt m a b
  | n + 1, m + 1, a, b, hn, hm => by
    rw [cmpRowValuesAt, cmpRowValuesAt, cmpRowSameClass_congr b]
    intro x hx y
    have hlt := listDepth_lt_of_mem_elems hx
    exact cmpRowValuesAt_eq y (by omega) (by omega)

lemma cmpRowValues_eq_at {n : Nat} (b : RowValue) (h : a.listDepth < n) :
    cmpRowValues a b = cmpRowValuesAt n a b :=
  cmpRowValuesAt_eq b (Nat.lt_succ_self _) h

/-! ## The total preorder of row values -/

/-- The id of an entity. -/
def entityId : RowValue → Nat
  | .node id | .rel id => id
  | _ => 0

def pathOf : RowValue → PathValue
  | .path p => p
  | _ => ⟨0, []⟩

/-- What is compared as a property value: everything but lists. -/
def propertyPart (a : RowValue) : Value := if isListKind a then .null else collapseForOrdering a

/-- What decides between two row values of one class, in the order in which it does. -/
def rowKeyCmp (cmp : RowValue → RowValue → Ordering) (a b : RowValue) : Ordering :=
  (compareLex cmp (elems a) (elems b)).then
    ((compare (entityId a) (entityId b)).then
      (((pathOf a).cmp (pathOf b)).then (cmpValues (propertyPart a) (propertyPart b))))

lemma rowValueRank_eq_three_iff : rowValueRank a = 3 ↔ isListKind a = true := by
  cases a with
  | value v => cases v <;> simp
  | _ => simp

instance : Std.TransCmp PathStep.cmp := by
  unfold PathStep.cmp
  infer_instance

instance : Std.TransCmp PathValue.cmp :=
  have := transCmp_on (compareLex PathStep.cmp) PathValue.steps
  inferInstanceAs (Std.TransCmp (compareLex (compareOn PathValue.start)
    fun p q => compareLex PathStep.cmp p.steps q.steps))

instance : Std.TransCmp cmpValues := transCmp_cmpValuesAt maxValueDepth

lemma classRank_ne_entity (v : Value) : classRank v ≠ 1 ∧ classRank v ≠ 2 ∧ classRank v ≠ 4 := by
  cases v <;> simp

lemma elems_of_not_isListKind (h : isListKind a = false) : elems a = [] := by
  cases a with
  | list => exact absurd h (by simp)
  | value v =>
    cases v with
    | list => exact absurd h (by simp)
    | _ => rfl
  | _ => rfl

section

variable {cmp : RowValue → RowValue → Ordering} {a b : RowValue}

lemma rowKeyCmp_of_isListKind (ha : isListKind a = true) (hb : isListKind b = true) :
    rowKeyCmp cmp a b = compareLex cmp (elems a) (elems b) := by
  have hid : ∀ {a : RowValue}, isListKind a = true → entityId a = 0 ∧ pathOf a = ⟨0, []⟩ := by
    intro a ha
    cases a <;> first | exact ⟨rfl, rfl⟩ | exact absurd ha (by simp)
  have hself : cmpValues .null .null = .eq := compare_self
  rw [rowKeyCmp, (hid ha).1, (hid hb).1, (hid ha).2, (hid hb).2, propertyPart, propertyPart,
    if_pos ha, if_pos hb, hself]
  exact then_eq

lemma eq_node_of_rank (h : rowValueRank a = 1) : ∃ x, a = .node x := by
  cases a with
  | node x => exact ⟨x, rfl⟩
  | value v => exact absurd h (classRank_ne_entity v).1
  | _ => exact absurd h (by simp)

lemma eq_rel_of_rank (h : rowValueRank a = 2) : ∃ x, a = .rel x := by
  cases a with
  | rel x => exact ⟨x, rfl⟩
  | value v => exact absurd h (classRank_ne_entity v).2.1
  | _ => exact absurd h (by simp)

lemma eq_path_of_rank (h : rowValueRank a = 4) : ∃ x, a = .path x := by
  cases a with
  | path x => exact ⟨x, rfl⟩
  | value v => exact absurd h (classRank_ne_entity v).2.2
  | _ => exact absurd h (by simp)

lemma cmpRowSameClass_eq (h : rowValueRank a = rowValueRank b) :
    cmpRowSameClass cmp a b = rowKeyCmp cmp a b := by
  have hkind : isListKind a = isListKind b := by
    rw [Bool.eq_iff_iff, ← rowValueRank_eq_three_iff, ← rowValueRank_eq_three_iff, h]
  cases hb : isListKind b with
  | true =>
    unfold cmpRowSameClass
    rw [rowKeyCmp_of_isListKind (hkind.trans hb) hb, hkind, hb]
    rfl
  | false =>
    have ha := hkind.trans hb
    have hself : cmpValues .null .null = .eq := compare_self
    have hif : (isListKind a && isListKind b) = false := by rw [ha, Bool.false_and]
    unfold cmpRowSameClass
    rw [hif, if_neg Bool.false_ne_true, rowKeyCmp, elems_of_not_isListKind ha,
      elems_of_not_isListKind hb, propertyPart, propertyPart, ha, hb]
    cases a with
    | node x =>
      obtain ⟨y, rfl⟩ := eq_node_of_rank h.symm
      show compare x y = (compare x y).then (cmpValues .null .null)
      rw [hself, then_eq]
    | rel x =>
      obtain ⟨y, rfl⟩ := eq_rel_of_rank h.symm
      show compare x y = (compare x y).then (cmpValues .null .null)
      rw [hself, then_eq]
    | path x =>
      obtain ⟨y, rfl⟩ := eq_path_of_rank h.symm
      show x.cmp y = (x.cmp y).then (cmpValues .null .null)
      rw [hself, then_eq]
    | list => exact absurd ha (by simp)
    | value | map =>
      cases b with
      | node => exact nomatch eq_node_of_rank h
      | rel => exact nomatch eq_rel_of_rank h
      | path => exact nomatch eq_path_of_rank h
      | list => exact absurd hb (by simp)
      | value | map => rfl

lemma cmpRowValuesAt_succ (depth : Nat) (a b : RowValue) : cmpRowValuesAt (depth + 1) a b =
      (compare (rowValueRank a) (rowValueRank b)).then (rowKeyCmp (cmpRowValuesAt depth) a b) := by
  rw [cmpRowValuesAt]
  by_cases h : rowValueRank a = rowValueRank b
  · rw [if_neg (not_not.2 h), compare_eq_iff_eq.2 h, eq_then, cmpRowSameClass_eq h]
  · rw [if_pos h, then_of_ne h]

end

lemma transCmp_rowKeyCmp (cmp : RowValue → RowValue → Ordering) [Std.TransCmp cmp] :
    Std.TransCmp (rowKeyCmp cmp) :=
  have := transCmp_on (compareLex cmp) elems
  have := transCmp_on PathValue.cmp pathOf
  have := transCmp_on cmpValues propertyPart
  inferInstanceAs (Std.TransCmp (compareLex (fun a b => compareLex cmp (elems a) (elems b))
    (compareLex (compareOn entityId) (compareLex (fun a b => (pathOf a).cmp (pathOf b))
      fun a b => cmpValues (propertyPart a) (propertyPart b)))))

lemma transCmp_cmpRowValuesAt : ∀ depth, Std.TransCmp (cmpRowValuesAt depth)
  | 0 => inferInstanceAs (Std.TransCmp (compareOn rowValueRank))
  | depth + 1 => by
    have := transCmp_cmpRowValuesAt depth
    have := transCmp_rowKeyCmp (cmpRowValuesAt depth)
    rw [show cmpRowValuesAt (depth + 1) = compareLex (compareOn rowValueRank)
      (rowKeyCmp (cmpRowValuesAt depth)) from funext₂ (cmpRowValuesAt_succ depth)]
    infer_instance

/-- Some depth serves any three row values at once. -/
lemma transCmp_cmpRowValues : Std.TransCmp cmpRowValues where
  eq_swap := @fun a b => by
    have := transCmp_cmpRowValuesAt (max a.listDepth b.listDepth + 1)
    rw [cmpRowValues_eq_at b (Nat.lt_succ_of_le (le_max_left a.listDepth b.listDepth)),
      cmpRowValues_eq_at a (Nat.lt_succ_of_le (le_max_right a.listDepth b.listDepth))]
    exact Std.OrientedCmp.eq_swap
  isLE_trans := @fun a b c hab hbc => by
    have := transCmp_cmpRowValuesAt (max a.listDepth b.listDepth + 1)
    have ha := Nat.lt_succ_of_le (le_max_left a.listDepth b.listDepth)
    rw [cmpRowValues_eq_at b ha] at hab
    rw [cmpRowValues_eq_at c (Nat.lt_succ_of_le (le_max_right a.listDepth b.listDepth))] at hbc
    rw [cmpRowValues_eq_at c ha]
    exact Std.TransCmp.isLE_trans hab hbc

/-! ## The order of entries -/

section Entries

variable {cmp : Value → Value → Ordering} {left : Nat} {es es' : Fields}

/-- Entries with the same key have values that compare equal. -/
def KeysAgree (cmp : Value → Value → Ordering) (es : Fields) : Prop :=
  ∀ e ∈ es, ∀ e' ∈ es, e.1 = e'.1 → cmp e.2 e'.2 = .eq

/-- No comparison with the map depends on the order of its entries. -/
def InsertionOrderFree (cmp : Value → Value → Ordering) (es : Fields) : Prop :=
  ∀ es', es.Perm es' → ∀ b, cmp (.map es) b = cmp (.map es') b ∧ cmp b (.map es) = cmp b (.map es')

lemma keys_sortEntries (h : es.Perm es') :
    (sortEntries es).map Prod.fst = (sortEntries es').map Prod.fst := by
  have htotal : Std.Total KeyLE := by
    refine ⟨fun x y => ?_⟩
    rw [KeyLE, KeyLE, @Std.OrientedOrd.eq_swap _ _ _ y.1 x.1]
    cases compare x.1 y.1 <;> simp
  have htrans : IsTrans (Text × Value) KeyLE := ⟨fun _ _ _ => Std.TransOrd.isLE_trans⟩
  have hsorted : ∀ es, ((sortEntries es).map Prod.fst).Pairwise fun k k' => (compare k k').isLE :=
    fun es => pairwise_map.2 (pairwise_insertionSort _ es)
  have hperm : (sortEntries es).Perm (sortEntries es') :=
    ((perm_insertionSort _ es).trans h).trans (perm_insertionSort _ es').symm
  refine List.Perm.eq_of_pairwise ?_ (hsorted es) (hsorted es') (hperm.map Prod.fst)
  intro k k' _ _ hle hle'
  exact Std.LawfulEqOrd.eq_of_compare (Std.OrientedCmp.isLE_antisymm hle hle')

/-- Entries with the same keys in the same order, and values that agree. -/
lemma compareLex_cmpEntry_eq : ∀ {xs ys : Fields}, xs.map Prod.fst = ys.map Prod.fst →
    (∀ e ∈ xs, ∀ e' ∈ ys, e.1 = e'.1 → cmp e.2 e'.2 = .eq) →
    compareLex (cmpEntry cmp) xs ys = .eq
  | [], [], _, _ => rfl
  | x :: xs, y :: ys, hkeys, hagree => by
    obtain ⟨hkey, hrest⟩ := cons.inj hkeys
    have hval := hagree x mem_cons_self y mem_cons_self hkey
    rw [compareLex_cons_cons, cmpEntry, hkey, Std.ReflOrd.compare_self, hval, eq_then, eq_then]
    exact compareLex_cmpEntry_eq hrest fun e he e' he' =>
      hagree e (mem_cons_of_mem x he) e' (mem_cons_of_mem y he')

lemma cmpMaps_eq_of_perm (h : KeysAgree cmp es) (hperm : es.Perm es') :
    cmpMaps cmp es es' = .eq := by
  refine compareLex_cmpEntry_eq (keys_sortEntries hperm) fun e he e' he' => h e ?_ e' ?_
  · exact (perm_insertionSort _ es).mem_iff.1 he
  · exact hperm.mem_iff.2 ((perm_insertionSort _ es').mem_iff.1 he')

lemma exists_perm_cons_cons {α : Type*} {a b : α} {l : List α} (ha : a ∈ l) (hb : b ∈ l)
    (h : a ≠ b) : ∃ rest, l.Perm (a :: b :: rest) := by
  obtain ⟨l1, l2, rfl⟩ := append_of_mem ha
  have hperm : (l1 ++ a :: l2).Perm (a :: (l1 ++ l2)) := perm_middle
  have hb' : b ∈ l1 ++ l2 := (mem_cons.1 (hperm.mem_iff.1 hb)).resolve_left h.symm
  obtain ⟨m1, m2, hm⟩ := append_of_mem hb'
  rw [hm] at hperm
  exact ⟨m1 ++ m2, hperm.trans (List.Perm.cons a perm_middle)⟩

variable {e e' : Text × Value}

/-- Two entries of one key are placed side by side, in the order they came in. -/
lemma sortEntries_cons_cons (h : e.1 = e'.1) (rest : Fields) :
    ∃ pre post, sortEntries (e :: e' :: rest) = pre ++ e :: e' :: post ∧
      sortEntries (e' :: e :: rest) = pre ++ e' :: e :: post := by
  simp only [sortEntries, insertionSort_cons]
  generalize rest.insertionSort KeyLE = sorted
  have hkey : ∀ s, KeyLE e s ↔ KeyLE e' s := fun s => by rw [KeyLE, h]
  have hself : ∀ e : Text × Value, KeyLE e e :=
    fun e => by rw [KeyLE, Std.ReflOrd.compare_self]; rfl
  have hle : KeyLE e e' := (hkey e').2 (hself e')
  have hle' : KeyLE e' e := (hkey e).1 (hself e)
  induction sorted with
  | nil =>
    refine ⟨[], [], ?_, ?_⟩
    · rw [orderedInsert_nil, orderedInsert_cons, if_pos hle, nil_append]
    · rw [orderedInsert_nil, orderedInsert_cons, if_pos hle', nil_append]
  | cons s sorted ih =>
    obtain ⟨pre, post, hee', he'e⟩ := ih
    by_cases hs : KeyLE e' s
    · refine ⟨[], s :: sorted, ?_, ?_⟩
      · rw [orderedInsert_cons, if_pos hs, orderedInsert_cons, if_pos hle, nil_append]
      · rw [orderedInsert_cons, if_pos ((hkey s).2 hs), orderedInsert_cons, if_pos hle', nil_append]
    · have hs' : ¬ KeyLE e s := fun hes => hs ((hkey s).1 hes)
      refine ⟨s :: pre, post, ?_, ?_⟩
      · rw [orderedInsert_cons, if_neg hs, orderedInsert_cons, if_neg hs', hee', cons_append]
      · rw [orderedInsert_cons, if_neg hs', orderedInsert_cons, if_neg hs, he'e, cons_append]

lemma compareLex_append [Std.ReflCmp cmp] : ∀ (pre : Fields) {xs ys},
    compareLex (cmpEntry cmp) (pre ++ xs) (pre ++ ys) = compareLex (cmpEntry cmp) xs ys
  | [], _, _ => rfl
  | e :: pre, xs, ys => by
    have hval : cmp e.2 e.2 = .eq := compare_self
    have hself : cmpEntry cmp e e = .eq := by
      rw [cmpEntry, Std.ReflOrd.compare_self, hval, eq_then]
    rw [List.cons_append, List.cons_append, compareLex_cons_cons, hself, eq_then,
      compareLex_append pre]

lemma cmp_eq_of_cmpMaps_swap [Std.ReflCmp cmp] (h : e.1 = e'.1)
    (rest : Fields) (hcmp : cmpMaps cmp (e :: e' :: rest) (e' :: e :: rest) = .eq) :
    cmp e.2 e'.2 = .eq := by
  obtain ⟨pre, post, hee', he'e⟩ := sortEntries_cons_cons h rest
  rw [cmpMaps, hee', he'e, compareLex_append, compareLex_cons_cons, then_eq_eq,
    cmpEntry, then_eq_eq] at hcmp
  exact hcmp.1.2

/-- In a comparison of maps, the order of the entries of one plays no role exactly if entries of one
key agree. -/
lemma orderFree_iff {α β : Type} {f : α → Text × Value} {mk : List α → β} {outer : β → β → Ordering}
    [Std.TransCmp outer] [Std.ReflCmp cmp]
    (hmk : ∀ xs ys, outer (mk xs) (mk ys) = cmpMaps cmp (xs.map f) (ys.map f)) (xs : List α) :
    (∀ ys, xs.Perm ys → ∀ b, outer (mk xs) b = outer (mk ys) b ∧
      outer b (mk xs) = outer b (mk ys)) ↔ KeysAgree cmp (xs.map f) := by
  constructor
  · intro hfree x hx x' hx' hkey
    obtain ⟨e, he, rfl⟩ := mem_map.1 hx
    obtain ⟨e', he', rfl⟩ := mem_map.1 hx'
    by_cases hsame : e = e'
    · rw [hsame]
      exact compare_self
    -- Put the two entries in front, in both orders.
    obtain ⟨rest, hperm⟩ := exists_perm_cons_cons he he' hsame
    have hswap := hperm.trans (List.Perm.swap e' e rest)
    have hleft := (hfree _ hperm (mk (e' :: e :: rest))).1
    have hright := (hfree _ hswap (mk (e' :: e :: rest))).1
    refine cmp_eq_of_cmpMaps_swap hkey (rest.map f)
      ((hmk (e :: e' :: rest) (e' :: e :: rest)).symm.trans ?_)
    rw [← hleft, hright]
    exact compare_self
  · intro hagree ys hperm b
    have heq : outer (mk xs) (mk ys) = .eq :=
      (hmk xs ys).trans (cmpMaps_eq_of_perm hagree (hperm.map f))
    exact ⟨Std.TransCmp.congr_left heq, Std.TransCmp.congr_right heq⟩

/-- At any depth, the order of the entries plays no role exactly if entries of one key agree one
level deeper. -/
lemma insertionOrderFree_iff :
    InsertionOrderFree (cmpValuesAt (left + 1)) es ↔ KeysAgree (cmpValuesAt left) es := by
  have htrans := transCmp_cmpValuesAt left
  have htrans' := transCmp_cmpValuesAt (left + 1)
  have hiff : InsertionOrderFree (cmpValuesAt (left + 1)) es ↔ KeysAgree (cmpValuesAt left)
    (es.map id) :=
    orderFree_iff (fun xs ys => by rw [map_id, map_id]; rfl) es
  rwa [map_id] at hiff

end Entries

/-! ### Maps of row values -/

lemma collapseEntries_eq_map : ∀ es : List (Text × RowValue),
    collapseEntries es = es.map fun e => (e.1, collapseForOrdering e.2)
  | [] => rfl
  | (k, v) :: es => by rw [collapseEntries, map_cons, collapseEntries_eq_map es]

/-- No comparison with the map of row values depends on the order of its entries. -/
def RowInsertionOrderFree (es : List (Text × RowValue)) : Prop :=
  ∀ es', es.Perm es' → ∀ b, cmpRowValues (.map es) b = cmpRowValues (.map es') b ∧
    cmpRowValues b (.map es) = cmpRowValues b (.map es')

lemma rowInsertionOrderFree_iff {es : List (Text × RowValue)} : RowInsertionOrderFree es ↔
      KeysAgree (cmpValuesAt (maxValueDepth - 1)) (collapseEntries es) := by
  have htrans := transCmp_cmpValuesAt (maxValueDepth - 1)
  have htrans' := transCmp_cmpRowValues
  rw [collapseEntries_eq_map]
  exact orderFree_iff
    (fun xs ys => by rw [← collapseEntries_eq_map, ← collapseEntries_eq_map]; rfl) es

/-! ## The result -/

/-- Reflexive, reversed when its arguments are swapped, and transitive. -/
structure IsTotalPreorder {α : Type*} (cmp : α → α → Ordering) : Prop where
  refl : ∀ a, cmp a a = .eq
  swap : ∀ a b, cmp b a = (cmp a b).swap
  trans : ∀ a b c, (cmp a b).isLE = true → (cmp b c).isLE = true → (cmp a c).isLE = true

lemma isTotalPreorder_of_transCmp {α : Type*} {cmp : α → α → Ordering} (h : Std.TransCmp cmp) :
    IsTotalPreorder cmp where
  refl _ := compare_self
  swap _ _ := Std.OrientedCmp.eq_swap
  trans _ _ _ := Std.TransCmp.isLE_trans

theorem cmpValues_totalPreorder (left : Nat) (es : List (Text × Value))
    (rowEntries : List (Text × RowValue)) :
    IsTotalPreorder cmpValues ∧ IsTotalPreorder cmpRowValues ∧
    (InsertionOrderFree (cmpValuesAt (left + 1)) es ↔ KeysAgree (cmpValuesAt left) es) ∧
    (RowInsertionOrderFree rowEntries ↔ KeysAgree (cmpValuesAt (maxValueDepth - 1))
      (collapseEntries rowEntries)) :=
  ⟨isTotalPreorder_of_transCmp (transCmp_cmpValuesAt maxValueDepth),
    isTotalPreorder_of_transCmp transCmp_cmpRowValues, insertionOrderFree_iff,
    rowInsertionOrderFree_iff⟩

/-- The entries `a: 1` and `a: 2` of one map, in both orders: the maps do not compare equal. -/
theorem cmpValues_duplicate_key :
    [([97], Value.integer 1), ([97], .integer 2)].Perm [([97], .integer 2), ([97], .integer 1)] ∧
    cmpValues (.map [([97], .integer 1), ([97], .integer 2)])
    (.map [([97], .integer 2), ([97], .integer 1)]) = .lt ∧
    cmpValues (.map [([97], .integer 2), ([97], .integer 1)])
    (.map [([97], .integer 2), ([97], .integer 1)]) = .eq :=
  ⟨List.Perm.swap _ _ _, by decide +kernel, by decide +kernel⟩

end Graphus
