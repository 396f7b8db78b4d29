import Graphus.Cypher.Ordering

/-!
# Equality

The three-valued equality of the evaluator. Null makes the result unknown, a NaN makes it false, and
otherwise values of one class are compared: numbers by their exact values across both types,
temporal values by their components, points by the standard's equality on each coordinate, lists and
maps through their elements, to the depth limit, where the result is unknown.
-/

namespace Graphus

inductive Ternary where
  | true
  | false
  | null
  deriving DecidableEq

def Ternary.fromBool (b : Bool) : Ternary := if b then .true else .false

def isNull : Value → Bool
  | .null => true
  | _ => false

def isNan : Value → Bool
  | .float f => f.isNan
  | _ => false

/-- The elements one by one: false at once, unknown if any of them is. -/
def listEqualsFrom (eq : Value → Value → Ternary) : Ternary → List Value → List Value → Ternary
  | acc, x :: xs, y :: ys =>
    match eq x y with
    | .false => .false
    | .null => listEqualsFrom eq .null xs ys
    | .true => listEqualsFrom eq acc xs ys
  | acc, _, _ => acc

variable (eq : Value → Value → Ternary)

def listEquals (x y : List Value) : Ternary :=
  if x.length ≠ y.length then .false else listEqualsFrom eq .true x y

/-- The entries of the first map, each looked up in the second. -/
def mapEqualsFrom (eq : Value → Value → Ternary) (y : List (Text × Value)) :
    Ternary → List (Text × Value) → Ternary
  | acc, [] => acc
  | acc, (k, xv) :: x =>
    match y.find? fun e => e.1 == k with
    | none => .false
    | some (_, yv) =>
      match eq xv yv with
      | .false => .false
      | .null => mapEqualsFrom eq y .null x
      | .true => mapEqualsFrom eq y acc x

def mapEquals (x y : Fields) : Ternary :=
  if x.length ≠ y.length then .false else mapEqualsFrom eq y .true x

def deepEquals (a b : Value) : Ternary :=
  match a, b with
  | .boolean x, .boolean y => .fromBool (x == y)
  | .string x, .string y => .fromBool (x == y)
  | .bytes x, .bytes y => .fromBool (x == y)
  | .integer x, .integer y => .fromBool (x == y)
  | .integer x, .float y => .fromBool (cmpIntFloat x y == some .eq)
  | .float x, .integer y => .fromBool (cmpIntFloat y x == some .eq)
  | .float x, .float y => .fromBool (x.ieeeEq y)
  | .list x, .list y => listEquals eq x y
  | .map x, .map y => mapEquals eq x y
  | .date x, .date y => .fromBool (x == y)
  | .localTime x, .localTime y => .fromBool (x == y)
  | .zonedTime x, .zonedTime y => .fromBool (x == y)
  | .localDateTime x, .localDateTime y => .fromBool (x == y)
  | .zonedDateTime x, .zonedDateTime y => .fromBool (x == y)
  | .duration x, .duration y => .fromBool (x == y)
  | .point x, .point y => .fromBool (x.valueEq y)
  | _, _ => .false

/-- Equality with `left` levels left before the depth limit. -/
def equalsAt : Nat → Value → Value → Ternary
  | 0, a, b =>
    if isNull a || isNull b then .null
    else if isNan a || isNan b then .false
    else .null
  | left + 1, a, b =>
    if isNull a || isNull b then .null
    else if isNan a || isNan b then .false
    else deepEquals (equalsAt left) a b

def equals (a b : Value) : Ternary := equalsAt maxValueDepth a b

lemma fromBool_eq_true {b : Bool} : Ternary.fromBool b = .true ↔ b = true := by
  cases b <;> decide

variable {a b : Value}

/-- Values that are equal have one class. -/
lemma sameClass_of_deepEquals {eq : Value → Value → Ternary} (h : deepEquals eq a b = .true) :
    SameClass a b := by
  cases a <;> cases b <;> first | constructor | exact nomatch h

lemma equals_eq_deepEquals (ha : isNull a = false) (hb : isNull b = false) (ha' : isNan a = false)
    (hb' : isNan b = false) : equals a b = deepEquals (equalsAt (maxValueDepth - 1)) a b := by
  show equalsAt (999 + 1) a b = _
  rw [equalsAt, ha, hb, ha', hb']
  rfl

lemma classRank_eq_of_sameClass (h : SameClass a b) : classRank a = classRank b := by
  cases h <;> rfl

section

variable (h : equals a b = .true)

include h

/-- Equal values are no nulls and no NaNs, and equal at depth. -/
lemma deepEquals_of_equals : isNan a = false ∧ isNan b = false ∧
      deepEquals (equalsAt (maxValueDepth - 1)) a b = .true := by
  have h' : equalsAt (999 + 1) a b = .true := h
  rw [equalsAt] at h'
  split at h'
  · exact nomatch h'
  split at h'
  · exact nomatch h'
  · obtain ⟨ha, hb⟩ := Bool.or_eq_false_iff.1 (Bool.eq_false_iff.2 ‹_›)
    exact ⟨ha, hb, h'⟩

lemma sameClass_of_equals : SameClass a b :=
  sameClass_of_deepEquals (deepEquals_of_equals h).2.2

lemma classRank_eq_of_equals : classRank a = classRank b :=
  classRank_eq_of_sameClass (sameClass_of_equals h)

end

end Graphus
