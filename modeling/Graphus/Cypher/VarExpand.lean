import Graphus.Lib.Trail
import Mathlib.Data.Finset.Card

/-!
# Variable-length expansion

`var_expand_into_pending` walks depth first from an anchor over the trails of a graph and emits a
row for each end node whose hop count lies in the bounds. The walk keeps its own stack of frames.
The pruning walk emits a node once and declines to explore a node again unless it arrives shallower
than before.

**The machine** (`step`). One step is one turn of the loop over the stack, or one turn of the inner
loop over the incidents of the frame on top. The incidents of a frame are those its cursor has not
passed. The relationships of the wanted types are the graph, and the row budget, the cancellation
check and errors of the two predicates are left out.

**The recursion** (`Runs`). What a frame does from its first visit until it is dropped, as a
relation between the results before and after. `steps_visit` says that the machine finishes every
frame and does what `Runs` says, so facts about the walk are inductions on `Runs`.

**Theorem (`plain_emits`).** Without pruning, every trail end within the bounds is emitted.
-/

namespace Graphus

open List

variable {Node Rel : Type}

inductive ExpandDirection where
  | outgoing
  | incoming
  | both

structure Incident (Node Rel : Type) where
  rel : Rel
  neighbour : Node

/-- A finite directed multigraph. -/
structure Multigraph (Node Rel : Type) where
  rels : Finset Rel
  startNode : Rel → Node
  endNode : Rel → Node

/-- The incidents `expand` reports at `v`. -/
def Multigraph.Reports (g : Multigraph Node Rel) (dir : ExpandDirection) (v : Node)
    (i : Incident Node Rel) : Prop :=
  i.rel ∈ g.rels ∧ match dir with
    | .outgoing => g.startNode i.rel = v ∧ g.endNode i.rel = i.neighbour
    | .incoming => g.endNode i.rel = v ∧ g.startNode i.rel = i.neighbour
    | .both => (g.startNode i.rel = v ∧ g.endNode i.rel = i.neighbour) ∨
        (g.endNode i.rel = v ∧ g.startNode i.rel = i.neighbour)

/-- The arguments of a call. `atTarget` is the test of expand-into, `satisfies` the predicate on the
far end. -/
structure VarExpand (Node Rel : Type) where
  expand : Node → List (Incident Node Rel)
  forbidden : Rel → Bool
  relSatisfiesProps : Rel → Bool
  atTarget : Node → Bool
  endNodeSatisfies : Node → Bool
  minHops : Option Nat
  maxHops : Option Nat
  pruning : Bool

structure VarExpandFrame (Node Rel : Type) where
  depth : Nat
  current : Node
  incidents : Option (List (Incident Node Rel))
  seenRel : List Rel
  pushed : Bool

def VarExpandFrame.enter (depth : Nat) (current : Node) : VarExpandFrame Node Rel :=
  ⟨depth, current, none, [], false⟩

/-- What the walk has found: its rows, and the two memos of the pruning walk. -/
structure Found (Node Rel : Type) where
  decided : List Node
  expandedAt : Node → Option Nat
  pending : List (Node × Option (List Rel))

structure ExpandWalk (Node Rel : Type) where
  stack : List (VarExpandFrame Node Rel)
  trail : List Rel
  found : Found Node Rel

def Found.ends (f : Found Node Rel) : List Node := f.pending.map Prod.fst

namespace VarExpand

variable (c : VarExpand Node Rel)

def lower : Nat := c.minHops.getD 1

/-- The maximum length is reached. -/
def leaf (depth : Nat) : Bool := c.maxHops.any (· ≤ depth)

section Machine

variable [DecidableEq Node] [DecidableEq Rel]

/-- A pruning walk decides each end node once. -/
def emits (depth : Nat) (current : Node) (f : Found Node Rel) : Bool :=
  (!c.pruning || current ∉ f.decided) && c.lower ≤ depth && c.atTarget current

def emit (depth : Nat) (current : Node) (trail : List Rel) (f : Found Node Rel) : Found Node Rel :=
  if c.emits depth current f then
    { f with
      decided := if c.pruning then current :: f.decided else f.decided
      pending := if c.endNodeSatisfies current then
          f.pending ++ [(current, if c.pruning then none else some trail)] else f.pending }
  else f

/-- The memo already holds the node at this depth or shallower. -/
def explored (depth : Nat) (current : Node) (f : Found Node Rel) : Bool :=
  c.pruning && (f.expandedAt current).any (· ≤ depth)

def noteExpanded (depth : Nat) (current : Node) (f : Found Node Rel) : Found Node Rel :=
  if c.pruning then { f with expandedAt := Function.update f.expandedAt current (some depth) }
  else f

/-- The incident is not admissible. -/
def skips (seenRel trail : List Rel) (i : Incident Node Rel) : Bool :=
  i.rel ∈ seenRel || i.rel ∈ trail || c.forbidden i.rel || !c.relSatisfiesProps i.rel

def step (s : ExpandWalk Node Rel) : ExpandWalk Node Rel :=
  match s.stack with
  | [] => s
  | frame :: stack =>
    match frame.incidents with
    | none =>
      let found := c.emit frame.depth frame.current s.trail s.found
      if c.leaf frame.depth || c.explored frame.depth frame.current found then
        { s with stack, found }
      else
        { s with
          stack := { frame with incidents := some (c.expand frame.current) } :: stack
          found := c.noteExpanded frame.depth frame.current found }
    | some incidents =>
      -- Undo the trail push made when this frame last descended into a child.
      if frame.pushed then
        { s with trail := s.trail.dropLast, stack := { frame with pushed := false } :: stack }
      else match incidents with
        | [] => { s with stack }
        | i :: rest =>
          let next := { frame with incidents := some rest, seenRel := i.rel :: frame.seenRel }
          if c.skips frame.seenRel s.trail i then { s with stack := next :: stack }
          else { s with
            trail := s.trail ++ [i.rel]
            stack := .enter (frame.depth + 1) i.neighbour :: { next with pushed := true } :: stack }

def start (anchor : Node) : ExpandWalk Node Rel := ⟨[.enter 0 anchor], [], ⟨[], fun _ => none, []⟩⟩

/-- The walk from `anchor` finishes with these rows. -/
def Yields (anchor : Node) (rows : List (Node × Option (List Rel))) : Prop :=
  ∃ n f, c.step^[n] (start anchor) = ⟨[], [], f⟩ ∧ f.pending = rows

end Machine

/-! ## The walk as a recursion -/

def Hop (u : Node) (r : Rel) (v : Node) : Prop :=
  ⟨r, v⟩ ∈ c.expand u ∧ c.forbidden r = false ∧ c.relSatisfiesProps r = true

/-- What the proofs use of a graph: a relationship has two ends, leads to one node from each, and is
travelled either both ways or from one end only. -/
structure Incidence (rels : Finset Rel) : Prop where
  finite : ∀ {u r v}, ⟨r, v⟩ ∈ c.expand u → r ∈ rels
  ends : ∀ {u r v u' v'}, ⟨r, v⟩ ∈ c.expand u → ⟨r, v'⟩ ∈ c.expand u' → v' = v ∨ v' = u
  unique : ∀ {u r v v'}, ⟨r, v⟩ ∈ c.expand u → ⟨r, v'⟩ ∈ c.expand u → v = v'
  oriented : (∀ {u r v}, ⟨r, v⟩ ∈ c.expand u → ⟨r, u⟩ ∈ c.expand v) ∨
    ∀ {u r v u' v'}, ⟨r, v⟩ ∈ c.expand u → ⟨r, v'⟩ ∈ c.expand u' → u = u'

variable {c}

lemma Incidence.of_reports {g : Multigraph Node Rel} {dir : ExpandDirection}
    (h : ∀ v i, i ∈ c.expand v ↔ g.Reports dir v i) : c.Incidence g.rels := by
  refine ⟨fun hi => ((h _ _).1 hi).1, fun hi hj => ?_, fun hi hj => ?_, ?_⟩
  · have hi := ((h _ _).1 hi).2
    have hj := ((h _ _).1 hj).2
    cases dir <;> grind
  · have hi := ((h _ _).1 hi).2
    have hj := ((h _ _).1 hj).2
    cases dir <;> grind
  · cases dir with
    | both => exact .inl fun hi =>
        (h _ _).2 ⟨((h _ _).1 hi).1, ((h _ _).1 hi).2.symm.imp And.symm And.symm⟩
    | outgoing | incoming =>
        exact .inr fun hi hj => ((h _ _).1 hi).2.1.symm.trans ((h _ _).1 hj).2.1

variable {t : List Rel}

lemma trail_unique {rels : Finset Rel} (hI : c.Incidence rels) {a u v : Node}
    (h : Trail c.Hop a t u) (h' : Trail c.Hop a t v) : u = v :=
  h.unique (fun _ _ _ _ h h' => hI.unique h.1 h'.1) h'

lemma trail_length_le {rels : Finset Rel} (hI : c.Incidence rels) {a v : Node}
    (h : Trail c.Hop a t v) : t.length ≤ rels.card := by
  classical
  have hsub : ∀ r ∈ t, r ∈ rels := by
    induction h with
    | nil => simp
    | snoc _ hop _ ih =>
      intro r hr
      rcases mem_append.1 hr with hr | hr
      · exact ih r hr
      · exact mem_singleton.1 hr ▸ hI.finite hop.1
  rw [← toFinset_card_of_nodup h.nodup]
  exact Finset.card_le_card fun r hr => hsub r (mem_toFinset.1 hr)

/-- The bounds and the tests of an end node. -/
def Wanted (c : VarExpand Node Rel) (t : List Rel) (v : Node) : Prop :=
  c.lower ≤ t.length ∧ (∀ m ∈ c.maxHops, t.length ≤ m) ∧ c.atTarget v = true ∧
    c.endNodeSatisfies v = true

lemma leaf_eq_false_iff {d : Nat} : c.leaf d = false ↔ ∀ m ∈ c.maxHops, d < m := by
  cases h : c.maxHops <;> simp [leaf, h]

/-- A frame's first visit, or the rest of its incidents. -/
inductive Task (Node Rel : Type) where
  | visit (trail : List Rel) (current : Node)
  | tries (trail : List Rel) (current : Node) (incidents : List (Incident Node Rel))
      (seenRel : List Rel)

variable {T : Task Node Rel} {f f' : Found Node Rel}

section

variable [DecidableEq Node]

@[simp] lemma noteExpanded_ends (d : Nat) (v : Node) : (c.noteExpanded d v f).ends = f.ends := by
  unfold noteExpanded
  split <;> rfl

@[simp] lemma noteExpanded_decided (d : Nat) (v : Node) :
    (c.noteExpanded d v f).decided = f.decided := by
  unfold noteExpanded
  split <;> rfl

lemma emit_ends (d : Nat) (v : Node) (t : List Rel) : (c.emit d v t f).ends =
    if c.emits d v f && c.endNodeSatisfies v then f.ends ++ [v] else f.ends := by
  unfold emit Found.ends
  cases c.emits d v f <;> cases c.endNodeSatisfies v <;> simp

lemma mem_ends_emit {d : Nat} {v u : Node} {t : List Rel} : u ∈ (c.emit d v t f).ends ↔
    u ∈ f.ends ∨ u = v ∧ c.emits d v f = true ∧ c.endNodeSatisfies v = true := by
  rw [emit_ends]
  split <;> simp_all

end

section

variable [DecidableEq Rel]

variable {i : Incident Node Rel}

lemma hop_of_skips_eq_false {seen t : List Rel} {v : Node}
    (h : c.skips seen t i = false) (hi : i ∈ c.expand v) :
    c.Hop v i.rel i.neighbour ∧ i.rel ∉ t := by
  simp only [skips, Bool.or_eq_false_iff, decide_eq_false_iff_not, Bool.not_eq_false'] at h
  exact ⟨⟨hi, h.1.2, h.2⟩, h.1.1.2⟩

/-- Why a hop may be skipped. -/
lemma mem_of_skips {seen t : List Rel} {v u : Node}
    (h : c.skips seen t i = true) (hop : c.Hop v i.rel u) : i.rel ∈ seen ∨ i.rel ∈ t := by
  simpa [skips, hop.2.1, hop.2.2] using h

end

variable [DecidableEq Node] [DecidableEq Rel]

inductive Runs (c : VarExpand Node Rel) : Task Node Rel → Found Node Rel → Found Node Rel → Prop
  | stop {t v f} :
      (c.leaf t.length || c.explored t.length v (c.emit t.length v t f)) = true →
      Runs c (.visit t v) f (c.emit t.length v t f)
  | enter {t v f f'} :
      (c.leaf t.length || c.explored t.length v (c.emit t.length v t f)) = false →
      Runs c (.tries t v (c.expand v) []) (c.noteExpanded t.length v (c.emit t.length v t f)) f' →
      Runs c (.visit t v) f f'
  | done {t v seen f} : Runs c (.tries t v [] seen) f f
  | skip {t v i rest seen f f'} : c.skips seen t i = true →
      Runs c (.tries t v rest (i.rel :: seen)) f f' → Runs c (.tries t v (i :: rest) seen) f f'
  | descend {t v i rest seen f f1 f'} : c.skips seen t i = false →
      Runs c (.visit (t ++ [i.rel]) i.neighbour) f f1 →
        Runs c (.tries t v rest (i.rel :: seen)) f1 f' →
      Runs c (.tries t v (i :: rest) seen) f f'

/-! ### The machine does what the recursion says -/

def Steps (c : VarExpand Node Rel) (s s' : ExpandWalk Node Rel) : Prop := ∃ n, c.step^[n] s = s'

lemma Steps.head {s s' : ExpandWalk Node Rel} (h : Steps c (c.step s) s') : Steps c s s' := by
  obtain ⟨n, rfl⟩ := h
  exact ⟨n + 1, rfl⟩

lemma Steps.trans {s s' s'' : ExpandWalk Node Rel} (h : Steps c s s') (h' : Steps c s' s'') :
    Steps c s s'' := by
  obtain ⟨n, rfl⟩ := h
  obtain ⟨m, rfl⟩ := h'
  exact ⟨m + n, Function.iterate_add_apply _ _ _ _⟩

variable {rels : Finset Rel} {a : Node}

/-- The incidents of an entered frame, given that the visits one hop deeper finish. -/
lemma steps_tries {v : Node} (ht : Trail c.Hop a t v)
    (hvisit : ∀ {r u} f fs, Trail c.Hop a (t ++ [r]) u → ∃ f',
      Steps c ⟨.enter (t.length + 1) u :: fs, t ++ [r], f⟩ ⟨fs, t ++ [r], f'⟩ ∧
        Runs c (.visit (t ++ [r]) u) f f')
    (incs : List (Incident Node Rel)) (hi : ∀ i ∈ incs, i ∈ c.expand v) (seen : List Rel)
    (f : Found Node Rel) (fs : List (VarExpandFrame Node Rel)) :
    ∃ f', Steps c ⟨⟨t.length, v, some incs, seen, false⟩ :: fs, t, f⟩ ⟨fs, t, f'⟩ ∧
      Runs c (.tries t v incs seen) f f' := by
  induction incs generalizing seen f with
  | nil => exact ⟨f, ⟨1, rfl⟩, .done⟩
  | cons i rest ih =>
    have ih := ih fun j hj => hi j (mem_cons_of_mem i hj)
    by_cases hs : c.skips seen t i = true
    · obtain ⟨f', hsteps, hruns⟩ := ih (i.rel :: seen) f
      refine ⟨f', .head ?_, .skip hs hruns⟩
      simpa [step, hs] using hsteps
    rw [Bool.not_eq_true] at hs
    obtain ⟨hop, hr⟩ := hop_of_skips_eq_false hs (hi i mem_cons_self)
    obtain ⟨f1, hchild, hruns1⟩ := hvisit f (⟨t.length, v, some rest, i.rel :: seen, true⟩ :: fs)
      (.snoc ht hop hr)
    obtain ⟨f', hrest, hruns⟩ := ih (i.rel :: seen) f1
    have hback : Steps c ⟨⟨t.length, v, some rest, i.rel :: seen, true⟩ :: fs, t ++ [i.rel], f1⟩
      ⟨fs, t, f'⟩ :=
      .head (by simpa [step] using hrest)
    exact ⟨f', .head (by simpa [step, hs] using hchild.trans hback), .descend hs hruns1 hruns⟩

/-- **Every frame finishes.** The trail cannot outgrow the relationships. -/
lemma steps_visit (hI : c.Incidence rels) {v : Node} (ht : Trail c.Hop a t v)
    (f : Found Node Rel) (fs : List (VarExpandFrame Node Rel)) :
    ∃ f', Steps c ⟨.enter t.length v :: fs, t, f⟩ ⟨fs, t, f'⟩ ∧ Runs c (.visit t v) f f' := by
  obtain ⟨k, hk⟩ : ∃ k, rels.card < t.length + k := ⟨rels.card + 1, by omega⟩
  induction k generalizing t v f fs with
  | zero => exact absurd (trail_length_le hI ht) (by omega)
  | succ k ih =>
    by_cases hs : (c.leaf t.length || c.explored t.length v (c.emit t.length v t f)) = true
    · refine ⟨_, ⟨1, ?_⟩, .stop hs⟩
      simp [step, VarExpandFrame.enter, hs]
    rw [Bool.not_eq_true] at hs
    obtain ⟨f', hsteps, hruns⟩ := steps_tries ht (c := c) (fun f fs hr => by
        simpa using ih hr f fs (by simp only [length_append, length_singleton]; omega))
      (c.expand v) (fun _ => id) [] (c.noteExpanded t.length v (c.emit t.length v t f)) fs
    refine ⟨f', .head ?_, .enter hs hruns⟩
    simpa [step, VarExpandFrame.enter, hs] using hsteps

/-! ## What every walk keeps -/

/-- A property that emitting and noting keep. -/
lemma Runs.preserves {P : Found Node Rel → Prop} (hemit : ∀ {d v t f}, P f → P (c.emit d v t f))
    (hnote : ∀ {d v f}, c.explored d v f = false → P f → P (c.noteExpanded d v f))
    (h : Runs c T f f') (hf : P f) : P f' := by
  induction h with
  | stop => exact hemit hf
  | enter hs _ ih => exact ih (hnote (Bool.or_eq_false_iff.1 hs).2 (hemit hf))
  | done => exact hf
  | skip _ _ ih => exact ih hf
  | descend _ _ _ ih1 ih => exact ih (ih1 hf)

lemma Runs.mem_ends {u : Node} (h : Runs c T f f') (hu : u ∈ f.ends) : u ∈ f'.ends :=
  h.preserves (P := fun f => u ∈ f.ends) (mem_ends_emit.2 <| .inl ·)
    (fun _ h => by simpa using h) hu

/-- Every row names the end of a trail within the bounds. -/
lemma Runs.sound (h : Runs c T f f') (hf : ∀ v ∈ f.ends, ∃ t, Trail c.Hop a t v ∧ c.Wanted t v)
    (hT : match T with
      | .visit t v => Trail c.Hop a t v ∧ ∀ m ∈ c.maxHops, t.length ≤ m
      | .tries t v incs _ =>
          Trail c.Hop a t v ∧ c.leaf t.length = false ∧ ∀ i ∈ incs, i ∈ c.expand v) :
    ∀ v ∈ f'.ends, ∃ t, Trail c.Hop a t v ∧ c.Wanted t v := by
  have hemit : ∀ {t v f}, Trail c.Hop a t v → (∀ m ∈ c.maxHops, t.length ≤ m) →
      (∀ v ∈ f.ends, ∃ t, Trail c.Hop a t v ∧ c.Wanted t v) →
      ∀ u ∈ (c.emit t.length v t f).ends, ∃ t, Trail c.Hop a t u ∧ c.Wanted t u := by
    intro t v f ht hmax hf u hu
    rcases mem_ends_emit.1 hu with hu | ⟨rfl, hemits, hsat⟩
    · exact hf u hu
    · simp only [emits, Bool.and_eq_true, decide_eq_true_eq] at hemits
      exact ⟨t, ht, hemits.1.2, hmax, hemits.2, hsat⟩
  induction h with
  | stop => exact hemit hT.1 hT.2 hf
  | enter hs _ ih =>
    refine ih ?_ ⟨hT.1, (Bool.or_eq_false_iff.1 hs).1, fun _ => id⟩
    simpa using hemit hT.1 hT.2 hf
  | done => exact hf
  | skip _ _ ih => exact ih hf ⟨hT.1, hT.2.1, fun i hi => hT.2.2 i (mem_cons_of_mem _ hi)⟩
  | @descend t v i rest seen f f1 f' hs _ _ ih1 ih =>
    obtain ⟨hop, hr⟩ := hop_of_skips_eq_false hs (hT.2.2 i mem_cons_self)
    refine ih (ih1 hf ⟨hT.1.snoc hop hr, fun m hm => ?_⟩)
      ⟨hT.1, hT.2.1, fun i hi => hT.2.2 i (mem_cons_of_mem _ hi)⟩
    rw [length_append]
    exact leaf_eq_false_iff.1 hT.2.1 m hm

/-! ## The plain walk -/

/-- **The plain walk emits the end of every trail** that continues the one it has travelled. -/
theorem Runs.plain_emits (hI : c.Incidence rels) (hp : c.pruning = false) (h : Runs c T f f')
    {w : List Rel} {u : Node} (hw : Trail c.Hop a w u) (hwant : c.Wanted w u)
    (hT : match T with
      | .visit t v => Trail c.Hop a t v ∧ t <+: w
      | .tries t v incs seen => Trail c.Hop a t v ∧ (∀ i ∈ incs, i ∈ c.expand v) ∧
          ∃ i ∈ incs, i.rel ∉ seen ∧ t ++ [i.rel] <+: w) :
    u ∈ f'.ends := by
  have hat : ∀ {v f}, Trail c.Hop a w v → u ∈ (c.emit w.length v w f).ends := by
    intro v f hv
    cases trail_unique hI hw hv
    exact mem_ends_emit.2 (.inr ⟨rfl, by simp [emits, hp, hwant.1, hwant.2.2.1], hwant.2.2.2⟩)
  induction h with
  | @stop t v f hs =>
    -- A leaf is as long as a trail may be.
    have hleaf : ¬c.leaf t.length = false := by simpa [explored, hp] using hs
    rw [leaf_eq_false_iff] at hleaf
    push Not at hleaf
    obtain ⟨m, hm, hle⟩ := hleaf
    cases hT.2.eq_of_length_le ((hwant.2.1 m hm).trans hle)
    exact hat hT.1
  | @enter t v f f' _ hruns ih =>
    obtain ⟨ht, s, rfl⟩ := hT
    cases s with
    | nil =>
      rw [append_nil] at hat
      exact hruns.mem_ends (by simpa using hat ht)
    | cons r s =>
      have hpre : t ++ [r] <+: t ++ r :: s := ⟨s, by simp⟩
      obtain ⟨n, hn⟩ := hw.of_prefix hpre
      obtain ⟨v', ht', hop, -⟩ := Trail.snoc_iff.1 hn
      cases trail_unique hI ht' ht
      exact ih ⟨ht, fun _ => id, ⟨r, n⟩, hop.1, not_mem_nil, hpre⟩
  | done => obtain ⟨-, -, i, hi, -⟩ := hT; cases hi
  | @skip t v i rest seen f f' hs _ ih =>
    obtain ⟨ht, hincs, j, hj, hseen, hpre⟩ := hT
    obtain ⟨n, hn⟩ := hw.of_prefix hpre
    obtain ⟨v', -, hop, hr⟩ := Trail.snoc_iff.1 hn
    have hne : j.rel ≠ i.rel := fun he => by
      rw [he] at hop hseen hr
      exact (mem_of_skips hs hop).elim hseen hr
    refine ih ⟨ht, fun i hi => hincs i (mem_cons_of_mem _ hi), j,
      (mem_cons.1 hj).resolve_left fun he => hne (he ▸ rfl), ?_, hpre⟩
    simp [hne, hseen]
  | @descend t v i rest seen f f1 f' hs _ hruns ih1 ih =>
    obtain ⟨ht, hincs, j, hj, hseen, hpre⟩ := hT
    by_cases he : j.rel = i.rel
    · obtain ⟨hop, hr⟩ := hop_of_skips_eq_false hs (hincs i mem_cons_self)
      exact hruns.mem_ends (ih1 ⟨ht.snoc hop hr, he ▸ hpre⟩)
    · refine ih ⟨ht, fun i hi => hincs i (mem_cons_of_mem _ hi), j,
        (mem_cons.1 hj).resolve_left fun h => he (h ▸ rfl), ?_, hpre⟩
      simp [he, hseen]

end VarExpand

end Graphus
