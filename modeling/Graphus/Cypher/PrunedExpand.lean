import Graphus.Cypher.VarExpand

/-!
# The pruning walk reaches every trail end

The memo of the pruning walk cuts subtrees by depth alone, although a trail may not use a
relationship twice.

**Closure** (`Runs.closes`). When a frame is dropped, every node it entered in the memo at depth `d`
is closed: each of its hops leads to a node that was met at depth `d + 1` or shallower. A hop that
was skipped because the trail holds it leads to a node on the path, which is in the memo. So
along any trail the memo is at most the depth, and every end other than the anchor is emitted.

**The anchor** (`Runs.root`). With a lower bound of 1 the anchor is emitted only if the walk comes
back to it. Suppose it has not. Then a hop into the anchor was skipped, so it is the first hop of
the branch the walk was in. Follow a closed trail from its first hop: once that branch is finished,
its last hop belongs to a branch tried before. Where relationships go one way this is absurd, and
where they go both ways the reversed trail starts in that earlier branch.

**Theorem (`pruned_emits_trail_ends`).** Both walks finish, the pruning walk emits no node twice,
and for a lower bound of 0 or 1 both emit the ends of the trails within the bounds.
-/

namespace Graphus.VarExpand

open Function List
open Prod (fst)

variable {Node Rel : Type} {c : VarExpand Node Rel} {rels : Finset Rel} {a u v : Node}
  {t : List Rel} {T : Task Node Rel} {f f' : Found Node Rel} {k : Nat}

/-! ## Closure of the memo -/

/-- The memo holds the node at depth `k` or shallower. -/
def MemoAt (f : Found Node Rel) (v : Node) (k : Nat) : Prop := ∃ d ≤ k, f.expandedAt v = some d

/-- The verdict on the node is settled. Only the anchor may still be too shallow. -/
def Settled (c : VarExpand Node Rel) (a : Node) (f : Found Node Rel) (v : Node) : Prop :=
  (v = a → c.lower = 0) → c.atTarget v = true → v ∈ f.decided

/-- The node was reached at depth `k` or shallower. -/
def Met (c : VarExpand Node Rel) (a : Node) (f : Found Node Rel) (k : Nat) (v : Node) : Prop :=
  Settled c a f v ∧ (c.leaf k = false → MemoAt f v k)

def Closed (c : VarExpand Node Rel) (a : Node) (f : Found Node Rel) (v : Node) (d : Nat) : Prop :=
  ∀ r u, c.Hop v r u → Met c a f (d + 1) u

lemma MemoAt.mono {k' : Nat} (h : MemoAt f v k) (hk : k ≤ k') : MemoAt f v k' :=
  h.imp fun _ hd => ⟨hd.1.trans hk, hd.2⟩

lemma leaf_mono {k' : Nat} (hk : k ≤ k') (h : c.leaf k' = false) : c.leaf k = false :=
  leaf_eq_false_iff.2 fun m hm => hk.trans_lt (leaf_eq_false_iff.1 h m hm)

/-- A hop from a node that is closed where the memo has it. -/
lemma MemoAt.hop {r : Rel} (hm : MemoAt f u k)
    (hc : ∀ d, f.expandedAt u = some d → Closed c a f u d)
    (hop : c.Hop u r v) : Met c a f (k + 1) v := by
  obtain ⟨d, hd, hu⟩ := hm
  have hle : d + 1 ≤ k + 1 := Nat.succ_le_succ hd
  exact ⟨(hc d hu r v hop).1, fun hl => ((hc d hu r v hop).2 (leaf_mono hle hl)).mono hle⟩

lemma met_of_trail (hroot : Met c a f 0 a) (hc : ∀ u d, f.expandedAt u = some d → Closed c a f u d)
    (ht : Trail c.Hop a t v) (hmax : ∀ m ∈ c.maxHops, t.length ≤ m) : Met c a f t.length v := by
  induction ht with
  | nil => exact hroot
  | @snoc t u v r _ hop _ ih =>
    rw [length_append] at hmax ⊢
    exact ((ih fun m hm => Nat.le_of_succ_le (hmax m hm)).2 (leaf_eq_false_iff.2 hmax)).hop
      (hc u) hop

/-- The anchor's frame between two branches, if the walk has not come back. -/
structure RootInv (c : VarExpand Node Rel) (a : Node) (f : Found Node Rel)
    (seen : List Rel) : Prop where
  closed : ∀ u d, u ≠ a → f.expandedAt u = some d → Closed c a f u d
  back : ∀ u d r, u ≠ a → f.expandedAt u = some d → c.Hop u r a → r ∈ seen
  met : ∀ r ∈ seen, ∀ n, c.Hop a r n → Met c a f 1 n

variable {seen : List Rel}

/-- A trail that starts in a finished branch and does not come back stays in the memo. -/
lemma RootInv.memoAt {r : Rel} (h : RootInv c a f seen) (hr : r ∈ seen)
    (ht : Trail c.Hop a t v) (hhead : t.head? = some r)
    (hne : ∀ q, q <+: t → q ≠ [] → ¬Trail c.Hop a q a) (hl : c.leaf t.length = false) :
    MemoAt f v t.length := by
  induction ht with
  | nil => cases hhead
  | @snoc t u v r' ht hop _ ih =>
    rcases eq_or_ne t [] with rfl | hnil
    · cases hhead
      cases Trail.nil_iff.1 ht
      exact (h.met _ hr v hop).2 hl
    rw [head?_append_of_ne_nil _ hnil] at hhead
    rw [length_append] at hl ⊢
    have hu : u ≠ a := fun hu => hne t (prefix_append ..) hnil (hu ▸ ht)
    have hmemo := ih hhead (fun q hq => hne q (hq.trans (prefix_append ..)))
      (leaf_mono (Nat.le_succ _) hl)
    exact (hmemo.hop (fun d => h.closed u d hu) hop).2 hl

/-- No closed trail starts with one of these hops. -/
def NoReturn (c : VarExpand Node Rel) (a : Node) (seen : List Rel) : Prop :=
  ∀ t, Trail c.Hop a t a → (∀ m ∈ c.maxHops, t.length ≤ m) → ∀ r ∈ seen, t.head? ≠ some r

/-- Finishing one more branch leaves no closed trail that starts in it. -/
lemma RootInv.noReturn (hI : c.Incidence rels) {i : Incident Node Rel}
    (h : RootInv c a f (i.rel :: seen)) (hi : i ∈ c.expand a) (hn : i.neighbour ≠ a)
    (hseen : ∀ r ∈ seen, ∃ n, ⟨r, n⟩ ∈ c.expand a) (hno : NoReturn c a seen) :
    NoReturn c a (i.rel :: seen) := by
  intro C hC hmax r hr hhead
  rcases mem_cons.1 hr with rfl | hr
  swap
  · exact hno C hC hmax r hr hhead
  obtain ⟨p, hpC, hp0, hp, hfirst⟩ := hC.firstReturn (by rintro rfl; cases hhead)
  obtain ⟨q, l, rfl⟩ := (eq_nil_or_concat' p).resolve_left hp0
  have hpmax : ∀ m ∈ c.maxHops, (q ++ [l]).length ≤ m := fun m hm => hpC.length_le.trans (hmax m hm)
  obtain ⟨u, hq, hop, hl⟩ := Trail.snoc_iff.1 hp
  obtain ⟨s, rfl⟩ := hpC
  rcases eq_or_ne q [] with rfl | hq0
  · -- A self-loop is its own neighbour.
    cases Trail.nil_iff.1 hq
    cases hhead
    exact hn (hI.unique hi hop.1)
  · have hqhead : q.head? = some i.rel := by
      rwa [append_assoc, head?_append_of_ne_nil _ hq0] at hhead
    have hua : u ≠ a := by
      rintro rfl
      have := hfirst q (prefix_append ..) hq0 hq
      simp at this
    have hne : ∀ q', q' <+: q → q' ≠ [] → ¬Trail c.Hop a q' a := by
      intro q' hq' h0 hret
      have hle := hq'.length_le
      rw [hfirst q' (hq'.trans (prefix_append ..)) h0 hret, length_append] at hle
      exact absurd hle (Nat.not_succ_le_self _)
    rw [length_append] at hpmax
    obtain ⟨d, -, hu⟩ := h.memoAt mem_cons_self hq hqhead hne (leaf_eq_false_iff.2 hpmax)
    -- The last hop was tried, and not in this branch.
    have hlast : l ∈ seen := (mem_cons.1 (h.back u d l hua hu hop)).resolve_left
      fun he => hl (he ▸ mem_of_mem_head? hqhead)
    rcases hI.oriented with hsymm | hsrc
    · refine hno (q ++ [l]).reverse (hp.reverse fun h => ⟨hsymm h.1, h.2⟩) ?_ l hlast (by simp)
      simpa using hpmax
    · obtain ⟨n, hln⟩ := hseen l hlast
      exact hua (hsrc hop.1 hln)

variable [DecidableEq Node]

@[simp] lemma emit_expandedAt (d : Nat) (v : Node) (t : List Rel) :
    (c.emit d v t f).expandedAt = f.expandedAt := by
  unfold emit
  split <;> rfl

lemma noteExpanded_expandedAt (hp : c.pruning = true) (d : Nat) (v : Node) :
    (c.noteExpanded d v f).expandedAt = update f.expandedAt v (some d) := by
  rw [noteExpanded, if_pos hp]

lemma MemoAt.noteExpanded {d : Nat} (hx : c.explored d u f = false) (h : MemoAt f v k) :
    MemoAt (c.noteExpanded d u f) v k := by
  obtain ⟨d', hd', hv⟩ := h
  unfold VarExpand.noteExpanded
  split
  · rename_i hp
    by_cases hu : v = u
    · subst hu
      simp only [explored, hp, hv, Option.any_some, Bool.true_and,
        decide_eq_false_iff_not, not_le] at hx
      exact ⟨d, hx.le.trans hd', by simp⟩
    · exact ⟨d', hd', by simpa [hu] using hv⟩
  · exact ⟨d', hd', hv⟩

lemma mem_decided_emit_of_mem {d : Nat} (h : v ∈ f.decided) : v ∈ (c.emit d u t f).decided := by
  unfold emit
  split
  · split
    · exact mem_cons_of_mem _ h
    · exact h
  · exact h

/-- A visit deep enough settles the node. -/
lemma mem_decided_emit (hp : c.pruning = true) (hl : c.lower ≤ k) (ht : c.atTarget v = true) :
    v ∈ (c.emit k v t f).decided := by
  unfold emit
  split
  · simp
  · rename_i h
    simpa [emits, hp, hl, ht] using h

lemma settled_emit (hp : c.pruning = true) (hlow : c.lower ≤ 1) (ht : Trail c.Hop a t v) :
    Settled c a (c.emit t.length v t f) v := by
  intro h0 htarget
  refine mem_decided_emit hp ?_ htarget
  cases t with
  | nil => simp [h0 (Trail.nil_iff.1 ht)]
  | cons r t => exact hlow.trans (by simp)

variable [DecidableEq Rel]

lemma Runs.memoAt (h : Runs c T f f') (hv : MemoAt f v k) : MemoAt f' v k :=
  h.preserves (P := fun f => MemoAt f v k) (fun h => by simpa [MemoAt] using h) .noteExpanded hv

lemma Runs.mem_decided (h : Runs c T f f') (hv : v ∈ f.decided) : v ∈ f'.decided :=
  h.preserves (P := fun f => v ∈ f.decided) mem_decided_emit_of_mem (fun _ h => by simpa using h) hv

lemma Runs.met (h : Runs c T f f') (hm : Met c a f k v) : Met c a f' k v :=
  ⟨fun h0 h1 => h.mem_decided (hm.1 h0 h1), fun hl => h.memoAt (hm.2 hl)⟩

lemma Runs.closed {d : Nat} (h : Runs c T f f') (hc : Closed c a f v d) : Closed c a f' v d :=
  fun r u hop => h.met (hc r u hop)

/-- What the memo holds when a frame is dropped. -/
def NewClosed (c : VarExpand Node Rel) (a : Node) (f f' : Found Node Rel) : Prop :=
  ∀ u d, f'.expandedAt u = some d → f.expandedAt u = some d ∨ Closed c a f' u d

/-- The nodes of the path are in the memo; the node of a first visit is about to be. -/
def OnPath (c : VarExpand Node Rel) (a : Node) (f : Found Node Rel) : Task Node Rel → Prop
  | .visit t v => Trail c.Hop a t v ∧
      ∀ r ∈ t, ∀ u n, ⟨r, n⟩ ∈ c.expand u → n = v ∨ MemoAt f n t.length
  | .tries t v incs _ => Trail c.Hop a t v ∧ (∀ i ∈ incs, i ∈ c.expand v) ∧ MemoAt f v t.length ∧
      ∀ r ∈ t, ∀ u n, ⟨r, n⟩ ∈ c.expand u → MemoAt f n t.length

def Reached (c : VarExpand Node Rel) (a : Node) (f : Found Node Rel) : Task Node Rel → Prop
  | .visit t v => Met c a f t.length v
  | .tries t v incs seen => ∀ i ∈ incs, i.rel ∉ seen → c.Hop v i.rel i.neighbour →
      Met c a f (t.length + 1) i.neighbour

/-- **Closure.** -/
lemma Runs.closes (hI : c.Incidence rels) (hp : c.pruning = true) (hlow : c.lower ≤ 1)
    (h : Runs c T f f') (hset : ∀ u, f.expandedAt u ≠ none → Settled c a f u)
    (hT : OnPath c a f T) :
    (∀ u, f'.expandedAt u ≠ none → Settled c a f' u) ∧ NewClosed c a f f' ∧ Reached c a f' T := by
  induction h with
  | @stop t v f hs =>
    refine ⟨fun u hu => ?_, fun u d hu => .inl (by simpa using hu),
      settled_emit hp hlow hT.1, fun hl => ?_⟩
    · exact fun h0 h1 => (Runs.stop hs).mem_decided (hset u (by simpa using hu) h0 h1)
    · rw [hl, Bool.false_or, explored, hp, Bool.true_and, Option.any_eq_true] at hs
      obtain ⟨d, hd, hle⟩ := hs
      exact ⟨d, of_decide_eq_true hle, hd⟩
  | @enter t v f f' hs hruns ih =>
    have hnote : (c.noteExpanded t.length v (c.emit t.length v t f)).expandedAt =
        update f.expandedAt v (some t.length) := by simp [noteExpanded_expandedAt hp]
    generalize hf1 : c.noteExpanded t.length v (c.emit t.length v t f) = f1 at hnote hruns ih
    have hself : MemoAt f1 v t.length := ⟨_, le_rfl, by simp [hnote]⟩
    have hsettled : Settled c a f1 v := fun h0 h1 => by
      simpa [← hf1] using settled_emit hp hlow hT.1 h0 h1
    have hset1 : ∀ u, f1.expandedAt u ≠ none → Settled c a f1 u := by
      intro u hu
      by_cases huv : u = v
      · exact huv ▸ hsettled
      · rw [hnote, update_of_ne huv] at hu
        exact fun h0 h1 => by simpa [← hf1] using mem_decided_emit_of_mem (hset u hu h0 h1)
    have hpath : ∀ r ∈ t, ∀ u n, ⟨r, n⟩ ∈ c.expand u → MemoAt f1 n t.length := by
      intro r hr u n hn
      rcases hT.2 r hr u n hn with rfl | hmemo
      · exact hself
      · rw [← hf1]
        exact .noteExpanded (Bool.or_eq_false_iff.1 hs).2 (by simpa [MemoAt] using hmemo)
    obtain ⟨hset', hnew, hall⟩ := ih hset1 ⟨hT.1, fun _ => id, hself, hpath⟩
    refine ⟨hset', fun u d hu => ?_, fun h0 h1 => hruns.mem_decided (hsettled h0 h1), fun _ =>
      hruns.memoAt hself⟩
    rcases hnew u d hu with hold | hclosed
    · rw [hnote, update_apply] at hold
      split at hold
      · cases hold
        subst u
        exact .inr fun r n hop => hall ⟨r, n⟩ hop.1 not_mem_nil hop
      · exact .inl hold
    · exact .inr hclosed
  | done => exact ⟨hset, fun u d hu => .inl hu, fun i hi => absurd hi not_mem_nil⟩
  | @skip t v i rest seen f f' hs hruns ih =>
    obtain ⟨ht, hincs, hv, hpath⟩ := hT
    obtain ⟨hset', hnew, hall⟩ :=
      ih hset ⟨ht, fun i hi => hincs i (mem_cons_of_mem _ hi), hv, hpath⟩
    refine ⟨hset', hnew, fun j hj hseen hop => ?_⟩
    by_cases he : j.rel = i.rel
    · -- The hop is on the trail, so it leads to a node of the path.
      have hmem : j.rel ∈ t := (mem_of_skips hs (he ▸ hop)).elim (he ▸ (absurd · hseen)) (he ▸ ·)
      obtain ⟨d, hd, hj⟩ := hpath _ hmem _ _ hop.1
      refine hruns.met ⟨hset _ (by simp [hj]), fun _ => ⟨d, hd.trans (Nat.le_succ _), hj⟩⟩
    · refine hall j ((mem_cons.1 hj).resolve_left fun h => he (h ▸ rfl)) ?_ hop
      simp [he, hseen]
  | @descend t v i rest seen f f1 f' hs hruns1 hruns ih1 ih =>
    obtain ⟨ht, hincs, hv, hpath⟩ := hT
    obtain ⟨hop, hr⟩ := hop_of_skips_eq_false hs (hincs i mem_cons_self)
    have hpath1 : ∀ r ∈ t ++ [i.rel], ∀ u n, ⟨r, n⟩ ∈ c.expand u →
        n = i.neighbour ∨ MemoAt f n (t ++ [i.rel]).length := by
      intro r hr u n hn
      rw [length_append]
      rcases mem_append.1 hr with hr | hr
      · exact .inr ((hpath r hr u n hn).mono (Nat.le_succ _))
      cases mem_singleton.1 hr
      refine (hI.ends hop.1 hn).imp_right ?_
      rintro rfl
      exact hv.mono (Nat.le_succ _)
    obtain ⟨hset1, hnew1, hmet⟩ := ih1 hset ⟨ht.snoc hop hr, hpath1⟩
    obtain ⟨hset', hnew, hall⟩ := ih hset1 ⟨ht, fun i hi => hincs i (mem_cons_of_mem _ hi),
      hruns1.memoAt hv, fun r hr u n hn => hruns1.memoAt (hpath r hr u n hn)⟩
    refine ⟨hset', fun u d hu => ?_, fun j hj hseen hopj => ?_⟩
    · rcases hnew u d hu with hold | hclosed
      · exact (hnew1 u d hold).imp_right hruns.closed
      · exact .inr hclosed
    by_cases he : j.rel = i.rel
    · rw [hI.unique (v := j.neighbour) (he ▸ hopj.1) hop.1]
      exact hruns.met (by simpa [Reached] using hmet)
    · refine hall j ((mem_cons.1 hj).resolve_left fun h => he (h ▸ rfl)) ?_ hopj
      simp [he, hseen]

/-! ## Back to the anchor -/

lemma Runs.visit_decided (h : Runs c (.visit t v) f f') (hp : c.pruning = true)
    (hl : c.lower ≤ t.length) (ht : c.atTarget v = true) : v ∈ f'.decided := by
  cases h with
  | stop => exact mem_decided_emit hp hl ht
  | enter _ h => exact h.mem_decided (by simpa using mem_decided_emit hp hl ht)

/-- The walk is in the branch of the anchor's hop `g` and has not come back. -/
def InBranch (c : VarExpand Node Rel) (a : Node) (g : Rel) (t : List Rel) (v : Node) : Prop :=
  t.head? = some g ∧ v ≠ a ∧ ∀ r ∈ t, ∀ u, ⟨r, a⟩ ∈ c.expand u → r = g

def Within (c : VarExpand Node Rel) (a : Node) (g : Rel) : Task Node Rel → Prop
  | .visit t v => InBranch c a g t v
  | .tries t v incs _ => InBranch c a g t v ∧ ∀ i ∈ incs, i ∈ c.expand v

def BackOnlyBy (c : VarExpand Node Rel) (a : Node) (g : Rel) : Task Node Rel → Prop
  | .visit _ _ => True
  | .tries _ v incs seen => ∀ i ∈ incs, i.rel ∉ seen → c.Hop v i.rel a → i.rel = g

section

variable (hI : c.Incidence rels) (hp : c.pruning = true) (hlow : c.lower ≤ 1)

include hI hp hlow

/-- In the branch of `g`, a node entered in the memo leads back to the anchor by `g` alone. -/
lemma Runs.returns (hta : c.atTarget a = true) {g : Rel} (h : Runs c T f f') (hT : Within c a g T) :
    a ∈ f'.decided ∨ BackOnlyBy c a g T ∧ ∀ u d, f'.expandedAt u = some d →
      f.expandedAt u = some d ∨ ∀ r, c.Hop u r a → r = g := by
  induction h with
  | stop => exact .inr ⟨trivial, fun u d hu => .inl (by simpa using hu)⟩
  | @enter t v f f' _ _ ih =>
    refine (ih ⟨hT, fun _ => id⟩).imp_right fun ⟨hall, hnew⟩ => ⟨trivial, fun u d hu => ?_⟩
    rcases hnew u d hu with hold | hback
    · rw [noteExpanded_expandedAt hp, emit_expandedAt, update_apply] at hold
      split at hold
      · subst u
        exact .inr fun r hop => hall ⟨r, a⟩ hop.1 not_mem_nil hop
      · exact .inl hold
    · exact .inr hback
  | done => exact .inr ⟨fun i hi => (nomatch hi), fun u d hu => .inl hu⟩
  | @skip t v i rest seen f f' hs _ ih =>
    refine (ih ⟨hT.1, fun i hi => hT.2 i (mem_cons_of_mem _ hi)⟩).imp_right fun ⟨hall, hnew⟩ =>
      ⟨fun j hj hseen hop => ?_, hnew⟩
    by_cases he : j.rel = i.rel
    · have hmem : j.rel ∈ t := (mem_of_skips hs (he ▸ hop)).elim (he ▸ (absurd · hseen)) (he ▸ ·)
      exact hT.1.2.2 _ hmem _ hop.1
    · refine hall j ((mem_cons.1 hj).resolve_left fun h => he (h ▸ rfl)) ?_ hop
      simp [he, hseen]
  | @descend t v i rest seen f f1 f' hs hruns1 hruns ih1 ih =>
    obtain ⟨⟨hhead, hva, hpath⟩, hincs⟩ := hT
    obtain ⟨hop, hr⟩ := hop_of_skips_eq_false hs (hincs i mem_cons_self)
    have hchild : a ∈ f1.decided ∨ i.neighbour ≠ a ∧ ∀ u d, f1.expandedAt u = some d →
        f.expandedAt u = some d ∨ ∀ r, c.Hop u r a → r = g := by
      by_cases hn : i.neighbour = a
      · exact .inl (hn ▸ hruns1.visit_decided hp (hlow.trans (by simp)) (hn ▸ hta))
      refine (ih1 ⟨by simp [hhead], hn, fun r hr u hu => ?_⟩).imp_right fun h => ⟨hn, h.2⟩
      rcases mem_append.1 hr with hr | hr
      · exact hpath r hr u hu
      · cases mem_singleton.1 hr
        exact ((hI.ends hop.1 hu).elim (hn ·.symm) (hva ·.symm)).elim
    rcases hchild with hback | ⟨hn, hnew1⟩
    · exact .inl (hruns.mem_decided hback)
    refine (ih ⟨⟨hhead, hva, hpath⟩, fun i hi => hincs i (mem_cons_of_mem _ hi)⟩).imp_right
      fun ⟨hall, hnew⟩ => ⟨fun j hj hseen hopj => ?_, fun u d hu => ?_⟩
    · by_cases he : j.rel = i.rel
      · exact (hn (hI.unique (v := i.neighbour) (he ▸ hop.1) hopj.1)).elim
      · refine hall j ((mem_cons.1 hj).resolve_left fun h => he (h ▸ rfl)) ?_ hopj
        simp [he, hseen]
    · exact (hnew u d hu).elim (hnew1 u d) .inr

/-- **The anchor.** The walk comes back to it, or no closed trail starts with a hop it tried. -/
lemma Runs.root (hta : c.atTarget a = true) {incs : List (Incident Node Rel)}
    (h : Runs c (.tries [] a incs seen) f f') (hincs : ∀ i ∈ incs, i ∈ c.expand a)
    (hset : ∀ u, f.expandedAt u ≠ none → Settled c a f u) (ha : MemoAt f a 0)
    (hinv : RootInv c a f seen) (hseen : ∀ r ∈ seen, ∃ n, ⟨r, n⟩ ∈ c.expand a)
    (hno : NoReturn c a seen) : a ∈ f'.decided ∨ NoReturn c a (seen ++ incs.map (·.rel)) := by
  induction incs generalizing seen f with
  | nil =>
    cases h
    exact .inr (by simpa using hno)
  | cons i rest ih =>
    have hi := hincs i mem_cons_self
    have hincs : ∀ j ∈ rest, j ∈ c.expand a := fun j hj => hincs j (mem_cons_of_mem _ hj)
    have hseen' : ∀ r ∈ i.rel :: seen, ∃ n, ⟨r, n⟩ ∈ c.expand a :=
      forall_mem_cons.2 ⟨⟨i.neighbour, hi⟩, hseen⟩
    have hperm : NoReturn c a ((i.rel :: seen) ++ rest.map (·.rel)) →
        NoReturn c a (seen ++ (i :: rest).map (·.rel)) := fun h t ht hmax r hr =>
      h t ht hmax r (by simpa [or_left_comm] using hr)
    cases h with
    | skip hs hruns =>
      -- A hop that is skipped here was tried before.
      have hold : ∀ {r n}, r ∈ i.rel :: seen → c.Hop a r n → r ∈ seen := fun hr hop =>
        (mem_cons.1 hr).elim (fun he => by
          subst he
          exact (mem_of_skips hs hop).resolve_right not_mem_nil) id
      refine (ih hruns hincs hset ha ⟨hinv.closed, fun u d r hu hd hop => mem_cons_of_mem _
        (hinv.back u d r hu hd hop), fun r hr n hop => hinv.met r (hold hr hop) n hop⟩ hseen'
        fun t ht hmax r hr hhead => ?_).imp_right hperm
      obtain ⟨t, rfl⟩ := head?_eq_some_iff.1 hhead
      obtain ⟨n, hop⟩ := ht.hop_of_cons
      exact hno _ ht hmax r (hold hr hop) rfl
    | @descend _ _ _ _ _ _ f1 _ hs hruns1 hruns =>
      obtain ⟨hop, -⟩ := hop_of_skips_eq_false hs hi
      by_cases hn : i.neighbour = a
      · exact .inl (hruns.mem_decided (hn ▸ hruns1.visit_decided hp hlow (hn ▸ hta)))
      obtain ⟨hset1, hnew, hmet⟩ :=
        hruns1.closes hI hp hlow hset ⟨.snoc .nil hop not_mem_nil, fun r hr u n hn => by
          cases mem_singleton.1 hr
          refine (hI.ends hop.1 hn).imp_right ?_
          rintro rfl
          exact ha.mono (Nat.zero_le _)⟩
      rcases hruns1.returns hI hp hlow hta (g := i.rel)
        ⟨rfl, hn, fun r hr _ _ => mem_singleton.1 hr⟩ with hback | ⟨-, hback⟩
      · exact .inl (hruns.mem_decided hback)
      have hinv1 : RootInv c a f1 (i.rel :: seen) := by
        refine ⟨fun u d hu hd => ?_, fun u d r hu hd hopr => ?_, fun r hr n hopr => ?_⟩
        · exact (hnew u d hd).elim (fun hd => hruns1.closed (hinv.closed u d hu hd)) id
        · exact (hback u d hd).elim (fun hd => mem_cons_of_mem _ (hinv.back u d r hu hd hopr))
            fun h => h r hopr ▸ mem_cons_self
        · rcases mem_cons.1 hr with rfl | hr
          · exact hI.unique hop.1 hopr.1 ▸ hmet
          · exact hruns1.met (hinv.met r hr n hopr)
      exact (ih hruns hincs hset1 (hruns1.memoAt ha) hinv1 hseen'
        (hinv1.noReturn hI hi hn hseen hno)).imp_right hperm

end

/-! ## The rows -/

/-- The pruning walk decides a node once, and emits what it decided for. -/
structure Once (c : VarExpand Node Rel) (f : Found Node Rel) : Prop where
  nodup : f.ends.Nodup
  decided : ∀ v ∈ f.ends, v ∈ f.decided
  emitted : ∀ v ∈ f.decided, c.endNodeSatisfies v = true → v ∈ f.ends

lemma Runs.once (hp : c.pruning = true) (h : Runs c T f f') (hf : Once c f) : Once c f' := by
  refine h.preserves (P := Once c) (fun {d v t f} hf => ?_)
    (fun _ hf => ⟨by simpa using hf.nodup, by simpa using hf.decided, by simpa using hf.emitted⟩) hf
  cases hemits : c.emits d v f with
  | false => simpa [emit, hemits] using hf
  | true =>
    have hv : v ∉ f.decided := by
      simp only [emits, hp, Bool.not_true, Bool.false_or, Bool.and_eq_true,
        decide_eq_true_eq] at hemits
      exact hemits.1.1
    have hdec : (c.emit d v t f).decided = v :: f.decided := by simp [emit, hemits, hp]
    refine ⟨?_, fun u hu => ?_, fun u hu hsat => ?_⟩
    · rw [emit_ends]
      split
      · refine nodup_append.2 ⟨hf.nodup, nodup_singleton _, fun x hx y hy hxy => hv ?_⟩
        exact mem_singleton.1 hy ▸ hxy ▸ hf.decided x hx
      · exact hf.nodup
    · rw [hdec]
      rcases mem_ends_emit.1 hu with hu | ⟨rfl, -⟩
      · exact mem_cons_of_mem _ (hf.decided u hu)
      · exact mem_cons_self
    · rw [hdec] at hu
      refine mem_ends_emit.2 ((mem_cons.1 hu).symm.imp (hf.emitted u · hsat) ?_)
      rintro rfl
      exact ⟨rfl, hemits, hsat⟩

lemma Runs.pruned_emits (hI : c.Incidence rels) (hp : c.pruning = true) (hlow : c.lower ≤ 1)
    (h : Runs c (.visit [] a) ⟨[], fun _ => none, []⟩ f') (ht : Trail c.Hop a t v)
    (hw : c.Wanted t v) : v ∈ f'.ends := by
  obtain ⟨hlen, hmax, htarget, hsat⟩ := hw
  refine (h.once hp ⟨nodup_nil, fun v hv => (nomatch hv), fun v hv => (nomatch hv)⟩).emitted v ?_
    hsat
  obtain ⟨-, hnew, hmet⟩ :=
    h.closes hI hp hlow (fun u hu => absurd rfl hu) ⟨.nil, fun r hr => (nomatch hr)⟩
  have hmet :=
    met_of_trail hmet (fun u d hu => (hnew u d hu).resolve_left (fun h => nomatch h)) ht hmax
  by_cases hva : v = a → c.lower = 0
  · exact hmet.1 hva htarget
  push Not at hva
  obtain ⟨rfl, hpos⟩ := hva
  obtain ⟨r, t, rfl⟩ := exists_cons_of_length_pos (Nat.pos_of_ne_zero hpos |>.trans_le hlen)
  cases h with
  | stop hs =>
    have hleaf : ¬c.leaf 0 = false := by simpa [explored] using hs
    refine (hleaf (leaf_eq_false_iff.2 fun m hm => ?_)).elim
    exact (Nat.succ_pos _).trans_le (hmax m hm)
  | enter hs hruns =>
    have hnote := noteExpanded_expandedAt (f := c.emit 0 v [] ⟨[], fun _ => none, []⟩) hp 0 v
    have hnone : ∀ u d, u ≠ v →
      (c.noteExpanded 0 v (c.emit 0 v [] ⟨[], fun _ => none, []⟩)).expandedAt u ≠
        some d := fun u d hu => by simp [hnote, hu]
    refine (hruns.root hI hp hlow htarget (fun _ => id)
      (fun u hu => ?_) ⟨0, le_rfl, by simp [hnote]⟩
      ⟨fun u d hu hd => (hnone u d hu hd).elim, fun u d _ hu hd => (hnone u d hu hd).elim,
        fun r hr => (nomatch hr)⟩ (fun r hr => (nomatch hr)) fun _ _ _ r hr =>
          (nomatch hr)).resolve_right
      fun hno => ?_
    · have huv : u = v := by_contra fun hne => hu (by simp [hnote, hne])
      exact fun h0 => (hpos (h0 huv)).elim
    · obtain ⟨n, hop⟩ := ht.hop_of_cons
      exact hno _ ht hmax r (by simpa using ⟨_, hop.1, rfl⟩) rfl

lemma yields (hI : c.Incidence rels) (a : Node) : ∃ f, c.Yields a f.pending ∧
    Runs c (.visit [] a) ⟨[], fun _ => none, []⟩ f ∧
    ∀ v ∈ f.ends, ∃ t, Trail c.Hop a t v ∧ c.Wanted t v := by
  obtain ⟨f, ⟨n, hn⟩, hruns⟩ := steps_visit hI .nil (c := c) (a := a) ⟨[], fun _ => none, []⟩ []
  exact ⟨f, ⟨n, f, hn, rfl⟩, hruns,
    hruns.sound (fun v hv => (nomatch hv)) ⟨.nil, fun _ _ => Nat.zero_le _⟩⟩

/-- **The pruning walk reaches exactly the trail ends.** -/
theorem pruned_emits_trail_ends (g : Multigraph Node Rel) (dir : ExpandDirection)
    (c : VarExpand Node Rel)
    (hexpand : ∀ v i, i ∈ c.expand v ↔ g.Reports dir v i) (hlower : c.lower ≤ 1) (anchor : Node) :
    ∃ plain pruned, { c with pruning := false }.Yields anchor plain ∧
      { c with pruning := true }.Yields anchor pruned ∧ (pruned.map fst).Nodup ∧
      ∀ v, (v ∈ pruned.map fst ↔ v ∈ plain.map fst) ∧
        (v ∈ plain.map fst ↔ ∃ t, Trail c.Hop anchor t v ∧ c.Wanted t v) := by
  have hI0 : { c with pruning := false }.Incidence g.rels := .of_reports hexpand
  have hI1 : { c with pruning := true }.Incidence g.rels := .of_reports hexpand
  obtain ⟨f0, hy0, hruns0, hsound0⟩ := yields hI0 anchor
  obtain ⟨f1, hy1, hruns1, hsound1⟩ := yields hI1 anchor
  have hplain : ∀ v, v ∈ f0.ends ↔ ∃ t, Trail c.Hop anchor t v ∧ c.Wanted t v := fun v =>
    ⟨hsound0 v, fun ⟨t, ht, hw⟩ => hruns0.plain_emits hI0 rfl ht hw ⟨.nil, nil_prefix⟩⟩
  have hpruned : ∀ v, v ∈ f1.ends ↔ ∃ t, Trail c.Hop anchor t v ∧ c.Wanted t v := fun v =>
    ⟨hsound1 v, fun ⟨t, ht, hw⟩ => hruns1.pruned_emits hI1 rfl hlower ht hw⟩
  have honce := hruns1.once rfl ⟨nodup_nil, fun v hv => (nomatch hv), fun v hv => (nomatch hv)⟩
  exact ⟨_, _, hy0, hy1, honce.nodup, fun v => ⟨(hpruned v).trans (hplain v).symm, hplain v⟩⟩

/-- Two parallel relationships, travelled both ways. -/
def parallel : VarExpand Bool Bool where
  expand v := [⟨false, !v⟩, ⟨true, !v⟩]
  forbidden _ := false
  relSatisfiesProps _ := true
  atTarget _ := true
  endNodeSatisfies _ := true
  minHops := none
  maxHops := some 2
  pruning := false

theorem pruned_emits_trail_ends_parallel :
    ∃ plain pruned, { parallel with pruning := false }.Yields false plain ∧
    { parallel with pruning := true }.Yields false pruned ∧ (pruned.map fst).Nodup ∧
    ∀ v, (v ∈ pruned.map fst ↔ v ∈ plain.map fst) ∧
      (v ∈ plain.map fst ↔ ∃ t, Trail parallel.Hop false t v ∧ parallel.Wanted t v) :=
  pruned_emits_trail_ends ⟨Finset.univ, fun _ => false, fun _ => true⟩ .both parallel
    (by rintro (_ | _) ⟨_ | _, _ | _⟩ <;> simp [parallel, Multigraph.Reports]) (by decide) false

end Graphus.VarExpand
