import Graphus.Lib.Threads
import Graphus.Lib.LinkedChain

/-!
# Prepending to a chain head

Writers add entries to one chain by prepending. Each reads the head, links its private entry to it
and publishes the entry by an atomic compare-and-publish. A refusal means that another entry is the
head now, so the writer reads the head again, links its entry again and retries.

**Theorem (`prepends_linearize`).** After every schedule, failures of the medium included, the chain
reads as the published entries, the last one first, and then the original chain. A published entry
is linked to the head it displaced, no head is displaced twice, and an entry whose writer got an
error is not in the chain.

The history of publications is recorded with the cell. A writer knows of its entry that the history
has it exactly when its call has returned the displaced head, and that an entry about to be
published is linked to the head it expects (`WriterOk`). Links are only written in entries that are
still private, so the chain of the published ones stands.
-/

namespace Graphus

open LinkedChain Function List

/-- The link of the last entry of a chain. -/
def nullId : Nat := 0

/-- The number of attempts of one `prepend`. -/
def maxAttempts : Nat := 65536

/-- Why a prepend did not complete. -/
inductive PrependError (E : Type) where
  | cell (error : E)
  | exhausted (attempts : Nat)
  deriving DecidableEq

/-- The head word of a chain and the `next` links of all entries. `published` is the history: the
writers whose publication succeeded, the last one first, each with the head that stood before. -/
structure ChainCell (Writer : Type) where
  head : Nat
  next : Nat → Nat
  published : List (Writer × Nat)

/-- The calls that are made on one chain: the chain before them, and the private entry of each
writer. -/
structure Prepends (Writer : Type) where
  head : Nat
  next : Nat → Nat
  original : List Nat
  original_spells : Spells next nullId head original
  original_nodup : original.Nodup
  entry : Writer → Nat
  entry_injective : Injective entry
  entry_ne_null : ∀ w, entry w ≠ nullId
  entry_private : ∀ w, entry w ∉ original

namespace Prepends

variable {Writer E : Type}

/-- Where a writer is. -/
inductive Phase (E : Type) where
  | idle
  /-- It has read the head and not linked its entry. -/
  | observed (head : Nat)
  /-- It is about to publish, with `attempts` more attempts after this one. -/
  | attempting (head attempts : Nat)
  | refused (attempts : Nat)
  /-- It has read the head again after a refusal. -/
  | reread (head attempts : Nat)
  | returned (result : Except (PrependError E) Nat)
  deriving DecidableEq

/-- An action of a writer. The medium may fail in the three accesses of `prepend`. -/
inductive Action (E : Type) where
  | observe
  | link
  | compareAndPublish (fault : Option E)
  | reread (fault : Option E)
  | relink (fault : Option E)

/-- The head of the loop of `prepend`, with the attempts that are left. -/
def loop (head : Nat) : Nat → Phase E
  | 0 => .returned (.error (.exhausted maxAttempts))
  | attempts + 1 => .attempting head attempts

/-- One action of the writer `w`. -/
def act (P : Prepends Writer) (w : Writer) (m : ChainCell Writer) :
    Phase E → Action E → Option (ChainCell Writer × Phase E)
  | .idle, .observe => some (m, .observed m.head)
  | .observed head, .link =>
    some ({ m with next := update m.next (P.entry w) head }, loop head maxAttempts)
  | .attempting head attempts, .compareAndPublish none =>
    if m.head = head then
      some ({ m with head := P.entry w, published := (w, m.head) :: m.published },
        .returned (.ok head))
    else some (m, .refused attempts)
  | .refused attempts, .reread none => some (m, .reread m.head attempts)
  | .reread head attempts, .relink none =>
    some ({ m with next := update m.next (P.entry w) head }, loop head attempts)
  | .attempting _ _, .compareAndPublish (some e) => some (m, .returned (.error (.cell e)))
  | .refused _, .reread (some e) => some (m, .returned (.error (.cell e)))
  | .reread _ _, .relink (some e) => some (m, .returned (.error (.cell e)))
  | _, _ => none

/-- The original chain, and no writer has begun. -/
def start (P : Prepends Writer) : Threads Writer (ChainCell Writer) (Phase E) :=
  ⟨{ head := P.head, next := P.next, published := [] }, fun _ => .idle⟩

/-- The published entries, the last one first, and then the original chain. -/
def chain (P : Prepends Writer) (m : ChainCell Writer) : List Nat :=
  m.published.map (fun r => P.entry r.1) ++ P.original

/-! ## The proof outline -/

/-- What the cell promises. -/
structure CellOk (P : Prepends Writer) (m : ChainCell Writer) : Prop where
  spells : Spells m.next nullId m.head (P.chain m)
  displaced : ∀ r ∈ m.published, m.next (P.entry r.1) = r.2
  nodup : (m.published.map Prod.fst).Nodup

/-- What a writer knows. -/
structure WriterOk (P : Prepends Writer) (m : ChainCell Writer) (w : Writer) (p : Phase E) :
    Prop where
  published_iff : ∀ d, (w, d) ∈ m.published ↔ p = .returned (.ok d)
  linked : ∀ head attempts, p = .attempting head attempts → m.next (P.entry w) = head

variable {P : Prepends Writer} {m m' : ChainCell Writer} {w u : Writer} {p p' q : Phase E}
  {a : Action E} {head d : Nat}

lemma entry_mem_chain : P.entry w ∈ P.chain m ↔ w ∈ m.published.map Prod.fst := by
  constructor
  · intro h
    rcases mem_append.1 h with h | h
    · obtain ⟨r, hr, hentry⟩ := mem_map.1 h
      exact mem_map.2 ⟨r, hr, P.entry_injective hentry⟩
    · exact absurd h (P.entry_private w)
  · intro h
    obtain ⟨r, hr, rfl⟩ := mem_map.1 h
    exact mem_append_left _ (mem_map.2 ⟨r, hr, rfl⟩)

/-- A writer whose call has not returned a head has a private entry. -/
lemma WriterOk.not_published (h : WriterOk P m w p) (hp : ∀ d, p ≠ .returned (.ok d)) :
    w ∉ m.published.map Prod.fst := by
  intro hw
  obtain ⟨⟨w', d⟩, hr, rfl⟩ := mem_map.1 hw
  exact hp d ((h.published_iff d).1 hr)

lemma CellOk.nodup_chain (h : CellOk P m) : (P.chain m).Nodup := by
  refine nodup_append.2 ⟨?_, P.original_nodup, ?_⟩
  · have hmap := h.nodup.map P.entry_injective
    rwa [map_map] at hmap
  · rintro x hx y hy rfl
    obtain ⟨r, -, rfl⟩ := mem_map.1 hx
    exact P.entry_private r.1 hy

/-- Writing the link of a private entry. -/
lemma CellOk.link (h : CellOk P m) (hw : w ∉ m.published.map Prod.fst) (head : Nat) :
    CellOk P { m with next := update m.next (P.entry w) head } where
  spells := h.spells.update (fun hmem => hw (entry_mem_chain.1 hmem)) head
  displaced r hr := by
    have hne : P.entry r.1 ≠ P.entry w := fun heq => hw (mem_map.2 ⟨r, hr, P.entry_injective heq⟩)
    exact (update_of_ne hne _ _).trans (h.displaced r hr)
  nodup := h.nodup

/-- Publishing a private entry that is linked to the head. -/
lemma CellOk.publish (h : CellOk P m) (hw : w ∉ m.published.map Prod.fst)
    (hlinked : m.next (P.entry w) = m.head) :
    CellOk P { m with head := P.entry w, published := (w, m.head) :: m.published } where
  spells := by
    refine ⟨rfl, P.entry_ne_null w, ?_⟩
    rw [hlinked]
    exact h.spells
  displaced r hr := by
    rcases mem_cons.1 hr with rfl | hr
    · exact hlinked
    · exact h.displaced r hr
  nodup := nodup_cons.2 ⟨hw, h.nodup⟩

/-- The writer's phase may change when neither phase is a success nor an attempt. -/
lemma WriterOk.move (h : WriterOk P m w p) (hp : ∀ d, p ≠ .returned (.ok d))
    (hok : ∀ d, p' ≠ .returned (.ok d))
    (hattempt : ∀ head attempts, p' ≠ .attempting head attempts) :
    WriterOk P m w p' where
  published_iff d := by rw [h.published_iff d, iff_false_intro (hp d), iff_false_intro (hok d)]
  linked head attempts hp' := absurd hp' (hattempt head attempts)

lemma loop_ne_ok (attempts : Nat) : (loop head attempts : Phase E) ≠ .returned (.ok d) := by
  cases attempts <;> exact nofun

lemma head_of_loop {attempts head' attempts' : Nat}
    (h : (loop head attempts : Phase E) = .attempting head' attempts') : head = head' := by
  cases attempts with
  | zero => cases h
  | succ n =>
    cases h
    rfl

section

variable (h : WriterOk P m w p) (hp : ∀ d, p ≠ .returned (.ok d))

include h hp

/-- Linking the entry to the head that the next attempt expects. -/
lemma WriterOk.link (head attempts : Nat) :
    WriterOk P { m with next := update m.next (P.entry w) head } w
    (loop head attempts : Phase E) where
  published_iff d := (h.published_iff d).trans
    ⟨fun hd => absurd hd (hp d), fun hd => absurd hd (loop_ne_ok attempts)⟩
  linked _ _ hp' := (update_self _ _ _).trans (head_of_loop hp')

lemma WriterOk.publish :
    WriterOk P { m with head := P.entry w, published := (w, m.head) :: m.published } w
      (.returned (.ok m.head) : Phase E) where
  published_iff d := by
    constructor
    · intro hd
      rcases mem_cons.1 hd with hd | hd
      · cases hd
        rfl
      · exact absurd ((h.published_iff d).1 hd) (hp d)
    · rintro hd
      cases hd
      exact mem_cons_self
  linked := nofun

end

/-- What an action of `w` does, by its cases. -/
inductive Acts (P : Prepends Writer) (w : Writer) (m : ChainCell Writer) :
    Phase E → ChainCell Writer → Phase E → Prop
  | observe : Acts P w m .idle m (.observed m.head)
  | link {p : Phase E} {head : Nat} (attempts : Nat) (hp : ∀ d, p ≠ .returned (.ok d)) :
      Acts P w m p { m with next := update m.next (P.entry w) head } (loop head attempts)
  | publish {attempts : Nat} : Acts P w m (.attempting m.head attempts)
      { m with head := P.entry w, published := (w, m.head) :: m.published }
      (.returned (.ok m.head))
  | refused {head attempts : Nat} : Acts P w m (.attempting head attempts) m (.refused attempts)
  | reread {attempts : Nat} : Acts P w m (.refused attempts) m (.reread m.head attempts)
  | fault {p : Phase E} {e : E} (hp : ∀ d, p ≠ .returned (.ok d)) :
      Acts P w m p m (.returned (.error (.cell e)))

lemma acts_of_act (h : P.act w m p a = some (m', p')) : Acts P w m p m' p' := by
  unfold act at h
  split at h
  case h_1 => cases h; exact .observe
  case h_2 => cases h; exact .link maxAttempts nofun
  case h_3 =>
    split at h
    case isTrue hhead => cases h; cases hhead; exact .publish
    case isFalse => cases h; exact .refused
  case h_4 => cases h; exact .reread
  case h_5 head attempts => cases h; exact .link attempts nofun
  case h_6 | h_7 | h_8 => cases h; exact .fault nofun
  case h_9 => cases h

/-- What another writer knows survives a link written in a private entry. -/
lemma WriterOk.link_of_ne (h : WriterOk P m u q) (hu : u ≠ w) (head : Nat) :
    WriterOk P { m with next := update m.next (P.entry w) head } u q :=
  { h with
    linked head' attempts hq :=
      (update_of_ne (P.entry_injective.ne hu) _ _).trans (h.linked head' attempts hq) }

/-- The assertions of the writers and of the cell they share. -/
def outline (P : Prepends Writer) : Threads.Outline (@act Writer E P) where
  memory _ := CellOk P
  thread _ := WriterOk P
  own {_ m w p a m' p'} hm hw hact := by
    cases acts_of_act hact with
    | observe | refused | reread => exact ⟨hm, hw.move nofun nofun nofun⟩
    | link attempts hp => exact ⟨hm.link (hw.not_published hp) _, hw.link hp _ attempts⟩
    | publish =>
      exact ⟨hm.publish (hw.not_published nofun) (hw.linked _ _ rfl), hw.publish nofun⟩
    | fault hp => exact ⟨hm, hw.move hp nofun nofun⟩
  free {_ m w p a m' p' u q} _ _ hact hu h := by
    cases acts_of_act hact with
    | observe | refused | reread | fault => exact h
    | link => exact h.link_of_ne hu _
    | publish =>
      refine { h with published_iff d := ?_ }
      rw [← h.published_iff d, mem_cons, Prod.mk.injEq]
      exact or_iff_right fun hd => hu hd.1

lemma outline_start : (outline P).Holds [] (start P : Threads _ _ (Phase E)) :=
  ⟨⟨P.original_spells, by simp [start], by simp [start]⟩,
    fun _ => ⟨fun _ => ⟨fun h => absurd h not_mem_nil, nofun⟩, nofun⟩⟩

variable [DecidableEq Writer] {tr : List (Writer × Action E)}
  {s : Threads Writer (ChainCell Writer) (Phase E)}

/-- **The chain is the published entries in front of the original ones.** -/
theorem prepends_linearize (P : Prepends Writer)
    (hrun : Run.exec (Threads.step P.act) P.start tr = some s) :
    (∀ fuel, (P.chain s.shared).length ≤ fuel → walk s.shared.next nullId fuel s.shared.head =
      P.chain s.shared) ∧
    (P.chain s.shared).Nodup ∧
    (∀ w d, s.phase w = .returned (.ok d) ↔ (w, d) ∈ s.shared.published) ∧
    (∀ w d, s.phase w = .returned (.ok d) → s.shared.next (P.entry w) = d) ∧
    (s.shared.published.map Prod.snd).Nodup ∧
    ∀ w e, s.phase w = .returned (.error e) → P.entry w ∉ P.chain s.shared := by
  obtain ⟨hcell, hwriter⟩ := P.outline.exec outline_start hrun
  have hiff : ∀ w d, s.phase w = .returned (.ok d) ↔ (w, d) ∈ s.shared.published :=
    fun w d => ((hwriter w).published_iff d).symm
  refine ⟨hcell.spells.walk_eq, hcell.nodup_chain, hiff, fun w d hw => ?_, ?_, fun w e hw => ?_⟩
  · exact hcell.displaced (w, d) ((hiff w d).1 hw)
  · -- The displaced heads are the successors of the published entries.
    have hsucc := hcell.spells.nodup_map_next hcell.nodup_chain
    rw [chain, map_append, map_map] at hsucc
    have hdisplaced : s.shared.published.map Prod.snd =
        s.shared.published.map (s.shared.next ∘ fun r => P.entry r.1) :=
      map_congr_left fun r hr => (hcell.displaced r hr).symm
    rw [hdisplaced]
    exact (nodup_append.1 hsucc).1
  · rw [entry_mem_chain]
    exact (hwriter w).not_published fun d hd => nomatch hd.symm.trans hw

/-- Writers `1` and `2` on a chain of one entry. -/
def twoWriters : Prepends (Fin 2) where
  head := 7
  next _ := nullId
  original := [7]
  original_spells := ⟨rfl, by decide, rfl⟩
  original_nodup := by decide
  entry w := w.val + 1
  entry_injective _ _ h := Fin.ext (Nat.succ.inj h)
  entry_ne_null := by decide
  entry_private := by decide

/-- Both writers read the same head, and one of them has to retry. -/
def lostRace : List (Fin 2 × Action Unit) :=
  [(0, .observe), (1, .observe), (0, .link), (1, .link), (1, .compareAndPublish none),
    (0, .compareAndPublish none), (0, .reread none), (0, .relink none),
    (0, .compareAndPublish none)]

theorem prepends_linearize_lostRace :
    ∃ s ∈ Run.exec (Threads.step twoWriters.act) twoWriters.start lostRace,
      s.phase 0 = .returned (.ok 2) ∧ s.phase 1 = .returned (.ok 7) ∧
      walk s.shared.next nullId 3 s.shared.head = [1, 2, 7] := by
  obtain ⟨s, hs, h0, h1, hpub⟩ :
    ∃ s ∈ Run.exec (Threads.step twoWriters.act) twoWriters.start lostRace,
        s.phase 0 = .returned (.ok 2) ∧ s.phase 1 = .returned (.ok 7) ∧
        s.shared.published = [(0, 2), (1, 7)] := by
    decide +kernel
  have hchain : twoWriters.chain s.shared = [1, 2, 7] := by rw [chain, hpub]; rfl
  have hwalk := (prepends_linearize twoWriters hs).1 3 (by rw [hchain]; decide)
  exact ⟨s, hs, h0, h1, by rw [hwalk, hchain]⟩

end Prepends

end Graphus
