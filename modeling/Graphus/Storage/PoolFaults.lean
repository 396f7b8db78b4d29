import Graphus.Lib.Run

/-!
# Failing pool operations

The buffer pool over a device, a doublewrite area and a log whose calls may fail. An operation is
given with the outcomes of the calls it makes, so an error can strike wherever the source returns
one. `latest` is the history: the bytes of the last completed write to each page.

A load that cannot write its dirty victim back blanks the frame all the same. The victim's bytes are
gone, and its shard entry still leads to the frame, so the page cannot be fetched again
(`failed_load_loses_page`). Nothing else loses a page.

**Theorem (`latest_of_written_victims`).** After every run in which each load writes its victim
back, a fetch of any page returns the bytes of the last completed write to it, and these bytes are
in a dirty frame or at home.

Every frame that holds a page is the one its shard names, has the latest bytes, and is dirty unless
they are at home too; a page in no frame has them at home (`Coherent`).
-/

namespace Graphus.PoolFaults

open Function

structure Frame (Page : Type) where
  pageId : Option Nat
  dirty : Bool
  data : Page
  pins : Nat

/-- The frames, the `Ready` entries of the shards and the images on the device, `none` where none
passes its checksum. -/
structure Pool (Page : Type) where
  frame : Nat → Frame Page
  shard : Nat → Option Nat
  home : Nat → Option Page
  pageCount : Nat
  latest : Nat → Page

/-- How the write of one page to its home goes. -/
inductive HomeWrite where
  | ok
  /-- The log does not cover the page, or it cannot be staged. -/
  | refused
  /-- The device write fails half way. -/
  | torn
  /-- The page is written and the barrier fails. -/
  | unsynced
  deriving DecidableEq

/-- What is at home after the write. -/
def HomeWrite.image {Page : Type} (data : Page) (old : Option Page) : HomeWrite → Option Page
  | .ok | .unsynced => some data
  | .refused => old
  | .torn => none

/-- An operation, with the frame that `select_victim` finds, if it finds one, and the outcomes of
the calls. -/
inductive Op (Page : Type) where
  | fetch (page : Nat) (victim : Option Nat) (write : HomeWrite) (read : Bool)
  | newPage (victim : Option Nat) (write : HomeWrite) (extend : Bool)
  | withPageMut (f : Nat) (data : Page)
  | unpin (f : Nat)
  /-- A batch of frames, or a single one. -/
  | flush (writes : List (Nat × HomeWrite))

variable {Page : Type}

namespace Pool

def setFrame (m : Pool Page) (f : Nat) (frame : Frame Page) : Pool Page :=
  { m with frame := update m.frame f frame }

/-- The image of the page of the frame `f` goes home. -/
def writeHome (m : Pool Page) (f page : Nat) (write : HomeWrite) : Pool Page :=
  { m with home := update m.home page (write.image (m.frame f).data (m.home page)) }

def clean (m : Pool Page) (f : Nat) : Pool Page :=
  m.setFrame f { m.frame f with dirty := false }

/-- Writes dirty frames back, and says whether that went well. They are marked clean once all of the
home writes have succeeded. -/
def writeBack (m : Pool Page) : List (Nat × HomeWrite) → Pool Page × Bool
  | [] => (m, true)
  | (f, write) :: rest =>
    if (m.frame f).dirty then
      match (m.frame f).pageId with
      | none => (m, false)
      | some page =>
        if write = .ok then
          match (m.writeHome f page write).writeBack rest with
          | (m, true) => (m.clean f, true)
          | (m, false) => (m, false)
        else (m.writeHome f page write, false)
    else m.writeBack rest

/-- The frame holds no page any more. -/
def blank (m : Pool Page) (f : Nat) : Pool Page :=
  m.setFrame f { m.frame f with pageId := none, dirty := false }

/-- Forgets the page of a clean frame, and its shard entry. -/
def forget (m : Pool Page) (f : Nat) : Pool Page :=
  match (m.frame f).pageId with
  | none => m
  | some old =>
    { m with shard := if m.shard old = some f then update m.shard old none else m.shard }.setFrame f
      { m.frame f with pageId := none }

def evictHeld (m : Pool Page) (f : Nat) (write : HomeWrite) : Pool Page × Bool :=
  match m.writeBack [(f, write)] with
  | (m, true) => (m.forget f, true)
  | (m, false) => (m, false)

/-- A page is put into a frame that holds none, and the frame is pinned. -/
def install (m : Pool Page) (f page : Nat) (dirty : Bool) (data : Page) : Pool Page :=
  { m with shard := update m.shard page (some f) }.setFrame f
      ⟨some page, dirty, data, (m.frame f).pins + 1⟩

/-- The frame of a page, or an error. An entry whose frame holds another page is tried again until
the retries are used up. -/
def fetch (m : Pool Page) (page : Nat) (victim : Option Nat) (write : HomeWrite) (read : Bool) :
    Pool Page × Option Nat :=
  match m.shard page with
  | some f =>
    if (m.frame f).pageId = some page then
      (m.setFrame f { m.frame f with pins := (m.frame f).pins + 1 }, some f)
    else (m, none)
  | none =>
    match victim with
    | none => (m, none)
    | some f =>
      match m.evictHeld f write with
      -- `load_into` blanks the frame although it still holds the victim's bytes.
      | (m, false) => (m.blank f, none)
      | (m, true) =>
        match (if read = true ∧ page < m.pageCount then m.home page else none) with
        | some data => (m.install f page false data, some f)
        | none => (m.blank f, none)

/-- A fresh page at the end of the device. -/
def newPage (fresh : Nat → Page) (m : Pool Page) (victim : Option Nat) (write : HomeWrite)
    (extend : Bool) : Pool Page × Option Nat :=
  match victim with
  | none => (m, none)
  | some f =>
    match m.evictHeld f write with
    | (m, false) => (m, none)
    | (m, true) =>
      if extend then
        ({ m with
          pageCount := m.pageCount + 1
          latest := update m.latest m.pageCount (fresh m.pageCount) }.install f m.pageCount true
            (fresh m.pageCount), some f)
      else (m, none)

/-- The closure leaves `data` in the frame. -/
def withPageMut (m : Pool Page) (f : Nat) (data : Page) : Pool Page :=
  { m with
    latest page := if (m.frame f).pageId = some page then data else m.latest page }.setFrame f
      { m.frame f with dirty := true, data }

def unpin (m : Pool Page) (f : Nat) : Pool Page :=
  m.setFrame f { m.frame f with pins := (m.frame f).pins - 1 }

/-- One operation. A victim is not pinned, and a caller writes through a pin that it holds. -/
def step (fresh : Nat → Page) (m : Pool Page) : Op Page → Option (Pool Page)
  | .fetch page victim write read =>
    if ∀ f ∈ victim, (m.frame f).pins = 0 then some (m.fetch page victim write read).1 else none
  | .newPage victim write extend =>
    if ∀ f ∈ victim,
      (m.frame f).pins = 0 then some (m.newPage fresh victim write extend).1 else none
  | .withPageMut f data => if 0 < (m.frame f).pins then some (m.withPageMut f data) else none
  | .unpin f => some (m.unpin f)
  | .flush writes => some (m.writeBack writes).1

/-- A load writes its dirty victim back. -/
def VictimWritten (m : Pool Page) : Op Page → Prop
  | .fetch page (some f) write _ => m.shard page = none → (m.frame f).dirty → write = .ok
  | _ => True

instance (m : Pool Page) (op : Op Page) : Decidable (m.VictimWritten op) := by
  unfold VictimWritten
  split <;> infer_instance

/-- A pool as it is opened on a device whose pages are intact. -/
structure Opened (m : Pool Page) : Prop where
  frame : ∀ f, (m.frame f).pageId = none ∧ (m.frame f).dirty = false ∧ (m.frame f).pins = 0
  shard : ∀ page, m.shard page = none
  home : ∀ page < m.pageCount, m.home page = some (m.latest page)

/-- What the pool promises. -/
structure Coherent (m : Pool Page) : Prop where
  shard : ∀ {page f}, m.shard page = some f → (m.frame f).pageId = some page
  holds : ∀ {f page}, (m.frame f).pageId = some page → m.shard page = some f ∧ page < m.pageCount ∧
    (m.frame f).data = m.latest page ∧
    ((m.frame f).dirty = false → m.home page = some (m.latest page))
  home : ∀ {page}, page < m.pageCount → m.shard page = none → m.home page = some (m.latest page)
  empty : ∀ {f}, (m.frame f).pageId = none → (m.frame f).dirty = false ∧ (m.frame f).pins = 0

variable {fresh : Nat → Page} {m m' : Pool Page} {f page n : Nat} {write : HomeWrite} {b : Bool}
  {l : Nat → Page}

@[simp] lemma setFrame_self {frame : Frame Page} : (m.setFrame f frame).frame f = frame :=
  update_self _ _ _

/-- What a write-back leaves alone. -/
structure Same (m m' : Pool Page) : Prop where
  shard : m'.shard = m.shard
  pageCount : m'.pageCount = m.pageCount
  latest : m'.latest = m.latest
  frame : ∀ g, (m'.frame g).pageId = (m.frame g).pageId ∧ (m'.frame g).pins = (m.frame g).pins

lemma Same.refl : Same m m := ⟨rfl, rfl, rfl, fun _ => ⟨rfl, rfl⟩⟩

lemma Same.clean (h : Same m m') : Same m (m'.clean f) :=
  { h with
    frame g := by
      rcases eq_or_ne g f with rfl | hg
      · simpa [clean] using h.frame g
      · simpa [Pool.clean, setFrame, hg] using h.frame g }

namespace Coherent

section

variable (h : Coherent m)

include h

section

variable (hf : (m.frame f).pageId = some page)

include hf

/-- The write of a dirty page home, whatever comes of it: no other frame has the page. -/
lemma writeHome (hd : (m.frame f).dirty = true) :
    Coherent (m.writeHome f page write) := by
  obtain ⟨hshard, hholds, hhome, hempty⟩ := h
  constructor <;> dsimp only [Pool.writeHome] <;> grind [update_apply]

/-- A change of one frame that holds a page, with what is then the latest of that page. -/
lemma setFrame {frame : Frame Page} (hpage : frame.pageId = some page)
    (hl : ∀ p ≠ page, l p = m.latest p) (hdata : frame.data = l page)
    (hclean : frame.dirty = false → m.home page = some (l page)) :
    Coherent ({ m with latest := l }.setFrame f frame) := by
  obtain ⟨hshard, hholds, hhome, hempty⟩ := h
  constructor <;> dsimp only [Pool.setFrame] <;> grind [update_apply]

lemma clean (hhome : m.home page = some (m.frame f).data) :
    Coherent (m.clean f) :=
  h.setFrame hf hf (fun _ _ => rfl) (h.holds hf).2.2.1 fun _ => (h.holds hf).2.2.1 ▸ hhome

end

lemma setPins (hn : (m.frame f).pageId = none → n = 0) :
    Coherent (m.setFrame f { m.frame f with pins := n }) := by
  cases hf : (m.frame f).pageId with
  | some page => exact h.setFrame hf hf (fun _ _ => rfl) (h.holds hf).2.2.1 (h.holds hf).2.2.2
  | none =>
    have hsame : { m.frame f with pins := n } = m.frame f := by rw [hn hf, ← (h.empty hf).2]
    rw [hsame, Pool.setFrame, update_eq_self]
    exact h

/-- Pages that are at home stay there unless an error leaves them dirty. -/
lemma writeBack {writes : List (Nat × HomeWrite)} (he : m.writeBack writes = (m', b)) :
    Coherent m' ∧ Same m m' ∧
      (b = true → ∀ p, m.home p = some (m.latest p) → m'.home p = some (m.latest p)) := by
  induction writes generalizing m m' b with
  | nil =>
    cases he
    exact ⟨h, .refl, fun _ _ hp => hp⟩
  | cons w rest ih =>
    obtain ⟨f, write⟩ := w
    unfold writeBack at he
    split at he
    · rename_i hd
      split at he
      · cases he
        exact ⟨h, .refl, fun hb => by cases hb⟩
      rename_i page hf
      have hw : Coherent (m.writeHome f page write) := h.writeHome hf hd
      split at he
      · rename_i hok
        subst hok
        have hhome : ∀ p, p = page ∨ m.home p = some (m.latest p) →
            (m.writeHome f page .ok).home p = some (m.latest p) := fun p hp => by
          rcases eq_or_ne p page with rfl | hne
          · rw [← (h.holds hf).2.2.1]
            exact update_self _ _ _
          · exact (update_of_ne hne _ _).trans (hp.resolve_left hne)
        split at he
        · rename_i n hrest
          obtain ⟨hn, hsame, hkept⟩ := ih hw hrest
          have hf' := (hsame.frame f).1.trans hf
          cases he
          refine ⟨hn.clean hf' ?_, Same.clean { hsame with }, fun _ p hp =>
            hkept rfl p (hhome p (.inr hp))⟩
          rw [(hn.holds hf').2.2.1, hsame.latest]
          exact hkept rfl page (hhome page (.inl rfl))
        · rename_i n hrest
          obtain ⟨hn, hsame, -⟩ := ih hw hrest
          cases he
          exact ⟨hn, { hsame with }, fun hb => by cases hb⟩
      · cases he
        exact ⟨hw, { Same.refl (m := m) with }, fun hb => by cases hb⟩
    · exact ih h he

/-- A clean page that nobody has pinned is forgotten. -/
lemma forget (hd : (m.frame f).dirty = false) (hpins : (m.frame f).pins = 0) :
    Coherent (m.forget f) ∧ ((m.forget f).frame f).pageId = none ∧
      (m.forget f).pageCount = m.pageCount ∧ (m.forget f).latest = m.latest ∧
      ∀ page, m.shard page = none → (m.forget f).shard page = none := by
  unfold Pool.forget
  split
  · rename_i hf
    exact ⟨h, hf, rfl, rfl, fun _ hnone => hnone⟩
  rename_i old hf
  obtain ⟨hshard, hholds, hhome, hempty⟩ := h
  rw [if_pos (hholds hf).1]
  refine ⟨?_, by simp, rfl, rfl, fun page hnone => ?_⟩
  · constructor <;> dsimp only [Pool.setFrame] <;> grind [update_apply]
  · rcases eq_or_ne page old with rfl | hp
    · exact update_self _ _ _
    · exact (update_of_ne hp _ _).trans hnone

lemma evictHeld (hpins : (m.frame f).pins = 0) (he : m.evictHeld f write = (m', b)) :
    Coherent m' ∧ m'.pageCount = m.pageCount ∧ m'.latest = m.latest ∧
      (∀ page, m.shard page = none → m'.shard page = none) ∧
      (b = true → (m'.frame f).pageId = none) := by
  unfold Pool.evictHeld at he
  split at he
  · rename_i n hwb
    obtain ⟨hn, hsame, -⟩ := h.writeBack hwb
    have hclean : (n.frame f).dirty = false := by
      simp only [Pool.writeBack] at hwb
      split at hwb
      · split at hwb
        · cases hwb
        · split at hwb <;> cases hwb
          simp [Pool.clean]
      · rename_i hd
        cases hwb
        simpa using hd
    cases he
    obtain ⟨hc, hnone, hcount, hlatest, hs⟩ := hn.forget hclean ((hsame.frame f).2.trans hpins)
    exact ⟨hc, hcount.trans hsame.pageCount, hlatest.trans hsame.latest,
      fun page hnone => hs page (hsame.shard ▸ hnone), fun _ => hnone⟩
  · rename_i n hwb
    obtain ⟨hn, hsame, -⟩ := h.writeBack hwb
    cases he
    exact ⟨hn, hsame.pageCount, hsame.latest, fun page hnone => hsame.shard ▸ hnone,
      fun hb => by cases hb⟩

lemma blank (hf : (m.frame f).pageId = none) : m.blank f = m := by
  have hsame : { m.frame f with pageId := none, dirty := false } = m.frame f := by
    rw [← hf, ← (h.empty hf).1]
  rw [Pool.blank, hsame, Pool.setFrame, update_eq_self]

/-- A page comes into an empty frame, with `latest` and the number of pages as they are then. -/
lemma install (hf : (m.frame f).pageId = none) (hs : m.shard page = none)
    (hn : ∀ p ≠ page, (p < n ↔ p < m.pageCount) ∧ l p = m.latest p) (hpage : page < n)
    (hclean : b = false → m.home page = some (l page)) :
    Coherent ({ m with pageCount := n, latest := l }.install f page b (l page)) := by
  obtain ⟨hshard, hholds, hhome, hempty⟩ := h
  constructor <;> dsimp only [Pool.install, Pool.setFrame] <;> grind [update_apply]

/-- A victim that is written back is evicted. -/
lemma evictHeld_ok (hw : (m.frame f).dirty → write = .ok) : (m.evictHeld f write).2 = true := by
  unfold Pool.evictHeld Pool.writeBack
  split
  · rfl
  rename_i he
  split at he
  · rename_i hd
    rw [hw hd] at he
    split at he
    · rename_i hf
      cases hd.symm.trans (h.empty hf).1
    · cases he
  · cases he

lemma fetch {v : Option Nat} {read : Bool} (hpins : ∀ f ∈ v, (m.frame f).pins = 0)
    (hw : m.VictimWritten (.fetch page v write read)) :
    Coherent (m.fetch page v write read).1 ∧ (page < m.pageCount → v ≠ none → read = true → ∃ f,
        (m.fetch page v write read).2 = some f ∧
        ((m.fetch page v write read).1.frame f).pageId = some page ∧
        ((m.fetch page v write read).1.frame f).data = m.latest page) := by
  unfold Pool.fetch
  split
  · rename_i g hs
    have hg := h.shard hs
    rw [if_pos hg]
    refine ⟨h.setPins fun hnone => (by cases hnone.symm.trans hg), fun _ _ _ => ⟨g, rfl, ?_⟩⟩
    rw [setFrame_self]
    exact ⟨hg, (h.holds hg).2.2.1⟩
  · rename_i hs
    split
    · exact ⟨h, fun _ hv => absurd rfl hv⟩
    rename_i g
    have hok := h.evictHeld_ok (hw hs)
    split
    · rename_i he
      cases he ▸ hok
    rename_i n he
    obtain ⟨hn, hcount, hlatest, hshard, hnone⟩ := h.evictHeld (hpins g rfl) he
    have hhome : page < n.pageCount → n.home page = some (n.latest page) := fun hlt =>
      hn.home hlt (hshard page hs)
    split
    · rename_i data hdata
      obtain ⟨⟨-, hlt⟩, hdata⟩ := Option.ite_none_right_eq_some.1 hdata
      cases (hhome hlt).symm.trans hdata
      refine ⟨hn.install (hnone rfl) (hshard page hs) (fun _ _ => ⟨.rfl, rfl⟩) hlt fun _ => hdata,
        fun _ _ _ => ⟨g, rfl, ?_⟩⟩
      rw [Pool.install, setFrame_self]
      exact ⟨rfl, congrFun hlatest page⟩
    · rename_i hfail
      rw [hn.blank (hnone rfl)]
      refine ⟨hn, fun hlt _ hread => ?_⟩
      have hlt := hcount ▸ hlt
      cases ((if_pos ⟨hread, hlt⟩).trans (hhome hlt)).symm.trans hfail

lemma newPage {v : Option Nat} {extend : Bool} (hpins : ∀ f ∈ v, (m.frame f).pins = 0) :
    Coherent (m.newPage fresh v write extend).1 := by
  unfold Pool.newPage
  split
  · exact h
  rename_i g
  split
  · rename_i n he
    exact (h.evictHeld (hpins g rfl) he).1
  rename_i n he
  obtain ⟨hn, -, -, -, hnone⟩ := h.evictHeld (hpins g rfl) he
  split
  · have hs : n.shard n.pageCount = none := by
      cases hs : n.shard n.pageCount with
      | none => rfl
      | some k => exact absurd (hn.holds (hn.shard hs)).2.1 (Nat.lt_irrefl _)
    have hnew := hn.install (b := true) (n := n.pageCount + 1)
      (l := update n.latest n.pageCount (fresh n.pageCount)) (hnone rfl) hs
      (fun p hp => ⟨by omega, update_of_ne hp _ _⟩) (Nat.lt_succ_self _) fun hb => by cases hb
    rwa [update_self] at hnew
  · exact hn

lemma withPageMut (hpins : 0 < (m.frame f).pins) {data : Page} :
    Coherent (m.withPageMut f data) := by
  unfold Pool.withPageMut
  cases hf : (m.frame f).pageId with
  | none => exact absurd (h.empty hf).2 (Nat.ne_of_gt hpins)
  | some page =>
    refine h.setFrame hf hf (fun p hp => if_neg fun h => ?_) (if_pos rfl).symm fun hd => by cases hd
    exact hp (Option.some.inj h).symm

lemma step {op : Op Page} (hw : m.VictimWritten op) (hs : m.step fresh op = some m') :
    Coherent m' := by
  cases op with
  | fetch page victim write read =>
    obtain ⟨hpins, rfl⟩ := Run.guarded hs
    exact (h.fetch hpins hw).1
  | newPage victim write extend =>
    obtain ⟨hpins, rfl⟩ := Run.guarded hs
    exact h.newPage hpins
  | withPageMut f data =>
    obtain ⟨hpins, rfl⟩ := Run.guarded hs
    exact h.withPageMut hpins
  | unpin f =>
    cases hs
    exact h.setPins fun hnone => by rw [(h.empty hnone).2]
  | flush writes =>
    cases hs
    exact (h.writeBack rfl).1

end

end Coherent

lemma Opened.coherent (h : Opened m) : Coherent m where
  shard hs := by cases (h.shard _).symm.trans hs
  holds hf := by cases (h.frame _).1.symm.trans hf
  home hlt _ := h.home _ hlt
  empty _ := (h.frame _).2

/-- **A failed operation loses nothing if loads write their victims back.** -/
theorem latest_of_written_victims {m0 s : Pool Page} {ops : List (Op Page)} (hopen : Opened m0)
    (hw : Run.Along (step fresh) VictimWritten m0 ops)
    (hrun : Run.exec (step fresh) m0 ops = some s)
    (hlt : page < s.pageCount) :
    (∀ f, (s.frame f).pins = 0 → ∃ g, (s.fetch page (some f) .ok true).2 = some g ∧
      ((s.fetch page (some f) .ok true).1.frame g).pageId = some page ∧
      ((s.fetch page (some f) .ok true).1.frame g).data = s.latest page) ∧
    (s.home page = some (s.latest page) ∨ ∃ f, (s.frame f).pageId = some page ∧
      (s.frame f).dirty = true ∧ (s.frame f).data = s.latest page) := by
  have h : Coherent s :=
    Run.exec_preserves (fun hi hc hs => Coherent.step hi hc hs) hopen.coherent hw hrun
  constructor
  · intro f hpins
    refine (h.fetch (v := some f) (fun g hg => ?_) fun _ _ => rfl).2 hlt (by simp) rfl
    cases hg
    exact hpins
  · cases hs : s.shard page with
    | none => exact .inl (h.home hlt hs)
    | some f =>
      have hf := h.shard hs
      obtain ⟨-, -, hdata, hhome⟩ := h.holds hf
      cases hd : (s.frame f).dirty with
      | false => exact .inl (hhome hd)
      | true => exact .inr ⟨f, hf, hd, hdata⟩

/-- A device of two pages and an empty pool. -/
def twoPages : Pool Nat :=
  ⟨fun _ => ⟨none, false, 0, 0⟩, fun _ => none, fun _ => some 0, 2, fun _ => 0⟩

/-- A write of page 0, a flush that tears it, and a load that evicts the page and then fails. -/
def failingRead : List (Op Nat) :=
  [.fetch 0 (some 0) .ok true, .withPageMut 0 7, .flush [(0, .torn)], .unpin 0,
    .fetch 1 (some 0) .ok false]

theorem latest_after_failed_read : ∃ s, Run.exec (step id) twoPages failingRead = some s ∧
    ∃ g, (s.fetch 0 (some 1) .ok true).2 = some g ∧
    ((s.fetch 0 (some 1) .ok true).1.frame g).data = 7 := by
  have hopen : Opened twoPages := ⟨fun _ => ⟨rfl, rfl, rfl⟩, fun _ => rfl, fun _ _ => rfl⟩
  refine ⟨_, rfl, ?_⟩
  obtain ⟨g, hg, -, hdata⟩ := (latest_of_written_victims hopen (by decide)
    (rfl : Run.exec (step id) twoPages failingRead = _) Nat.two_pos).1 1 rfl
  exact ⟨g, hg, hdata⟩

/-- The same load cannot write page 0 back. The write is lost, and the page cannot be fetched. -/
theorem failed_load_loses_page : ∃ s,
    Run.exec (step id) twoPages [.fetch 0 (some 0) .ok true, .withPageMut 0 7, .unpin 0,
      .fetch 1 (some 0) .refused true] = some s ∧ s.latest 0 = 7 ∧ s.home 0 = some 0 ∧
    (s.frame 0).pageId = none ∧ (s.fetch 0 (some 1) .ok true).2 = none :=
  ⟨_, rfl, rfl, rfl, rfl, rfl⟩

end Pool

end Graphus.PoolFaults
