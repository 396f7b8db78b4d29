import Graphus.Storage.Doublewrite

/-!
# Repairing torn pages

What `recover_home` does to two devices, with no assumption on how they came about. The copies it
gathers are sound (`gather_sound`): a candidate is an image of its home page that the doublewrite
device holds. A copy that a durable header names, and that the floor does not gate out, is gathered
or superseded by a newer one (`gather_covers`).

**Theorem (`recoverHome_ok`).** If every torn home page is covered, the recovery succeeds. It leaves
the whole home pages as they are, and each torn one as an image of the page that is no older than
the copy that covers it.
-/

namespace Graphus.Dwb

open Function List

variable {α : Type} {dwb : Nat → DwbPage α} {floor : Nat} {floorGated : Bool} {g : Gathered α}
  {homeId slot p lsn i : Nat} {copy : Image α}

/-! ## Gathering -/

/-- Candidates are copies of their home pages. -/
def Gathered.Sound (dwb : Nat → DwbPage α) (g : Gathered α) : Prop :=
  ∀ p c, g.candidates.lookup p = some c → c.pageId = p ∧ ∃ x, dwb x = .image c

/-- A home page is named, and has a candidate that is no older. -/
def Gathered.Covers (g : Gathered α) (p lsn : Nat) : Prop :=
  p ∈ g.named ∧ ∃ c, g.candidates.lookup p = some c ∧ lsn ≤ c.lsn

/-- A candidate is added. -/
lemma Gathered.Sound.insert (hg : g.Sound dwb) (hslot : dwb slot = .image copy)
    (hid : copy.pageId = homeId) {named corrupt : List Nat} :
    Gathered.Sound dwb ⟨g.candidates.insert homeId copy, named, corrupt⟩ := by
  intro p c hc
  rcases Dict.of_lookup_insert hc with ⟨rfl, rfl⟩ | ⟨-, hc⟩
  · exact ⟨hid, slot, hslot⟩
  · exact hg p c hc

lemma Gathered.Sound.gatherCopy (hg : g.Sound dwb) (homeId slot : Nat) :
    (gatherCopy dwb floor floorGated g homeId slot).Sound dwb := by
  unfold Dwb.gatherCopy
  split
  · next copy hslot =>
    by_cases hid : copy.pageId ≠ homeId
    · rw [if_pos hid]
      exact hg
    rw [if_neg hid]
    have hid : copy.pageId = homeId := Classical.not_not.1 hid
    split
    · exact hg
    split
    · split
      · exact hg
      · exact hg.insert hslot hid
    · exact hg.insert hslot hid
  all_goals exact hg

lemma gatherCopy_named : p ∈ (gatherCopy dwb floor floorGated g homeId slot).named ↔ p = homeId ∨
    p ∈ g.named := by
  unfold gatherCopy
  dsimp only
  split
  · split
    · exact mem_insert_iff
    · split
      · exact mem_insert_iff
      · split
        · split <;> exact mem_insert_iff
        · exact mem_insert_iff
  all_goals exact mem_insert_iff

/-- A candidate is replaced by newer ones only. -/
lemma Gathered.Covers.gatherCopy (hg : g.Covers p lsn) :
    (gatherCopy dwb floor floorGated g homeId slot).Covers p lsn := by
  refine ⟨gatherCopy_named.2 (.inr hg.1), ?_⟩
  obtain ⟨c, hc, hle⟩ := hg.2
  unfold Dwb.gatherCopy
  dsimp only
  split
  · next copy _ =>
    split
    · exact ⟨c, hc, hle⟩
    split
    · exact ⟨c, hc, hle⟩
    split
    · next best hbest =>
      split
      · exact ⟨c, hc, hle⟩
      next hnewer =>
      by_cases hp : p = homeId
      · subst hp
        have hsame : best = c := Option.mem_unique hbest hc
        refine ⟨copy, AList.lookup_insert _, ?_⟩
        rw [hsame] at hnewer
        omega
      · exact ⟨c, by rw [Dict.lookup_insert, if_neg hp]; exact hc, hle⟩
    · next hnone =>
      have hp : p ≠ homeId := by
        rintro rfl
        cases hnone.symm.trans hc
      exact ⟨c, by rw [Dict.lookup_insert, if_neg hp]; exact hc, hle⟩
  all_goals exact ⟨c, hc, hle⟩

/-- A copy that is looked at is gathered, or superseded. -/
lemma gatherCopy_covers (hslot : dwb slot = .image copy) (hid : copy.pageId = homeId)
    (hfloor : floorGated = true → floor ≤ copy.lsn) :
    (gatherCopy dwb floor floorGated g homeId slot).Covers homeId copy.lsn := by
  refine ⟨gatherCopy_named.2 (.inl rfl), ?_⟩
  unfold gatherCopy
  rw [hslot]
  dsimp only
  rw [if_neg (fun h => h hid), if_neg (fun h => absurd (hfloor h.1) (Nat.not_le_of_lt h.2))]
  split
  · next best hbest =>
    split
    · next hle => exact ⟨best, hbest, hle⟩
    · exact ⟨copy, AList.lookup_insert _, le_rfl⟩
  · exact ⟨copy, AList.lookup_insert _, le_rfl⟩

variable {region : Region} {homes : List Nat}

lemma Gathered.Sound.gatherHomes (hg : g.Sound dwb) :
    (gatherHomes dwb floor region floorGated g i homes).Sound dwb := by
  induction homes generalizing g i with
  | nil => exact hg
  | cons homeId homes ih => exact ih (hg.gatherCopy homeId _)

lemma Gathered.Covers.gatherHomes (hg : g.Covers p lsn) :
    (gatherHomes dwb floor region floorGated g i homes).Covers p lsn := by
  induction homes generalizing g i with
  | nil => exact hg
  | cons homeId homes ih => exact ih hg.gatherCopy

lemma gatherHomes_covers {j : Nat} (hj : homes[j]? = some copy.pageId)
    (hslot : dwb (region.firstDataSlot + (i + j)) = .image copy)
    (hfloor : floorGated = true → floor ≤ copy.lsn) :
    (gatherHomes dwb floor region floorGated g i homes).Covers copy.pageId copy.lsn := by
  induction homes generalizing g i j with
  | nil => cases hj
  | cons homeId homes ih =>
    cases j with
    | zero =>
      cases hj
      exact (gatherCopy_covers hslot rfl hfloor).gatherHomes
    | succ j =>
      refine ih hj ?_
      rw [show i + 1 + j = i + (j + 1) by omega]
      exact hslot

lemma Gathered.Sound.gatherRegion (hg : g.Sound dwb) (r : Region × Bool) :
    (gatherRegion dwb floor g r).Sound dwb := by
  unfold Dwb.gatherRegion
  split
  · exact hg
  · exact hg.gatherHomes

lemma Gathered.Covers.gatherRegion (hg : g.Covers p lsn) (r : Region × Bool) :
    (gatherRegion dwb floor g r).Covers p lsn := by
  unfold Dwb.gatherRegion
  split
  · exact hg
  · exact hg.gatherHomes

lemma gather_sound (dwb : Nat → DwbPage α) : (gather dwb).Sound dwb := by
  have hfold : ∀ (rs : List (Region × Bool)) (g : Gathered α), g.Sound dwb →
      (rs.foldl (gatherRegion dwb (readFloor dwb)) g).Sound dwb := by
    intro rs
    induction rs with
    | nil => exact fun g hg => hg
    | cons r rs ih => exact fun g hg => ih _ (hg.gatherRegion r)
  exact hfold regions {} nofun

/-- **A copy that a header names is gathered, or superseded.** -/
lemma gather_covers {r : Region × Bool} (hr : r ∈ regions) {f j : Nat}
    (hheader : decodeHeader (dwb r.1.headerSlot) = some (homes, f))
    (hj : homes[j]? = some copy.pageId)
    (hslot : dwb (r.1.firstDataSlot + j) = .image copy)
    (hfloor : r.2 = true → readFloor dwb ≤ copy.lsn) :
    (gather dwb).Covers copy.pageId copy.lsn := by
  have hmono : ∀ (rs : List (Region × Bool)) (g : Gathered α), g.Covers copy.pageId copy.lsn →
      (rs.foldl (gatherRegion dwb (readFloor dwb)) g).Covers copy.pageId copy.lsn := by
    intro rs
    induction rs with
    | nil => exact fun g hg => hg
    | cons r rs ih => exact fun g hg => ih _ (hg.gatherRegion r)
  obtain ⟨before, after, hsplit⟩ := append_of_mem hr
  rw [gather, hsplit, foldl_append]
  refine hmono after _ ?_
  rw [gatherRegion, hheader]
  exact gatherHomes_covers hj (by rw [Nat.zero_add]; exact hslot) hfloor

/-! ## Repairing -/

variable {pageCount : Nat} {home : Nat → HomePage α} {r : Repair α}

/-- Nothing has gone wrong so far, and a page is as it was or has been restored. -/
structure Repaired (g : Gathered α) (home : Nat → HomePage α) (r : Repair α) : Prop where
  tornUnprotected : r.tornUnprotected = []
  doubleFault : r.doubleFault = []
  page : ∀ p, r.home p = home p ∨
    (home p = .torn ∧ ∃ c, g.candidates.lookup p = some c ∧ r.home p = .image c)

lemma Repaired.repairPage (hr : Repaired g home r)
    (hcover : homeId < pageCount → home homeId = .torn → ∃ c, g.candidates.lookup homeId = some c) :
    Repaired g home (repairPage pageCount g r homeId) ∧
      (∀ p, r.home p ≠ .torn → (repairPage pageCount g r homeId).home p ≠ .torn) ∧
      (homeId < pageCount → (repairPage pageCount g r homeId).home homeId ≠ .torn) := by
  unfold Dwb.repairPage
  by_cases hcount : homeId ≥ pageCount
  · rw [if_pos hcount]
    exact ⟨hr, fun _ h => h, fun h => absurd h (Nat.not_lt_of_le hcount)⟩
  rw [if_neg hcount]
  split
  · next _ himage => exact ⟨hr, fun _ h => h, fun _ => by rw [himage]; exact nofun⟩
  next htorn =>
  -- the page was torn from the start
  have hhome : home homeId = .torn := by
    rcases hr.page homeId with h | ⟨h, -⟩
    · rw [← h, htorn]
    · exact h
  obtain ⟨c, hc⟩ := hcover (Nat.lt_of_not_le hcount) hhome
  rw [hc]
  dsimp only
  refine ⟨⟨hr.tornUnprotected, hr.doubleFault, fun p => ?_⟩, fun p hp => ?_, fun _ => ?_⟩
  · by_cases hp : p = homeId
    · subst hp
      exact .inr ⟨hhome, c, hc, update_self _ _ _⟩
    · have hsame : update r.home homeId (.image c) p = r.home p := update_of_ne hp _ _
      dsimp only
      rw [hsame]
      exact hr.page p
  · by_cases hp' : p = homeId
    · rw [hp', update_self]
      exact nofun
    · rw [update_of_ne hp']
      exact hp
  · rw [update_self]
    exact nofun

lemma Repaired.foldl {ps : List Nat} (hr : Repaired g home r)
    (hcover : ∀ p ∈ ps, p < pageCount → home p = .torn → ∃ c, g.candidates.lookup p = some c) :
    Repaired g home (ps.foldl (Dwb.repairPage pageCount g) r) ∧
      (∀ p, r.home p ≠ .torn → (ps.foldl (Dwb.repairPage pageCount g) r).home p ≠ .torn) ∧
      ∀ p ∈ ps, p < pageCount → (ps.foldl (Dwb.repairPage pageCount g) r).home p ≠ .torn := by
  induction ps generalizing r with
  | nil => exact ⟨hr, fun _ h => h, nofun⟩
  | cons q ps ih =>
    obtain ⟨hstep, hkeep, hdone⟩ := hr.repairPage (hcover q mem_cons_self)
    obtain ⟨hfold, hkeep', hdone'⟩ := ih hstep fun p hp => hcover p (mem_cons_of_mem q hp)
    refine ⟨hfold, fun p hp => hkeep' p (hkeep p hp), fun p hp hlt => ?_⟩
    rcases mem_cons.1 hp with rfl | hp
    · exact hkeep' p (hdone hlt)
    · exact hdone' p hp hlt

/-- **Every torn page that is covered is restored.** -/
theorem recoverHome_ok {lsn : Nat → Nat}
    (hcover : ∀ p < pageCount, home p = .torn → (gather dwb).Covers p (lsn p)) :
    (∃ n, (recoverHome pageCount dwb home).1 = .ok n) ∧
    ∀ p < pageCount, (∃ i, home p = .image i ∧ (recoverHome pageCount dwb home).2 p = .image i) ∨
      (home p = .torn ∧ ∃ c, (recoverHome pageCount dwb home).2 p = .image c ∧ c.pageId = p ∧
        (∃ x, dwb x = .image c) ∧ lsn p ≤ c.lsn) := by
  set ps := (gather dwb).named.insertionSort (· ≤ ·) with hps
  have hcandidate : ∀ p ∈ ps, p < pageCount → home p = .torn →
    ∃ c, (gather dwb).candidates.lookup p = some c := by
    intro p _ hlt htorn
    obtain ⟨-, c, hc, -⟩ := hcover p hlt htorn
    exact ⟨c, hc⟩
  obtain ⟨hr, -, hdone⟩ :=
    Repaired.foldl (r := { home := home }) ⟨rfl, rfl, fun p => .inl rfl⟩ hcandidate
  have hok : recoverHome pageCount dwb home =
      (.ok (ps.foldl (repairPage pageCount (gather dwb)) { home := home }).repaired,
        (ps.foldl (repairPage pageCount (gather dwb)) { home := home }).home) := by
    unfold recoverHome
    dsimp only
    rw [← hps]
    rw [hr.doubleFault, hr.tornUnprotected]
    simp
  rw [hok]
  refine ⟨⟨_, rfl⟩, fun p hlt => ?_⟩
  cases hhome : home p with
  | image i =>
    left
    refine ⟨i, rfl, ?_⟩
    rcases hr.page p with h | ⟨h, -⟩
    · exact h.trans hhome
    · cases hhome.symm.trans h
  | torn =>
    right
    refine ⟨rfl, ?_⟩
    obtain ⟨hnamed, c, hc, hle⟩ := hcover p hlt hhome
    have hmem : p ∈ ps := by
      rw [mem_insertionSort]
      exact hnamed
    rcases hr.page p with h | ⟨-, c', hc', h⟩
    · exact absurd (h.trans hhome) (hdone p hmem hlt)
    have hsame : c' = c := Option.mem_unique hc' hc
    subst hsame
    obtain ⟨hid, hx⟩ := gather_sound dwb p c' hc
    exact ⟨c', h, hid, hx, hle⟩

end Graphus.Dwb
