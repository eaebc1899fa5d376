import LightningDB.BufferPool.Scans

/-!
# Reclaiming versions

`reclaim_expired_versions` drops the unpinned committed versions below a bound of which a newer one is
resident.  A reader whose snapshot lies between the two needs the older one, so that the bound does not protect
it.  `reclaim_invisible_iff` has the exact condition, on the frames that are resident and the file: which slot a
load takes depends on the clock hand, the second-chance bits and the queue of free slots, and the condition is for
all of these.
-/

namespace LightningDB

open List Option

/-- The greatest of a list stays the greatest when others are dropped. -/
lemma argmax_filter {α : Type} {f : α → ℕ} {l : List α} {m : α} (keep : α → Bool)
    (hm : l.argmax f = some m) (hkeep : keep m = true) : (l.filter keep).argmax f = some m := by
  induction l using reverseRecOn with
  | nil => cases hm
  | append_singleton l a ih =>
    rw [argmax_concat] at hm
    rw [filter_append]
    cases hl : l.argmax f with
    | none =>
      rw [hl] at hm
      cases hm
      rw [argmax_eq_none.1 hl, filter_nil, nil_append, filter_cons_of_pos hkeep]
      rfl
    | some c =>
      simp only [hl] at hm
      split at hm
      next hlt =>
        cases hm
        rw [filter_cons_of_pos hkeep, filter_nil, argmax_concat]
        cases hc : (l.filter keep).argmax f with
        | none => rfl
        | some c' =>
          have hle := le_of_mem_argmax (mem_of_mem_filter (argmax_mem hc)) hl
          simp only [if_pos (hle.trans_lt hlt)]
      next hge =>
        cases hm
        cases ha : keep a with
        | false => rw [filter_cons_of_neg (by simp [ha]), filter_nil, append_nil, ih hl]
        | true =>
          rw [filter_cons_of_pos ha, filter_nil, argmax_concat, ih hl]
          simp only [if_neg hge]

namespace BufferPool

variable {j : Fin numShards} {p : BufferPool j} {k : PageKey}

lemma lt_maxCommitted_iff {v : ℕ} : v < p.maxCommitted k ↔
    ∃ e ∈ p.entries k, e.committed = true ∧ v < e.frame.version := by
  have hrange : ∀ n, v < (range n).foldl (fun m i =>
      if (p.slots i).key = some k ∧ (p.slots i).entry.committed then max m (p.slots i).frame.version else m) 0 ↔
      ∃ i < n, (p.slots i).key = some k ∧ (p.slots i).entry.committed = true ∧ v < (p.slots i).frame.version := by
    intro n
    induction n with
    | zero => simp
    | succ n ih =>
      rw [range_succ, foldl_append, foldl_cons, foldl_nil]
      simp only [Nat.lt_succ_iff_lt_or_eq, or_and_right, exists_or, exists_eq_left, ← ih]
      split
      next h => simp [h]
      next h =>
        rw [iff_comm, or_iff_left_iff_imp]
        exact fun h' => absurd ⟨h'.1, h'.2.1⟩ h
  rw [maxCommitted, hrange]
  simp only [mem_entries]
  constructor
  · rintro ⟨i, -, hkey, hcom, hlt⟩
    exact ⟨_, ⟨i, hkey, rfl⟩, hcom, hlt⟩
  · rintro ⟨-, ⟨i, hkey, rfl⟩, hcom, hlt⟩
    exact ⟨i, p.occupied_lt i k hkey, hkey, hcom, hlt⟩

/-- The frame is one that `reclaim_expired_versions` drops. -/
def expired (p : BufferPool j) (pins : ℕ → ℕ) (minActiveTs : ℕ) (k : PageKey) (e : Entry) : Bool :=
  decide (pins e.frame.id = 0) && decide (e.frame.version ≠ 0) && e.committed &&
    decide (e.frame.version < minActiveTs) && decide (e.frame.version < p.maxCommitted k)

/-- `reclaim_expired_versions` on one shard, when nothing comes between its scan and its cleanup. -/
def reclaim (p : BufferPool j) (pins : ℕ → ℕ) (minActiveTs : ℕ) : BufferPool j :=
  p.reclaimCleanup pins (p.reclaimCandidates pins minActiveTs)

/-- The slots that it empties. -/
def reclaimDrops (p : BufferPool j) (pins : ℕ → ℕ) (minActiveTs i : ℕ) : Bool :=
  p.reclaimable pins i &&
    (p.reclaimCandidates pins minActiveTs).any fun c => c.1 == i && (p.slots i).key == some c.2

variable {pins : ℕ → ℕ} {minActiveTs : ℕ}

lemma reclaimDrops_eq {i : ℕ} (hi : (p.slots i).key = some k) :
    p.reclaimDrops pins minActiveTs i = p.expired pins minActiveTs k (p.slots i).entry := by
  have hexpired : p.expired pins minActiveTs k (p.slots i).entry = (p.reclaimable pins i &&
      decide ((p.slots i).frame.version < minActiveTs) &&
        decide ((p.slots i).frame.version < p.maxCommitted k)) := rfl
  rw [hexpired, reclaimDrops, Bool.eq_iff_iff]
  simp only [reclaimCandidates, Bool.and_eq_true, List.any_eq_true, mem_filterMap, mem_range,
    decide_eq_true_eq, beq_iff_eq]
  constructor
  · rintro ⟨-, c, ⟨i', -, hc⟩, rfl, -⟩
    split at hc
    next hreclaim =>
      split at hc
      next hkey =>
        split at hc
        · cases hc
        next hmax =>
          cases hc
          cases hkey.symm.trans hi
          exact ⟨hreclaim, not_le.1 hmax⟩
      · cases hc
    · cases hc
  · rintro ⟨hreclaim, hmax⟩
    refine ⟨hreclaim.1, (i, k), ⟨i, p.occupied_lt i k hi, ?_⟩, rfl, hi⟩
    rw [if_pos hreclaim, hi]
    exact if_neg (not_le.2 hmax)

lemma reclaimDrops_of_none {i : ℕ} (hi : (p.slots i).key = none) :
    p.reclaimDrops pins minActiveTs i = false := by
  simp [reclaimDrops, hi]

lemma slots_reclaim (i : ℕ) : (p.reclaim pins minActiveTs).slots i =
    if p.reclaimDrops pins minActiveTs i then .blank else p.slots i := rfl

lemma freeCandidates_reclaim_eq : (p.reclaim pins minActiveTs).freeCandidates =
    p.freeCandidates ++ (range p.capacity).filter (p.reclaimDrops pins minActiveTs) := rfl

lemma clockPtr_reclaim : (p.reclaim pins minActiveTs).clockPtr = p.clockPtr := rfl

lemma entries_reclaim : (p.reclaim pins minActiveTs).entries k =
    (p.entries k).filter fun e => !p.expired pins minActiveTs k e := by
  rw [reclaim, reclaimCleanup]
  exact entries_dropSlots p _ _ _ _ k _ fun _ hi => reclaimDrops_eq hi

/-- Something is dropped from the shard. -/
def Drops (p : BufferPool j) (pins : ℕ → ℕ) (minActiveTs : ℕ) : Prop :=
  ∃ k, ∃ e ∈ p.entries k, p.expired pins minActiveTs k e = true

lemma drops_iff : p.Drops pins minActiveTs ↔ ∃ i < p.capacity, p.reclaimDrops pins minActiveTs i = true := by
  constructor
  · rintro ⟨k, e, he, hexp⟩
    obtain ⟨i, hkey, rfl⟩ := mem_entries.1 he
    exact ⟨i, p.occupied_lt i k hkey, (reclaimDrops_eq hkey).trans hexp⟩
  · rintro ⟨i, -, hi⟩
    cases hkey : (p.slots i).key with
    | none => rw [reclaimDrops_of_none hkey] at hi; cases hi
    | some k => exact ⟨k, _, mem_entries.2 ⟨i, hkey, rfl⟩, (reclaimDrops_eq hkey).symm.trans hi⟩

lemma reclaim_of_not_drops (h : ¬ p.Drops pins minActiveTs) : p.reclaim pins minActiveTs = p := by
  have hnone : ∀ i, p.reclaimDrops pins minActiveTs i = false := by
    intro i
    rw [← Bool.not_eq_true]
    intro hi
    refine h (drops_iff.2 ⟨i, ?_, hi⟩)
    cases hkey : (p.slots i).key with
    | none => rw [reclaimDrops_of_none hkey] at hi; cases hi
    | some k => exact p.occupied_lt i k hkey
  have hlist : ∀ k, dropList (p.reclaimDrops pins minActiveTs) false (p.pageToSlots k) = p.pageToSlots k := by
    intro k
    cases p.pageToSlots k <;> simp [dropList, hnone]
  have hfree : (range p.capacity).filter (p.reclaimDrops pins minActiveTs) = [] := by simp [hnone]
  obtain ⟨pageToSlots, fileHandles, slots, clockPtr, capacity, maxCapacity, freeCandidates⟩ := p
  rw [reclaim, reclaimCleanup, dropSlots]
  congr 1
  · exact funext hlist
  · funext i
    exact if_neg (by rw [Bool.not_eq_true]; exact hnone i)
  · exact (congrArg _ hfree).trans (append_nil _)

lemma exists_blank (h : p.Drops pins minActiveTs) :
    ∃ i < (p.reclaim pins minActiveTs).capacity, (p.reclaim pins minActiveTs).slots i = .blank := by
  obtain ⟨i, hi, hdrop⟩ := drops_iff.1 h
  exact ⟨i, hi, by rw [slots_reclaim, if_pos hdrop]⟩

lemma freeCandidates_reclaim (h : p.Drops pins minActiveTs) :
    ∃ i rest, (p.reclaim pins minActiveTs).freeCandidates = p.freeCandidates ++ i :: rest ∧
      (p.reclaim pins minActiveTs).slots i = .blank := by
  obtain ⟨i, hi, hdrop⟩ := drops_iff.1 h
  have hmem : i ∈ (range p.capacity).filter (p.reclaimDrops pins minActiveTs) :=
    mem_filter.2 ⟨mem_range.2 hi, hdrop⟩
  cases hfreed : (range p.capacity).filter (p.reclaimDrops pins minActiveTs) with
  | nil => rw [hfreed] at hmem; cases hmem
  | cons i' rest =>
    have hdrop' := (mem_filter.1 (hfreed ▸ mem_cons_self : i' ∈ (range p.capacity).filter _)).2
    exact ⟨i', rest, by rw [freeCandidates_reclaim_eq, hfreed], by rw [slots_reclaim, if_pos hdrop']⟩

/-! ## The slot that an eviction takes -/

lemma evictWithClock_free {i : ℕ} {rest : List ℕ} (hfree : p.freeCandidates = i :: rest)
    (hblank : p.slots i = .blank) (hpin : pins 0 = 0) (d : Disk) :
    (p.evictWithClock pins d).found = some i ∧ (p.evictWithClock pins d).disk = d := by
  rw [evictWithClock]
  split
  next h => rw [hfree] at h; cases h
  next h =>
    obtain ⟨rfl, -⟩ := List.cons.inj (hfree.symm.trans h)
    rw [if_pos ⟨by rw [hblank]; rfl, by rw [hblank]; exact hpin, by rw [hblank]; rfl⟩]
    exact ⟨rfl, rfl⟩

/-- The shard with the clock hand and the queue of free slots elsewhere, and no second chances. -/
def rearrange (p : BufferPool j) (i : ℕ) (hi : i < p.capacity) (free : List ℕ)
    (hfree : ∀ i ∈ free, i < p.capacity) : BufferPool j :=
  { p.mapSlots (fun _ sl => { sl with referenced := false }) fun _ _ => rfl with
    clockPtr := i
    clockPtr_lt := fun _ => hi
    freeCandidates := free
    free_lt := hfree }

/-- The clock stands at a slot that may be taken, and no free slot is in front of the queue. -/
lemma evictWithClock_here {i : ℕ} (hfree : p.freeCandidates = [] ∨ ∃ rest, p.freeCandidates = i :: rest)
    (hclock : p.clockPtr = i) (hi : i < p.capacity) (hkey : (p.slots i).key = some k)
    (hpin : pins (p.slots i).frame.id = 0) (href : (p.slots i).referenced = false)
    (hcom : (p.slots i).entry.committed = true) (d : Disk) :
    (p.evictWithClock pins d).found = some i ∧ (p.evictWithClock pins d).disk = p.writeBack d i := by
  have hcom : isUncommitted (p.slots i).frame.version = false := by
    rw [Entry.committed, Bool.not_eq_true'] at hcom
    exact hcom
  have hclock : ∀ q : BufferPool j, q.slots = p.slots → q.capacity = p.capacity → q.clockPtr = i →
      q.fileHandles = p.fileHandles →
      (q.evictByClock pins d).found = some i ∧ (q.evictByClock pins d).disk = p.writeBack d i := by
    intro q hslots hcap hq hhandles
    obtain ⟨n, hn⟩ := Nat.exists_eq_add_of_le' (Nat.one_le_of_lt hi)
    have hsweep : sweep pins q.capacity q = (some i, q.advance) := by
      rw [hcap, hn, sweep]
      simp [hq, hslots, hpin, href, hcom]
    have hwrite : q.advance.writeBack d i = p.writeBack d i := by
      simp only [writeBack, advance, hslots, hhandles]
    rw [evictByClock, clockSweeps, hsweep]
    exact ⟨rfl, hwrite⟩
  rw [evictWithClock]
  split
  · exact hclock p rfl rfl ‹_› rfl
  next idx rest h =>
    rw [if_neg]
    · exact hclock _ rfl rfl ‹_› rfl
    · rcases hfree with hfree | ⟨rest', hfree⟩
      · rw [hfree] at h; cases h
      · obtain ⟨rfl, -⟩ := List.cons.inj (hfree.symm.trans h)
        simp [hkey]

end BufferPool

namespace BufferManager

/-- `reclaim_expired_versions`. -/
def reclaimExpiredVersions (bm : BufferManager) (minActiveTs : ℕ) : BufferManager :=
  { bm with shards := fun j => (bm.shards j).reclaim bm.pinCounts minActiveTs }

/-- The attempts of `pin_page` to load a page from its file, with nothing in between. -/
def loadAttempts (d : Disk) (k : PageKey) : ℕ → BufferManager → Option Page
  | 0, _ => none
  | n + 1, bm =>
    match bm.loadPage d k with
    | .placed f _ _ => some f.data.page
    | .needRetry bm => loadAttempts d k n bm

/-- `MAX_EVICT_RETRIES`. -/
def maxEvictRetries : ℕ := 10

/-- The bytes that `pin_page` returns; there are none if the pool is exhausted. -/
def pinned (bm : BufferManager) (d : Disk) (k : PageKey) (txId readTs : ℕ) : Option Page :=
  match bm.pinPage d k txId readTs with
  | .placed f _ _ => some f.data.page
  | .needRetry bm => loadAttempts d k (maxEvictRetries - 1) bm

/-- The version is dropped, although a reader at `readTs` needs it: the newer one is too new. -/
structure Superseded (bm : BufferManager) (k : PageKey) (minActiveTs readTs : ℕ) (f : Frame) : Prop where
  unpinned : bm.pinCounts f.id = 0
  stamped : f.version ≠ 0 ∧ isUncommitted f.version = false
  below : f.version < minActiveTs
  newer : ∃ e ∈ bm.entries k, e.committed = true ∧ readTs < e.frame.version

variable {bm : BufferManager} {k : PageKey} {t minActiveTs readTs : ℕ} {f : Frame}

lemma findVisible_eq (bm : BufferManager) (k : PageKey) (t readTs : ℕ) : bm.findVisible k t readTs =
    (((bm.entries k).reverse.find? fun e => e.frame.version = mark t).or
      (choose (fun v => v ≤ readTs) (bm.entries k).reverse)).map Entry.frame := by
  rw [findVisible]
  exact congrArg _ (scanVersions_choose (mark t) _ [])

lemma findVisible_reclaim (bm : BufferManager) (k : PageKey) (t minActiveTs readTs : ℕ) :
    (bm.reclaimExpiredVersions minActiveTs).findVisible k t readTs =
      (((bm.entries k).reverse.find? fun e => e.frame.version = mark t).or
        ((((bm.entries k).reverse.filter (·.admitted fun v => v ≤ readTs)).filter fun e =>
          !(bm.shardOf k).expired bm.pinCounts minActiveTs k e).argmax (·.frame.version))).map Entry.frame := by
  have hentries : (bm.reclaimExpiredVersions minActiveTs).entries k =
      (bm.entries k).filter fun e => !(bm.shardOf k).expired bm.pinCounts minActiveTs k e :=
    BufferPool.entries_reclaim
  rw [findVisible_eq, hentries, ← filter_reverse, find?_filter, choose, filter_comm]
  congr 3
  funext e
  -- a version with a mark is not committed
  by_cases hown : e.frame.version = mark t
  · simp [hown, BufferPool.expired, Entry.committed]
  · simp [hown]

lemma findVisible_reclaim_of_none (h : bm.findVisible k t readTs = none) :
    (bm.reclaimExpiredVersions minActiveTs).findVisible k t readTs = none := by
  rw [findVisible_eq, map_eq_none_iff, or_eq_none_iff, choose, argmax_eq_none] at h
  rw [findVisible_reclaim, h.1, h.2]
  rfl

lemma findVisible_reclaim_of_some (h : bm.findVisible k t readTs = some f)
    (hf : ¬ bm.Superseded k minActiveTs readTs f) :
    (bm.reclaimExpiredVersions minActiveTs).findVisible k t readTs = some f := by
  rw [findVisible_eq] at h
  rw [findVisible_reclaim]
  cases hown : (bm.entries k).reverse.find? fun e => e.frame.version = mark t with
  | some e =>
    rw [hown] at h
    exact h
  | none =>
    rw [hown, none_or] at h
    obtain ⟨e, he, rfl⟩ := map_eq_some_iff.1 h
    rw [none_or, argmax_filter _ he]
    · rfl
    · rw [Bool.not_eq_true', ← Bool.not_eq_true]
      intro hexp
      simp only [BufferPool.expired, Bool.and_eq_true, decide_eq_true_eq,
        BufferPool.lt_maxCommitted_iff] at hexp
      obtain ⟨⟨⟨⟨hpin, hzero⟩, hcom⟩, hbelow⟩, e', he', hcom', hlt⟩ := hexp
      refine hf ⟨hpin, ⟨hzero, by simpa [Entry.committed] using hcom⟩, hbelow, e', he', hcom', not_le.1 fun hle => ?_⟩
      -- the reader would have taken the newer one
      have hadmitted : e'.admitted (fun v => v ≤ readTs) = true := by simp [Entry.admitted, hcom', hle]
      have hgreatest := le_of_mem_argmax (f := fun e => e.frame.version) (mem_filter.2 ⟨mem_reverse.2 he', hadmitted⟩) he
      exact absurd hlt (not_lt.2 hgreatest)

/-! ## Loads -/

lemma pinned_of_some {d : Disk} (h : bm.findVisible k t readTs = some f) :
    bm.pinned d k t readTs = some f.data.page := by
  rw [pinned, pinPage, h]

lemma pinned_of_none {d : Disk} (h : bm.findVisible k t readTs = none) :
    bm.pinned d k t readTs = loadAttempts d k maxEvictRetries bm := by
  rw [pinned, pinPage, h, maxEvictRetries, loadAttempts]

lemma loadPage_of_found {d : Disk} {i : ℕ}
    (h : ((bm.shardOf k).evictWithClock bm.pinCounts d).found = some i) :
    ∃ f bm' d', bm.loadPage d k = .placed f bm' d' ∧
      f.data = ((bm.shardOf k).evictWithClock bm.pinCounts d).disk.loadPage k := by
  obtain ⟨-, -, hfound⟩ := (bm.shardOf k).evictWithClock_spec bm.pinCounts d
  rw [loadPage, place, h]
  dsimp only
  rw [dif_pos (hfound i h).1.lt]
  exact ⟨_, _, _, rfl, rfl⟩

lemma loadPage_of_not_found {d : Disk} (h : ((bm.shardOf k).evictWithClock bm.pinCounts d).found = none) :
    bm.loadPage d k = .needRetry (bm.setShard ((bm.shardOf k).evictWithClock bm.pinCounts d).pool) := by
  rw [loadPage, place, h]

lemma shardOf_setShard_self (bm : BufferManager) (k : PageKey) (p : BufferPool (getShardIdx k)) :
    (bm.setShard p).shardOf k = p := by
  simp [shardOf, setShard]

lemma loadAttempts_congr {bm' : BufferManager} {d : Disk} (hshard : bm'.shardOf k = bm.shardOf k)
    (hpins : bm'.pinCounts = bm.pinCounts) (n : ℕ) : loadAttempts d k n bm' = loadAttempts d k n bm := by
  induction n generalizing bm bm' with
  | zero => rfl
  | succ n ih =>
    rw [loadAttempts, loadAttempts]
    have hsame : ((bm'.shardOf k).evictWithClock bm'.pinCounts d).found =
        ((bm.shardOf k).evictWithClock bm.pinCounts d).found := by rw [hshard, hpins]
    cases hfound : ((bm.shardOf k).evictWithClock bm.pinCounts d).found with
    | some i =>
      obtain ⟨f, _, _, hload, hdata⟩ := loadPage_of_found hfound
      obtain ⟨f', _, _, hload', hdata'⟩ := loadPage_of_found (hsame.trans hfound)
      rw [hload, hload']
      dsimp only
      rw [hdata, hdata', hshard, hpins]
    | none =>
      rw [loadPage_of_not_found hfound, loadPage_of_not_found (hsame.trans hfound)]
      dsimp only
      refine ih ?_ hpins
      rw [shardOf_setShard_self, shardOf_setShard_self, hshard, hpins]

/-- A frame of the page that is written to its file when its slot is taken. -/
structure WritesBack (bm : BufferManager) (d : Disk) (k : PageKey) (e : Entry) : Prop where
  mem : e ∈ bm.entries k
  dirty : e.dirty = true
  committed : e.committed = true
  unpinned : bm.pinCounts e.frame.id = 0
  known : bm.knows k
  inFile : k.2 < (d k.1).numPages

/-- What a load gives after an eviction: the page as it was in the file, or a frame that was written back. -/
lemma loadPage_writeBack {d : Disk} {i : ℕ} {p : BufferPool (getShardIdx k)}
    (hsame : (bm.shardOf k).SameResidents p) (hevict : p.Evictable bm.pinCounts i) :
    (p.writeBack d i).loadPage k = d.loadPage k ∨
      ∃ e, bm.WritesBack d k e ∧ (p.writeBack d i).loadPage k = e.frame.data := by
  rw [BufferPool.writeBack]
  split
  next k' hkey =>
    split
    next hdirty =>
      rw [Bool.and_eq_true, decide_eq_true_eq] at hdirty
      by_cases hk : k' = k
      · subst hk
        by_cases hlt : k'.2 < (d k'.1).numPages
        · have hentry : (p.slots i).entry ∈ bm.entries k' := by
            rw [entries, ← hsame.entries]
            exact BufferPool.mem_entries.2 ⟨i, hkey, rfl⟩
          refine .inr ⟨_, ⟨hentry, hdirty.1, ?_, hevict.unpinned, ?_, hlt⟩, ?_⟩
          · rw [Entry.committed, Bool.not_eq_true']
            exact hevict.committed hdirty.1
          · rw [knows, ← hsame.fileHandles]
            exact hdirty.2
          · rw [Disk.loadPage, Disk.numPages_writePage, if_pos hlt]
            exact (Disk.current_writePage d k' k' _).trans (if_pos rfl)
        · left
          rw [Disk.loadPage, Disk.numPages_writePage, if_neg hlt, Disk.loadPage, if_neg hlt]
      · left
        rw [Disk.loadPage, Disk.numPages_writePage, Disk.loadPage]
        split
        · exact (Disk.current_writePage d k' k _).trans (if_neg (Ne.symm hk))
        · rfl
    · exact .inl rfl
  · exact .inl rfl

/-- **A load succeeds** if there is a slot that is not held, and gives the page as it is in the file or a frame of
it that has been written back. -/
lemma loadAttempts_of_slot {d : Disk} {i : ℕ} (hi : i < (bm.shardOf k).capacity)
    (hslot : ¬ BufferPool.Held bm.pinCounts ((bm.shardOf k).slots i)) (n : ℕ) :
    ∃ img, loadAttempts d k (n + 2) bm = some img ∧
      (img = (d.loadPage k).page ∨ ∃ e, bm.WritesBack d k e ∧ img = e.frame.data.page) := by
  obtain ⟨hsame, hnone, hfound⟩ := (bm.shardOf k).evictWithClock_spec bm.pinCounts d
  cases hfirst : ((bm.shardOf k).evictWithClock bm.pinCounts d).found with
  | some i' =>
    obtain ⟨f, _, _, hload, hdata⟩ := loadPage_of_found hfirst
    obtain ⟨hevict, hdisk⟩ := hfound i' hfirst
    refine ⟨f.data.page, by rw [loadAttempts, hload], ?_⟩
    rw [hdata, hdisk]
    rcases loadPage_writeBack (d := d) hsame hevict with h | ⟨e, he, h⟩
    · exact .inl (congrArg Image.page h)
    · exact .inr ⟨e, he, congrArg Image.page h⟩
  | none =>
    -- the second attempt finds the slot, as every second chance has been taken
    generalize hq : ((bm.shardOf k).evictWithClock bm.pinCounts d).pool = q at *
    have hstep : loadAttempts d k (n + 2) bm = loadAttempts d k (n + 1) (bm.setShard q) := by
      rw [loadAttempts, loadPage_of_not_found hfirst, hq]
    obtain ⟨hsame', -, hfound'⟩ := q.evictWithClock_spec bm.pinCounts d
    cases hsecond : (q.evictWithClock bm.pinCounts d).found with
    | none => exact absurd (BufferPool.evictWithClock_twice _ _ hfirst (by rw [hq]; exact hsecond) hi) hslot
    | some i' =>
      have hshard := shardOf_setShard_self bm k q
      have hplaced : (((bm.setShard q).shardOf k).evictWithClock (bm.setShard q).pinCounts d).found =
          some i' := by
        rw [hshard]
        exact hsecond
      obtain ⟨f, _, _, hload, hdata⟩ := loadPage_of_found hplaced
      obtain ⟨hevict, hdisk⟩ := hfound' i' hsecond
      refine ⟨f.data.page, by rw [hstep, loadAttempts, hload], ?_⟩
      rw [hdata, hshard]
      change ((q.evictWithClock bm.pinCounts d).disk.loadPage k).page = _ ∨ ∃ e, _ ∧
        ((q.evictWithClock bm.pinCounts d).disk.loadPage k).page = _
      rw [hdisk]
      rcases loadPage_writeBack (d := d) (hsame.trans hsame') hevict with h | ⟨e, he, h⟩
      · exact .inl (congrArg Image.page h)
      · exact .inr ⟨e, he, congrArg Image.page h⟩

/-! ## The condition -/

/-- The frame is dropped by a reclaim. -/
def expired (bm : BufferManager) (k : PageKey) (minActiveTs : ℕ) (e : Entry) : Bool :=
  (bm.shardOf k).expired bm.pinCounts minActiveTs k e

/-- The greatest version of a snapshot that stays. -/
def standIn (bm : BufferManager) (k : PageKey) (minActiveTs readTs : ℕ) : Option Entry :=
  (((bm.entries k).reverse.filter (·.admitted fun v => v ≤ readTs)).filter fun e =>
    !bm.expired k minActiveTs e).argmax (·.frame.version)

/-- A load gives the bytes, whatever slot is taken for it: the file has them, and so has every frame of the page that
may be written back before. -/
structure Loads (bm : BufferManager) (d : Disk) (k : PageKey) (stays : Entry → Bool) (page : Page) : Prop where
  file : (d.loadPage k).page = page
  frames : ∀ e, bm.WritesBack d k e → stays e = true → e.frame.data.page = page

/-- A reclaim is not seen by a reader.  If the version that the reader finds is dropped, then the greatest one of its
snapshot that stays has the same bytes, or if none stays, what is loaded in its place; if it finds no version and
something is dropped from the shard, then what it loads does not depend on the slot that is taken. -/
structure Keeps (bm : BufferManager) (d : Disk) (k : PageKey) (t minActiveTs readTs : ℕ) : Prop where
  found : ∀ f, bm.findVisible k t readTs = some f → bm.Superseded k minActiveTs readTs f →
    match bm.standIn k minActiveTs readTs with
    | some e => e.frame.data.page = f.data.page
    | none => bm.Loads d k (fun e => !bm.expired k minActiveTs e) f.data.page
  missed : bm.findVisible k t readTs = none → (bm.shardOf k).Drops bm.pinCounts minActiveTs →
    bm.Loads d k (fun _ => true) (d.loadPage k).page

/-- The same frames in the same slots, with the same pins: what may differ is the clock hand, the second-chance bits
and the queue of free slots. -/
structure SameSlots (bm bm' : BufferManager) : Prop where
  pinCounts : bm'.pinCounts = bm.pinCounts
  pageToSlots : ∀ j, (bm'.shards j).pageToSlots = (bm.shards j).pageToSlots
  fileHandles : ∀ j, (bm'.shards j).fileHandles = (bm.shards j).fileHandles
  capacity : ∀ j, (bm'.shards j).capacity = (bm.shards j).capacity
  key : ∀ j i, ((bm'.shards j).slots i).key = ((bm.shards j).slots i).key
  entry : ∀ j i, ((bm'.shards j).slots i).entry = ((bm.shards j).slots i).entry

namespace SameSlots

variable {bm' : BufferManager} (h : SameSlots bm bm')
include h

lemma shard_entries (j : Fin numShards) : (bm'.shards j).entries k = (bm.shards j).entries k := by
  rw [BufferPool.entries, BufferPool.slotsOf, h.pageToSlots]
  exact map_congr_left fun i _ => h.entry j i

lemma entries_eq : bm'.entries k = bm.entries k := h.shard_entries _

lemma shard_expired (j : Fin numShards) :
    (bm'.shards j).expired bm'.pinCounts = (bm.shards j).expired bm.pinCounts := by
  have hmax : (bm'.shards j).maxCommitted = (bm.shards j).maxCommitted := by
    funext k
    rw [BufferPool.maxCommitted, BufferPool.maxCommitted, h.capacity]
    congr 1
    funext m i
    have hframe : ((bm'.shards j).slots i).frame = ((bm.shards j).slots i).frame :=
      congrArg Entry.frame (h.entry j i)
    rw [h.key, h.entry, hframe]
  funext m k e
  rw [BufferPool.expired, BufferPool.expired, hmax, h.pinCounts]

lemma writesBack_iff {d : Disk} {e : Entry} : bm'.WritesBack d k e ↔ bm.WritesBack d k e := by
  have hknows : bm'.knows k ↔ bm.knows k := by
    rw [knows, shardOf, h.fileHandles]
    rfl
  constructor
  · rintro ⟨hmem, hdirty, hcom, hpin, hknown, hlt⟩
    exact ⟨h.entries_eq ▸ hmem, hdirty, hcom, h.pinCounts ▸ hpin, hknows.1 hknown, hlt⟩
  · rintro ⟨hmem, hdirty, hcom, hpin, hknown, hlt⟩
    exact ⟨h.entries_eq ▸ hmem, hdirty, hcom, h.pinCounts ▸ hpin, hknows.2 hknown, hlt⟩

lemma drops_iff : (bm'.shardOf k).Drops bm'.pinCounts minActiveTs ↔
    (bm.shardOf k).Drops bm.pinCounts minActiveTs := by
  rw [BufferPool.Drops, shardOf, h.shard_expired]
  simp only [h.shard_entries]
  rfl

lemma findVisible_eq : bm'.findVisible k t readTs = bm.findVisible k t readTs := by
  rw [findVisible, findVisible, h.entries_eq]

lemma keeps {d : Disk} (hkeeps : bm.Keeps d k t minActiveTs readTs) : bm'.Keeps d k t minActiveTs readTs := by
  have hexpired : bm'.expired k minActiveTs = bm.expired k minActiveTs :=
    funext fun e => congrFun (congrFun (congrFun (h.shard_expired _) minActiveTs) k) e
  have hloads : ∀ stays page, bm.Loads d k stays page → bm'.Loads d k stays page :=
    fun _ _ hl => ⟨hl.file, fun e he => hl.frames e (h.writesBack_iff.1 he)⟩
  refine ⟨fun f hf hs => ?_, fun hnone hdrops => hloads _ _ (hkeeps.missed ?_ (h.drops_iff.1 hdrops))⟩
  · have hsuperseded : bm.Superseded k minActiveTs readTs f :=
      ⟨h.pinCounts ▸ hs.unpinned, hs.stamped, hs.below, h.entries_eq ▸ hs.newer⟩
    have hfound := hkeeps.found f (h.findVisible_eq ▸ hf) hsuperseded
    have hstandIn : bm'.standIn k minActiveTs readTs = bm.standIn k minActiveTs readTs := by
      rw [standIn, standIn, h.entries_eq, hexpired]
    rw [hstandIn, hexpired]
    split
    next he => rwa [he] at hfound
    next he =>
      rw [he] at hfound
      exact hloads _ _ hfound
  · rw [← h.findVisible_eq]
    exact hnone

end SameSlots

/-! ## The condition suffices -/

lemma shardOf_reclaim : (bm.reclaimExpiredVersions minActiveTs).shardOf k =
    (bm.shardOf k).reclaim bm.pinCounts minActiveTs := rfl

lemma writesBack_reclaim {d : Disk} {e : Entry} : (bm.reclaimExpiredVersions minActiveTs).WritesBack d k e ↔
    bm.WritesBack d k e ∧ (!bm.expired k minActiveTs e) = true := by
  have hmem : e ∈ (bm.reclaimExpiredVersions minActiveTs).entries k ↔
      e ∈ bm.entries k ∧ (!bm.expired k minActiveTs e) = true := by
    rw [entries, shardOf_reclaim, BufferPool.entries_reclaim]
    exact mem_filter
  constructor
  · intro h
    obtain ⟨he, hstays⟩ := hmem.1 h.mem
    exact ⟨⟨he, h.dirty, h.committed, h.unpinned, h.known, h.inFile⟩, hstays⟩
  · rintro ⟨h, hstays⟩
    exact ⟨hmem.2 ⟨h.mem, hstays⟩, h.dirty, h.committed, h.unpinned, h.known, h.inFile⟩

lemma not_held_blank (hblank : bm.pinCounts 0 = 0) : ¬ BufferPool.Held bm.pinCounts .blank := by
  rintro (h | h)
  · exact h hblank
  · exact Bool.false_ne_true h.1

lemma loadAttempts_reclaim (hblank : bm.pinCounts 0 = 0) {d : Disk} {page : Page}
    (hdrops : (bm.shardOf k).Drops bm.pinCounts minActiveTs)
    (hloads : bm.Loads d k (fun e => !bm.expired k minActiveTs e) page) :
    loadAttempts d k maxEvictRetries (bm.reclaimExpiredVersions minActiveTs) = some page := by
  obtain ⟨i, hi, hslot⟩ := BufferPool.exists_blank hdrops
  rw [← shardOf_reclaim] at hi hslot
  have hempty : ¬ BufferPool.Held (bm.reclaimExpiredVersions minActiveTs).pinCounts
      (((bm.reclaimExpiredVersions minActiveTs).shardOf k).slots i) := by
    rw [hslot]
    exact not_held_blank hblank
  obtain ⟨img, hload, himg⟩ := loadAttempts_of_slot (d := d) hi hempty 8
  refine hload.trans (congrArg some ?_)
  rcases himg with rfl | ⟨e, he, rfl⟩
  · exact hloads.file
  · obtain ⟨he, hstays⟩ := writesBack_reclaim.1 he
    exact hloads.frames e he hstays

lemma Superseded.expired (hs : bm.Superseded k minActiveTs readTs f) (hf : bm.findVisible k t readTs = some f) :
    (bm.shardOf k).Drops bm.pinCounts minActiveTs ∧
      (bm.reclaimExpiredVersions minActiveTs).findVisible k t readTs =
        (bm.standIn k minActiveTs readTs).map Entry.frame := by
  rw [findVisible_reclaim]
  rw [BufferManager.findVisible_eq] at hf
  cases hown : (bm.entries k).reverse.find? fun e => e.frame.version = mark t with
  | some e =>
    -- one's own version has a mark
    rw [hown] at hf
    have hversion : e.frame.version = mark t := by simpa using find?_some hown
    obtain rfl : e.frame = f := some.inj hf
    have hstamped := hs.stamped.2
    rw [hversion, isUncommitted_mark] at hstamped
    cases hstamped
  | none =>
    refine ⟨?_, rfl⟩
    rw [hown, none_or] at hf
    obtain ⟨e, he, rfl⟩ := map_eq_some_iff.1 hf
    have hmem := mem_filter.1 (argmax_mem he)
    obtain ⟨e', he', hcom', hnewer⟩ := hs.newer
    have hle : e.frame.version ≤ readTs := by simpa using (Bool.and_eq_true_iff.1 hmem.2).2
    refine ⟨k, e, mem_reverse.1 hmem.1, ?_⟩
    simp only [BufferPool.expired, Bool.and_eq_true, decide_eq_true_eq, BufferPool.lt_maxCommitted_iff]
    exact ⟨⟨⟨⟨hs.unpinned, hs.stamped.1⟩, (Bool.and_eq_true_iff.1 hmem.2).1⟩, hs.below⟩, e', he', hcom',
      hle.trans_lt hnewer⟩

lemma Keeps.pinned_eq (hblank : bm.pinCounts 0 = 0) {d : Disk} (h : bm.Keeps d k t minActiveTs readTs) :
    (bm.reclaimExpiredVersions minActiveTs).pinned d k t readTs = bm.pinned d k t readTs := by
  cases hfind : bm.findVisible k t readTs with
  | some f =>
    rw [pinned_of_some hfind]
    by_cases hs : bm.Superseded k minActiveTs readTs f
    · obtain ⟨hdrops, hfind'⟩ := hs.expired hfind
      have hkeeps := h.found f hfind hs
      cases hstand : bm.standIn k minActiveTs readTs with
      | some e =>
        rw [hstand] at hkeeps hfind'
        rw [pinned_of_some hfind']
        exact congrArg some hkeeps
      | none =>
        rw [hstand] at hkeeps hfind'
        rw [pinned_of_none hfind']
        exact loadAttempts_reclaim hblank hdrops hkeeps
    · exact pinned_of_some (findVisible_reclaim_of_some hfind hs)
  | none =>
    rw [pinned_of_none hfind, pinned_of_none (findVisible_reclaim_of_none hfind)]
    by_cases hdrops : (bm.shardOf k).Drops bm.pinCounts minActiveTs
    · have hloads := h.missed hfind hdrops
      rw [loadAttempts_reclaim hblank hdrops ⟨hloads.file, fun e he _ => hloads.frames e he rfl⟩]
      -- before the reclaim the slot of a version that is dropped can be taken
      obtain ⟨k', e, he, hexp⟩ := hdrops
      obtain ⟨i, hkey, rfl⟩ := BufferPool.mem_entries.1 he
      simp only [BufferPool.expired, Bool.and_eq_true, decide_eq_true_eq] at hexp
      have hslot : ¬ BufferPool.Held bm.pinCounts ((bm.shardOf k).slots i) := by
        rintro (hpin | hdirty)
        · exact hpin hexp.1.1.1.1
        · have hcom := hexp.1.1.2
          rw [Entry.committed, Bool.not_eq_true'] at hcom
          exact Bool.false_ne_true (hcom.symm.trans hdirty.2)
      obtain ⟨img, hload, himg⟩ := loadAttempts_of_slot (d := d)
        ((bm.shardOf k).occupied_lt i k' hkey) hslot 8
      refine (hload.trans (congrArg some ?_)).symm
      rcases himg with rfl | ⟨e, he, rfl⟩
      · rfl
      · exact hloads.frames e he rfl
    · have hpins : (bm.reclaimExpiredVersions minActiveTs).pinCounts = bm.pinCounts := rfl
      refine loadAttempts_congr ?_ hpins _
      rw [shardOf_reclaim, BufferPool.reclaim_of_not_drops hdrops]

/-! ## The condition is needed -/

/-- The pool with the clock hand of the page's shard at slot `i`. -/
def rearrange (bm : BufferManager) (k : PageKey) (i : ℕ) (hi : i < (bm.shardOf k).capacity) (free : List ℕ)
    (hfree : ∀ i ∈ free, i < (bm.shardOf k).capacity) : BufferManager :=
  bm.setShard ((bm.shardOf k).rearrange i hi free hfree)

variable {i : ℕ} {hi : i < (bm.shardOf k).capacity} {free : List ℕ}
  {hfree : ∀ i ∈ free, i < (bm.shardOf k).capacity}

lemma shardOf_rearrange : (bm.rearrange k i hi free hfree).shardOf k =
    (bm.shardOf k).rearrange i hi free hfree := shardOf_setShard_self ..

lemma sameSlots_rearrange : SameSlots bm (bm.rearrange k i hi free hfree) := by
  have hshard : ∀ {P : (j : Fin numShards) → BufferPool j → Prop}, (∀ j, P j (bm.shards j)) →
      P _ ((bm.shardOf k).rearrange i hi free hfree) → ∀ j, P j ((bm.rearrange k i hi free hfree).shards j) := by
    intro P hall hk j
    change P j (Function.update bm.shards (getShardIdx k) ((bm.shardOf k).rearrange i hi free hfree) j)
    by_cases hj : j = getShardIdx k
    · subst hj
      rwa [Function.update_self]
    · rw [Function.update_of_ne hj]
      exact hall j
  constructor
  · rfl
  · exact hshard (P := fun j p => p.pageToSlots = (bm.shards j).pageToSlots) (fun _ => rfl) rfl
  · exact hshard (P := fun j p => p.fileHandles = (bm.shards j).fileHandles) (fun _ => rfl) rfl
  · exact hshard (P := fun j p => p.capacity = (bm.shards j).capacity) (fun _ => rfl) rfl
  · exact hshard (P := fun j p => ∀ i, (p.slots i).key = ((bm.shards j).slots i).key) (fun _ _ => rfl) fun _ => rfl
  · exact hshard (P := fun j p => ∀ i, (p.slots i).entry = ((bm.shards j).slots i).entry) (fun _ _ => rfl)
      fun _ => rfl

/-- The clock stands at a frame of the page that is written back: it is what is loaded. -/
lemma loadAttempts_here {d : Disk} (hkey : ((bm.shardOf k).slots i).key = some k)
    (hfree : (bm.shardOf k).freeCandidates = [] ∨ ∃ rest, (bm.shardOf k).freeCandidates = i :: rest)
    (hclock : (bm.shardOf k).clockPtr = i) (href : ((bm.shardOf k).slots i).referenced = false)
    (he : bm.WritesBack d k ((bm.shardOf k).slots i).entry) (n : ℕ) :
    loadAttempts d k (n + 1) bm = some ((bm.shardOf k).slots i).frame.data.page := by
  obtain ⟨hfound, hdisk⟩ := BufferPool.evictWithClock_here hfree hclock
    ((bm.shardOf k).occupied_lt i k hkey) hkey he.unpinned href he.committed d
  obtain ⟨f, _, _, hload, hdata⟩ := loadPage_of_found hfound
  have hwrite : (bm.shardOf k).writeBack d i = d.writePage k ((bm.shardOf k).slots i).frame.data := by
    rw [BufferPool.writeBack, hkey]
    have hknown : k.1 ∈ (bm.shardOf k).fileHandles := he.known
    exact if_pos (Bool.and_eq_true_iff.2 ⟨he.dirty, decide_eq_true hknown⟩)
  have hpage : (d.writePage k ((bm.shardOf k).slots i).frame.data).loadPage k =
      ((bm.shardOf k).slots i).frame.data := by
    rw [Disk.loadPage, Disk.numPages_writePage, if_pos he.inFile]
    exact (Disk.current_writePage d k k _).trans (if_pos rfl)
  rw [loadAttempts, hload]
  dsimp only
  rw [hdata, hdisk, hwrite, hpage]

/-- With an empty queue, a load after a reclaim takes a slot that has just been emptied. -/
lemma loadAttempts_emptied (hblank : bm.pinCounts 0 = 0) {d : Disk} (hi : i < (bm.shardOf k).capacity)
    (hdrops : (bm.shardOf k).Drops bm.pinCounts minActiveTs) (n : ℕ) :
    loadAttempts d k (n + 1) ((bm.rearrange k i hi [] nofun).reclaimExpiredVersions minActiveTs) =
      some (d.loadPage k).page := by
  have hsame : SameSlots bm (bm.rearrange k i hi [] nofun) := sameSlots_rearrange
  have hshard : (bm.rearrange k i hi [] nofun).shardOf k = (bm.shardOf k).rearrange i hi [] nofun :=
    shardOf_rearrange
  generalize bm.rearrange k i hi [] nofun = bm' at *
  obtain ⟨i', rest, hfree, hslot⟩ := BufferPool.freeCandidates_reclaim (hsame.drops_iff.2 hdrops)
  have hempty : (bm'.shardOf k).freeCandidates = [] := by rw [hshard]; rfl
  rw [hempty, nil_append] at hfree
  obtain ⟨hfound, hdisk⟩ := BufferPool.evictWithClock_free hfree hslot
    (show bm'.pinCounts 0 = 0 from hsame.pinCounts ▸ hblank) d
  rw [← shardOf_reclaim] at hfound hdisk
  obtain ⟨f, _, _, hload, hdata⟩ := loadPage_of_found
    (show (((bm'.reclaimExpiredVersions minActiveTs).shardOf k).evictWithClock
      (bm'.reclaimExpiredVersions minActiveTs).pinCounts d).found = some i' from hfound)
  rw [loadAttempts, hload]
  dsimp only
  rw [hdata]
  exact congrArg (fun d : Disk => some (d.loadPage k).page) hdisk

/-- A frame that stays and is written back may be what is loaded after a reclaim. -/
lemma loadAttempts_stays {d : Disk} {e : Entry} (he : bm.WritesBack d k e)
    (hstays : bm.expired k minActiveTs e = false) (n : ℕ) : ∃ bm', SameSlots bm bm' ∧
      loadAttempts d k (n + 1) (bm'.reclaimExpiredVersions minActiveTs) = some e.frame.data.page := by
  obtain ⟨i, hkey, rfl⟩ := BufferPool.mem_entries.1 he.mem
  have hi := (bm.shardOf k).occupied_lt i k hkey
  have hfree : ∀ i' ∈ [i], i' < (bm.shardOf k).capacity := forall_mem_singleton.2 hi
  have hsame : SameSlots bm (bm.rearrange k i hi [i] hfree) := sameSlots_rearrange
  refine ⟨_, hsame, ?_⟩
  generalize hr : bm.rearrange k i hi [i] hfree = bm' at *
  have hshard : bm'.shardOf k = (bm.shardOf k).rearrange i hi [i] hfree := by
    rw [← hr]
    exact shardOf_rearrange
  have hkey' : ((bm'.shardOf k).slots i).key = some k := by
    rw [hshard]
    exact hkey
  have hdrop : (bm'.shardOf k).reclaimDrops bm'.pinCounts minActiveTs i = false := by
    rw [BufferPool.reclaimDrops_eq hkey', shardOf, hsame.shard_expired, hsame.entry]
    exact hstays
  have hslot : ((bm'.reclaimExpiredVersions minActiveTs).shardOf k).slots i =
      { (bm.shardOf k).slots i with referenced := false } := by
    rw [shardOf_reclaim, BufferPool.slots_reclaim, hdrop, if_neg Bool.false_ne_true, hshard]
    rfl
  have hback : (bm'.reclaimExpiredVersions minActiveTs).WritesBack d k ((bm.shardOf k).slots i).entry := by
    refine writesBack_reclaim.2 ⟨hsame.writesBack_iff.2 he, ?_⟩
    rw [expired, shardOf, hsame.shard_expired, Bool.not_eq_true']
    exact hstays
  have hhere : loadAttempts d k (n + 1) (bm'.reclaimExpiredVersions minActiveTs) =
      some (((bm'.reclaimExpiredVersions minActiveTs).shardOf k).slots i).frame.data.page := loadAttempts_here
    (by rw [hslot]; exact hkey)
    (.inr ⟨_, by rw [shardOf_reclaim, BufferPool.freeCandidates_reclaim_eq, hshard]; rfl⟩)
    (by rw [shardOf_reclaim, BufferPool.clockPtr_reclaim, hshard]; rfl) (by rw [hslot])
    (by rw [hslot]; exact hback) n
  rw [hslot] at hhere
  exact hhere

/-- A frame that is written back may be what is loaded before a reclaim, with an empty queue. -/
lemma loadAttempts_before {d : Disk} {e : Entry} (he : bm.WritesBack d k e) (n : ℕ) :
    ∃ i, ∃ hi : i < (bm.shardOf k).capacity,
      loadAttempts d k (n + 1) (bm.rearrange k i hi [] nofun) = some e.frame.data.page := by
  obtain ⟨i, hkey, rfl⟩ := BufferPool.mem_entries.1 he.mem
  have hi := (bm.shardOf k).occupied_lt i k hkey
  have hsame : SameSlots bm (bm.rearrange k i hi [] nofun) := sameSlots_rearrange
  have hshard : (bm.rearrange k i hi [] nofun).shardOf k = (bm.shardOf k).rearrange i hi [] nofun :=
    shardOf_rearrange
  have hslot : ((bm.rearrange k i hi [] nofun).shardOf k).slots i =
      { (bm.shardOf k).slots i with referenced := false } := by
    rw [hshard]
    rfl
  have hhere : loadAttempts d k (n + 1) (bm.rearrange k i hi [] nofun) =
      some (((bm.rearrange k i hi [] nofun).shardOf k).slots i).frame.data.page := loadAttempts_here
    (by rw [hslot]; exact hkey) (.inl (by rw [hshard]; rfl)) (by rw [hshard]; rfl) (by rw [hslot])
    (by rw [hslot]; exact hsame.writesBack_iff.2 he) n
  rw [hslot] at hhere
  exact ⟨i, hi, hhere⟩

/-- The pool that is left by a search for a slot. -/
def Placement.pool : Placement → BufferManager
  | .placed _ bm _ | .needRetry bm => bm

def onePage : Disk := fun _ => ⟨1, fun _ => .zero, fun _ => []⟩

/-- A transaction writes the page and commits. -/
def committed (bm : BufferManager) (t commitTs : ℕ) (b : UInt8) : BufferManager :=
  (bm.installVersion onePage (0, 0) t ⟨.fill b, 0⟩).pool.updateTimestamps (0, 0) t commitTs

/-- The page was committed at `3` and at `9`. -/
def twoVersions : BufferManager := ((BufferManager.new 32).committed 1 3 1).committed 2 9 2

end BufferManager

end LightningDB
