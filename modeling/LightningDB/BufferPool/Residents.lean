import LightningDB.BufferPool.Manager

/-!
# What the buffer manager's operations do to the resident frames

For each operation: what `entries` is afterwards, which files may have been written and with what.
-/

namespace LightningDB

open Function List Option BufferPool

/-- A committed frame that its file may not have. -/
def Entry.Unflushed (e : Entry) : Prop := e.dirty = true ∧ e.committed = true

/-- `e'` is `e`, perhaps with its dirty flag cleared, which it is for committed frames only. -/
def Entry.CleanedTo (e e' : Entry) : Prop :=
  e'.frame = e.frame ∧ (e'.dirty = true → e.dirty = true) ∧ (e.committed = false → e' = e)

/-- Some frames of a page have been cleaned. -/
structure Cleaned (es es' : List Entry) : Prop where
  mem : ∀ e' ∈ es', ∃ e ∈ es, e.CleanedTo e'
  kept : ∀ e ∈ es, ∃ e' ∈ es', e.CleanedTo e'

lemma Entry.CleanedTo.refl (e : Entry) : e.CleanedTo e := ⟨rfl, id, fun _ => rfl⟩

lemma Cleaned.refl (es : List Entry) : Cleaned es es :=
  ⟨fun e he => ⟨e, he, .refl e⟩, fun e he => ⟨e, he, .refl e⟩⟩

namespace BufferPool

variable {j : Fin numShards} (p : BufferPool j)

lemma sameResidents_touch (fid : ℕ) : SameResidents p (p.touch fid) where
  pageToSlots := rfl
  fileHandles := rfl
  capacity := le_rfl
  key i := by
    rw [touch, mapSlots]
    dsimp only
    split <;> rfl
  entry i _ := by
    rw [touch, mapSlots]
    dsimp only
    split <;> rfl

lemma entries_mapPage (k k' : PageKey) (g : Entry → Entry) :
    (p.mapPage k g).entries k' = if k' = k then (p.entries k).map g else p.entries k' := by
  rw [mapPage, entries_mapSlots]
  by_cases hk : k' = k
  · subst hk
    rw [if_pos rfl, entries, List.map_map]
    refine map_congr_left fun i hi => ?_
    rw [if_pos (mem_slotsOf.1 hi)]
    rfl
  · rw [if_neg hk]
    refine map_congr_left fun i hi => ?_
    rw [if_neg]
    rw [mem_slotsOf.1 hi, some.injEq]
    exact hk

lemma entries_dropSlots (drop : ℕ → Bool) (remove : PageKey → Bool) (freed : List ℕ)
    (hfreed : ∀ i ∈ freed, i < p.capacity) (k : PageKey) (q : Entry → Bool)
    (hq : ∀ i, (p.slots i).key = some k → drop i = q (p.slots i).entry) :
    (p.dropSlots drop remove freed hfreed).entries k = (p.entries k).filter fun e => !q e := by
  have hslots : (p.dropSlots drop remove freed hfreed).slotsOf k =
      (p.slotsOf k).filter fun i => !drop i := dropList_getD _ _ _
  rw [entries, hslots, entries, List.filter_map]
  have hfilter : (p.slotsOf k).filter (fun i => !drop i) =
      (p.slotsOf k).filter ((fun e => !q e) ∘ fun i => (p.slots i).entry) := by
    refine filter_congr fun i hi => ?_
    rw [hq i (mem_slotsOf.1 hi)]
    rfl
  rw [← hfilter]
  refine map_congr_left fun i hi => ?_
  have hdrop : drop i = false := by simpa using (mem_filter.1 hi).2
  simp [dropSlots, hdrop]

lemma entries_dropFrames (drop : Entry → Bool) (k : PageKey) :
    (p.dropFrames drop).entries k = (p.entries k).filter fun e => !drop e := by
  refine entries_dropSlots p _ _ _ _ k drop fun i hi => ?_
  rw [hi, isSome_some, Bool.true_and]

lemma entries_dropPage (k k' : PageKey) (drop : Entry → Bool) : (p.dropPage k drop).entries k' =
      if k' = k then (p.entries k).filter (fun e => !drop e) else p.entries k' := by
  by_cases hk : k' = k
  · subst hk
    rw [if_pos rfl]
    refine entries_dropSlots p _ _ _ _ k' drop fun i hi => ?_
    rw [decide_eq_true hi, Bool.true_and]
  · rw [if_neg hk, dropPage, entries_dropSlots p _ _ _ _ k' (fun _ => false)]
    · simp
    · intro i hi
      rw [decide_eq_false, Bool.false_and]
      rw [hi, some.injEq]
      exact hk

variable {p} {k : PageKey}

variable {e : Entry} {selected : ℕ → Bool}

/-- A cleanup empties only slots with unpinned stamped versions. -/
lemma mem_entries_reclaimCleanup {pins : ℕ → ℕ} {candidates : List (ℕ × PageKey)} :
    (e ∈ (p.reclaimCleanup pins candidates).entries k → e ∈ p.entries k) ∧
      (e ∈ p.entries k → e ∈ (p.reclaimCleanup pins candidates).entries k ∨
        (pins e.frame.id = 0 ∧ e.committed = true ∧ e.frame.version ≠ 0)) := by
  rw [reclaimCleanup, mem_entries_dropSlots, mem_entries]
  constructor
  · rintro ⟨i, hkey, hentry, -⟩
    exact ⟨i, hkey, hentry⟩
  · rintro ⟨i, hkey, rfl⟩
    by_cases hr : p.reclaimable pins i = true
    · right
      simp only [reclaimable, Bool.and_eq_true, decide_eq_true_eq] at hr
      exact ⟨hr.1.1, hr.2, hr.1.2⟩
    · left
      refine ⟨i, hkey, rfl, ?_⟩
      rw [Bool.not_eq_true] at hr
      rw [hr, Bool.false_and]

/-! ## Writing slots out -/

/-- The writes of `writeSlots` are of frames in selected slots. -/
lemma writeSlots_writes (selected : ℕ → Bool) (d : Disk) :
    Disk.Writes (fun k img => ∃ i, selected i = true ∧ (p.slots i).key = some k ∧
      img = (p.slots i).frame.data) d (p.writeSlots selected d) := by
  rw [writeSlots]
  induction p.capacity with
  | zero => exact .refl
  | succ n ih =>
    rw [range_succ, foldl_append]
    dsimp only [foldl_cons]
    split
    next hkey =>
      split
      next hsel => exact .write ih ⟨n, hsel, hkey, rfl⟩
      · exact ih
    · exact ih

lemma current_writeSlots {i : ℕ} (hsel : selected i = true) (hkey : (p.slots i).key = some k)
    (d : Disk) : ∃ i', selected i' = true ∧ (p.slots i').key = some k ∧
      (p.writeSlots selected d).current k = (p.slots i').frame.data := by
  have hi := p.occupied_lt i k hkey
  rw [writeSlots]
  -- by induction on the slots gone through: the last selected one that holds `k` decides
  revert hi
  generalize p.capacity = n
  intro hi
  induction n with
  | zero => omega
  | succ n ih =>
    rw [range_succ, foldl_append]
    dsimp only [foldl_cons, foldl_nil]
    by_cases hn : (p.slots n).key = some k ∧ selected n = true
    · refine ⟨n, hn.2, hn.1, ?_⟩
      simp only [hn.1, hn.2, if_true, Disk.current_writePage]
    · have hlt : i < n := by
        rcases lt_or_ge i n with h | h
        · exact h
        · have : i = n := by omega
          exact absurd ⟨this ▸ hkey, this ▸ hsel⟩ hn
      obtain ⟨i', hsel', hkey', hcur⟩ := ih hlt
      refine ⟨i', hsel', hkey', ?_⟩
      split
      next hk' =>
        split
        next hsel'' =>
          rw [Disk.current_writePage, if_neg, hcur]
          rintro rfl
          exact hn ⟨hk', hsel''⟩
        · exact hcur
      · exact hcur

lemma mem_entries_cleanSlots :
    e ∈ (p.cleanSlots selected).entries k ↔ ∃ i, (p.slots i).key = some k ∧
      e = ⟨(p.slots i).frame, (p.slots i).dirty && !selected i⟩ := by
  rw [mem_entries]
  refine exists_congr fun i => and_congr Iff.rfl ?_
  rw [eq_comm]
  rfl

/-- The slot holds a dirty committed frame of a page to flush. -/
def Flushable (p : BufferPool j) (targets : List PageKey) (i : ℕ) (k : PageKey) : Prop :=
  (p.slots i).key = some k ∧ p.dirtyCommitted i = true ∧ k ∈ targets

/-- After `n` slots: each flushable one is the one chosen for its page or superseded, and nothing
else is either. -/
structure FlushScanned (p : BufferPool j) (targets : List PageKey) (n : ℕ) (st : FlushScan) :
    Prop where
  newest : ∀ k i, st.newest k = some i → i < n ∧ p.Flushable targets i k
  superseded : ∀ i, st.superseded i = true → ∃ k, p.Flushable targets i k
  chosen : ∀ i k, i < n → p.Flushable targets i k →
    st.newest k = some i ∨ st.superseded i = true ∧ (st.newest k).isSome

namespace FlushScanned

variable {targets : List PageKey} {n : ℕ} {st : FlushScan}

variable (h : p.FlushScanned targets n st)

include h

lemma skip (hn : ∀ k, ¬ p.Flushable targets n k) : p.FlushScanned targets (n + 1) st where
  newest k i hi := ⟨Nat.lt_succ_of_lt (h.newest k i hi).1, (h.newest k i hi).2⟩
  superseded := h.superseded
  chosen i k hi hf := by
    refine h.chosen i k (lt_of_le_of_ne (Nat.lt_succ_iff.1 hi) ?_) hf
    rintro rfl
    exact hn k hf

lemma supersede {k : PageKey} (hn : p.Flushable targets n k)
    (hk : (st.newest k).isSome) : p.FlushScanned targets (n + 1) (st.supersede n) where
  newest k i hi := ⟨Nat.lt_succ_of_lt (h.newest k i hi).1, (h.newest k i hi).2⟩
  superseded i hi := by
    rcases Bool.or_eq_true_iff.1 hi with hi | hi
    · exact h.superseded i hi
    · exact ⟨k, of_decide_eq_true hi ▸ hn⟩
  chosen i k' hi hf := by
    by_cases hin : i = n
    · subst hin
      have hkk : k' = k := some.inj (hf.1.symm.trans hn.1)
      exact .inr ⟨Bool.or_eq_true_iff.2 (.inr (decide_eq_true rfl)), hkk ▸ hk⟩
    · refine (h.chosen i k' (lt_of_le_of_ne (Nat.lt_succ_iff.1 hi) hin) hf).imp id ?_
      exact fun hs => ⟨Bool.or_eq_true_iff.2 (.inl hs.1), hs.2⟩

lemma choose {k : PageKey} (hn : p.Flushable targets n k) :
    p.FlushScanned targets (n + 1) (st.choose k n) where
  newest k' i hi := by
    simp only [FlushScan.choose] at hi
    split at hi
    next hk =>
      cases hi
      exact ⟨Nat.lt_succ_self n, hk ▸ hn⟩
    · exact ⟨Nat.lt_succ_of_lt (h.newest k' i hi).1, (h.newest k' i hi).2⟩
  superseded i hi := by
    rcases Bool.or_eq_true_iff.1 hi with hi | hi
    · exact h.superseded i hi
    · exact ⟨k, (h.newest k i (of_decide_eq_true hi)).2⟩
  chosen i k' hi hf := by
    simp only [FlushScan.choose, Bool.or_eq_true, decide_eq_true_eq]
    by_cases hk : k' = k
    · subst hk
      rw [if_pos rfl]
      rcases Nat.lt_succ_iff_lt_or_eq.1 hi with hi | rfl
      · rcases h.chosen i k' hi hf with hc | hs
        · exact .inr ⟨.inr hc, rfl⟩
        · exact .inr ⟨.inl hs.1, rfl⟩
      · exact .inl rfl
    · rw [if_neg hk]
      have hin : i ≠ n := by
        rintro rfl
        exact hk (some.inj (hf.1.symm.trans hn.1))
      refine (h.chosen i k' (lt_of_le_of_ne (Nat.lt_succ_iff.1 hi) hin) hf).imp id ?_
      exact fun hs => ⟨.inl hs.1, hs.2⟩

lemma step : p.FlushScanned targets (n + 1) (p.flushScanStep targets st n) := by
  rw [flushScanStep]
  split
  next hkey => exact h.skip fun k hf => by simp [Flushable, hkey] at hf
  next k hkey =>
    split
    next hsel =>
      rw [Bool.and_eq_true, contains_iff_mem] at hsel
      split
      next hany =>
        refine h.supersede ⟨hkey, hsel.1, hsel.2⟩ ?_
        rw [Option.any_eq_true] at hany
        obtain ⟨b, hb, -⟩ := hany
        exact isSome_of_mem hb
      · exact h.choose ⟨hkey, hsel.1, hsel.2⟩
    next hsel =>
      refine h.skip fun k' hf => hsel ?_
      have hk : k = k' := some.inj (hkey.symm.trans hf.1)
      rw [Bool.and_eq_true, contains_iff_mem]
      exact ⟨hf.2.1, hk ▸ hf.2.2⟩

end FlushScanned

lemma flushScanned_flushScan (targets : List PageKey) :
    p.FlushScanned targets p.capacity (p.flushScan targets) := by
  rw [flushScan]
  induction p.capacity with
  | zero =>
    refine ⟨fun k i h => ?_, fun i h => ?_, fun i k h => absurd h (Nat.not_lt_zero i)⟩ <;> cases h
  | succ n ih =>
    rw [range_succ, foldl_append]
    exact ih.step

lemma cleaned_cleanSlots (selected : ℕ → Bool)
    (hsel : ∀ i, selected i = true → p.dirtyCommitted i = true) (k : PageKey) :
    Cleaned (p.entries k) ((p.cleanSlots selected).entries k) := by
  have hto : ∀ i, (p.slots i).entry.CleanedTo
      ⟨(p.slots i).frame, (p.slots i).dirty && !selected i⟩ := by
    intro i
    refine ⟨rfl, fun hd => (Bool.and_eq_true_iff.1 hd).1, fun hc => ?_⟩
    cases hs : selected i with
    | false => simp [BufferSlot.entry]
    | true =>
      have hdc := (Bool.and_eq_true_iff.1 (hsel i hs)).2
      rw [hc] at hdc
      cases hdc
  constructor
  · intro e' he'
    obtain ⟨i, hkey, rfl⟩ := mem_entries_cleanSlots.1 he'
    exact ⟨_, mem_entries.2 ⟨i, hkey, rfl⟩, hto i⟩
  · intro e he
    obtain ⟨i, hkey, rfl⟩ := mem_entries.1 he
    exact ⟨_, mem_entries_cleanSlots.2 ⟨i, hkey, rfl⟩, hto i⟩

variable {i : ℕ}

lemma dirtyCommitted_iff : p.dirtyCommitted i = true ↔ (p.slots i).entry.Unflushed := by
  rw [dirtyCommitted, Bool.and_eq_true]
  rfl

/-- What a flush does to one shard and to the files: it writes unflushed frames only, cleans
committed frames only, and leaves nothing unflushed of the pages `flushes` that it can write. -/
structure Flushes (p q : BufferPool j) (d d' : Disk) (flushes : PageKey → Prop) : Prop where
  cleaned : ∀ k, Cleaned (p.entries k) (q.entries k)
  fileHandles : q.fileHandles = p.fileHandles
  writes : d.Writes (fun k img => ∃ e ∈ p.entries k, e.Unflushed ∧ img = e.frame.data) d'
  clean : ∀ k, flushes k → k.1 ∈ p.fileHandles → ∀ e ∈ q.entries k, ¬ e.Unflushed
  current : ∀ k, flushes k → k.1 ∈ p.fileHandles → (∃ e ∈ p.entries k, e.Unflushed) →
    ∃ e ∈ p.entries k, e.Unflushed ∧ d'.current k = e.frame.data

/-- The frames of a selection of dirty committed slots are written, and these and perhaps others
are cleaned. -/
lemma flushes_of_selected {cleanSel writeSel : ℕ → Bool} {flushes : PageKey → Prop}
    (hclean : ∀ i, cleanSel i = true → p.dirtyCommitted i = true)
    (hwrite : ∀ i, writeSel i = true → p.dirtyCommitted i = true)
    (hall : ∀ i k, flushes k → k.1 ∈ p.fileHandles → (p.slots i).key = some k →
      p.dirtyCommitted i = true →
      cleanSel i = true ∧ ∃ i', (p.slots i').key = some k ∧ writeSel i' = true) (d : Disk) :
    Flushes p (p.cleanSlots cleanSel) d (p.writeSlots writeSel d) flushes where
  cleaned := p.cleaned_cleanSlots cleanSel hclean
  fileHandles := rfl
  writes := by
    refine (p.writeSlots_writes writeSel d).mono ?_
    rintro k img ⟨i, hsel, hkey, rfl⟩
    exact ⟨_, mem_entries.2 ⟨i, hkey, rfl⟩, dirtyCommitted_iff.1 (hwrite i hsel), rfl⟩
  clean := by
    intro k hk hfile e he hun
    obtain ⟨i, hkey, rfl⟩ := mem_entries_cleanSlots.1 he
    obtain ⟨hd, hs⟩ := Bool.and_eq_true_iff.1 hun.1
    have hdc : p.dirtyCommitted i = true := dirtyCommitted_iff.2 ⟨hd, hun.2⟩
    rw [(hall i k hk hfile hkey hdc).1] at hs
    cases hs
  current := by
    rintro k hk hfile ⟨e, he, hun⟩
    obtain ⟨i, hkey, rfl⟩ := mem_entries.1 he
    obtain ⟨i', hkey', hsel'⟩ := (hall i k hk hfile hkey (dirtyCommitted_iff.2 hun)).2
    obtain ⟨b, hsel, hkeyb, hcur⟩ := current_writeSlots hsel' hkey' d
    exact ⟨_, mem_entries.2 ⟨b, hkeyb, rfl⟩, dirtyCommitted_iff.1 (hwrite b hsel), hcur⟩

lemma writable_of_mem {k : PageKey} (hkey : (p.slots i).key = some k)
    (hfile : k.1 ∈ p.fileHandles) : p.writable i = true := by
  rw [writable, hkey, any_some, decide_eq_true hfile]

lemma flushed_iff {targets : List PageKey} {k : PageKey} (hkey : (p.slots i).key = some k) :
    p.flushed targets i = true ↔ p.writable i = true ∧ (p.flushScan targets).newest k = some i := by
  rw [flushed, hkey, any_some, Bool.and_eq_true, beq_iff_eq]

lemma flushes_flushPages (targets : List PageKey) (d : Disk) :
    Flushes p (p.flushPages targets d).1 d (p.flushPages targets d).2 (· ∈ targets) := by
  have hscan := p.flushScanned_flushScan targets
  have hwrite : ∀ i, p.flushed targets i = true → p.dirtyCommitted i = true := by
    intro i hi
    cases hkey : (p.slots i).key with
    | none => simp [flushed, hkey] at hi
    | some k => exact (hscan.newest k i ((flushed_iff hkey).1 hi).2).2.2.1
  refine p.flushes_of_selected ?_ hwrite ?_ d
  · intro i hi
    rcases Bool.or_eq_true_iff.1 hi with hi | hi
    · obtain ⟨k, hf⟩ := hscan.superseded i hi
      exact hf.2.1
    · exact hwrite i hi
  · intro i k hk hfile hkey hdc
    have hchosen := hscan.chosen i k (p.occupied_lt i k hkey) ⟨hkey, hdc, hk⟩
    -- the chosen slot of the page is written, and any other one is superseded
    have hflushed : ∀ b, (p.flushScan targets).newest k = some b →
        (p.slots b).key = some k ∧ p.flushed targets b = true := by
      intro b hb
      have hkeyb := (hscan.newest k b hb).2.1
      exact ⟨hkeyb, (flushed_iff hkeyb).2 ⟨writable_of_mem hkeyb hfile, hb⟩⟩
    rcases hchosen with hc | ⟨hs, hsome⟩
    · exact ⟨by rw [(hflushed i hc).2, Bool.or_true], i, hflushed i hc⟩
    · obtain ⟨b, hb⟩ := isSome_iff_exists.1 hsome
      exact ⟨by rw [hs, Bool.true_or], b, hflushed b hb⟩

lemma flushes_checkpointFlush (d : Disk) :
    Flushes p (p.checkpointFlush d).1 d (p.checkpointFlush d).2.1 fun _ => True := by
  refine p.flushes_of_selected ?_ ?_ ?_ d
  · intro i hi
    exact (Bool.and_eq_true_iff.1 hi).1
  · intro i hi
    exact (Bool.and_eq_true_iff.1 hi).1
  · intro i k _ hfile hkey hdc
    have hsel : (p.dirtyCommitted i && p.writable i) = true := by
      rw [hdc, writable_of_mem hkey hfile, Bool.true_and]
    exact ⟨hsel, i, hkey, hsel⟩

end BufferPool

namespace BufferManager

variable (bm : BufferManager)

variable {j : Fin numShards} {bm bm' : BufferManager} {k : PageKey} {d d' : Disk} {version : ℕ}
  {dirty : Bool} {data : Disk → Image} {p : BufferPool (getShardIdx k)}

lemma entries_setShard (p : BufferPool j) (k : PageKey) :
    (bm.setShard p).entries k = if getShardIdx k = j then p.entries k else bm.entries k := by
  by_cases h : getShardIdx k = j
  · subst h
    simp [entries, shardOf, setShard]
  · simp [entries, shardOf, setShard, h]

lemma knows_setShard (p : BufferPool j) (k : PageKey) :
    (bm.setShard p).knows k ↔ if getShardIdx k = j then k.1 ∈ p.fileHandles else bm.knows k := by
  by_cases h : getShardIdx k = j
  · subst h
    simp [knows, shardOf, setShard]
  · simp [knows, shardOf, setShard, h]

variable {i : ℕ} {k' : PageKey}

/-- A cleanup empties only slots with unpinned stamped versions. -/
lemma mem_entries_reclaimCleanup {candidates : List (ℕ × PageKey)} {e : Entry} :
    (e ∈ (bm.reclaimCleanup j candidates).entries k → e ∈ bm.entries k) ∧
      (e ∈ bm.entries k → e ∈ (bm.reclaimCleanup j candidates).entries k ∨
        (bm.pinCounts e.frame.id = 0 ∧ e.committed = true ∧ e.frame.version ≠ 0)) := by
  rw [reclaimCleanup, entries_setShard]
  split
  next h =>
    subst h
    exact mem_entries_reclaimCleanup
  · exact ⟨id, .inl⟩

lemma knows_setShard_of_eq (hp : p.fileHandles = (bm.shardOf k).fileHandles) :
    (bm.setShard p).knows k' ↔ bm.knows k' := by
  rw [knows_setShard]
  split
  next h => rw [hp, knows, shardOf, shardOf, h]
  · rfl

lemma knows_insertHandle (h : bm.knows k') : (bm.insertHandle k).knows k' := by
  rw [insertHandle, knows_setShard]
  split
  next hs =>
    refine Finset.mem_insert_of_mem ?_
    rw [shardOf, ← hs]
    exact h
  · exact h

variable (k k')

/-- A change of one page's frames leaves the other pages alone. -/
lemma entries_setShard_page {p : BufferPool (getShardIdx k)} {es : List Entry}
    (hp : ∀ k', p.entries k' = if k' = k then es else (bm.shardOf k).entries k') :
    (bm.setShard p).entries k' = if k' = k then es else bm.entries k' := by
  rw [entries_setShard]
  split
  next h =>
    rw [hp]
    split
    · rfl
    · rw [entries, shardOf, shardOf, h]
  next h =>
    rw [if_neg]
    rintro rfl
    exact h rfl

@[simp] lemma entries_updateTimestamps (t ts : ℕ) : (bm.updateTimestamps k t ts).entries k' =
      if k' = k then (bm.entries k).map (stampEntry t ts) else bm.entries k' :=
  bm.entries_setShard_page k k' fun k' => entries_mapPage _ k k' _

@[simp] lemma entries_writeFrame (t : ℕ) (page : Page) : (bm.writeFrame k t page).entries k' =
      if k' = k then (bm.entries k).map (writeEntry t page) else bm.entries k' :=
  bm.entries_setShard_page k k' fun k' => entries_mapPage _ k k' _

@[simp] lemma entries_evictSuperseded (keep : ℕ) : (bm.evictSuperseded k keep).entries k' =
      if k' = k then (bm.entries k).filter (fun e => !(e.committed &&
        decide (e.frame.version < keep) && decide (bm.pinCounts e.frame.id = 0)))
      else bm.entries k' :=
  bm.entries_setShard_page k k' fun k' => entries_dropPage _ k k' _

@[simp] lemma entries_rollbackVersions (k : PageKey) (t : ℕ) : (bm.rollbackVersions t).entries k =
      (bm.entries k).filter fun e => !decide (e.frame.version = mark t) :=
  entries_dropFrames (bm.shardOf k) (fun e => decide (e.frame.version = mark t)) k

@[simp] lemma entries_insertHandle : (bm.insertHandle k).entries k' = bm.entries k' := by
  rw [insertHandle, entries_setShard]
  split
  next h =>
    change (bm.shardOf k).entries k' = _
    rw [entries, shardOf, shardOf, h]
  · rfl

@[simp] lemma entries_touch (fid : ℕ) : (bm.touch k fid).entries k' = bm.entries k' := by
  rw [touch, entries_setShard]
  split
  next h => rw [((bm.shardOf k).sameResidents_touch fid).entries, entries, shardOf, shardOf, h]
  · rfl

/-! ## Files a shard can write to -/

@[simp] lemma knows_insertHandle_self : (bm.insertHandle k).knows k := by
  rw [insertHandle, knows_setShard, if_pos rfl]
  exact Finset.mem_insert_self _ _

@[simp] lemma knows_updateTimestamps (t ts : ℕ) :
    (bm.updateTimestamps k t ts).knows k' ↔ bm.knows k' := bm.knows_setShard_of_eq rfl

@[simp] lemma knows_writeFrame (t : ℕ) (page : Page) :
    (bm.writeFrame k t page).knows k' ↔ bm.knows k' := bm.knows_setShard_of_eq rfl

@[simp] lemma knows_evictSuperseded (keep : ℕ) :
    (bm.evictSuperseded k keep).knows k' ↔ bm.knows k' := bm.knows_setShard_of_eq rfl

@[simp] lemma knows_touch (fid : ℕ) :
    (bm.touch k fid).knows k' ↔ bm.knows k' := bm.knows_setShard_of_eq rfl

@[simp] lemma knows_pin (fid : ℕ) : (bm.pin fid).knows k ↔ bm.knows k := Iff.rfl

@[simp] lemma knows_reclaimCleanup (j : Fin numShards) (candidates : List (ℕ × PageKey))
    (k : PageKey) : (bm.reclaimCleanup j candidates).knows k ↔ bm.knows k := by
  rw [reclaimCleanup, knows_setShard]
  split
  next hs =>
    subst hs
    rfl
  · rfl

variable {k k'}

/-! ## Placing a frame -/

/-- Nothing resident, pinned or known has changed. -/
structure SameFrames (bm bm' : BufferManager) : Prop where
  entries : ∀ k, bm'.entries k = bm.entries k
  knows : ∀ k, bm'.knows k ↔ bm.knows k
  pinCounts : bm'.pinCounts = bm.pinCounts
  nextFrameId : bm'.nextFrameId = bm.nextFrameId

/-- The frame `f` was placed for page `k`: at most one other frame has gone, which was not pinned,
and, if it was dirty, was committed and is written. -/
structure PlacedFrame (bm : BufferManager) (d : Disk) (k : PageKey) (e₀ : Entry)
    (bm' : BufferManager) (d' : Disk) : Prop where
  mem : ∀ k' e, e ∈ bm'.entries k' → e ∈ bm.entries k' ∨ (k' = k ∧ e = e₀)
  new : e₀ ∈ bm'.entries k
  kept : ∀ k' e, e ∈ bm.entries k' → e ∈ bm'.entries k' ∨
    (bm.pinCounts e.frame.id = 0 ∧
      (e.dirty = true → e.committed = true ∧ (bm.knows k' → d'.current k' = e.frame.data)))
  writes : d.Writes (fun k img => ∃ e ∈ bm.entries k, e.Unflushed ∧ img = e.frame.data) d'
  knows : ∀ k', bm'.knows k' ↔ bm.knows k'
  pinCounts : bm'.pinCounts = update bm.pinCounts bm.nextFrameId 0
  nextFrameId : bm'.nextFrameId = bm.nextFrameId + 1

lemma sameFrames_setShard
    (h : BufferPool.SameResidents (bm.shardOf k) p) : bm.SameFrames (bm.setShard p) where
  entries k' := by
    rw [entries_setShard]
    split
    next hs => rw [h.entries, BufferManager.entries, shardOf, shardOf, hs]
    · rfl
  knows k' := bm.knows_setShard_of_eq h.fileHandles
  pinCounts := rfl
  nextFrameId := rfl

lemma placedFrame_install {q : BufferPool (getShardIdx k)}
    (hsame : BufferPool.SameResidents (bm.shardOf k) q) (hi : q.Evictable bm.pinCounts i)
    (e₀ : Entry) : bm.PlacedFrame d k e₀
      { bm.setShard (q.install i hi.lt k rfl e₀) with
        pinCounts := update bm.pinCounts bm.nextFrameId 0
        nextFrameId := bm.nextFrameId + 1 }
      (q.writeBack d i) := by
  have hentries : ∀ k',
      ({ bm.setShard (q.install i hi.lt k rfl e₀) with
          pinCounts := update bm.pinCounts bm.nextFrameId 0
          nextFrameId := bm.nextFrameId + 1 } : BufferManager).entries k' =
        if getShardIdx k' = getShardIdx k then (q.install i hi.lt k rfl e₀).entries k'
        else bm.entries k' := fun k' => bm.entries_setShard _ k'
  have hq : ∀ k', getShardIdx k' = getShardIdx k → q.entries k' = bm.entries k' := by
    intro k' hs
    rw [hsame.entries, entries, shardOf, shardOf, hs]
  have hmem : ∀ i' k', (q.slots i').key = some k' → (q.slots i').entry ∈ bm.entries k' := by
    intro i' k' hkey
    rw [← hq k' (q.homed i' k' hkey)]
    exact mem_entries.2 ⟨i', hkey, rfl⟩
  constructor
  case mem =>
    intro k' e he
    rw [hentries] at he
    split at he
    · rcases mem_entries_install.1 he with he | ⟨i', -, hkey, rfl⟩
      · exact .inr he
      · exact .inl (hmem i' k' hkey)
    · exact .inl he
  case new =>
    rw [hentries, if_pos rfl]
    exact mem_entries_install.2 (.inl ⟨rfl, rfl⟩)
  case kept =>
    intro k' e he
    rw [hentries]
    split
    next hs =>
      rw [← hq k' hs] at he
      obtain ⟨i', hkey, rfl⟩ := mem_entries.1 he
      by_cases hi' : i' = i
      · -- the frame in the slot given up
        subst hi'
        refine .inr ⟨hi.unpinned, fun hd => ⟨?_, fun hknows => ?_⟩⟩
        · exact Bool.not_eq_true' _ ▸ hi.committed hd
        · have hfile : k'.1 ∈ q.fileHandles := by
            rw [hsame.fileHandles, shardOf, ← hs]
            exact hknows
          have hd : (q.slots i').dirty = true := hd
          simp [BufferPool.writeBack, hkey, hd, hfile, BufferSlot.entry]
      · exact .inl (mem_entries_install.2 (.inr ⟨i', hi', hkey, rfl⟩))
    · exact .inl he
  case writes =>
    rw [BufferPool.writeBack]
    split
    next k' hkey =>
      split
      next hsel =>
        have hd := (Bool.and_eq_true_iff.1 hsel).1
        refine .write .refl ⟨_, hmem i k' hkey, ⟨hd, ?_⟩, rfl⟩
        exact Bool.not_eq_true' _ ▸ hi.committed hd
      · exact .refl
    · exact .refl
  case knows =>
    intro k'
    exact bm.knows_setShard_of_eq (p := q.install i hi.lt k rfl e₀) hsame.fileHandles
  case pinCounts => rfl
  case nextFrameId => rfl

/-- The files as the eviction leaves them that makes room for a page. -/
def filesAfterEviction (bm : BufferManager) (d : Disk) (k : PageKey) : Disk :=
  ((bm.shardOf k).evictWithClock bm.pinCounts d).disk

/-- **Placement.** -/
lemma place_placed {f : Frame} (h : bm.place d k version dirty data = .placed f bm' d') :
    f = ⟨bm.nextFrameId, data d', version⟩ ∧ bm.PlacedFrame d k ⟨f, dirty⟩ bm' d' ∧
      d' = bm.filesAfterEviction d k := by
  obtain ⟨hsame, -, hfound⟩ := (bm.shardOf k).evictWithClock_spec bm.pinCounts d
  rw [place] at h
  cases hf : ((bm.shardOf k).evictWithClock bm.pinCounts d).found with
  | none =>
    simp only [hf] at h
    cases h
  | some i =>
    obtain ⟨hev, hdisk⟩ := hfound i hf
    simp only [hf, dif_pos hev.lt] at h
    cases h
    exact ⟨rfl, hdisk ▸ bm.placedFrame_install hsame hev _, rfl⟩

lemma place_needRetry (h : bm.place d k version dirty data = .needRetry bm') :
    bm.SameFrames bm' := by
  obtain ⟨hsame, -, hfound⟩ := (bm.shardOf k).evictWithClock_spec bm.pinCounts d
  rw [place] at h
  cases hf : ((bm.shardOf k).evictWithClock bm.pinCounts d).found with
  | none =>
    simp only [hf] at h
    cases h
    exact bm.sameFrames_setShard hsame
  | some i =>
    simp only [hf, dif_pos (hfound i hf).1.lt] at h
    cases h

/-! ## Flushing -/

/-- What a flush does to the resident frames and to the files: it writes unflushed frames only,
cleans committed frames only, and leaves nothing unflushed of the pages `flushes` that it can
write. -/
structure FlushedTo (bm : BufferManager) (d : Disk) (flushes : PageKey → Prop)
    (bm' : BufferManager) (d' : Disk) : Prop where
  cleaned : ∀ k, Cleaned (bm.entries k) (bm'.entries k)
  knows : ∀ k, bm'.knows k ↔ bm.knows k
  pinCounts : bm'.pinCounts = bm.pinCounts
  nextFrameId : bm'.nextFrameId = bm.nextFrameId
  writes : d.Writes (fun k img => ∃ e ∈ bm.entries k, e.Unflushed ∧ img = e.frame.data) d'
  clean : ∀ k, flushes k → bm.knows k → ∀ e ∈ bm'.entries k, ¬ e.Unflushed
  current : ∀ k, flushes k → bm.knows k → (∃ e ∈ bm.entries k, e.Unflushed) →
    ∃ e ∈ bm.entries k, e.Unflushed ∧ d'.current k = e.frame.data

lemma flushedTo_setShard {q : BufferPool j}
    {flushes : PageKey → Prop} (h : BufferPool.Flushes (bm.shards j) q d d' flushes) :
    bm.FlushedTo d (fun k => getShardIdx k = j ∧ flushes k) (bm.setShard q) d' where
  cleaned k := by
    rw [entries_setShard]
    split
    next hs =>
      subst hs
      exact h.cleaned k
    · exact .refl _
  knows k := by
    rw [knows_setShard]
    split
    next hs =>
      subst hs
      rw [h.fileHandles]
      rfl
    · rfl
  pinCounts := rfl
  nextFrameId := rfl
  writes := by
    refine h.writes.mono ?_
    rintro k img ⟨e, he, hun, rfl⟩
    obtain ⟨i, hkey, rfl⟩ := mem_entries.1 he
    obtain rfl := (bm.shards j).homed i k hkey
    exact ⟨_, he, hun, rfl⟩
  clean := by
    rintro k ⟨rfl, hk⟩ hknows e he
    rw [entries_setShard, if_pos rfl] at he
    exact h.clean k hk hknows e he
  current := by
    rintro k ⟨rfl, hk⟩ hknows
    exact h.current k hk hknows

lemma flushedTo_flushPages (j : Fin numShards) (targets : List PageKey) (d : Disk) :
    bm.FlushedTo d (fun k => getShardIdx k = j ∧ k ∈ targets) (bm.flushPages j targets d).1
      (bm.flushPages j targets d).2 :=
  bm.flushedTo_setShard ((bm.shards j).flushes_flushPages targets d)

lemma flushedTo_checkpointFlush (j : Fin numShards) (d : Disk) :
    bm.FlushedTo d (fun k => getShardIdx k = j ∧ True) (bm.checkpointFlush j d).1
      (bm.checkpointFlush j d).2.1 :=
  bm.flushedTo_setShard ((bm.shards j).flushes_checkpointFlush d)

end BufferManager

end LightningDB
