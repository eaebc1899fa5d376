import LightningDB.Engine.Sound

/-!
# Where uncommitted bytes can be

The versions that transactions make of pages are in the pool with their marks until they are stamped or
rolled back.  In every run a transaction reads no version of another that was not committed, and none gets
into a file.  What stays behind are the versions of read-only transactions: nothing removes them when the
transaction ends.
-/

namespace LightningDB

open Engine

open Framework List Option

variable {s s' : Engine} {a : EngineAction} {t : ℕ} {lt : LiveTx} {k : PageKey}

/-! ## Reads -/

/-- The page as it is in its file after the eviction that makes room for it. -/
def Engine.fileCopy (s : Engine) (k : PageKey) : Image := (s.bm.filesAfterEviction s.disk k).loadPage k

lemma Sound.fileCopy_mem (h : Sound s) (k : PageKey) : s.fileCopy k ∈ s.hist k := by
  obtain ⟨hsame, hnone, hfound⟩ := (s.bm.shardOf k).evictWithClock_spec s.bm.pinCounts s.disk
  rw [fileCopy, BufferManager.filesAfterEviction]
  cases hf : ((s.bm.shardOf k).evictWithClock s.bm.pinCounts s.disk).found with
  | none =>
    rw [hnone hf]
    exact h.copies.loadPage k
  | some i =>
    obtain ⟨hev, hdisk⟩ := hfound i hf
    rw [hdisk]
    have hplaced := s.bm.placedFrame_install (d := s.disk) hsame hev ⟨⟨0, Image.zero, 0⟩, false⟩
    exact (h.copies.writes hplaced.writes).loadPage k

/-- What a `pin_page` that returns in state `s` has read: a frame that it found, or else the file, which it
reads without looking again once it has waited for a slot. -/
inductive Engine.ReadIn (s : Engine) : PageRead → Prop where
  | resident {t : ℕ} {lt : LiveTx} {k : PageKey} {f : Frame} (hlt : s.live t = some lt)
      (hfind : s.bm.findVisible k t lt.tx.readTs = some f) : ReadIn s ⟨t, k, f.data⟩
  | loaded {t : ℕ} {lt : LiveTx} {k : PageKey} (hlt : s.live t = some lt)
      (hfind : s.bm.findVisible k t lt.tx.readTs = none) : ReadIn s ⟨t, k, s.fileCopy k⟩
  | reloaded {t : ℕ} {lt : LiveTx} {k : PageKey} (hlt : s.live t = some lt)
      (hphase : lt.phase = .pinning k) : ReadIn s ⟨t, k, s.fileCopy k⟩

lemma reads_moves (hm : s.Moves a s') :
    s'.reads = s.reads ∨ ∃ r, s.ReadIn r ∧ s'.reads = r :: s.reads := by
  cases hm
  case pinHit hlt hphase hfind => exact .inr ⟨_, .resident hlt hfind, rfl⟩
  case pinLoad hlt hphase hfind hf hd hbm =>
    refine .inr ⟨_, .loaded hlt hfind, ?_⟩
    rw [returnFrame, hf, hd, fileCopy]
  case retryPinLoad hlt hphase hf hd hbm =>
    refine .inr ⟨_, .reloaded hlt hphase, ?_⟩
    rw [returnFrame, hf, hd, fileCopy]
  case stamp hfind =>
    rw [stamp_eq hfind]
    exact .inl rfl
  all_goals exact .inl rfl

lemma Sound.readIn (h : Sound s) (hb : s.Bounded) {r : PageRead} (hr : s.ReadIn r) :
    ∃ lt, s.live r.tx = some lt ∧
      (lt.own r.key = some r.image.page ∨ lt.own r.key = none ∧ r.image ∈ s.hist r.key) := by
  cases hr with
  | @resident t lt k f hlt hfind =>
    refine ⟨lt, hlt, ?_⟩
    rw [BufferManager.findVisible, map_eq_some_iff] at hfind
    obtain ⟨e, he, rfl⟩ := hfind
    rcases scanVersions_spec (fun v => decide (v ≤ lt.tx.readTs)) (mark t)
      (s.bm.entries k).reverse with ⟨e', he', hv, hscan⟩ | ⟨hno, hcommitted⟩
    · rw [he, some.injEq] at hscan
      subst hscan
      exact .inl (h.own_eq_some hb hlt ⟨e, mem_reverse.1 he', rfl, hv⟩)
    · obtain ⟨hmem, hcom⟩ := hcommitted e he
      refine .inr ⟨h.own_eq_none hlt fun e he => hno e (mem_reverse.2 he), ?_⟩
      exact (h.copies.resident k e (mem_reverse.1 hmem) hcom).1
  | @loaded t lt k hlt hfind =>
    exact ⟨lt, hlt, .inr ⟨h.own_eq_none hlt (findVisible_eq_none hfind), h.fileCopy_mem k⟩⟩
  | @reloaded t lt k hlt hphase =>
    have hnone := h.phases t lt hlt
    rw [PhaseOk, hphase] at hnone
    exact ⟨lt, hlt, .inr ⟨hnone, h.fileCopy_mem k⟩⟩

/-- **No dirty reads.**  Whenever a `pin_page` returns, in any run, it has read the transaction's own
version of the page, or else a version that was committed. -/
theorem reads_own_or_committed {r : PageRead} (hr : engineSystem.Reachable s) (hb : s.Bounded)
    (hstep : s.step a = some s') (hread : s'.reads = r :: s.reads) :
    ∃ lt, s.live r.tx = some lt ∧
      (lt.own r.key = some r.image.page ∨ lt.own r.key = none ∧ r.image ∈ s.hist r.key) := by
  rcases reads_moves (step_moves hstep) with hsame | ⟨r', hr', hcons⟩
  · exact absurd (hsame ▸ hread) ne_cons_self
  · obtain rfl := (cons.inj (hread.symm.trans hcons)).1
    exact (sound_of_reachable hr hb).readIn hb hr'

/-- Reader 1 begins, and writer 2 writes the first page. -/
def readerThenWriter : List EngineAction :=
  .addNewPage 0 :: EngineAction.beginAt 1 true ++ EngineAction.beginAt 2 false ++
    EngineAction.writePage 2 (0, 0) (Page.fill 7) 1

/-- While the writer has not committed, the reader gets a committed version. -/
theorem reader_reads_committed :
    ∃ s s' r, engineSystem.Reachable s ∧ s.step (.pinPage 1 (0, 0)) = some s' ∧
      s'.reads = r :: s.reads ∧ r.image ∈ s.hist r.key := by
  have hrun : ((engineSystem.exec (.fresh 32 {0}) readerThenWriter).bind fun s =>
      (s.step (.pinPage 1 (0, 0))).bind fun s' => s'.reads.head?.bind fun r => (s.live 1).map fun lt =>
        decide (s.reads.length = 0 ∧ s'.reads.length = 1 ∧ r.tx = 1 ∧ (lt.own r.key).isNone ∧
          s.tm.nextTxId ≤ uncommittedBit ∧ s.tm.currentTs < uncommittedBit)) = some true := by
    decide +kernel
  obtain ⟨s, hs, hrun⟩ := bind_eq_some_iff.1 hrun
  obtain ⟨s', hs', hrun⟩ := bind_eq_some_iff.1 hrun
  obtain ⟨r, hr, hrun⟩ := bind_eq_some_iff.1 hrun
  obtain ⟨lt, hlive, hrun⟩ := map_eq_some_iff.1 hrun
  obtain ⟨hnone, hone, htx, hown, hbounds⟩ := of_decide_eq_true hrun
  have hread : s'.reads = r :: s.reads := by
    obtain ⟨r', hr'⟩ := List.length_eq_one_iff.1 hone
    rw [hr', List.head?_cons, some.injEq] at hr
    rw [hr', hr, List.length_eq_zero_iff.1 hnone]
  obtain ⟨lt', hlt', hor⟩ := reads_own_or_committed (reachable_of_exec hs) hbounds hs' hread
  rw [htx, hlive, some.injEq] at hlt'
  have hne : lt'.own r.key ≠ some r.image.page := by simp [← hlt', isNone_iff_eq_none.1 hown]
  exact ⟨s, s', r, reachable_of_exec hs, hs', hread, (hor.resolve_left hne).2⟩

/-! ## Files -/

/-- **No uncommitted bytes in the files.**  In any run, a page as it is in its file, and every image
that a crash may leave of it, is a version of the page that was committed. -/
theorem files_hold_committed (hr : engineSystem.Reachable s) (hb : s.Bounded) (k : PageKey) :
    ∀ v, v = s.disk.current k ∨ v ∈ s.disk.durable k → v ∈ s.hist k ∧ v.origin ≤ s.tm.currentTs := by
  have h := sound_of_reachable hr hb
  intro v hv
  have hmem : v ∈ s.hist k := hv.elim (fun hc => hc ▸ h.copies.current k) (h.copies.durable k v)
  exact ⟨hmem, h.history.upTo k v hmem⟩

/-- Writer 1 commits a page, which is flushed, and reader 2 waits for the only slot of its shard. -/
def committedAndEvicted : List EngineAction :=
  .addNewPage 0 :: EngineAction.beginAt 1 false ++ EngineAction.writePage 1 (0, 0) (Page.fill 7) 1 ++
    EngineAction.commitSteps 1 [] 31 ++ EngineAction.beginAt 2 true ++ [.pinPage 2 (0, 30), .retryPin 2]

/-- Then the page is in its file and not in the pool. -/
theorem files_hold_committed_evicted :
    ∃ s, engineSystem.Reachable s ∧ (s.disk.current (0, 0)).page.bytes.head? = some 7 ∧
      s.bm.entries (0, 0) = [] ∧ ∀ v, v = s.disk.current (0, 0) ∨ v ∈ s.disk.durable (0, 0) →
        v ∈ s.hist (0, 0) ∧ v.origin ≤ s.tm.currentTs := by
  have hrun : ((engineSystem.exec (.fresh 16 {0}) committedAndEvicted).map fun s =>
      (decide (s.tm.nextTxId ≤ uncommittedBit ∧ s.tm.currentTs < uncommittedBit),
        (s.disk.current (0, 0)).page.bytes.head?, (s.bm.entries (0, 0)).isEmpty)) =
          some (true, some 7, true) := by
    decide +kernel
  obtain ⟨s, hs, hobs⟩ := map_eq_some_iff.1 hrun
  simp only [Prod.mk.injEq, decide_eq_true_eq, List.isEmpty_iff] at hobs
  have hr := reachable_of_exec hs
  exact ⟨s, hr, hobs.2.1, hobs.2.2, files_hold_committed hr hobs.1 (0, 0)⟩

/-! ## The pool -/

/-- **Uncommitted versions.**  In any run, a frame with a mark has the bytes of a live transaction's
own version, or is one that a read-only transaction has left when it ended; and what a live transaction
has written stays in the pool, dirty. -/
theorem own_versions_resident (hr : engineSystem.Reachable s) (hb : s.Bounded) (k : PageKey) :
    (∀ e ∈ s.bm.entries k, e.committed = false →
      (∃ t lt, s.live t = some lt ∧ e.frame.version = mark t ∧ lt.own k = some e.frame.data.page) ∨
        ∃ t ∈ s.endedReaders, e.frame.version = mark t) ∧
    ∀ t lt page, s.live t = some lt → lt.own k = some page → ∃ e ∈ s.bm.entries k,
      e.frame.version = mark t ∧ e.frame.data.page = page ∧ e.dirty = true := by
  have h := sound_of_reachable hr hb
  refine ⟨fun e he hun => (h.owners.marked k e he hun).2.2, fun t lt page hlt hown => ?_⟩
  obtain ⟨e, he, hv⟩ := h.owners.resident t lt k hlt (by simp [hown])
  have hpage := h.own_eq_some hb hlt ⟨e, he, rfl, hv⟩
  rw [hown, some.injEq] at hpage
  exact ⟨e, he, hv, hpage.symm, (h.owners.marked k e he (committed_of_version_mark hv)).1⟩

/-- Reader 1 makes a version of the first page and ends, and then writer 2 writes the page. -/
def leftByReader : List EngineAction :=
  .addNewPage 0 :: EngineAction.beginAt 1 true ++ [.createVersion 1 (0, 0), .unpin 1 1,
    .finishReadOnly 1] ++ EngineAction.beginAt 2 false ++ EngineAction.writePage 2 (0, 0) (Page.fill 7) 2

/-- Both versions are in the pool. -/
theorem versions_of_both_resident : ∃ s, engineSystem.Reachable s ∧ s.live 1 = none ∧
    (∃ e ∈ s.bm.entries (0, 0), e.frame.version = mark 1 ∧
      ((∃ t lt, s.live t = some lt ∧ e.frame.version = mark t ∧ lt.own (0, 0) = some e.frame.data.page) ∨
        ∃ t ∈ s.endedReaders, e.frame.version = mark t)) ∧
    ∃ e ∈ s.bm.entries (0, 0), e.frame.version = mark 2 ∧ e.dirty = true := by
  have hrun : ((engineSystem.exec (.fresh 32 {0}) leftByReader).map fun s =>
      (decide (s.tm.nextTxId ≤ uncommittedBit ∧ s.tm.currentTs < uncommittedBit), (s.live 1).isNone,
        (s.bm.entries (0, 0)).any fun e => e.frame.version = mark 1,
        ((s.live 2).bind fun lt => lt.own (0, 0)).isSome)) = some (true, true, true, true) := by
    decide +kernel
  obtain ⟨s, hs, hobs⟩ := map_eq_some_iff.1 hrun
  simp only [Prod.mk.injEq, decide_eq_true_eq, isNone_iff_eq_none, List.any_eq_true, isSome_iff_exists,
    bind_eq_some_iff] at hobs
  obtain ⟨hb, hlive, ⟨e, he, hv⟩, page, lt, hlt, hown⟩ := hobs
  obtain ⟨hmarked, hresident⟩ := own_versions_resident (reachable_of_exec hs) hb (0, 0)
  obtain ⟨e', he', hv', -, hdirty⟩ := hresident 2 lt page hlt hown
  exact ⟨s, reachable_of_exec hs, hlive, ⟨e, he, hv, hmarked e he (committed_of_version_mark hv)⟩,
    e', he', hv', hdirty⟩

end LightningDB
