import LightningDB.Engine.Invariant

/-!
# The engine's invariant holds in every reachable state

As long as fewer than `2 ^ 63` ids and timestamps have been given out: beyond that an id could not
be told from its mark.  Both counters only grow, so it is enough that the bound holds in the last
state of a run.
-/

namespace LightningDB

open Framework Function List Option BufferManager Engine TransactionManager Engine BufferManager

structure Sound (s : Engine) : Prop where
  history : HistoryOk s.hist s.tm.currentTs
  copies : Copies s.bm s.disk s.hist s.prefetched
  owners : Owners s.bm s.live s.endedReaders
  ids : IdsOk s.live s.beginning s.endedReaders s.tm.nextTxId
  phases : Phases s.bm s.hist s.committer s.tm.currentTs s.live

/-- Fewer than `2 ^ 63` ids and timestamps have been given out. -/
def Engine.Bounded (s : Engine) : Prop :=
  s.tm.nextTxId ≤ uncommittedBit ∧ s.tm.currentTs < uncommittedBit

variable {s s' : Engine} {a : EngineAction} {t : ℕ} {lt : LiveTx} {k : PageKey}

/-! ## Finding one's own version -/

variable {ts m : ℕ} {bm : BufferManager} {f : Frame}

lemma findByMark_eq_some
    (h : bm.findByMark k m = some f) : ∃ e ∈ bm.entries k, e.frame = f ∧ f.version = m := by
  rw [findByMark, map_eq_some_iff] at h
  obtain ⟨e, he, rfl⟩ := h
  have hv := find?_some he
  exact ⟨e, mem_reverse.1 (mem_of_find?_eq_some he), rfl, of_decide_eq_true hv⟩

lemma findByMark_eq_none (h : bm.findByMark k m = none) :
    ∀ e ∈ bm.entries k, e.frame.version ≠ m := by
  rw [findByMark, map_eq_none_iff, find?_eq_none] at h
  intro e he hv
  exact h e (mem_reverse.2 he) (decide_eq_true hv)

lemma ownFrame_eq_some (h : s.ownFrame k t = some f) :
    ∃ e ∈ s.bm.entries k, e.frame = f ∧ f.version = mark t := by
  rw [ownFrame, filter_eq_some_iff, findSource, map_eq_some_iff] at h
  obtain ⟨⟨e, he, rfl⟩, hv⟩ := h
  refine ⟨e, ?_, rfl, of_decide_eq_true hv⟩
  rcases scanVersions_spec (fun _ => true) (mark t) (s.bm.entries k).reverse with
    ⟨e', he', -, hscan⟩ | ⟨-, hmem⟩
  · rw [hscan, some.injEq] at he
    exact he ▸ mem_reverse.1 he'
  · exact mem_reverse.1 (hmem e he).1

lemma ownFrame_eq_none (h : s.ownFrame k t = none) :
    ∀ e ∈ s.bm.entries k, e.frame.version ≠ mark t := by
  rcases scanVersions_spec (fun _ => true) (mark t) (s.bm.entries k).reverse with
    ⟨e', he', hv, hscan⟩ | ⟨hno, -⟩
  · rw [ownFrame, findSource, hscan] at h
    simp [hv] at h
  · exact fun e he => hno e (mem_reverse.2 he)

lemma findVisible_eq_none (h : bm.findVisible k t ts = none) :
    ∀ e ∈ bm.entries k, e.frame.version ≠ mark t := by
  rw [findVisible] at h
  rcases scanVersions_spec (fun v => decide (v ≤ ts)) (mark t)
    (bm.entries k).reverse with ⟨e', he', hv, hscan⟩ | ⟨hno, -⟩
  · rw [hscan] at h
    cases h
  · exact fun e he => hno e (mem_reverse.2 he)

namespace Sound

variable (h : Sound s)

include h

lemma idsBelow (hb : s.Bounded) : IdsBelow s.live s.endedReaders where
  below t lt hlt := (h.ids.issued t lt hlt).1.trans_le hb.1
  ended t ht := ⟨(h.ids.ended t ht).1.trans_le hb.1, (h.ids.ended t ht).2.2⟩

lemma own_eq_none (hlt : s.live t = some lt)
    (hno : ∀ e ∈ s.bm.entries k, e.frame.version ≠ mark t) : lt.own k = none := by
  by_contra hne
  obtain ⟨e, he, hv⟩ := h.owners.resident t lt k hlt hne
  exact hno e he hv

lemma own_eq_some (hb : s.Bounded) (hlt : s.live t = some lt) {f : Frame}
    (hf : ∃ e ∈ s.bm.entries k, e.frame = f ∧ f.version = mark t) :
    lt.own k = some f.data.page := by
  obtain ⟨e, he, rfl, hv⟩ := hf
  exact h.owners.own_eq (h.idsBelow hb) hlt he hv

/-! ## One step -/

lemma history_moves (hb : s.Bounded) (hm : s.Moves a s') : HistoryOk s'.hist s'.tm.currentTs := by
  have hh := h.history
  cases hm
  case allocTxId halloc =>
    rw [(allocTxId_eq_some halloc).2]
    exact hh
  case startCommit hts =>
    rw [(nextCommitTs_eq_some hts).2]
    exact hh.mono (Nat.le_succ _)
  case stamp t lt c k pages f hlt hphase hstage hfind =>
    have hc := (h.phases t lt hlt).commitOk hphase
    have hown : lt.own k ≠ none := by
      rw [h.own_eq_some hb hlt (findByMark_eq_some hfind)]
      exact some_ne_none _
    rw [stamp_eq hfind]
    exact hh.push (hc.lock (by rw [hstage]; simp)).2.le (hc.newest k (.inl hown))
  case finishReadOnly | rollback | drop =>
    rw [s.tm.finish_currentTs]
    exact hh
  all_goals exact hh

lemma copies_moves (hb : s.Bounded) (hm : s.Moves a s') : Copies s'.bm s'.disk s'.hist s'.prefetched := by
  have hc := h.copies
  cases hm
  case addNewPage f => exact hc.addNewPage f
  case syncFile f | checkpointSync f _ => exact hc.sync f
  case pinHit | unpin | pinMarked | unpinOne => exact hc.of_entries_eq fun _ => rfl
  case pinLoad hf _ hbm | retryPinLoad hf _ hbm =>
    have hplaced := hc.place hbm fun _ => ⟨congrArg Frame.version hf, hf ▸ (hc.writes hbm.writes).loadPage _⟩
    exact hplaced.of_entries_eq fun _ => rfl
  case pinWait hbm | retryPinWait hbm | retryCreateWait hbm => exact hc.of_entries_eq hbm.entries
  case createHit k lt f hlt hphase hfind =>
    exact hc.of_entries_eq fun k' => s.bm.entries_touch k k' f.id
  case createPlace t k lt f bm d hlt hphase hfind hf hbm =>
    have hc' := hc.of_entries_eq (s.bm.entries_insertHandle k)
    exact (hc'.placeMarked (t := t) (by rw [hf]) hbm).of_entries_eq fun _ => rfl
  case createWait k _ bm _ _ _ hbm | installWait k _ _ bm _ _ _ hbm =>
    exact hc.of_entries_eq fun k' => (hbm.entries k').trans (s.bm.entries_insertHandle k k')
  case retryCreatePlace t k source lt f bm d hlt hphase hf hbm =>
    exact (hc.placeMarked (t := t) (by rw [hf]) hbm).of_entries_eq fun _ => rfl
  case write t k page lt f hlt hphase hfind => exact hc.writeFrame k t page
  case installHit t lt c k page groups f hlt hphase hstage hfind =>
    refine Copies.writeFrame (hc.of_entries_eq ?_) k t page
    exact fun k' => s.bm.entries_touch k k' f.id
  case installPlace t lt c k page groups f bm d hlt hphase hstage hfind hf hbm =>
    have hc' := hc.of_entries_eq (s.bm.entries_insertHandle k)
    have hplaced := hc'.placeMarked (t := t) (by rw [hf]) hbm
    have hpinned : Copies (bm.pin f.id) d s.hist s.prefetched := hplaced.of_entries_eq fun _ => rfl
    exact hpinned.writeFrame k t page
  case stamp hlt hphase hstage hfind =>
    -- a transaction has one marked copy of a page, so all that are stamped have the same image
    have hown := h.own_eq_some hb hlt (findByMark_eq_some hfind)
    rw [stamp_eq hfind]
    refine hc.stamp fun e he hv => ?_
    have hown' := h.own_eq_some hb hlt ⟨e, he, rfl, hv⟩
    rw [hown, some.injEq] at hown'
    exact hown'.symm
  case flush t lt c j shards hlt hphase hstage =>
    have hfl := s.bm.flushedTo_flushPages j lt.tx.modifiedPages s.disk
    exact (hc.writes hfl.writes).cleaned hfl.cleaned
  case evictSuperseded =>
    refine hc.subset fun k' e he => ?_
    rw [entries_evictSuperseded] at he
    split at he
    next hk => exact hk ▸ mem_of_mem_filter he
    · exact he
  case rollback | drop =>
    -- versions are only removed
    refine hc.subset fun k' e he => ?_
    split at he
    · exact he
    · rw [entries_rollbackVersions] at he
      exact mem_of_mem_filter he
  case prefetchRead k hpage =>
    refine hc.prefetch fun x hx => ?_
    rcases mem_cons.1 hx with rfl | hx
    · exact .inr (hc.current k)
    · exact .inl hx
  case prefetchSkip hmem hbm =>
    refine (hc.of_entries_eq hbm.entries).prefetch fun x hx => .inl (mem_of_mem_erase hx)
  case prefetchPlace k img bm d hmem hbm =>
    have hplaced := hc.place hbm fun _ => ⟨rfl, hc.prefetched _ hmem⟩
    exact hplaced.prefetch fun x hx => .inl (mem_of_mem_erase hx)
  case reclaimCleanup =>
    exact hc.subset fun k e he => mem_entries_reclaimCleanup.1 he
  case checkpointFlush c j cks =>
    have hfl := s.bm.flushedTo_checkpointFlush j s.disk
    exact (hc.writes hfl.writes).cleaned hfl.cleaned
  all_goals exact hc

/-- Some frame of the page is the transaction's own, or none is and it owns nothing there. -/
lemma owners_install (hb : s.Bounded) {bm : BufferManager} {d : Disk} {c : CommitState} {page : Page}
    {groups : List (PageKey × List PageRowMod)} {f : Frame} (hlt : s.live t = some lt)
    (hphase : lt.phase = .committing c) (hstage : c.stage = .installing k page groups)
    (hfind : s.ownFrame k t = none) (hf : f = ⟨s.bm.nextFrameId, s.sourceOf k t, mark t⟩)
    (hbm : (s.bm.insertHandle k).PlacedFrame s.disk k ⟨f, true⟩ bm d) :
    Owners ((bm.pin f.id).writeFrame k t page)
      (update s.live t (some ((lt.setOwn k page).goOn c (.loggingMerged k groups)))) s.endedReaders := by
  have hids := h.idsBelow hb
  have hnone := h.own_eq_none hlt (ownFrame_eq_none hfind)
  have hplaced := (h.owners.insertHandle k).placeMarked (lt.setOwn k f.data.page) hbm hlt
    (by rw [hf]) hnone (s.bm.knows_insertHandle_self k) rfl (fun _ => id)
    (((h.phases t lt hlt).commitOk hphase).listed k page groups hstage)
  have hown : ((lt.setOwn k page).goOn c (.loggingMerged k groups)).own =
      update (lt.setOwn k f.data.page).own k (some page) := by
    simp [LiveTx.setOwn, LiveTx.goOn]
  have hids' : IdsBelow (update s.live t (some (lt.setOwn k f.data.page))) s.endedReaders := by
    refine ⟨ForLive.setLive hids.below (hids.below t lt hlt), fun t' ht' => ⟨(hids.ended t' ht').1, ?_⟩⟩
    rw [update_of_ne]
    · exact (hids.ended t' ht').2
    · rintro rfl
      rw [(hids.ended t' ht').2] at hlt
      cases hlt
  have hwritten := (hplaced.pin f.id).write hids' (update_self ..) (by simp [LiveTx.setOwn]) hown rfl
  rwa [update_idem] at hwritten

lemma owners_stamp (hb : s.Bounded) {c : CommitState} {pages : List PageKey} (hlt : s.live t = some lt)
    (hphase : lt.phase = .committing c) (hstage : c.stage = .stamping (k :: pages)) :
    Owners (s.bm.updateTimestamps k t lt.tx.commitTs) (update s.live t
      (some (({ lt with own := update lt.own k none } : LiveTx).goOn c (.stamping pages))))
      s.endedReaders := by
  have hts : lt.tx.commitTs < uncommittedBit := by
    rw [(((h.phases t lt hlt).commitOk hphase).lock (by rw [hstage]; simp)).2]
    exact hb.2
  exact h.owners.stamp (h.idsBelow hb) hlt hts rfl rfl

lemma owners_evictSuperseded (keep : ℕ) :
    Owners (s.bm.evictSuperseded k keep) s.live s.endedReaders := by
  refine h.owners.subset (fun k' e he => ?_) (fun k' e he => ?_) fun k' =>
    (s.bm.knows_evictSuperseded k k' _).2
  · rw [entries_evictSuperseded] at he
    split at he
    next hk => exact hk ▸ mem_of_mem_filter he
    · exact he
  · rw [entries_evictSuperseded]
    split
    next hk =>
      cases hcom : e.committed
      · exact .inl (mem_filter.2 ⟨hk ▸ he, by rw [hcom]; rfl⟩)
      · exact .inr rfl
    · exact .inl he

/-- A transaction ends without a commit: a reader's versions stay, a writer's are rolled back. -/
lemma owners_ended (hb : s.Bounded) (hlt : s.live t = some lt) :
    Owners (if lt.tx.isReadOnly then s.bm else s.bm.rollbackVersions t) (update s.live t none)
      (s.endReader t lt.tx) := by
  rw [endReader]
  split
  · exact h.owners.finishReader
  · exact h.owners.rollback (h.idsBelow hb) hlt

/-- A commit returns with nothing left to be stamped. -/
lemma own_eq_none_of_stage {c : CommitState} (hlt : s.live t = some lt)
    (hphase : lt.phase = .committing c) (hstage : ∀ k, ¬ c.stage.unstamped k) (k : PageKey) :
    lt.own k = none := by
  by_contra hne
  exact hstage k (((h.phases t lt hlt).commitOk hphase).unstamped k hne)

lemma owners_moves (hb : s.Bounded) (hm : s.Moves a s') : Owners s'.bm s'.live s'.endedReaders := by
  have ho := h.owners
  have hids := h.idsBelow hb
  have hpush : ∀ {tx : Transaction} {k : PageKey}, ∀ k' ∈ tx.modifiedPages,
      k' ∈ tx.modifiedPages ++ [k] := fun _ hk => mem_append_left _ hk
  cases hm <;> try dsimp only [returnFrame, returnVersion, setLive, mergeDone, logFrame]
  case register t ro ts hbegin => exact ho.register (h.ids.pending t hbegin).2 fun _ => rfl
  -- reading: what is loaded has version `0`
  case pinHit f hlt hphase hfind => exact (ho.pin f.id).setLive hlt rfl fun _ => id
  case pinLoad f _ _ hlt _ _ hf _ hbm | retryPinLoad f _ _ hlt _ hf _ hbm =>
    have hplaced := ho.place hbm (committed_of_version_zero (by rw [hf]))
    exact (hplaced.pin f.id).setLive hlt rfl fun _ => id
  case pinWait hlt hphase hfind hbm => exact (ho.sameFrames hbm).setLive hlt rfl fun _ => id
  case retryPinWait hbm | retryCreateWait hbm | prefetchSkip hbm => exact ho.sameFrames hbm
  case unpin frame hheld => exact ho.unpin frame
  -- a new version is placed with the mark of the transaction, which did not own one
  case createHit k lt f hlt hphase hfind =>
    exact ((ho.touch k f.id).pin f.id).setLive hlt rfl hpush
  case createPlace t k lt f bm d hlt hphase hfind hf hbm =>
    have hnone := h.own_eq_none hlt (ownFrame_eq_none hfind)
    have hplaced := (ho.insertHandle k).placeMarked
      { (lt.pushPage k).setOwn k (s.sourceOf k t).page with phase := .running } hbm hlt
      (by rw [hf]) hnone (s.bm.knows_insertHandle_self k) (by rw [hf]; rfl) hpush
      (mem_append_right _ (mem_singleton_self k))
    exact hplaced.pin f.id
  case createWait t k lt bm hlt hphase hfind hbm =>
    exact ((ho.insertHandle k).sameFrames hbm).setLive hlt rfl hpush
  case retryCreatePlace t k source lt f bm d hlt hphase hf hbm =>
    have hp := h.phases t lt hlt
    rw [PhaseOk, hphase] at hp
    obtain ⟨hnone, hknows, hk⟩ := hp
    have hplaced := ho.placeMarked { lt.setOwn k source.page with phase := .running } hbm
      hlt (by rw [hf]) hnone hknows (by rw [hf]; rfl) (fun _ => id) hk
    exact hplaced.pin f.id
  case write t k page lt f hlt hphase hfind =>
    have hown := h.own_eq_some hb hlt (findByMark_eq_some hfind)
    exact ho.write hids hlt (hown ▸ some_ne_none _) rfl rfl
  -- the stages of a commit
  case merge hlt hphase hstage hreg => exact ho.setLive hlt rfl hpush
  case installHit t lt c k page groups f hlt hphase hstage hfind =>
    have hown := h.own_eq_some hb hlt (ownFrame_eq_some hfind)
    exact ((ho.touch k f.id).pin f.id).write hids hlt (hown ▸ some_ne_none _) rfl rfl
  case installPlace hlt hphase hstage hfind hf hbm =>
    exact h.owners_install hb hlt hphase hstage hfind hf hbm
  case installWait t lt c k page groups bm hlt hphase hstage hbm =>
    exact (ho.insertHandle k).sameFrames hbm
  case pinMarked f hlt hphase hstage hfind => exact (ho.pin f.id).setLive hlt rfl fun _ => id
  case stamp hlt hphase hstage hfind =>
    rw [stamp_eq hfind]
    exact h.owners_stamp hb hlt hphase hstage
  case flush t lt c j shards hlt hphase hstage =>
    have hfl := s.bm.flushedTo_flushPages j lt.tx.modifiedPages s.disk
    exact (ho.cleaned hfl.cleaned fun k => (hfl.knows k).2).setLive hlt rfl fun _ => id
  case unpinOne hold hlt hphase hstage hheld => exact ho.unpin hold.frame
  case evictSuperseded hlt hphase hstage =>
    exact (h.owners_evictSuperseded _).setLive hlt rfl fun _ => id
  case returned t lt c hlt hphase hstage =>
    exact ho.finish_of_own_none hlt (h.own_eq_none_of_stage hlt hphase fun k => by rw [hstage]; exact id)
  -- the other ends of a transaction
  case finishReadOnly t lt hlt hphase hro =>
    have hended := h.owners_ended hb hlt
    rwa [if_pos hro] at hended
  case rollback hlt _ | drop hlt _ => exact h.owners_ended hb hlt
  -- background work
  case prefetchPlace k img bm d hmem hbm => exact ho.place hbm (committed_of_version_zero rfl)
  case reclaimCleanup j candidates hr =>
    refine ho.subset (fun k e he => mem_entries_reclaimCleanup.1 he)
      (fun k e he => ?_) fun k => (s.bm.knows_reclaimCleanup j candidates k).2
    exact (mem_entries_reclaimCleanup.2 he).imp id fun hr => hr.2.1
  case checkpointFlush c j cks =>
    have hfl := s.bm.flushedTo_checkpointFlush j s.disk
    exact ho.cleaned hfl.cleaned fun k => (hfl.knows k).2
  -- what is left changes neither frames nor what is owned
  all_goals first
    | exact ho
    | refine ho.setLive (by assumption) ?_ ?_ <;> first | rfl | exact fun _ => id

lemma ids_ended (hlt : s.live t = some lt) :
    IdsOk (update s.live t none) s.beginning (s.endReader t lt.tx) s.tm.nextTxId := by
  rw [endReader]
  split
  · exact h.ids.finishReader hlt
  · exact h.ids.finish

lemma ids_moves (hm : s.Moves a s') :
    IdsOk s'.live s'.beginning s'.endedReaders s'.tm.nextTxId := by
  have hi := h.ids
  cases hm <;> try dsimp only [setLive]
  case allocTxId t tm halloc =>
    obtain ⟨rfl, rfl⟩ := allocTxId_eq_some halloc
    exact hi.alloc
  case register t ro ts hbegin => exact hi.register hbegin rfl
  case startCommit hlt hphase hro hcommitter hgroups horder hts =>
    rw [(nextCommitTs_eq_some hts).2]
    exact hi.setLive hlt rfl
  case stamp hlt hphase hstage hfind =>
    rw [stamp_eq hfind]
    exact hi.setLive hlt rfl
  case returned => exact hi.finish
  case finishReadOnly hlt _ _ | rollback hlt _ | drop hlt _ =>
    rw [s.tm.finish_nextTxId]
    exact h.ids_ended hlt
  all_goals first
    | exact hi
    | refine hi.setLive (by assumption) ?_; rfl

omit h in
lemma knows_moves (hm : s.Moves a s') (k : PageKey) (hk : s.bm.knows k) : s'.bm.knows k := by
  cases hm <;> try dsimp only [setLive, mergeDone, logFrame]
  case pinLoad hbm | pinWait hbm | retryPinLoad hbm | retryPinWait hbm | retryCreatePlace hbm |
      retryCreateWait hbm | prefetchSkip hbm | prefetchPlace hbm => exact (hbm.knows k).2 hk
  case createHit => exact (s.bm.knows_touch _ k _).2 hk
  case createPlace hbm | createWait hbm | installWait hbm =>
    exact (hbm.knows k).2 (s.bm.knows_insertHandle hk)
  case write => exact (s.bm.knows_writeFrame _ k _ _).2 hk
  case installHit =>
    rw [knows_writeFrame, knows_pin, knows_touch]
    exact hk
  case installPlace hbm =>
    rw [knows_writeFrame]
    exact (hbm.knows k).2 (s.bm.knows_insertHandle hk)
  case stamp hlt hphase hstage hfind =>
    rw [stamp_eq hfind]
    exact (s.bm.knows_updateTimestamps _ k _ _).2 hk
  case flush => exact ((s.bm.flushedTo_flushPages _ _ s.disk).knows k).2 hk
  case evictSuperseded => exact (s.bm.knows_evictSuperseded _ k _).2 hk
  case rollback | drop => split <;> exact hk
  case reclaimCleanup => exact (s.bm.knows_reclaimCleanup _ _ k).2 hk
  case checkpointFlush => exact ((s.bm.flushedTo_checkpointFlush _ s.disk).knows k).2 hk
  all_goals exact hk

/-- The commit stamps a page: what it owns besides is still to be stamped, and newer than all that is
committed. -/
lemma phases_stamp {c : CommitState} {pages : List PageKey} {f : Frame}
    (hp : Phases bm s.hist s.committer s.tm.currentTs s.live) (hlt : s.live t = some lt)
    (hphase : lt.phase = .committing c) (hstage : c.stage = .stamping (k :: pages)) :
    Phases bm (update s.hist k (⟨f.data.page, lt.tx.commitTs⟩ :: s.hist k)) s.committer s.tm.currentTs
      (update s.live t
        (some (({ lt with own := update lt.own k none } : LiveTx).goOn c (.stamping pages)))) := by
  have hc := (h.phases t lt hlt).commitOk hphase
  have hlock := hc.lock (by rw [hstage]; simp)
  have hother : ∀ k', update lt.own k none k' ≠ none → k' ≠ k ∧ lt.own k' ≠ none := by
    intro k' hk'
    obtain ⟨page, hpage⟩ := ne_none_iff_exists'.1 hk'
    rcases of_update hpage with ⟨-, ⟨⟩⟩ | ⟨hne, hpage⟩
    exact ⟨hne, hpage ▸ some_ne_none _⟩
  refine hp.commitStep (fun t' ht' => some.inj (ht'.symm.trans hlock.1))
    ⟨fun _ => hlock, fun k' hk' => ?_, ?_, by rintro _ _ _ ⟨⟩⟩
  · obtain ⟨hne, hk'⟩ := hother k' hk'
    have hmem := hc.unstamped k' hk'
    rw [hstage] at hmem
    exact (mem_cons.1 hmem).resolve_left hne
  · rintro k' (hk' | hk')
    · obtain ⟨hne, hk'⟩ := hother k' hk'
      rw [update_of_ne hne]
      exact hc.newest k' (.inl hk')
    · cases hk'

lemma phases_nextStage {c : CommitState} {stage : CommitStage} (hlt : s.live t = some lt)
    (hphase : lt.phase = .committing c) (hnext : NextStage lt.tx c.stage stage) :
    Phases s.bm s.hist s.committer s.tm.currentTs (update s.live t (some (lt.goOn c stage))) := by
  have hc := (h.phases t lt hlt).commitOk hphase
  generalize hcs : c.stage = from_ at hnext
  have hu : ∀ k, lt.own k ≠ none → from_.unstamped k := hcs ▸ hc.unstamped
  cases hnext
  case pinned =>
    -- all that is owned is in the list of the next loop
    refine ForLive.setLive h.phases (hc.goPast (by rw [hcs]; simp) (fun k hk _ => ?_) rfl)
    exact h.owners.listed t lt k hlt hk
  all_goals
    refine ForLive.setLive h.phases (hc.goPast (by rw [hcs]; simp) (fun k hk _ => ?_) rfl)
    first | trivial | exact hu k hk | exact absurd (hu k hk) not_mem_nil

/-- The commit releases its lock, with nothing left to be stamped. -/
lemma phases_leave {c : CommitState} (hlt : s.live t = some lt) (hphase : lt.phase = .committing c)
    (hstage : c.stage = .leaving) :
    Phases s.bm s.hist none s.tm.currentTs (update s.live t (some (lt.goOn c .returning))) := by
  have hlock := ((h.phases t lt hlt).commitOk hphase).lock (by rw [hstage]; simp)
  have hnone := h.own_eq_none_of_stage hlt hphase fun k => by rw [hstage]; exact id
  refine h.phases.commitStep (fun t' ht' => some.inj (ht'.symm.trans hlock.1))
    ⟨fun hs => absurd rfl hs, fun k hk => absurd (hnone k) hk, ?_, by rintro _ _ _ ⟨⟩⟩
  rintro k (hk | hk)
  · exact absurd (hnone k) hk
  · cases hk

lemma phases_moves (hm : s.Moves a s') : Phases s'.bm s'.hist s'.committer s'.tm.currentTs s'.live := by
  have hp := h.phases.knows (knows_moves hm)
  have hok : ∀ {t lt c}, s.live t = some lt → lt.phase = .committing c →
      CommitOk s.hist s.committer s.tm.currentTs t lt c :=
    fun hlt hphase => (h.phases _ _ hlt).commitOk hphase
  cases hm <;> try dsimp only [returnFrame, returnVersion, setLive, mergeDone, logFrame] at hp ⊢
  case allocTxId halloc =>
    rw [(allocTxId_eq_some halloc).2]
    exact hp
  case register | pinHit | pinLoad | retryPinLoad | createHit | createPlace | retryCreatePlace |
      giveUp => exact hp.setLive (.running rfl)
  -- a thread waits for a slot
  case pinWait hlt hphase hfind hbm =>
    have hnone := h.own_eq_none hlt (findVisible_eq_none hfind)
    exact hp.setLive hnone
  case createWait k lt bm hlt hphase hfind hbm =>
    have hnone := h.own_eq_none hlt (ownFrame_eq_none hfind)
    exact hp.setLive ⟨hnone, (hbm.knows k).2 (s.bm.knows_insertHandle_self k),
      mem_append_right _ (mem_singleton_self k)⟩
  case write hphase _ | logUpdate hphase _ | recordRows hphase _ | markRow hphase _ |
      markRows hphase => exact hp.setLive (.running hphase)
  -- the commit gets a timestamp after all others
  case startCommit t groups order lt ts tm hlt hphase hro hcommitter hgroups horder hts =>
    obtain ⟨rfl, rfl⟩ := nextCommitTs_eq_some hts
    refine hp.commitStep (by simp [hcommitter]) ⟨fun _ => ⟨rfl, rfl⟩, fun _ _ => trivial, ?_,
      by rintro _ _ _ ⟨⟩⟩
    exact fun k _ v hv => Nat.lt_succ_of_le (h.history.upTo k v hv)
  -- the merge
  case merge t lt c k mods groups hlt hphase hstage hreg =>
    refine hp.setLive ((hok hlt hphase).pushPage.goMerge (by rw [hstage]; rfl) rfl ?_)
    rintro k' page groups ⟨⟩
    exact mem_append_right _ (mem_singleton_self k)
  case mergeSkip hlt hphase hstage hreg =>
    refine hp.setLive ((hok hlt hphase).goMerge (by rw [hstage]; rfl) rfl ?_)
    rintro _ _ _ ⟨⟩
  case installHit c _ _ _ _ hlt hphase hstage _ |
      installPlace c _ _ _ _ _ _ hlt hphase hstage _ _ _ =>
    have hmerges : c.stage.merges = true := by rw [hstage]; rfl
    refine hp.setLive (((hok hlt hphase).setOwn hmerges).goMerge hmerges rfl ?_)
    rintro _ _ _ ⟨⟩
  case logMerged hlt hphase hstage hfind =>
    refine hp.setLive ((hok hlt hphase).goMerge (by rw [hstage]; rfl) rfl ?_)
    rintro _ _ _ ⟨⟩
  -- stamping
  case stamp hlt hphase hstage hfind =>
    rw [stamp_eq hfind] at hp ⊢
    exact h.phases_stamp hp hlt hphase hstage
  case stampUnmarked t lt c k pages hlt hphase hstage hfind =>
    have hnone := h.own_eq_none hlt (findByMark_eq_none hfind)
    refine hp.setLive ((hok hlt hphase).goPast (by rw [hstage]; simp) (fun k' hk' hu => ?_) rfl)
    rw [hstage] at hu
    refine (mem_cons.1 hu).resolve_left ?_
    rintro rfl
    exact hk' hnone
  case nextStage hlt hphase hnext => exact h.phases_nextStage hlt hphase hnext
  case leave hlt hphase hstage => exact h.phases_leave hlt hphase hstage
  case returned => exact hp.finish
  case failCommit t lt c hlt hphase hstage =>
    have hlock := (hok hlt hphase).lock (by rcases hstage with ⟨_, _, hs⟩ | ⟨_, _, _, hs⟩ <;> simp [hs])
    exact hp.commitStep (fun t' ht' => some.inj (ht'.symm.trans hlock.1)) (.running rfl)
  case finishReadOnly | rollback | drop =>
    rw [s.tm.finish_currentTs]
    exact hp.finish
  case pinMarked hlt hphase hstage hfind | pinUnmarked hlt hphase hstage hfind =>
    exact hp.setLive ((hok hlt hphase).goPast (by rw [hstage]; simp) (fun _ _ _ => trivial) rfl)
  -- the loops after the stamping
  case commitRange hlt hphase hstage | commitRow hlt hphase hstage | flush hlt hphase hstage |
      unpinned hlt hphase hstage | evictSuperseded hlt hphase hstage | logCommit hlt hphase hstage =>
    exact hp.setLive ((hok hlt hphase).goPast (by rw [hstage]; simp)
      (fun _ _ hu => by rw [hstage] at hu; exact hu) rfl)
  all_goals exact hp

/-- **One step keeps the invariant.** -/
theorem moves (hb : s.Bounded) (hm : s.Moves a s') : Sound s' where
  history := h.history_moves hb hm
  copies := h.copies_moves hb hm
  owners := h.owners_moves hb hm
  ids := h.ids_moves hm
  phases := h.phases_moves hm

end Sound

/-! ## Runs -/

lemma Engine.Bounded.of_moves (hm : s.Moves a s') (hb : s'.Bounded) : s.Bounded := by
  cases hm
  case allocTxId halloc =>
    rw [(allocTxId_eq_some halloc).2] at hb
    exact ⟨(Nat.le_succ _).trans hb.1, hb.2⟩
  case startCommit hts =>
    rw [(nextCommitTs_eq_some hts).2] at hb
    exact ⟨hb.1, (Nat.lt_succ_self _).trans hb.2⟩
  case stamp hfind =>
    rw [stamp_eq hfind] at hb
    exact hb
  case finishReadOnly | rollback | drop =>
    rw [Engine.Bounded, s.tm.finish_nextTxId, s.tm.finish_currentTs] at hb
    exact hb
  all_goals exact hb

lemma sound_of_opened (h : s.Opened) : Sound s where
  history := by
    refine ⟨fun k => ?_, fun k => ?_, fun k v hv => ?_⟩
    · rw [h.hist]
      exact pairwise_singleton _ _
    · rw [h.hist]
      exact ⟨_, mem_singleton_self _, h.origin k⟩
    · rw [h.hist, mem_singleton] at hv
      rw [hv, h.origin]
      exact Nat.zero_le _
  copies := by
    obtain ⟨capacity, hbm⟩ := h.bm
    refine ⟨fun k e he => ?_, fun k => ?_, fun k v hv => ?_, fun k hk => ?_, fun x hx => ?_⟩
    · rw [hbm] at he
      cases he
    · rw [h.hist]
      exact mem_singleton_self _
    · rw [h.hist, ← h.durable]
      exact hv
    · rw [h.hist, ← h.beyond k hk]
      exact mem_singleton_self _
    · rw [h.prefetched] at hx
      cases hx
  owners := by
    obtain ⟨capacity, hbm⟩ := h.bm
    refine ⟨fun k e he => ?_, fun t lt k hlt => ?_, fun t lt k hlt => ?_⟩
    · rw [hbm] at he
      cases he
    · rw [h.live] at hlt
      cases hlt
    · rw [h.live] at hlt
      cases hlt
  ids := by
    refine ⟨fun t lt hlt => ?_, fun t ht => ?_, fun t ht => ?_⟩
    · rw [h.live] at hlt
      cases hlt
    · rw [h.beginning] at ht
      exact absurd ht (Finset.notMem_empty t)
    · rw [h.endedReaders] at ht
      exact absurd ht (Finset.notMem_empty t)
  phases := .of_none h.live

/-- **The invariant holds in every reachable state.** -/
theorem sound_of_reachable (hr : engineSystem.Reachable s) (hb : s.Bounded) : Sound s := by
  refine hr.invariant (I := fun s => s.Bounded → Sound s) (fun s h _ => sound_of_opened h) ?_ hb
  intro s a s' _ ih _ hstep hb'
  have hm := step_moves hstep
  have hb := Engine.Bounded.of_moves hm hb'
  exact (ih hb).moves hb hm

end LightningDB
