import LightningDB.BufferPool.Scans
import LightningDB.Engine.Model

/-!
# What a step can do

`Moves s a s'` lists the outcomes of the steps, each with the guards that were passed and with what
is known of the buffer manager's part in it.  `step_moves` is the one place where the step function
is taken apart; every invariant is proved by going through the outcomes.
-/

namespace LightningDB

open Framework Function Option BufferManager

namespace Engine

/-- The loop of a commit's stage has come to its end, and the next stage begins. -/
inductive NextStage (tx : Transaction) : CommitStage → CommitStage → Prop where
  | merged : NextStage tx (.merging []) (.pinning tx.modifiedPages)
  | pinned : NextStage tx (.pinning []) (.stamping tx.modifiedPages)
  | stamped : NextStage tx (.stamping []) (.committingRanges tx.bulkRowRanges)
  | ranges : NextStage tx (.committingRanges []) (.committingRows tx.modifiedRows)
  | rows {order} : NextStage tx (.committingRows []) (.flushing order)
  | flushed : NextStage tx (.flushing []) .unpinning
  | superseded : NextStage tx (.superseding []) .loggingCommit

/-- The outcomes of the steps. -/
inductive Moves (s : Engine) : EngineAction → Engine → Prop where
  | allocTxId {t tm} (h : s.tm.allocTxId = some (t, tm)) :
      Moves s .allocTxId { s with tm := tm, beginning := insert t s.beginning }
  | register {t ro ts} (h : t ∈ s.beginning) :
      Moves s (.register t ro ts)
        { s with
          tm := (s.tm.register t ro ts).2
          beginning := s.beginning.erase t
          live := update s.live t
            (some ⟨(s.tm.register t ro ts).1, .running, fun _ => none⟩) }
  | addNewPage {f} : Moves s (.addNewPage f) { s with disk := s.disk.addNewPage f }
  | syncFile {f} : Moves s (.syncFile f) { s with disk := s.disk.sync f }
  | pinHit {t k lt f} (hlt : s.live t = some lt) (hphase : lt.phase = .running)
      (hfind : s.bm.findVisible k t lt.tx.readTs = some f) :
      Moves s (.pinPage t k) (s.returnFrame t lt k f s.bm s.disk)
  | pinLoad {t k lt f bm d} (hlt : s.live t = some lt) (hphase : lt.phase = .running)
      (hfind : s.bm.findVisible k t lt.tx.readTs = none)
      (hf : f = ⟨s.bm.nextFrameId, d.loadPage k, 0⟩) (hd : d = s.bm.filesAfterEviction s.disk k)
      (hbm : s.bm.PlacedFrame s.disk k ⟨f, false⟩ bm d) :
      Moves s (.pinPage t k) (s.returnFrame t lt k f bm d)
  | pinWait {t k lt bm} (hlt : s.live t = some lt) (hphase : lt.phase = .running)
      (hfind : s.bm.findVisible k t lt.tx.readTs = none) (hbm : s.bm.SameFrames bm) :
      Moves s (.pinPage t k) { s.setLive t { lt with phase := .pinning k } with bm := bm }
  | retryPinLoad {t k lt f bm d} (hlt : s.live t = some lt) (hphase : lt.phase = .pinning k)
      (hf : f = ⟨s.bm.nextFrameId, d.loadPage k, 0⟩) (hd : d = s.bm.filesAfterEviction s.disk k)
      (hbm : s.bm.PlacedFrame s.disk k ⟨f, false⟩ bm d) :
      Moves s (.retryPin t) (s.returnFrame t lt k f bm d)
  | retryPinWait {t k lt bm} (hlt : s.live t = some lt) (hphase : lt.phase = .pinning k)
      (hbm : s.bm.SameFrames bm) :
      Moves s (.retryPin t) { s with bm := bm }
  | unpin {t frame} (h : ⟨t, false, frame⟩ ∈ s.held) :
      Moves s (.unpin t frame)
        { s with bm := s.bm.unpin frame, held := s.held.erase ⟨t, false, frame⟩ }
  | createHit {t k lt f} (hlt : s.live t = some lt) (hphase : lt.phase = .running)
      (hfind : s.ownFrame k t = some f) :
      Moves s (.createVersion t k) (s.returnVersion t (lt.pushPage k) f (s.bm.touch k f.id))
  | createPlace {t k lt f bm d} (hlt : s.live t = some lt) (hphase : lt.phase = .running)
      (hfind : s.ownFrame k t = none) (hf : f = ⟨s.bm.nextFrameId, s.sourceOf k t, mark t⟩)
      (hbm : (s.bm.insertHandle k).PlacedFrame s.disk k ⟨f, true⟩ bm d) :
      Moves s (.createVersion t k)
        { s.returnVersion t ((lt.pushPage k).setOwn k (s.sourceOf k t).page) f bm with disk := d }
  | createWait {t k lt bm} (hlt : s.live t = some lt) (hphase : lt.phase = .running)
      (hfind : s.ownFrame k t = none) (hbm : (s.bm.insertHandle k).SameFrames bm) :
      Moves s (.createVersion t k)
        { s.setLive t { lt.pushPage k with phase := .creating k (s.sourceOf k t) } with
          bm := bm
          pageLocks := insert k s.pageLocks }
  | retryCreatePlace {t k source lt f bm d} (hlt : s.live t = some lt)
      (hphase : lt.phase = .creating k source) (hf : f = ⟨s.bm.nextFrameId, source, mark t⟩)
      (hbm : s.bm.PlacedFrame s.disk k ⟨f, true⟩ bm d) :
      Moves s (.retryCreate t)
        { s.returnVersion t (lt.setOwn k source.page) f bm with
          disk := d
          pageLocks := s.pageLocks.erase k }
  | retryCreateWait {t k source lt bm} (hlt : s.live t = some lt)
      (hphase : lt.phase = .creating k source) (hbm : s.bm.SameFrames bm) :
      Moves s (.retryCreate t) { s with bm := bm }
  | giveUp {t lt locks} (hlt : s.live t = some lt) :
      Moves s (.giveUp t) { s.setLive t { lt with phase := .running } with pageLocks := locks }
  | write {t k page lt f} (hlt : s.live t = some lt) (hphase : lt.phase = .running)
      (hfind : s.bm.findByMark k (mark t) = some f) :
      Moves s (.write t k page)
        { s.setLive t (lt.setOwn k page) with bm := s.bm.writeFrame k t page }
  | logUpdate {t k lt f} (hlt : s.live t = some lt) (hphase : lt.phase = .running)
      (hfind : s.bm.findByMark k (mark t) = some f) :
      Moves s (.logUpdate t k) (s.logFrame t lt k f)
  | recordRows {t mods lt} (hlt : s.live t = some lt) (hphase : lt.phase = .running)
      (hfits : ∀ m ∈ mods, m.fits = true) :
      Moves s (.recordRows t mods) (s.setLive t { lt with
        tx := { lt.tx with modifiedPageRows := lt.tx.modifiedPageRows ++ mods } })
  | markRow {t table row lt rv} (hlt : s.live t = some lt) (hphase : lt.phase = .running)
      (hrv : (s.tables table).markRow row t lt.tx.readTs = .ok rv) :
      Moves s (.markRow t table row)
        { s.setLive t { lt with
            tx := { lt.tx with modifiedRows := lt.tx.modifiedRows ++ [(table, row)] } } with
          tables := update s.tables table rv }
  | markRows {t table start stop lt} (hlt : s.live t = some lt) (hphase : lt.phase = .running) :
      Moves s (.markRows t table start stop)
        { s.setLive t { lt with
            tx := { lt.tx with
              bulkRowRanges := lt.tx.bulkRowRanges ++ [(table, start, stop)] } } with
          tables := update s.tables table
            ((s.tables table).markRowBatch start stop t) }
  | startCommit {t groups flushOrder lt ts tm} (hlt : s.live t = some lt)
      (hphase : lt.phase = .running) (hro : lt.tx.isReadOnly = false)
      (hcommitter : s.committer = none) (hgroups : groups.Perm (pageGroups lt.tx.modifiedPageRows))
      (horder : flushOrder.Perm (List.finRange numShards))
      (hts : s.tm.nextCommitTs = some (ts, tm)) :
      Moves s (.startCommit t groups flushOrder)
        { s.setLive t { lt with
            tx := { lt.tx with commitTs := ts }
            phase := .committing ⟨.merging groups, flushOrder⟩ } with
          tm := tm
          committer := some t }
  | merge {t lt c k mods groups} (hlt : s.live t = some lt) (hphase : lt.phase = .committing c)
      (hstage : c.stage = .merging ((k, mods) :: groups)) (hreg : k.1 ∈ s.registered) :
      Moves s (.commitStep t)
        (s.setLive t ((lt.pushPage k).goOn c
          (.installing k (mergeRows (s.bm.latestCommitted s.disk k).page mods) groups)))
  | mergeSkip {t lt c k mods groups} (hlt : s.live t = some lt) (hphase : lt.phase = .committing c)
      (hstage : c.stage = .merging ((k, mods) :: groups)) (hreg : k.1 ∉ s.registered) :
      Moves s (.commitStep t) (s.setLive t (lt.goOn c (.merging groups)))
  | installHit {t lt c k page groups f} (hlt : s.live t = some lt)
      (hphase : lt.phase = .committing c) (hstage : c.stage = .installing k page groups)
      (hfind : s.ownFrame k t = some f) :
      Moves s (.commitStep t) (s.mergeDone t lt c k page groups f (s.bm.touch k f.id) s.disk)
  | installPlace {t lt c k page groups f bm d} (hlt : s.live t = some lt)
      (hphase : lt.phase = .committing c) (hstage : c.stage = .installing k page groups)
      (hfind : s.ownFrame k t = none) (hf : f = ⟨s.bm.nextFrameId, s.sourceOf k t, mark t⟩)
      (hbm : (s.bm.insertHandle k).PlacedFrame s.disk k ⟨f, true⟩ bm d) :
      Moves s (.commitStep t) (s.mergeDone t lt c k page groups f bm d)
  | installWait {t lt c k page groups bm} (hlt : s.live t = some lt)
      (hphase : lt.phase = .committing c) (hstage : c.stage = .installing k page groups)
      (hbm : (s.bm.insertHandle k).SameFrames bm) :
      Moves s (.commitStep t) { s with bm := bm }
  | logMerged {t lt c k groups f} (hlt : s.live t = some lt) (hphase : lt.phase = .committing c)
      (hstage : c.stage = .loggingMerged k groups) (hfind : s.bm.findByMark k (mark t) = some f) :
      Moves s (.commitStep t) (s.logFrame t (lt.goOn c (.merging groups)) k f)
  | pinMarked {t lt c k pages f} (hlt : s.live t = some lt) (hphase : lt.phase = .committing c)
      (hstage : c.stage = .pinning (k :: pages)) (hfind : s.bm.findByMark k (mark t) = some f) :
      Moves s (.commitStep t)
        { s.setLive t (lt.goOn c (.pinning pages)) with
          bm := s.bm.pin f.id
          held := ⟨t, true, f.id⟩ :: s.held }
  | pinUnmarked {t lt c k pages} (hlt : s.live t = some lt) (hphase : lt.phase = .committing c)
      (hstage : c.stage = .pinning (k :: pages)) (hfind : s.bm.findByMark k (mark t) = none) :
      Moves s (.commitStep t) (s.setLive t (lt.goOn c (.pinning pages)))
  | stamp {t lt c k pages f} (hlt : s.live t = some lt) (hphase : lt.phase = .committing c)
      (hstage : c.stage = .stamping (k :: pages)) (hfind : s.bm.findByMark k (mark t) = some f) :
      Moves s (.commitStep t) (s.stamp t lt c k pages)
  | stampUnmarked {t lt c k pages} (hlt : s.live t = some lt) (hphase : lt.phase = .committing c)
      (hstage : c.stage = .stamping (k :: pages)) (hfind : s.bm.findByMark k (mark t) = none) :
      Moves s (.commitStep t) (s.setLive t (lt.goOn c (.stamping pages)))
  | commitRange {t lt c table start stop ranges} (hlt : s.live t = some lt)
      (hphase : lt.phase = .committing c)
      (hstage : c.stage = .committingRanges ((table, start, stop) :: ranges)) :
      Moves s (.commitStep t)
        { s.setLive t (lt.goOn c (.committingRanges ranges)) with
          tables := update s.tables table
            ((s.tables table).commitRowBatch start stop lt.tx.commitTs) }
  | commitRow {t lt c table row rows} (hlt : s.live t = some lt) (hphase : lt.phase = .committing c)
      (hstage : c.stage = .committingRows ((table, row) :: rows)) :
      Moves s (.commitStep t)
        { s.setLive t (lt.goOn c (.committingRows rows)) with
          tables := update s.tables table
            ((s.tables table).commitRow row lt.tx.commitTs) }
  | flush {t lt c j shards} (hlt : s.live t = some lt) (hphase : lt.phase = .committing c)
      (hstage : c.stage = .flushing (j :: shards)) :
      Moves s (.commitStep t)
        { s.setLive t (lt.goOn c (.flushing shards)) with
          bm := (s.bm.flushPages j lt.tx.modifiedPages s.disk).1
          disk := (s.bm.flushPages j lt.tx.modifiedPages s.disk).2 }
  | unpinOne {t lt c h} (hlt : s.live t = some lt) (hphase : lt.phase = .committing c)
      (hstage : c.stage = .unpinning) (hheld : h ∈ s.held) :
      Moves s (.commitStep t) { s with bm := s.bm.unpin h.frame, held := s.held.erase h }
  | unpinned {t lt c} (hlt : s.live t = some lt) (hphase : lt.phase = .committing c)
      (hstage : c.stage = .unpinning) :
      Moves s (.commitStep t) (s.setLive t (lt.goOn c (.superseding lt.tx.modifiedPages)))
  | evictSuperseded {t lt c k pages} (hlt : s.live t = some lt) (hphase : lt.phase = .committing c)
      (hstage : c.stage = .superseding (k :: pages)) :
      Moves s (.commitStep t)
        { s.setLive t (lt.goOn c (.superseding pages)) with
          bm := s.bm.evictSuperseded k lt.tx.commitTs }
  | nextStage {t lt c stage} (hlt : s.live t = some lt) (hphase : lt.phase = .committing c)
      (hstage : NextStage lt.tx c.stage stage) :
      Moves s (.commitStep t) (s.setLive t (lt.goOn c stage))
  | logCommit {t lt c} (hlt : s.live t = some lt) (hphase : lt.phase = .committing c)
      (hstage : c.stage = .loggingCommit) :
      Moves s (.commitStep t)
        { s.setLive t (lt.goOn c .leaving) with log := s.log.logCommit t }
  | leave {t lt c} (hlt : s.live t = some lt) (hphase : lt.phase = .committing c)
      (hstage : c.stage = .leaving) :
      Moves s (.commitStep t)
        { s.setLive t (lt.goOn c .returning) with
          tm := s.tm.removeActive t
          committer := none }
  | returned {t lt c} (hlt : s.live t = some lt) (hphase : lt.phase = .committing c)
      (hstage : c.stage = .returning) :
      Moves s (.commitStep t)
        { s with tm := s.tm.removeReadTs lt.tx.readTs, live := update s.live t none }
  | failCommit {t lt c} (hlt : s.live t = some lt) (hphase : lt.phase = .committing c)
      (hstage : (∃ g gs, c.stage = .merging (g :: gs)) ∨ ∃ k p gs, c.stage = .installing k p gs) :
      Moves s (.failCommit t)
        { s.setLive t { lt with phase := .running } with
          committer := none
          held := s.held.filter fun h => !(h.tx = t && h.byCommit) }
  | finishReadOnly {t lt} (hlt : s.live t = some lt) (hphase : lt.phase = .running)
      (hro : lt.tx.isReadOnly = true) :
      Moves s (.finishReadOnly t)
        { s with
          tm := s.tm.finish lt.tx
          live := update s.live t none
          endedReaders := s.endReader t lt.tx }
  | rollback {t lt} (hlt : s.live t = some lt) (hphase : lt.phase = .running) :
      Moves s (.rollback t)
        { s with
          tm := s.tm.finish lt.tx
          live := update s.live t none
          bm := if lt.tx.isReadOnly then s.bm else s.bm.rollbackVersions t
          tables := if lt.tx.isReadOnly then s.tables else rollbackTables s.tables lt.tx
          endedReaders := s.endReader t lt.tx }
  | drop {t lt} (hlt : s.live t = some lt) (hphase : lt.phase = .running) :
      Moves s (.drop t)
        { s with
          tm := s.tm.finish lt.tx
          live := update s.live t none
          bm := if lt.tx.isReadOnly then s.bm else s.bm.rollbackVersions t
          endedReaders := s.endReader t lt.tx }
  | prefetchRead {k} (hpage : k.2 < (s.disk k.1).numPages) :
      Moves s (.prefetchRead k) { s with prefetched := (k, s.disk.current k) :: s.prefetched }
  | prefetchSkip {k img bm} (h : (k, img) ∈ s.prefetched) (hbm : s.bm.SameFrames bm) :
      Moves s (.prefetchInstall k img)
        { s with prefetched := s.prefetched.erase (k, img), bm := bm }
  | prefetchPlace {k img bm d} (h : (k, img) ∈ s.prefetched)
      (hbm : s.bm.PlacedFrame s.disk k ⟨⟨s.bm.nextFrameId, img, 0⟩, false⟩ bm d) :
      Moves s (.prefetchInstall k img)
        { s with prefetched := s.prefetched.erase (k, img), bm := bm, disk := d }
  | reclaimScan {j minActiveTs} :
      Moves s (.reclaimScan j minActiveTs) (s.reclaimScan j minActiveTs)
  | reclaimCleanup {j candidates} (h : s.reclaiming = some (j, candidates)) :
      Moves s .reclaimCleanup
        { s with bm := s.bm.reclaimCleanup j candidates, reclaiming := none }
  | startCheckpoint {c cks} :
      Moves s (.startCheckpoint c) { s with checkpoints := cks }
  | checkpointFlush {c j cks} :
      Moves s (.checkpointFlush c j)
        { s with
          bm := (s.bm.checkpointFlush j s.disk).1
          disk := (s.bm.checkpointFlush j s.disk).2.1
          checkpoints := cks }
  | checkpointSync {c f cks} :
      Moves s (.checkpointSync c f) { s with disk := s.disk.sync f, checkpoints := cks }
  | checkpointTruncate {c cks} :
      Moves s (.checkpointTruncate c) { s with log := s.log.truncate, checkpoints := cks }
  | saveHeader {c cks} :
      Moves s (.saveHeader c)
        { s with
          header := ⟨s.tm.resolvedTxWatermark, s.tm.nextTxId, s.tm.currentTs⟩
          checkpoints := cks }

variable {s s' : Engine}

variable {t : ℕ} {lt : LiveTx} {c : CommitState} {k : PageKey}

lemma stamp_eq {pages : List PageKey} {f : Frame} (hfind : s.bm.findByMark k (mark t) = some f) :
    s.stamp t lt c k pages =
      { s.setLive t (({ lt with own := update lt.own k none } : LiveTx).goOn c
          (.stamping pages)) with
        bm := s.bm.updateTimestamps k t lt.tx.commitTs
        hist := update s.hist k (⟨f.data.page, lt.tx.commitTs⟩ :: s.hist k) } := by
  rw [stamp, hfind]

lemma running_eq_some (h : s.running t = some lt) : s.live t = some lt ∧ lt.phase = .running := by
  rw [running, filter_eq_some_iff] at h
  refine ⟨h.1, ?_⟩
  have hp := h.2
  split at hp
  · assumption
  · cases hp

lemma committing_eq_some
    (h : s.committing t = some (lt, c)) : s.live t = some lt ∧ lt.phase = .committing c := by
  rw [committing, bind_eq_some_iff] at h
  obtain ⟨lt', hlt, hp⟩ := h
  split at hp
  next hc =>
    cases hp
    exact ⟨hlt, hc⟩
  · cases hp

lemma moves_pinPage (h : s.pinPage t k = some s') : s.Moves (.pinPage t k) s' := by
  obtain ⟨lt, hrun, rfl⟩ := map_eq_some_iff.1 h
  obtain ⟨hlt, hphase⟩ := running_eq_some hrun
  rw [BufferManager.pinPage]
  cases hfind : s.bm.findVisible k t lt.tx.readTs with
  | some f => exact .pinHit hlt hphase hfind
  | none =>
    cases hp : s.bm.loadPage s.disk k with
    | placed f bm d =>
      obtain ⟨hf, hbm, hd⟩ := place_placed hp
      exact .pinLoad hlt hphase hfind hf hd hbm
    | needRetry bm => exact .pinWait hlt hphase hfind (place_needRetry hp)

lemma moves_retryPin (h : s.retryPin t = some s') : s.Moves (.retryPin t) s' := by
  obtain ⟨lt, hlt, h⟩ := bind_eq_some_iff.1 h
  split at h
  next k hphase =>
    cases h
    cases hp : s.bm.loadPage s.disk k with
    | placed f bm d =>
      obtain ⟨hf, hbm, hd⟩ := place_placed hp
      exact .retryPinLoad hlt hphase hf hd hbm
    | needRetry bm => exact .retryPinWait hlt hphase (place_needRetry hp)
  · cases h

lemma moves_createVersion (h : s.createVersion t k = some s') :
    s.Moves (.createVersion t k) s' := by
  obtain ⟨lt, hrun, -, ⟨⟩⟩ := of_bind_ite_none h
  obtain ⟨hlt, hphase⟩ := running_eq_some hrun
  cases hfind : s.ownFrame k t with
  | some f => exact .createHit hlt hphase hfind
  | none =>
    cases hp : (s.bm.insertHandle k).installVersion s.disk k t (s.sourceOf k t) with
    | placed f bm d =>
      obtain ⟨hf, hbm, -⟩ := place_placed hp
      exact .createPlace hlt hphase hfind hf hbm
    | needRetry bm => exact .createWait hlt hphase hfind (place_needRetry hp)

lemma moves_retryCreate (h : s.retryCreate t = some s') : s.Moves (.retryCreate t) s' := by
  obtain ⟨lt, hlt, h⟩ := bind_eq_some_iff.1 h
  split at h
  next k source hphase =>
    cases h
    cases hp : s.bm.installVersion s.disk k t source with
    | placed f bm d =>
      obtain ⟨hf, hbm, -⟩ := place_placed hp
      exact .retryCreatePlace hlt hphase hf hbm
    | needRetry bm => exact .retryCreateWait hlt hphase (place_needRetry hp)
  · cases h

lemma moves_giveUp (h : s.giveUp t = some s') : s.Moves (.giveUp t) s' := by
  obtain ⟨lt, hlt, h⟩ := bind_eq_some_iff.1 h
  split at h
  · cases h
    exact .giveUp hlt
  · cases h
    exact .giveUp hlt
  · cases h

variable {groups : List (PageKey × List PageRowMod)}

lemma moves_startCommit
    {flushOrder : List (Fin numShards)} (h : s.startCommit t groups flushOrder = some s') :
    s.Moves (.startCommit t groups flushOrder) s' := by
  obtain ⟨lt, hrun, hguard, h⟩ := of_bind_ite h
  obtain ⟨hlt, hphase⟩ := running_eq_some hrun
  obtain ⟨⟨ts, tm⟩, hts, rfl⟩ := map_eq_some_iff.1 h
  exact .startCommit hlt hphase hguard.1 hguard.2.1 hguard.2.2.1 hguard.2.2.2 hts

lemma moves_installMerged {page : Page} (hlt : s.live t = some lt)
    (hphase : lt.phase = .committing c) (hstage : c.stage = .installing k page groups)
    (h : s.installMerged t lt c k page groups = some s') : s.Moves (.commitStep t) s' := by
  rw [installMerged] at h
  split at h
  · cases h
  · cases h
    cases hfind : s.ownFrame k t with
    | some f => exact .installHit hlt hphase hstage hfind
    | none =>
      cases hp : (s.bm.insertHandle k).installVersion s.disk k t (s.sourceOf k t) with
      | placed f bm d =>
        obtain ⟨hf, hbm, -⟩ := place_placed hp
        exact .installPlace hlt hphase hstage hfind hf hbm
      | needRetry bm => exact .installWait hlt hphase hstage (place_needRetry hp)

lemma moves_commitStep (h : s.commitStep t = some s') : s.Moves (.commitStep t) s' := by
  obtain ⟨⟨lt, c⟩, hc, h⟩ := bind_eq_some_iff.1 h
  obtain ⟨hlt, hphase⟩ := committing_eq_some hc
  have hnext : ∀ {stage}, NextStage lt.tx c.stage stage →
      s.Moves (.commitStep t) (s.setLive t (lt.goOn c stage)) := .nextStage hlt hphase
  dsimp only at h
  split at h
  case h_1 hstage =>
    cases h
    rw [merge]
    split
    · exact .merge hlt hphase hstage ‹_›
    · exact .mergeSkip hlt hphase hstage ‹_›
  case h_2 hstage => cases h; exact hnext (hstage ▸ .merged)
  case h_3 hstage => exact moves_installMerged hlt hphase hstage h
  case h_4 hstage =>
    obtain ⟨f, hfind, rfl⟩ := map_eq_some_iff.1 h
    exact .logMerged hlt hphase hstage hfind
  case h_5 hstage =>
    cases h
    rw [Engine.pinMarked]
    split
    · exact .pinMarked hlt hphase hstage ‹_›
    · exact .pinUnmarked hlt hphase hstage ‹_›
  case h_6 hstage => cases h; exact hnext (hstage ▸ .pinned)
  case h_7 k pages hstage =>
    cases h
    cases hfind : s.bm.findByMark k (mark t) with
    | some f => exact .stamp hlt hphase hstage hfind
    | none =>
      rw [Engine.stamp, hfind]
      exact .stampUnmarked hlt hphase hstage hfind
  case h_8 hstage => cases h; exact hnext (hstage ▸ .stamped)
  case h_9 hstage => cases h; exact .commitRange hlt hphase hstage
  case h_10 hstage => cases h; exact hnext (hstage ▸ .ranges)
  case h_11 hstage => cases h; exact .commitRow hlt hphase hstage
  case h_12 hstage => cases h; exact hnext (hstage ▸ .rows)
  case h_13 hstage => cases h; exact .flush hlt hphase hstage
  case h_14 hstage => cases h; exact hnext (hstage ▸ .flushed)
  case h_15 hstage =>
    cases h
    rw [Engine.unpinOne]
    cases hfind : s.held.find? fun h => h.tx = t ∧ h.byCommit = true with
    | some h => exact .unpinOne hlt hphase hstage (List.mem_of_find?_eq_some hfind)
    | none => exact .unpinned hlt hphase hstage
  case h_16 hstage => cases h; exact .evictSuperseded hlt hphase hstage
  case h_17 hstage => cases h; exact hnext (hstage ▸ .superseded)
  case h_18 hstage => cases h; exact .logCommit hlt hphase hstage
  case h_19 hstage => cases h; exact .leave hlt hphase hstage
  case h_20 hstage => cases h; exact .returned hlt hphase hstage

lemma moves_failCommit (h : s.failCommit t = some s') : s.Moves (.failCommit t) s' := by
  obtain ⟨⟨lt, c⟩, hc, h⟩ := bind_eq_some_iff.1 h
  obtain ⟨hlt, hphase⟩ := committing_eq_some hc
  dsimp only at h
  split at h
  case h_1 g gs hstage =>
    cases h
    exact .failCommit hlt hphase (.inl ⟨g, gs, hstage⟩)
  case h_2 k p gs hstage =>
    cases h
    exact .failCommit hlt hphase (.inr ⟨k, p, gs, hstage⟩)
  case h_3 => cases h

lemma moves_prefetchInstall {img : Image} (h : s.prefetchInstall k img = some s') :
    s.Moves (.prefetchInstall k img) s' := by
  rw [prefetchInstall] at h
  split at h
  next hmem =>
    cases h
    split
    · exact .prefetchSkip hmem ⟨fun _ => rfl, fun _ => Iff.rfl, rfl, rfl⟩
    · cases hp : s.bm.place s.disk k 0 false fun _ => img with
      | placed f bm d =>
        obtain ⟨rfl, hbm, -⟩ := place_placed hp
        exact .prefetchPlace hmem hbm
      | needRetry bm => exact .prefetchSkip hmem (place_needRetry hp)
  · cases h

/-- **Every step is one of the outcomes.** -/
theorem step_moves {a : EngineAction} (h : s.step a = some s') : s.Moves a s' := by
  cases a with
  | allocTxId =>
    obtain ⟨⟨t, tm⟩, ht, rfl⟩ := map_eq_some_iff.1 h
    exact .allocTxId ht
  | register t ro ts =>
    simp only [step, register] at h
    split at h
    · cases h
      exact .register ‹_›
    · cases h
  | addNewPage f => cases h; exact .addNewPage
  | syncFile f => cases h; exact .syncFile
  | pinPage t k => exact moves_pinPage h
  | retryPin t => exact moves_retryPin h
  | unpin t frame =>
    simp only [step, Engine.unpin] at h
    split at h
    · cases h
      exact .unpin ‹_›
    · cases h
  | createVersion t k => exact moves_createVersion h
  | retryCreate t => exact moves_retryCreate h
  | giveUp t => exact moves_giveUp h
  | write t k page =>
    obtain ⟨lt, hrun, h⟩ := bind_eq_some_iff.1 h
    obtain ⟨f, hfind, rfl⟩ := map_eq_some_iff.1 h
    obtain ⟨hlt, hphase⟩ := running_eq_some hrun
    exact .write hlt hphase hfind
  | logUpdate t k =>
    obtain ⟨lt, hrun, h⟩ := bind_eq_some_iff.1 h
    obtain ⟨f, hfind, rfl⟩ := map_eq_some_iff.1 h
    obtain ⟨hlt, hphase⟩ := running_eq_some hrun
    exact .logUpdate hlt hphase hfind
  | recordRows t mods =>
    obtain ⟨lt, hrun, hguard, ⟨⟩⟩ := of_bind_ite h
    exact .recordRows (running_eq_some hrun).1 (running_eq_some hrun).2 (List.all_eq_true.1 hguard)
  | markRow t table row =>
    obtain ⟨lt, hrun, h⟩ := bind_eq_some_iff.1 h
    split at h
    · cases h
    · cases h
      exact .markRow (running_eq_some hrun).1 (running_eq_some hrun).2 ‹_›
  | markRows t table start stop =>
    obtain ⟨lt, hrun, rfl⟩ := map_eq_some_iff.1 h
    exact .markRows (running_eq_some hrun).1 (running_eq_some hrun).2
  | startCommit t groups flushOrder => exact moves_startCommit h
  | commitStep t => exact moves_commitStep h
  | failCommit t => exact moves_failCommit h
  | finishReadOnly t =>
    obtain ⟨lt, hrun, hguard, ⟨⟩⟩ := of_bind_ite h
    exact .finishReadOnly (running_eq_some hrun).1 (running_eq_some hrun).2 hguard
  | rollback t =>
    obtain ⟨lt, hrun, rfl⟩ := map_eq_some_iff.1 h
    exact .rollback (running_eq_some hrun).1 (running_eq_some hrun).2
  | drop t =>
    obtain ⟨lt, hrun, rfl⟩ := map_eq_some_iff.1 h
    exact .drop (running_eq_some hrun).1 (running_eq_some hrun).2
  | prefetchRead k =>
    simp only [step, Engine.prefetchRead] at h
    split at h
    next hguard =>
      cases h
      exact .prefetchRead hguard.2.2
    · cases h
  | prefetchInstall k img => exact moves_prefetchInstall h
  | reclaimScan j minActiveTs => cases h; exact .reclaimScan
  | reclaimCleanup =>
    obtain ⟨⟨j, candidates⟩, hr, rfl⟩ := map_eq_some_iff.1 h
    exact .reclaimCleanup hr
  | startCheckpoint c =>
    simp only [step, Engine.startCheckpoint] at h
    split at h
    · cases h
      exact .startCheckpoint
    · cases h
  | checkpointFlush c j =>
    obtain ⟨ck, -, -, ⟨⟩⟩ := of_bind_ite h
    exact .checkpointFlush
  | checkpointSync c f =>
    obtain ⟨ck, -, -, ⟨⟩⟩ := of_bind_ite h
    exact .checkpointSync
  | checkpointTruncate c =>
    obtain ⟨ck, -, -, ⟨⟩⟩ := of_bind_ite h
    exact .checkpointTruncate
  | saveHeader c =>
    obtain ⟨ck, -, -, ⟨⟩⟩ := of_bind_ite h
    exact .saveHeader

end Engine

end LightningDB
