import LightningDB.BufferPool.Manager
import LightningDB.Framework.Runs
import LightningDB.Storage.RowVersion
import LightningDB.Wal.Attributed
import Mathlib.Data.Fintype.Basic
import Mathlib.Data.List.Dedup
import Mathlib.Data.List.FinRange

/-!
# The engine

The system made of the transaction manager, the buffer manager, the data files, the row versions and
the log.  A step is what one thread does under the locks it holds at a time, so every interleaving
of the threads is a run: transactions begin, read, write and log pages, mark rows, commit, fail to
commit, roll back and are dropped; pages are prefetched and expired versions reclaimed; and
checkpoints flush, sync, truncate the log and save the header.

`TransactionManager::commit` is the longest operation.  A committing transaction carries the stage
it is in and what is left of the stage's loop (`CommitStage`).  Where the source iterates over a
hash map the action that starts the commit fixes the order, so that no order is left out.

A transaction is used by one thread: while it waits for a slot, or commits, it does nothing else.

A read-only transaction is not kept from making versions of pages: `create_new_version` does not ask,
and some queries call it.  When such a transaction ends its versions stay in the pool, with its mark.

The fields after `prefetched` are ghosts.  `hist` has the committed versions of each page, newest
first, the initial content last; `reads` records what was read, and `endedReaders` the read-only
transactions that have ended.  No step looks at them.
-/

namespace LightningDB

open Framework Function

/-! ## Merging rows -/

/-- Overwrite the slot of one recorded row. -/
def PageRowMod.apply (p : Page) (m : PageRowMod) : Page :=
  p.write (m.rowId % max m.valuesPerPage 1 * m.elementSize) (m.rowData.take m.elementSize)

/-- The page a merge writes: the rows of this transaction over the latest committed page. -/
def mergeRows (p : Page) (mods : List PageRowMod) : Page := mods.foldl PageRowMod.apply p

/-- `row_data[..element_size]` is in range. -/
def PageRowMod.fits (m : PageRowMod) : Bool := m.elementSize ≤ m.rowData.length

def PageRowMod.key (m : PageRowMod) : PageKey := (m.fileId, m.pageIdx)

def pageGroups (mods : List PageRowMod) : List (PageKey × List PageRowMod) :=
  (mods.map PageRowMod.key).dedup.map fun k => (k, mods.filter fun m => m.key = k)

/-! ## Transactions -/

/-- How far a commit has come, with what is left of its present loop. -/
inductive CommitStage where
  /-- The merge, page by page: take the latest committed page and overwrite the recorded rows; -/
  | merging (groups : List (PageKey × List PageRowMod))
  /-- put the bytes into the transaction's own version; -/
  | installing (k : PageKey) (page : Page) (groups : List (PageKey × List PageRowMod))
  /-- and log it. -/
  | loggingMerged (k : PageKey) (groups : List (PageKey × List PageRowMod))
  | pinning (pages : List PageKey)
  | stamping (pages : List PageKey)
  | committingRanges (ranges : List (ℕ × ℕ × ℕ))
  | committingRows (rows : List (ℕ × ℕ))
  | flushing (shards : List (Fin numShards))
  | unpinning
  | superseding (pages : List PageKey)
  | loggingCommit
  /-- The commit record is written: leave `active_tx_ids` and the commit lock. -/
  | leaving
  | returning

/-- A commit under way: its stage, and the order in which `flush_pages` visits the shards. -/
structure CommitState where
  stage : CommitStage
  flushOrder : List (Fin numShards)

/-- What a transaction's thread is doing. -/
inductive TxPhase where
  | running
  /-- In `pin_page`, between two attempts to find a slot. -/
  | pinning (k : PageKey)
  /-- In `create_new_version`, between two attempts, with the page lock and the copied source. -/
  | creating (k : PageKey) (source : Image)
  | committing (c : CommitState)

/-- A transaction that is not finalized, with a ghost: the bytes of its own versions. -/
structure LiveTx where
  tx : Transaction
  phase : TxPhase
  own : PageKey → Option Page

/-- A pin somebody will release: by the transaction's thread, or by the commit itself. -/
structure Hold where
  tx : ℕ
  byCommit : Bool
  frame : ℕ
deriving DecidableEq

/-- A checkpoint under way: the shards to flush, the files to sync, the truncations to make. -/
structure Checkpoint where
  shards : Finset (Fin numShards)
  fids : Finset ℕ
  truncations : ℕ

/-- `DatabaseHeader`, as far as recovery reads it. -/
structure DatabaseHeader where
  lastCheckpointTx : ℕ
  nextTxId : ℕ
  currentTs : ℕ

/-- What a `pin_page` returned. -/
structure PageRead where
  tx : ℕ
  key : PageKey
  image : Image

structure Engine where
  tm : TransactionManager
  /-- Ids taken by a `begin_at` that has not registered them yet. -/
  beginning : Finset ℕ
  live : ℕ → Option LiveTx
  /-- The holder of `commit_lock`. -/
  committer : Option ℕ
  bm : BufferManager
  /-- The page locks held across a wait for a slot. -/
  pageLocks : Finset PageKey
  disk : Disk
  /-- The files that `get_file_handle` and `apply_page` know. -/
  registered : Finset ℕ
  tables : ℕ → RowVersion
  log : AttributedLog
  header : DatabaseHeader
  checkpoints : ℕ → Option Checkpoint
  held : List Hold
  /-- `reclaim_expired_versions` between its scan and its cleanup. -/
  reclaiming : Option (Fin numShards × List (ℕ × PageKey))
  /-- Pages read by a prefetch and not installed yet. -/
  prefetched : List (PageKey × Image)
  hist : PageKey → List Image
  reads : List PageRead
  endedReaders : Finset ℕ

/-- The steps. -/
inductive EngineAction where
  | allocTxId
  | register (t : ℕ) (isReadOnly : Bool) (snapshotTs : Option ℕ)
  | addNewPage (fileId : ℕ)
  | syncFile (fileId : ℕ)
  | pinPage (t : ℕ) (k : PageKey)
  | retryPin (t : ℕ)
  | unpin (t frame : ℕ)
  | createVersion (t : ℕ) (k : PageKey)
  | retryCreate (t : ℕ)
  | giveUp (t : ℕ)
  | write (t : ℕ) (k : PageKey) (page : Page)
  | logUpdate (t : ℕ) (k : PageKey)
  | recordRows (t : ℕ) (mods : List PageRowMod)
  | markRow (t table row : ℕ)
  | markRows (t table start stop : ℕ)
  | startCommit (t : ℕ) (groups : List (PageKey × List PageRowMod))
      (flushOrder : List (Fin numShards))
  | commitStep (t : ℕ)
  | failCommit (t : ℕ)
  | finishReadOnly (t : ℕ)
  | rollback (t : ℕ)
  | drop (t : ℕ)
  | prefetchRead (k : PageKey)
  | prefetchInstall (k : PageKey) (img : Image)
  | reclaimScan (j : Fin numShards) (minActiveTs : ℕ)
  | reclaimCleanup
  | startCheckpoint (c : ℕ)
  | checkpointFlush (c : ℕ) (j : Fin numShards)
  | checkpointSync (c fileId : ℕ)
  | checkpointTruncate (c : ℕ)
  | saveHeader (c : ℕ)

namespace LiveTx

variable (lt : LiveTx)

/-- The bytes of the transaction's own version of a page change. -/
def setOwn (k : PageKey) (page : Page) : LiveTx :=
  { lt with own := update lt.own k (some page) }

/-- `modified_pages.push`. -/
def pushPage (k : PageKey) : LiveTx :=
  { lt with tx := { lt.tx with modifiedPages := lt.tx.modifiedPages ++ [k] } }

def goOn (c : CommitState) (stage : CommitStage) : LiveTx :=
  { lt with phase := .committing { c with stage := stage } }

end LiveTx

namespace Engine

variable (s : Engine) (t : ℕ) (lt : LiveTx)

/-- Replace the record of a live transaction. -/
def setLive : Engine :=
  { s with live := update s.live t (some lt) }

/-- A live transaction whose thread is free. -/
def running : Option LiveTx :=
  (s.live t).filter fun lt => match lt.phase with
    | .running => true
    | _ => false

def committing : Option (LiveTx × CommitState) :=
  (s.live t).bind fun lt => match lt.phase with
    | .committing c => some (lt, c)
    | _ => none

variable (k : PageKey)

/-! ### Beginning -/

/-- The first half of `begin_at`. -/
def allocTxId : Option Engine :=
  s.tm.allocTxId.map fun (t, tm) => { s with tm := tm, beginning := insert t s.beginning }

/-- The second half of `begin_at`. -/
def register (isReadOnly : Bool) (snapshotTs : Option ℕ) : Option Engine :=
  if t ∈ s.beginning then
    let (tx, tm) := s.tm.register t isReadOnly snapshotTs
    some { s with
      tm := tm
      beginning := s.beginning.erase t
      live := update s.live t (some ⟨tx, .running, fun _ => none⟩) }
  else none

/-! ### Reading -/

/-- `pin_page` returns a frame. -/
def returnFrame (k : PageKey) (f : Frame) (bm : BufferManager) (d : Disk) : Engine :=
  { s with
    bm := bm.pin f.id
    disk := d
    live := update s.live t (some { lt with phase := .running })
    held := ⟨t, false, f.id⟩ :: s.held
    reads := ⟨t, k, f.data⟩ :: s.reads }

/-- `pin_page`, up to its first attempt to find a slot. -/
def pinPage : Option Engine :=
  (s.running t).map fun lt =>
    match s.bm.pinPage s.disk k t lt.tx.readTs with
    | .placed f bm d => s.returnFrame t lt k f bm d
    | .needRetry bm => { s.setLive t { lt with phase := .pinning k } with bm := bm }

/-- A further attempt of `pin_page`: it does not look for the page again. -/
def retryPin : Option Engine :=
  (s.live t).bind fun lt =>
    match lt.phase with
    | .pinning k =>
      some (match s.bm.loadPage s.disk k with
        | .placed f bm d => s.returnFrame t lt k f bm d
        | .needRetry bm => { s with bm := bm })
    | _ => none

/-- `unpin_page`. -/
def unpin (t frame : ℕ) : Option Engine :=
  if ⟨t, false, frame⟩ ∈ s.held then
    some { s with bm := s.bm.unpin frame, held := s.held.erase ⟨t, false, frame⟩ }
  else none

/-! ### Writing -/

/-- `create_new_version` returns a frame, which is pinned for the writer. -/
def returnVersion (f : Frame) (bm : BufferManager) : Engine :=
  { s with
    bm := bm.pin f.id
    live := update s.live t (some { lt with phase := .running })
    held := ⟨t, false, f.id⟩ :: s.held }

/-- The source of a copy: the newest committed version that is resident, or the file. -/
def sourceOf (t : ℕ) : Image :=
  ((s.bm.findSource k t).map Frame.data).getD (s.disk.loadPage k)

/-- The own version that `create_new_version` meets. -/
def ownFrame (t : ℕ) : Option Frame :=
  (s.bm.findSource k t).filter fun f => f.version = mark t

/-- `create_new_version`, up to its first attempt to find a slot. -/
def createVersion : Option Engine :=
  (s.running t).bind fun lt =>
    if k ∈ s.pageLocks then none
    else some (
      match s.ownFrame k t with
      | some f => s.returnVersion t (lt.pushPage k) f (s.bm.touch k f.id)
      | none =>
        match (s.bm.insertHandle k).installVersion s.disk k t (s.sourceOf k t) with
        | .placed f bm d =>
          { s.returnVersion t ((lt.pushPage k).setOwn k (s.sourceOf k t).page) f bm with disk := d }
        | .needRetry bm =>
          { s.setLive t { lt.pushPage k with phase := .creating k (s.sourceOf k t) } with
            bm := bm
            pageLocks := insert k s.pageLocks })

/-- A further attempt of `create_new_version`. -/
def retryCreate : Option Engine :=
  (s.live t).bind fun lt =>
    match lt.phase with
    | .creating k source =>
      some (match s.bm.installVersion s.disk k t source with
        | .placed f bm d =>
          { s.returnVersion t (lt.setOwn k source.page) f bm with
            disk := d
            pageLocks := s.pageLocks.erase k }
        | .needRetry bm => { s with bm := bm })
    | _ => none

/-- The pool stays exhausted: `pin_page` or `create_new_version` returns an error. -/
def giveUp : Option Engine :=
  (s.live t).bind fun lt =>
    match lt.phase with
    | .pinning _ => some (s.setLive t { lt with phase := .running })
    | .creating k _ =>
      some { s.setLive t { lt with phase := .running } with pageLocks := s.pageLocks.erase k }
    | _ => none

/-- A write to the bytes of the transaction's own version. -/
def write (page : Page) : Option Engine :=
  (s.running t).bind fun lt =>
    (s.bm.findByMark k (mark t)).map fun _ =>
      { s.setLive t (lt.setOwn k page) with bm := s.bm.writeFrame k t page }

/-- `log_page_update` of the transaction's own version. -/
def logFrame (k : PageKey) (f : Frame) : Engine :=
  { s.setLive t lt with log := s.log.logPageUpdate (s.bm.logTxId k) t k f.data.page }

/-- `log_page_update` after a write. -/
def logUpdate : Option Engine :=
  (s.running t).bind fun lt => (s.bm.findByMark k (mark t)).map (s.logFrame t lt k)

/-- `modified_page_rows.push` for some rows. -/
def recordRows (mods : List PageRowMod) : Option Engine :=
  (s.running t).bind fun lt =>
    if mods.all PageRowMod.fits then
      some (s.setLive t { lt with
        tx := { lt.tx with modifiedPageRows := lt.tx.modifiedPageRows ++ mods } })
    else none

/-- `mark_row` and the record of the row; a conflict leaves everything as it is. -/
def markRow (t table row : ℕ) : Option Engine :=
  (s.running t).bind fun lt =>
    match (s.tables table).markRow row t lt.tx.readTs with
    | .error _ => none
    | .ok rv =>
      some { s.setLive t { lt with
          tx := { lt.tx with modifiedRows := lt.tx.modifiedRows ++ [(table, row)] } } with
        tables := update s.tables table rv }

/-- `mark_row_batch` and the record of the range. -/
def markRows (t table start stop : ℕ) : Option Engine :=
  (s.running t).map fun lt =>
    { s.setLive t { lt with
        tx := { lt.tx with bulkRowRanges := lt.tx.bulkRowRanges ++ [(table, start, stop)] } } with
      tables := update s.tables table
        ((s.tables table).markRowBatch start stop t) }

/-! ### Committing -/

/-- The bump of `current_ts`, under the commit lock.  `groups` and `flushOrder` are the orders in
which the hash maps of the merge and of `flush_pages` are gone through. -/
def startCommit (groups : List (PageKey × List PageRowMod))
    (flushOrder : List (Fin numShards)) : Option Engine :=
  (s.running t).bind fun lt =>
    if lt.tx.isReadOnly = false ∧ s.committer = none ∧ groups.Perm (pageGroups lt.tx.modifiedPageRows) ∧
        flushOrder.Perm (List.finRange numShards) then
      s.tm.nextCommitTs.map fun (commitTs, tm) =>
        { s.setLive t { lt with
            tx := { lt.tx with commitTs := commitTs }
            phase := .committing ⟨.merging groups, flushOrder⟩ } with
          tm := tm
          committer := some t }
    else none

variable (c : CommitState)

/-- A merge takes its copy of the latest committed page and overwrites the recorded rows; a page of
an unknown file is passed over. -/
def merge (k : PageKey)
    (mods : List PageRowMod) (groups : List (PageKey × List PageRowMod)) : Engine :=
  if k.1 ∈ s.registered then
    let page := mergeRows (s.bm.latestCommitted s.disk k).page mods
    s.setLive t ((lt.pushPage k).goOn c (.installing k page groups))
  else s.setLive t (lt.goOn c (.merging groups))

/-- The merged bytes are in the transaction's own version, which stays pinned. -/
def mergeDone (k : PageKey) (page : Page)
    (groups : List (PageKey × List PageRowMod)) (f : Frame) (bm : BufferManager) (d : Disk) :
    Engine :=
  { s.setLive t ((lt.setOwn k page).goOn c (.loggingMerged k groups)) with
    bm := (bm.pin f.id).writeFrame k t page
    disk := d
    held := ⟨t, true, f.id⟩ :: s.held }

/-- `create_new_version` for the merged page and the copy of the bytes; without a slot the commit
waits. -/
def installMerged (k : PageKey) (page : Page)
    (groups : List (PageKey × List PageRowMod)) : Option Engine :=
  if k ∈ s.pageLocks then none
  else some (
    match s.ownFrame k t with
    | some f => s.mergeDone t lt c k page groups f (s.bm.touch k f.id) s.disk
    | none =>
      match (s.bm.insertHandle k).installVersion s.disk k t (s.sourceOf k t) with
      | .placed f bm d => s.mergeDone t lt c k page groups f bm d
      | .needRetry bm => { s with bm := bm })

/-- `pin_page_by_key`. -/
def pinMarked : Engine :=
  match s.bm.findByMark k (mark t) with
  | some f => { s with bm := s.bm.pin f.id, held := ⟨t, true, f.id⟩ :: s.held }
  | none => s

/-- `update_timestamps`; the version enters the history. -/
def stamp (k : PageKey) (pages : List PageKey) : Engine :=
  match s.bm.findByMark k (mark t) with
  | some f =>
    { s.setLive t (({ lt with own := update lt.own k none } : LiveTx).goOn c
        (.stamping pages)) with
      bm := s.bm.updateTimestamps k t lt.tx.commitTs
      hist := update s.hist k (⟨f.data.page, lt.tx.commitTs⟩ :: s.hist k) }
  | none => s.setLive t (lt.goOn c (.stamping pages))

/-- Release one of the commit's pins, if one is left. -/
def unpinOne : Option Engine :=
  (s.held.find? fun h => h.tx = t ∧ h.byCommit = true).map fun h =>
    { s with bm := s.bm.unpin h.frame, held := s.held.erase h }

def commitStep : Option Engine :=
  (s.committing t).bind fun (lt, c) =>
    let goOn := fun stage => s.setLive t (lt.goOn c stage)
    match c.stage with
    | .merging ((k, mods) :: groups) => some (s.merge t lt c k mods groups)
    | .merging [] => some (goOn (.pinning lt.tx.modifiedPages))
    | .installing k page groups => s.installMerged t lt c k page groups
    | .loggingMerged k groups =>
      (s.bm.findByMark k (mark t)).map (s.logFrame t (lt.goOn c (.merging groups)) k)
    | .pinning (k :: pages) => some ((s.pinMarked t k).setLive t (lt.goOn c (.pinning pages)))
    | .pinning [] => some (goOn (.stamping lt.tx.modifiedPages))
    | .stamping (k :: pages) => some (s.stamp t lt c k pages)
    | .stamping [] => some (goOn (.committingRanges lt.tx.bulkRowRanges))
    | .committingRanges ((table, start, stop) :: ranges) =>
      some { goOn (.committingRanges ranges) with
        tables := update s.tables table
          ((s.tables table).commitRowBatch start stop lt.tx.commitTs) }
    | .committingRanges [] => some (goOn (.committingRows lt.tx.modifiedRows))
    | .committingRows ((table, row) :: rows) =>
      some { goOn (.committingRows rows) with
        tables := update s.tables table
          ((s.tables table).commitRow row lt.tx.commitTs) }
    | .committingRows [] => some (goOn (.flushing c.flushOrder))
    | .flushing (j :: shards) =>
      some { goOn (.flushing shards) with
        bm := (s.bm.flushPages j lt.tx.modifiedPages s.disk).1
        disk := (s.bm.flushPages j lt.tx.modifiedPages s.disk).2 }
    | .flushing [] => some (goOn .unpinning)
    | .unpinning => some ((s.unpinOne t).getD (goOn (.superseding lt.tx.modifiedPages)))
    | .superseding (k :: pages) =>
      some { goOn (.superseding pages) with bm := s.bm.evictSuperseded k lt.tx.commitTs }
    | .superseding [] => some (goOn .loggingCommit)
    | .loggingCommit => some { goOn .leaving with log := s.log.logCommit t }
    | .leaving => some { goOn .returning with tm := s.tm.removeActive t, committer := none }
    | .returning =>
      some { s with
        tm := s.tm.removeReadTs lt.tx.readTs
        live := update s.live t none }

/-- `commit` returns an error during the merge: the pool is exhausted, or a merge lock timed out.
The pins of the merge are never released. -/
def failCommit : Option Engine :=
  (s.committing t).bind fun (lt, c) =>
    match c.stage with
    | .merging (_ :: _) | .installing _ _ _ =>
      some { s.setLive t { lt with phase := .running } with
        committer := none
        held := s.held.filter fun h => !(h.tx = t && h.byCommit) }
    | _ => none

/-! ### Ending without a commit -/

def endReader (tx : Transaction) : Finset ℕ :=
  if tx.isReadOnly then insert t s.endedReaders else s.endedReaders

/-- What `commit` does for a read-only transaction. -/
def finishReadOnly : Option Engine :=
  (s.running t).bind fun lt =>
    if lt.tx.isReadOnly then
      some { s with
        tm := s.tm.finish lt.tx
        live := update s.live t none
        endedReaders := s.endReader t lt.tx }
    else none

/-- The row versions after the rows of a transaction were rolled back. -/
def rollbackTables (tables : ℕ → RowVersion) (tx : Transaction) : ℕ → RowVersion := fun table =>
  (tx.bulkRowRanges.filter fun r => r.1 = table).foldl
    (fun rv r => rv.rollbackRowBatch r.2.1 r.2.2)
    ((tables table).rollbackRows ((tx.modifiedRows.filter fun r => r.1 = table).map Prod.snd))

/-- `rollback`. -/
def rollback : Option Engine :=
  (s.running t).map fun lt =>
    { s with
      tm := s.tm.finish lt.tx
      live := update s.live t none
      bm := if lt.tx.isReadOnly then s.bm else s.bm.rollbackVersions t
      tables := if lt.tx.isReadOnly then s.tables else rollbackTables s.tables lt.tx
      endedReaders := s.endReader t lt.tx }

/-- `Transaction::drop`: the rows stay marked. -/
def drop : Option Engine :=
  (s.running t).map fun lt =>
    { s with
      tm := s.tm.finish lt.tx
      live := update s.live t none
      bm := if lt.tx.isReadOnly then s.bm else s.bm.rollbackVersions t
      endedReaders := s.endReader t lt.tx }

/-! ### Background work -/

/-- A prefetch reads a page that is not cached. -/
def prefetchRead : Option Engine :=
  if s.bm.isCached k = false ∧ k.1 ∈ (s.bm.shardOf k).fileHandles ∧ k.2 < (s.disk k.1).numPages then
    some { s with prefetched := (k, s.disk.current k) :: s.prefetched }
  else none

/-- A prefetch installs what it has read, unless the page is cached by now. -/
def prefetchInstall (img : Image) : Option Engine :=
  if (k, img) ∈ s.prefetched then
    let s := { s with prefetched := s.prefetched.erase (k, img) }
    some (
      if s.bm.isCached k then s
      else match s.bm.place s.disk k 0 false fun _ => img with
        | .placed _ bm d => { s with bm := bm, disk := d }
        | .needRetry bm => { s with bm := bm })
  else none

/-- The scan of `reclaim_expired_versions` over a shard. -/
def reclaimScan (j : Fin numShards) (minActiveTs : ℕ) : Engine :=
  { s with reclaiming := some (j, s.bm.reclaimCandidates j minActiveTs) }

/-- The cleanup of `reclaim_expired_versions`. -/
def reclaimCleanup : Option Engine :=
  s.reclaiming.map fun (j, candidates) =>
    { s with bm := s.bm.reclaimCleanup j candidates, reclaiming := none }

/-! ### Checkpoints -/

/-- `checkpoint` begins. -/
def startCheckpoint (c : ℕ) : Option Engine :=
  if (s.checkpoints c).isNone then
    some { s with
      checkpoints := update s.checkpoints c (some ⟨Finset.univ, ∅, numShards⟩) }
  else none

def checkpointFlush (c : ℕ) (j : Fin numShards) : Option Engine :=
  (s.checkpoints c).bind fun ck =>
    if j ∈ ck.shards then
      let (bm, d, fids) := s.bm.checkpointFlush j s.disk
      some { s with
        bm := bm
        disk := d
        checkpoints := update s.checkpoints c
          (some { ck with shards := ck.shards.erase j, fids := ck.fids ∪ fids }) }
    else none

/-- A checkpoint syncs one of the files it wrote to. -/
def checkpointSync (c fileId : ℕ) : Option Engine :=
  (s.checkpoints c).bind fun ck =>
    if ck.shards = ∅ ∧ fileId ∈ ck.fids then
      some { s with
        disk := s.disk.sync fileId
        checkpoints := update s.checkpoints c
          (some { ck with fids := ck.fids.erase fileId }) }
    else none

/-- A checkpoint truncates the log, once for each shard. -/
def checkpointTruncate (c : ℕ) : Option Engine :=
  (s.checkpoints c).bind fun ck =>
    if ck.shards = ∅ ∧ ck.fids = ∅ ∧ 0 < ck.truncations then
      some { s with
        log := s.log.truncate
        checkpoints := update s.checkpoints c
          (some { ck with truncations := ck.truncations - 1 }) }
    else none

/-- A checkpoint saves the header and ends. -/
def saveHeader (c : ℕ) : Option Engine :=
  (s.checkpoints c).bind fun ck =>
    if ck.shards = ∅ ∧ ck.fids = ∅ ∧ ck.truncations = 0 then
      some { s with
        header := ⟨s.tm.resolvedTxWatermark, s.tm.nextTxId, s.tm.currentTs⟩
        checkpoints := update s.checkpoints c none }
    else none

def step : EngineAction → Option Engine
  | .allocTxId => s.allocTxId
  | .register t isReadOnly snapshotTs => s.register t isReadOnly snapshotTs
  | .addNewPage f => some { s with disk := s.disk.addNewPage f }
  | .syncFile f => some { s with disk := s.disk.sync f }
  | .pinPage t k => s.pinPage t k
  | .retryPin t => s.retryPin t
  | .unpin t frame => s.unpin t frame
  | .createVersion t k => s.createVersion t k
  | .retryCreate t => s.retryCreate t
  | .giveUp t => s.giveUp t
  | .write t k page => s.write t k page
  | .logUpdate t k => s.logUpdate t k
  | .recordRows t mods => s.recordRows t mods
  | .markRow t table row => s.markRow t table row
  | .markRows t table start stop => s.markRows t table start stop
  | .startCommit t groups flushOrder => s.startCommit t groups flushOrder
  | .commitStep t => s.commitStep t
  | .failCommit t => s.failCommit t
  | .finishReadOnly t => s.finishReadOnly t
  | .rollback t => s.rollback t
  | .drop t => s.drop t
  | .prefetchRead k => s.prefetchRead k
  | .prefetchInstall k img => s.prefetchInstall k img
  | .reclaimScan j minActiveTs => some (s.reclaimScan j minActiveTs)
  | .reclaimCleanup => s.reclaimCleanup
  | .startCheckpoint c => s.startCheckpoint c
  | .checkpointFlush c j => s.checkpointFlush c j
  | .checkpointSync c f => s.checkpointSync c f
  | .checkpointTruncate c => s.checkpointTruncate c
  | .saveHeader c => s.saveHeader c

end Engine

/-- A database just opened with an empty log: nothing is in flight, nothing is cached, and the
files are as a crash would leave them. -/
structure Engine.Opened (s : Engine) : Prop where
  nextTxId : 1 ≤ s.tm.nextTxId
  activeTxIds : s.tm.activeTxIds = ∅
  beginning : s.beginning = ∅
  live : ∀ t, s.live t = none
  committer : s.committer = none
  bm : ∃ capacity, s.bm = .new capacity
  pageLocks : s.pageLocks = ∅
  durable : ∀ k, s.disk.durable k = [s.disk.current k]
  origin : ∀ k, (s.disk.current k).origin = 0
  beyond : ∀ k, (s.disk k.1).numPages ≤ k.2 → s.disk.current k = Image.zero
  tables : ∀ table, s.tables table = .new
  log : s.log = .empty
  lastCheckpointTx : s.header.lastCheckpointTx < s.tm.nextTxId
  checkpoints : ∀ c, s.checkpoints c = none
  held : s.held = []
  reclaiming : s.reclaiming = none
  prefetched : s.prefetched = []
  hist : ∀ k, s.hist k = [s.disk.current k]
  reads : s.reads = []
  endedReaders : s.endedReaders = ∅

def engineSystem : System Engine EngineAction where
  init := Engine.Opened
  step := Engine.step

/-- A new database with a pool of the given size and files of zero pages. -/
def Engine.fresh (capacity : ℕ) (registered : Finset ℕ) : Engine where
  tm := .new
  beginning := ∅
  live := fun _ => none
  committer := none
  bm := .new capacity
  pageLocks := ∅
  disk := fun _ => ⟨0, fun _ => Image.zero, fun _ => [Image.zero]⟩
  registered := registered
  tables := fun _ => .new
  log := .empty
  header := ⟨0, 1, 1⟩
  checkpoints := fun _ => none
  held := []
  reclaiming := none
  prefetched := []
  hist := fun _ => [Image.zero]
  reads := []
  endedReaders := ∅

lemma Engine.opened_fresh (capacity : ℕ) (registered : Finset ℕ) :
    (Engine.fresh capacity registered).Opened := by
  constructor
  case bm => exact ⟨capacity, rfl⟩
  case nextTxId => exact le_rfl
  case lastCheckpointTx => exact Nat.one_pos
  all_goals first | rfl | exact fun _ => rfl | exact fun _ _ => rfl

lemma Engine.reachable_of_exec {capacity : ℕ} {registered : Finset ℕ} {run : List EngineAction}
    {s : Engine} (h : engineSystem.exec (.fresh capacity registered) run = some s) :
    engineSystem.Reachable s :=
  System.Reachable.exec (.init (opened_fresh capacity registered)) h

/-! ## Runs written out -/

namespace EngineAction

def beginAt (t : ℕ) (isReadOnly : Bool) : List EngineAction :=
  [.allocTxId, .register t isReadOnly none]

/-- A transaction makes a version of a page and writes it through a frame it then unpins. -/
def writePage (t : ℕ) (k : PageKey) (page : Page) (frame : ℕ) : List EngineAction :=
  [.createVersion t k, .write t k page, .logUpdate t k, .unpin t frame]

/-- The first steps of a commit, with the shards flushed in turn. -/
def commitSteps (t : ℕ) (groups : List (PageKey × List PageRowMod)) (steps : ℕ) :
    List EngineAction :=
  .startCommit t groups (List.finRange numShards) :: List.replicate steps (.commitStep t)

end EngineAction

end LightningDB
