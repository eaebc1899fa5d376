import LightningDB.Recovery.Open
import LightningDB.Wal.RoundTrip

/-!
# What recovery brings back

`recovery_completeness` says when a fresh transaction reads the last committed image of a page after
`Database::new`: the file has to be registered under its id, and the page has to be within the file
as it was found on disk.  The overflow file and the hash indexes are never registered, and a page
past the old end of a file is written by the replay and still read as zeros.  A crash in the replay
does no harm (`recovery_after_crash`).
-/

namespace LightningDB

open Framework List ReplayState Page

namespace StorageManager

variable {sm : StorageManager}

def Registered (sm : StorageManager) (fh : OpenFile) : Prop :=
  (sm.fileHandles.lookup (fileId sm.dbPath fh.path)).any fun fh' => fh'.path = fh.path

instance (sm : StorageManager) (fh : OpenFile) : Decidable (sm.Registered fh) :=
  inferInstanceAs (Decidable (_ = true))

/-- Every handle is registered under the id of its own path. -/
def RegistryOk (sm : StorageManager) : Prop :=
  ∀ id fh, sm.fileHandles.lookup id = some fh → fileId sm.dbPath fh.path = id

lemma registered_iff {fh : OpenFile} :
    sm.Registered fh ↔ ∃ fh', sm.fileHandles.lookup (fileId sm.dbPath fh.path) = some fh' ∧
      fh'.path = fh.path := by
  rw [Registered, Option.any_eq_true]
  simp

/-! ## Opening -/

variable {catalog : Catalog}

/-- What holds before any file is opened and is kept by each opening holds before the replay. -/
lemma restore_invariant {dbPath : String} {files : String → Option (List UInt8)}
    {I : StorageManager → Prop} (hinit : I ⟨dbPath, files, ∅, []⟩)
    (hstep : ∀ sm, I sm → ∀ o ∈ openSteps catalog, I (sm.step o)) :
    I (restore dbPath files catalog) := by
  rw [restore]
  generalize hsteps : openSteps catalog = steps at hstep
  clear hsteps
  revert hinit
  generalize (⟨dbPath, files, ∅, []⟩ : StorageManager) = sm
  intro hinit
  induction steps generalizing sm with
  | nil => exact hinit
  | cons o steps ih =>
    exact ih (fun sm h o' ho' => hstep sm h o' (mem_cons_of_mem _ ho')) _
      (hstep sm hinit o mem_cons_self)

variable (sm : StorageManager)

lemma lookup_step (o : OpenStep) {id : ℕ} {fh : OpenFile}
    (h : (sm.step o).fileHandles.lookup id = some fh) : sm.fileHandles.lookup id = some fh ∨
      ∃ path, o = .registered path ∧ id = fileId sm.dbPath path ∧ fh.path = path := by
  cases o with
  | plain path => exact .inl h
  | registered path =>
    have h : (sm.fileHandles.insert (fileId sm.dbPath path) (sm.openFile path).1).lookup id =
        some fh := h
    rw [FinMap.lookup_insert_eq_ite] at h
    split at h
    next hid =>
      cases h
      exact .inr ⟨path, rfl, hid, rfl⟩
    · exact .inl h
  | index path =>
    rw [step, createIndex] at h
    split at h <;> exact .inl h

lemma dbPath_step (o : OpenStep) : (sm.step o).dbPath = sm.dbPath := by
  cases o with
  | plain | registered => rfl
  | index path =>
    rw [step, createIndex]
    split <;> rfl

lemma dbPath_restore (dbPath : String) (files : String → Option (List UInt8)) (catalog : Catalog) :
    (restore dbPath files catalog).dbPath = dbPath :=
  restore_invariant (I := fun sm => sm.dbPath = dbPath) rfl
    fun sm h o _ => (dbPath_step sm o).trans h

lemma registryOk_restore (dbPath : String) (files : String → Option (List UInt8))
    (catalog : Catalog) : (restore dbPath files catalog).RegistryOk := by
  refine restore_invariant ?_ ?_
  · intro id fh h
    cases h
  · intro sm h o _ id fh hlookup
    rw [dbPath_step]
    rcases lookup_step sm o hlookup with hold | ⟨path, -, hid, hpath⟩
    · exact h id fh hold
    · rw [hpath, hid]

/-! ## Files that are never registered -/

lemma underscore_mem_columnPair {tableName colName path : String}
    (h : path ∈ columnPair tableName colName) : '_' ∈ path.toList := by
  simp only [columnPair, mem_cons, not_mem_nil, or_false] at h
  rcases h with rfl | rfl <;> simp [String.toList_append]

mutual

lemma underscore_mem_createColumnRecursive (tableName colName : String) :
    ∀ type : LogicalType, ∀ path ∈ createColumnRecursive tableName colName type,
      '_' ∈ path.toList
  | .list child => by
    rw [createColumnRecursive, forall_mem_append]
    exact ⟨fun _ => underscore_mem_columnPair,
      underscore_mem_createColumnRecursive tableName _ child⟩
  | .struct fields => by
    rw [createColumnRecursive, forall_mem_append]
    exact ⟨fun _ => underscore_mem_columnPair, underscore_mem_createFields tableName colName fields⟩
  | .map key value => by
    rw [createColumnRecursive, forall_mem_append, forall_mem_append]
    exact ⟨⟨fun _ => underscore_mem_columnPair,
      underscore_mem_createColumnRecursive tableName _ key⟩,
      underscore_mem_createColumnRecursive tableName _ value⟩
  | .any | .bool | .int128 | .int64 | .int32 | .int16 | .int8 | .uint128 | .uint64 | .uint32
  | .uint16 | .uint8 | .float | .double | .string | .blob | .timestamp | .date | .interval
  | .internalID | .serial | .union _ | .node _ | .rel _ | .lambda _ => by
    simp only [createColumnRecursive]
    exact fun _ => underscore_mem_columnPair

lemma underscore_mem_createFields (tableName colName : String) :
    ∀ fields : List (String × LogicalType), ∀ path ∈ createFields tableName colName fields,
      '_' ∈ path.toList
  | [] => by
    rw [createFields]
    exact forall_mem_nil _
  | (name, type) :: fields => by
    rw [createFields, forall_mem_append]
    exact ⟨underscore_mem_createColumnRecursive tableName _ type,
      underscore_mem_createFields tableName colName fields⟩

end

lemma underscore_mem_createTable {name path : String} {defs : List (String × LogicalType)}
    {isRel : Bool} (h : path ∈ createTable name defs isRel) : '_' ∈ path.toList := by
  have huser : ∀ {system}, path ∈ userColumns name system defs → '_' ∈ path.toList := by
    intro system h
    obtain ⟨c, -, hc⟩ := mem_flatMap.1 h
    exact underscore_mem_createColumnRecursive name c.1 c.2 path hc
  rw [createTable] at h
  split at h
  · rcases mem_append.1 h with h | h
    · simp only [mem_cons, not_mem_nil, or_false] at h
      rcases h with rfl | rfl | rfl | rfl <;> simp [String.toList_append]
    · exact huser h
  · rcases mem_append.1 h with h | h
    · exact underscore_mem_columnPair h
    · exact huser h

lemma underscore_mem_of_registered {path : String}
    (h : OpenStep.registered path ∈ openSteps catalog) : '_' ∈ path.toList := by
  simp only [openSteps, mem_append, mem_flatMap] at h
  rcases h with (h | ⟨t, -, h⟩) | ⟨t, -, h⟩
  · simp at h
  · simp only [restoreNodeTable, mem_append, mem_map, mem_singleton,
      OpenStep.registered.injEq, exists_eq_right] at h
    rcases h with (h | h) | h
    · exact underscore_mem_createTable h
    · split at h <;> simp at h
    · rw [h]
      simp [String.toList_append]
  · simp only [restoreRelTable, mem_map, OpenStep.registered.injEq, exists_eq_right] at h
    exact underscore_mem_createTable h

/-- The overflow file of the string columns is in no database registered. -/
theorem not_registered_overflow (dbPath : String) (files : String → Option (List UInt8))
    (catalog : Catalog) (numPages : ℕ) :
    ¬ (restore dbPath files catalog).Registered ⟨"overflow.ltng", numPages⟩ := by
  have hall : ∀ id fh, (restore dbPath files catalog).fileHandles.lookup id = some fh →
      '_' ∈ fh.path.toList := by
    refine restore_invariant
      (I := fun sm => ∀ id fh, sm.fileHandles.lookup id = some fh → '_' ∈ fh.path.toList) ?_ ?_
    · intro id fh h
      cases h
    · intro sm h o ho id fh hlookup
      rcases lookup_step sm o hlookup with hold | ⟨path, rfl, -, hpath⟩
      · exact h id fh hold
      · exact hpath ▸ underscore_mem_of_registered ho
  intro hr
  obtain ⟨fh', hfh', hpath⟩ := registered_iff.1 hr
  have hmem := hall _ _ hfh'
  rw [hpath] at hmem
  change '_' ∈ "overflow.ltng".toList at hmem
  exact absurd hmem (by decide)

/-! ## Replaying -/

@[simp] lemma content_setContent (path path' : String) (bytes : List UInt8) :
    (sm.setContent path bytes).content path' = if path' = path then bytes else sm.content path' := by
  rw [content, setContent]
  by_cases h : path' = path
  · subst h
    simp
  · simp [h, content]

lemma applyPage_fileHandles (w : PageWrite) :
    (applyPage sm w).1.fileHandles = sm.fileHandles ∧ (applyPage sm w).1.dbPath = sm.dbPath := by
  rw [applyPage]
  split
  · exact ⟨rfl, rfl⟩
  · split <;> exact ⟨rfl, rfl⟩

lemma applyAll_fileHandles (ws : List PageWrite) :
    (applyAll applyPage sm ws).fileHandles = sm.fileHandles ∧
      (applyAll applyPage sm ws).dbPath = sm.dbPath := by
  induction ws generalizing sm with
  | nil => exact ⟨rfl, rfl⟩
  | cons w ws ih =>
    obtain ⟨h₁, h₂⟩ := ih (applyPage sm w).1
    obtain ⟨h₃, h₄⟩ := applyPage_fileHandles sm w
    exact ⟨h₁.trans h₃, h₂.trans h₄⟩

def pageOf (sm : StorageManager) (fh : OpenFile) (pageIdx : ℕ) : List UInt8 :=
  readAt (sm.content fh.path) (pageIdx * pageSize) pageSize

/-- One image: it reaches a page just if the page's file is registered under the image's id. -/
lemma pageOf_applyPage (hreg : sm.RegistryOk) {w : PageWrite} (hw : w.data.length = pageSize)
    (fh : OpenFile) (pageIdx : ℕ) : (applyPage sm w).1.pageOf fh pageIdx =
      if sm.Registered fh ∧ (w.fileId, w.pageIdx) = (fileId sm.dbPath fh.path, pageIdx) then w.data
      else sm.pageOf fh pageIdx := by
  rw [applyPage, if_neg (not_not.2 hw)]
  cases hlookup : sm.fileHandles.lookup w.fileId with
  | none =>
    rw [if_neg]
    rintro ⟨hr, hk⟩
    obtain ⟨fh', hfh', -⟩ := registered_iff.1 hr
    rw [← (Prod.mk.inj hk).1, hlookup] at hfh'
    cases hfh'
  | some fh' =>
    have hid := hreg _ _ hlookup
    rw [pageOf, content_setContent]
    by_cases hpath : fh.path = fh'.path
    · have hr : sm.Registered fh := registered_iff.2 ⟨fh', by rw [hpath, hid, hlookup], hpath.symm⟩
      rw [if_pos hpath, ← hpath]
      by_cases hidx : w.pageIdx = pageIdx
      · rw [if_pos ⟨hr, by rw [hpath, hid, hidx]⟩, hidx, ← hw, readAt_writeAt_self]
      · rw [if_neg (by simp [hidx]), readAt_writeAt_of_disjoint, pageOf]
        rw [hw, pageSize]
        omega
    · rw [if_neg hpath, if_neg]
      · rfl
      · rintro ⟨hr, hk⟩
        obtain ⟨fh'', hfh'', hpath'⟩ := registered_iff.1 hr
        rw [← (Prod.mk.inj hk).1, hlookup, Option.some.injEq] at hfh''
        exact hpath (hfh'' ▸ hpath'.symm)

/-- All images: the last one of the page decides, if the file is registered. -/
lemma pageOf_applyAll (hreg : sm.RegistryOk) {ws : List PageWrite}
    (hws : ∀ w ∈ ws, w.data.length = pageSize) (fh : OpenFile) (pageIdx : ℕ) :
    (applyAll applyPage sm ws).pageOf fh pageIdx =
      if sm.Registered fh then
        (lastImage (fileId sm.dbPath fh.path, pageIdx) ws).getD (sm.pageOf fh pageIdx)
      else sm.pageOf fh pageIdx := by
  induction ws using reverseRecOn with
  | nil => rw [lastImage_nil, Option.getD_none, ite_self]; rfl
  | append_singleton ws w ih =>
    have hws' := fun w' hw' => hws w' (mem_append_left _ hw')
    obtain ⟨hhandles, hpath⟩ := applyAll_fileHandles sm ws
    have hreg' : (applyAll applyPage sm ws).RegistryOk := by
      intro id fh' h
      rw [hhandles] at h
      rw [hpath]
      exact hreg id fh' h
    have hregistered : (applyAll applyPage sm ws).Registered fh ↔ sm.Registered fh := by
      rw [Registered, Registered, hhandles, hpath]
    rw [applyAll_append]
    change (applyPage (applyAll applyPage sm ws) w).1.pageOf fh pageIdx = _
    rw [pageOf_applyPage _ hreg' (hws w (by simp)), ih hws', hpath, lastImage_concat]
    simp only [hregistered]
    by_cases hr : sm.Registered fh
    · by_cases hk : (w.fileId, w.pageIdx) = (fileId sm.dbPath fh.path, pageIdx)
      · rw [if_pos ⟨hr, hk⟩, if_pos hr, if_pos hk, Option.getD_some]
      · rw [if_neg fun h => hk h.2, if_pos hr, if_pos hr, if_neg hk]
    · rw [if_neg fun h => hr h.1, if_neg hr, if_neg hr]

/-! ## Opening again -/

section Reopening

variable {dbPath : String} {files : String → Option (List UInt8)} (sm : StorageManager)

lemma isSome_setContent {path path' : String} {bytes : List UInt8}
    (h : (sm.files path).isSome) : ((sm.setContent path' bytes).files path).isSome := by
  rw [setContent]
  by_cases hp : path = path' <;> simp [hp, h]

/-- An opening makes the file of an index, and takes no file away. -/
lemma isSome_step (o : OpenStep) {path : String} (h : o = .index path ∨ (sm.files path).isSome) :
    ((sm.step o).files path).isSome := by
  cases o with
  | plain | registered => exact sm.isSome_setContent (h.resolve_left nofun)
  | index p =>
    rw [step, createIndex]
    split
    next hp => exact sm.isSome_setContent (h.elim (fun h => OpenStep.index.inj h ▸ hp) id)
    · rcases h with h | h
      · cases h
        simp [setContent]
      · exact sm.isSome_setContent h

lemma isSome_restore {path : String} (h : .index path ∈ openSteps catalog) :
    ((restore dbPath files catalog).files path).isSome := by
  obtain ⟨before, after, heq⟩ := append_of_mem h
  rw [restore, heq, foldl_append, foldl_cons]
  have hfile := isSome_step (before.foldl step ⟨dbPath, files, ∅, []⟩) (.index path) (.inl rfl)
  generalize step _ _ = sm at hfile
  clear heq
  induction after generalizing sm with
  | nil => exact hfile
  | cons o after ih => exact ih _ (sm.isSome_step o (.inr hfile))

lemma isSome_applyAll {path : String} (ws : List PageWrite) (h : (sm.files path).isSome) :
    ((applyAll applyPage sm ws).files path).isSome := by
  induction ws generalizing sm with
  | nil => exact h
  | cons w ws ih =>
    refine ih (applyPage sm w).1 ?_
    rw [applyPage]
    split
    · exact h
    · split
      · exact sm.isSome_setContent h
      · exact h

/-- The files are as given, but for zeros at their ends. -/
def Pads (files : String → Option (List UInt8)) (sm : StorageManager) : Prop :=
  ∀ path, ∃ n, sm.content path = (files path).getD [] ++ replicate n 0

lemma Pads.openFile (h : sm.Pads files) (path : String) : (sm.openFile path).2.Pads files := by
  intro path'
  obtain ⟨n, hn⟩ := h path'
  rw [StorageManager.openFile, content_setContent]
  split
  next hp =>
    rw [← hp, hn, append_assoc, ← replicate_add]
    exact ⟨_, rfl⟩
  · exact ⟨n, hn⟩

lemma Pads.pageOf {sm' : StorageManager} (h : sm'.Pads sm.files) (fh : OpenFile) (pageIdx : ℕ) :
    sm'.pageOf fh pageIdx = sm.pageOf fh pageIdx := by
  obtain ⟨n, hn⟩ := h fh.path
  simp only [StorageManager.pageOf, readAt_eq_map, hn, getD_append_replicate]
  rfl

/-- Files that have been opened before are only padded. -/
lemma pads_restore (h : ∀ path, .index path ∈ openSteps catalog → (files path).isSome) :
    (restore dbPath files catalog).Pads files := by
  refine (restore_invariant (I := fun sm => sm.Pads files ∧
    ∀ path, (files path).isSome → (sm.files path).isSome) ?_ ?_).1
  · exact ⟨fun path => ⟨0, (append_nil _).symm⟩, fun _ => id⟩
  · rintro sm ⟨hpads, hsome⟩ o ho
    refine ⟨?_, fun path hp => sm.isSome_step o (.inr (hsome path hp))⟩
    cases o with
    | plain p | registered p => exact hpads.openFile sm p
    | index p =>
      rw [step, createIndex, if_pos (hsome p (h p ho))]
      exact hpads.openFile sm p

/-- A directory is reopened in which a replay has written. -/
lemma pageOf_reopened (ws : List PageWrite) (fh : OpenFile) (pageIdx : ℕ) :
    (restore dbPath (applyAll applyPage (restore dbPath files catalog) ws).files catalog).pageOf
        fh pageIdx = (applyAll applyPage (restore dbPath files catalog) ws).pageOf fh pageIdx :=
  (pads_restore fun _ hp => isSome_applyAll _ ws (isSome_restore hp)).pageOf _ fh pageIdx

/-- Which files are registered does not depend on what is in them. -/
lemma registered_restore_iff (files' : String → Option (List UInt8)) (fh : OpenFile) :
    (restore dbPath files catalog).Registered fh ↔
      (restore dbPath files' catalog).Registered fh := by
  obtain ⟨-, hids⟩ : _ ∧ ∀ id, _ := foldl_rel (l := openSteps catalog) (f := step) (g := step)
    (a := ⟨dbPath, files, ∅, []⟩) (b := ⟨dbPath, files', ∅, []⟩)
    (r := fun sm sm' => sm.dbPath = sm'.dbPath ∧ ∀ id,
      (sm.fileHandles.lookup id).map OpenFile.path = (sm'.fileHandles.lookup id).map OpenFile.path)
    ⟨rfl, fun _ => rfl⟩ (by
      rintro o - sm sm' ⟨hpath, hids⟩
      refine ⟨by rw [dbPath_step, dbPath_step, hpath], fun id => ?_⟩
      cases o with
      | plain p => exact hids id
      | registered p =>
        simp only [step, openRegistered, openFile, setContent, FinMap.lookup_insert_eq_ite, hpath]
        split
        · rfl
        · exact hids id
      | index p =>
        simp only [step, createIndex]
        split <;> split <;> exact hids id)
  have hid := congrArg (Option.any fun p => p = fh.path) (hids (fileId dbPath fh.path))
  rw [Option.any_map, Option.any_map] at hid
  rw [Registered, Registered, dbPath_restore, dbPath_restore]
  exact Iff.of_eq (congrArg (· = true) hid)

end Reopening

end StorageManager

/-! ## Recovery -/

lemma length_of_mem_replayed (calls : List WalCall) (c k : ℕ) {w : PageWrite}
    (hw : w ∈ (replayed c ((layout calls).inside (walHeaderSize + k))).map Prod.snd) :
    w.data.length = pageSize := by
  obtain ⟨⟨t, w⟩, hx, rfl⟩ := mem_map.1 hw
  have hmem := ((layout calls).inside_prefix_written k).subset (mem_replayed_iff.1 hx).2
  obtain ⟨i, hi, hrec⟩ := mem_filterMap.1 hmem
  cases i with
  | record r =>
    cases hrec
    exact ((run_refines (fun _ => 0) calls).itemsValid _ hi).2.2.2
  | padding n => cases hrec

lemma lastImage_take {key : ℕ × ℕ} {ws : List PageWrite} (h : lastImage key ws = none) (n : ℕ) :
    lastImage key (ws.take n) = none := by
  simp only [lastImage, Option.map_eq_none_iff, find?_eq_none, mem_reverse] at h ⊢
  exact fun w hw => h w (mem_of_mem_take hw)

variable (crc : Checksum) (dbPath : String) (files : String → Option (List UInt8))
  (catalog : Catalog) (calls : List WalCall) (k c : ℕ) (fh : OpenFile) (pageIdx : ℕ)

open StorageManager

/-- What a fresh transaction reads after a recovery from the header and `k` further bytes of a
log. -/
lemma pinPage_databaseNew : (databaseNew crc dbPath files catalog
        ((WAL.logged crc calls).file.bytes.take (walHeaderSize + k)) c).pinPage fh pageIdx =
      if pageIdx < fh.numPages then
        if (restore dbPath files catalog).Registered fh then
          (lastImage (fileId dbPath fh.path, pageIdx)
            ((replayed c ((layout calls).inside (walHeaderSize + k))).map Prod.snd)).getD
            ((restore dbPath files catalog).pageOf fh pageIdx)
        else (restore dbPath files catalog).pageOf fh pageIdx
      else replicate pageSize 0 := by
  have hpages := pageOf_applyAll _ (registryOk_restore dbPath files catalog)
    (fun w hw => length_of_mem_replayed calls c k hw) fh pageIdx
  rw [dbPath_restore] at hpages
  rw [databaseNew, replay_run_take, pinPage]
  split
  · exact hpages
  · rfl

/-- **Recovery.**  After `Database::new` a fresh transaction reads the last committed image of a page
above the watermark just if the page is within the file as it was opened and the file is registered
under its id, or the bytes happen to agree: those on disk, or zeros past the page count. -/
theorem recovery_completeness {d : List UInt8} (hlast : lastImage (fileId dbPath fh.path, pageIdx)
      ((replayed c ((layout calls).inside (walHeaderSize + k))).map Prod.snd) = some d) :
    (databaseNew crc dbPath files catalog
        ((WAL.logged crc calls).file.bytes.take (walHeaderSize + k)) c).pinPage fh pageIdx = d ↔
      pageIdx < fh.numPages ∧ ((restore dbPath files catalog).Registered fh ∨
          (restore dbPath files catalog).pageOf fh pageIdx = d) ∨
        fh.numPages ≤ pageIdx ∧ d = replicate pageSize 0 := by
  rw [pinPage_databaseNew, hlast]
  by_cases hpage : pageIdx < fh.numPages
  · by_cases hr : (restore dbPath files catalog).Registered fh
    · simp [hpage, hr]
    · simp [hpage, hr]
  · simp [hpage, not_lt.1 hpage, eq_comm]

/-- The files after a crash in the replay, with `n` images applied. -/
def crashInReplay (n : ℕ) : String → Option (List UInt8) :=
  (applyAll applyPage (restore dbPath files catalog)
    (((replayed c ((layout calls).inside (walHeaderSize + k))).map Prod.snd).take n)).files

/-- **A crash in the recovery.**  After a crash anywhere in the replay, the next `Database::new`
leaves every page of every file as one without the crash does. -/
theorem recovery_after_crash (n : ℕ) :
    (databaseNew crc dbPath (crashInReplay dbPath files catalog calls k c n) catalog
        ((WAL.logged crc calls).file.bytes.take (walHeaderSize + k)) c).pageOf fh pageIdx =
      (databaseNew crc dbPath files catalog
        ((WAL.logged crc calls).file.bytes.take (walHeaderSize + k)) c).pageOf fh pageIdx := by
  have hws := fun w => length_of_mem_replayed calls c k (w := w)
  have hreg := registryOk_restore dbPath files catalog
  rw [databaseNew, databaseNew, replay_run_take, replay_run_take, crashInReplay,
    pageOf_applyAll _ (registryOk_restore _ _ _) hws, pageOf_applyAll _ hreg hws,
    pageOf_reopened, pageOf_applyAll _ hreg fun w hw => hws w (mem_of_mem_take hw)]
  simp only [dbPath_restore, registered_restore_iff files]
  by_cases hr : (restore dbPath files catalog).Registered fh
  · cases hlast : lastImage (fileId dbPath fh.path, pageIdx)
        ((replayed c ((layout calls).inside (walHeaderSize + k))).map Prod.snd) with
    | some d => simp [hr]
    | none => simp [hr, lastImage_take hlast n]
  · simp [hr]

/-! ## A database with one table -/

def oneTable : Catalog := ⟨[⟨"t", [("s", .string)], none⟩], []⟩

variable (path : String)

/-- Transaction 1 logs an image of the first page of a file and commits. -/
def updateFirstPage (page : Page) : List WalCall :=
  [.logPageUpdate 1 (fnv1aHash64 (encodedBytes ("db" ++ "/" ++ path))) 0 page, .logCommit 1]

lemma lastImage_updateFirstPage (page : Page) :
    lastImage (fileId "db" path, 0) ((replayed 0
      ((layout (updateFirstPage path page)).inside (walHeaderSize + 8192))).map Prod.snd) =
      some page.bytes := by
  have hinside : (layout (updateFirstPage path page)).inside (walHeaderSize + 8192) =
      [.pageUpdate 1 ⟨fileId "db" path, 0, page.bytes⟩, .commit 1] := rfl
  rw [hinside]
  simp [replayed, replayedFrom, emit, updatesOf, lastImage]

/-- The file has one page of zeros. -/
def onePage : String → Option (List UInt8) := fun path' =>
  if path' = path then some zero.bytes else none

/-- The data file of the column is registered, and its page comes back. -/
theorem recovery_completeness_column :
    (restore "db" (onePage "t_s.ltng") oneTable).opened.any (· = ⟨"t_s.ltng", 1⟩) = true ∧
    (databaseNew (fun _ => 0) "db" (onePage "t_s.ltng") oneTable
      ((WAL.logged (fun _ => 0) (updateFirstPage "t_s.ltng" (fill 7))).file.bytes.take
        (walHeaderSize + 8192)) 0).pinPage ⟨"t_s.ltng", 1⟩ 0 = (fill 7).bytes := by
  have hr : (restore "db" (onePage "t_s.ltng") oneTable).Registered ⟨"t_s.ltng", 1⟩ := by
    decide +kernel
  refine ⟨by decide +kernel, ?_⟩
  rw [recovery_completeness (fun _ => 0) "db" (onePage "t_s.ltng") oneTable
    (updateFirstPage "t_s.ltng" (fill 7)) 8192 0 ⟨"t_s.ltng", 1⟩ 0
    (lastImage_updateFirstPage "t_s.ltng" (fill 7))]
  exact .inl ⟨Nat.one_pos, .inl hr⟩

/-- A page of the overflow file, and the first page of a column whose file is empty on disk: the log
has a committed image of them, and what is read begins with a zero. -/
theorem recovery_loses_pages :
    ((restore "db" (onePage "overflow.ltng") oneTable).opened.any (· = ⟨"overflow.ltng", 1⟩) = true ∧
      (databaseNew (fun _ => 0) "db" (onePage "overflow.ltng") oneTable
        ((WAL.logged (fun _ => 0) (updateFirstPage "overflow.ltng" (fill 7))).file.bytes.take
          (walHeaderSize + 8192)) 0).pinPage ⟨"overflow.ltng", 1⟩ 0 ≠ (fill 7).bytes) ∧
    (restore "db" (fun _ => none) oneTable).opened.any (· = ⟨"t_s.ltng", 0⟩) = true ∧
      (databaseNew (fun _ => 0) "db" (fun _ => none) oneTable
        ((WAL.logged (fun _ => 0) (updateFirstPage "t_s.ltng" (fill 7))).file.bytes.take
          (walHeaderSize + 8192)) 0).pinPage ⟨"t_s.ltng", 0⟩ 0 ≠ (fill 7).bytes := by
  have hne : ∀ bytes : List UInt8, bytes.head? = some 0 → bytes ≠ (fill 7).bytes := by
    rintro bytes hzero rfl
    exact absurd hzero (by decide)
  refine ⟨⟨by decide +kernel, ?_⟩, by decide +kernel, ?_⟩
  · have hno := not_registered_overflow "db" (onePage "overflow.ltng") oneTable 1
    exact hne _ (by decide +kernel)
  · rw [pinPage_databaseNew, if_neg (lt_irrefl 0)]
    exact hne _ (by decide)

end LightningDB
