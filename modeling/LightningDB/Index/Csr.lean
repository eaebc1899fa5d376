import LightningDB.Query.Store
import LightningDB.Wal.Record

/-!
# The adjacency index on disk

`CSRIndex::build` writes two files: the offset table, with one `u64` for each node, and the targets of
the edges, ordered by source.  Both start with a header of 12 bytes, and the values follow without any
regard to pages.  A value is written through the pointer of the page that its first byte is on.

Since 12 is not a multiple of 8, one value in 512 begins 4 bytes before the end of its page, and half
of it is written behind the frame (`writeEntry_inside_iff`).
-/

namespace LightningDB

open Framework List

/-- The two files of an index. -/
inductive CsrFile where
  | offsets
  | adjacency
deriving DecidableEq

/-- A copy of bytes to an address in the frame of a page. -/
structure FrameWrite where
  file : CsrFile
  page : ℕ
  offset : ℕ
  bytes : List UInt8

/-- All bytes go to the frame of the page. -/
def FrameWrite.Inside (w : FrameWrite) : Prop := w.offset + w.bytes.length ≤ pageSize

instance (w : FrameWrite) : Decidable w.Inside := inferInstanceAs (Decidable (_ ≤ _))

/-- What a build asks for: memory, pages, and the order in which a `HashMap` gives its keys. -/
structure CsrIo where
  /-- `try_reserve_exact`. -/
  reserve : ℕ → Except LightningError Unit
  /-- `add_new_page`, as often as needed, and `create_new_version`. -/
  pin : CsrFile → ℕ → Except LightningError Page
  order : List ℕ → List ℕ
  order_perm : ∀ keys, (order keys).Perm keys

/-- What has been written, and how it ended. -/
structure CsrRun where
  writes : List FrameWrite
  result : Except LightningError Unit

namespace CsrRun

/-- The `?` operator. -/
def andThen (r next : CsrRun) : CsrRun :=
  match r.result with
  | .ok () => ⟨r.writes ++ next.writes, next.result⟩
  | .error _ => r

def onPage (pinned : Except LightningError Page) (writes : Page → List FrameWrite) : CsrRun :=
  match pinned with
  | .ok frame => ⟨writes frame, .ok ()⟩
  | .error e => ⟨[], .error e⟩

/-- One page after the other. -/
def forPages (pages : List ℕ) (body : ℕ → CsrRun) : CsrRun :=
  pages.foldr (fun page rest => (body page).andThen rest) ⟨[], .ok ()⟩

end CsrRun

open CsrRun

namespace CSRIndex

/-! ## The layout -/

/-- `CSR_HEADER_SIZE`. -/
def csrHeaderSize : ℕ := 12

/-- `MAX_CSR_NODES`. -/
def maxCsrNodes : ℕ := 2 ^ 27

/-- `CSR_VERSION`. -/
def csrVersion : UInt8 := 1

/-- `CSR_OFFSET_MAGIC` and `CSR_ADJ_MAGIC`, the bytes of `CSRO` and `CSRA`. -/
def magic : CsrFile → List UInt8
  | .offsets => [67, 83, 82, 79]
  | .adjacency => [67, 83, 82, 65]

/-- `checked_offset_slots`. -/
def checkedOffsetSlots (numNodes : ℕ) : Except LightningError ℕ :=
  let slots := numNodes + 2
  if u64Max < slots then
    .error (.internal s!"CSR build refused: node count {numNodes} overflows the offset table")
  else if maxCsrNodes < slots then
    .error (.internal (s!"CSR build refused: {numNodes} nodes exceeds the {maxCsrNodes}-node safety " ++
      s!"limit (offsets would need {slots} slots); the edge data likely contains a corrupt node id"))
  else .ok slots

/-- `csr_offset_byte`, which is also where the adjacency file has its values. -/
def csrOffsetByte (nodeId : ℕ) : ℕ := csrHeaderSize + nodeId * 8

/-- `write_csr_header`. -/
def writeCsrHeader (crc : Checksum) (buf : Page) (magic : List UInt8) : Page :=
  let buf := (buf.write 0 magic).write 4 [csrVersion]
  buf.write 8 (leBytes 4 (crc (buf.bytes.take 8)).toNat)

/-! ## The build -/

/-- The number of edges of each node, one slot further on. -/
def countSources (slots numNodes : ℕ) (edges : List (ℕ × ℕ)) : List ℕ :=
  edges.foldl (fun offsets e => if e.1 ≤ numNodes then offsets.modify (e.1 + 1) (· + 1) else offsets)
    (List.replicate slots 0)

/-- Each slot gets the sum of all before it added. -/
def accumulate : ℕ → List ℕ → List ℕ
  | _, [] => []
  | sum, n :: ns => (sum + n) :: accumulate (sum + n) ns

def offsetTable (slots numNodes : ℕ) (edges : List (ℕ × ℕ)) : List ℕ :=
  accumulate 0 (countSources slots numNodes edges)

/-- `sort_by_key` by source. -/
def sortEdges (edges : List (ℕ × ℕ)) : List (ℕ × ℕ) := edges.mergeSort fun e e' => e.1 ≤ e'.1

variable (io : CsrIo) (crc : Checksum) (file : CsrFile)

/-- The header, on the first page. -/
def writeHeader : CsrRun :=
  .onPage (io.pin file 0) fun frame =>
    [⟨file, 0, 0, (writeCsrHeader crc frame (magic file)).bytes⟩]

def entries (values : List ℕ) : List (ℕ × ℕ) :=
  values.zipIdx.map fun (v, i) => (csrOffsetByte i, v)

def writeEntry (e : ℕ × ℕ) : FrameWrite :=
  ⟨file, e.1 / pageSize, e.1 % pageSize, leBytes 8 e.2⟩

/-- All values of a file, page by page. -/
def writeValues (values : List ℕ) : CsrRun :=
  let pages := io.order ((entries values).map (·.1 / pageSize)).dedup
  .forPages pages fun page =>
    .onPage (io.pin file page) fun _ =>
      ((entries values).filter (·.1 / pageSize = page)).map (writeEntry file)

/-- `CSRIndex::build`. -/
def build (edges : List (ℕ × ℕ)) (numNodes : ℕ) : CsrRun :=
  match checkedOffsetSlots numNodes with
  | .error e => ⟨[], .error e⟩
  | .ok slots =>
    let sorted := sortEdges edges
    andThen ⟨[], io.reserve slots⟩
      ((writeHeader io crc .offsets).andThen
        ((writeValues io .offsets (offsetTable slots numNodes sorted)).andThen
          ((writeHeader io crc .adjacency).andThen
            (writeValues io .adjacency (sorted.map (·.2))))))

/-! ## Where the writes go -/

variable {io crc} {file : CsrFile} {edges : List (ℕ × ℕ)} {numNodes slots : ℕ}

/-- An entry stays inside its page unless it is the one across the end. -/
lemma writeEntry_inside_iff (i v : ℕ) :
    (writeEntry file (csrOffsetByte i, v)).Inside ↔ i % 512 ≠ 510 := by
  simp only [FrameWrite.Inside, writeEntry, csrOffsetByte, csrHeaderSize, length_leBytes, pageSize]
  omega

variable {w : FrameWrite} {values : List ℕ}

variable {r : CsrRun} {pages : List ℕ} {body : ℕ → CsrRun}

lemma mem_andThen {next : CsrRun} (h : w ∈ (r.andThen next).writes) :
    w ∈ r.writes ∨ w ∈ next.writes := by
  rw [andThen] at h
  split at h
  · exact mem_append.1 h
  · exact .inl h

lemma andThen_of_ok (h : r.result = .ok ()) (next : CsrRun) :
    r.andThen next = ⟨r.writes ++ next.writes, next.result⟩ := by
  rw [andThen, h]

lemma mem_forPages
    (h : w ∈ (forPages pages body).writes) : ∃ page ∈ pages, w ∈ (body page).writes := by
  induction pages with
  | nil => exact absurd h not_mem_nil
  | cons page pages ih =>
    rcases mem_andThen h with h | h
    · exact ⟨page, mem_cons_self, h⟩
    · obtain ⟨p, hp, hw⟩ := ih h
      exact ⟨p, mem_cons_of_mem _ hp, hw⟩

lemma forPages_of_ok (h : ∀ page, (body page).result = .ok ()) :
    forPages pages body = ⟨pages.flatMap fun page => (body page).writes, .ok ()⟩ := by
  induction pages with
  | nil => rfl
  | cons page pages ih =>
    rw [forPages, foldr_cons, ← forPages, ih, andThen_of_ok (h page), flatMap_cons]

lemma mem_entries {e : ℕ × ℕ} (h : e ∈ entries values) :
    ∃ i, i < values.length ∧ e.1 = csrOffsetByte i := by
  obtain ⟨⟨v, i⟩, hv, rfl⟩ := mem_map.1 h
  exact ⟨i, (mem_zipIdx hv).2.1.trans_eq (zero_add _), rfl⟩

lemma mem_writeValues (h : w ∈ (writeValues io file values).writes) :
    ∃ i v, i < values.length ∧ w = writeEntry file (csrOffsetByte i, v) := by
  obtain ⟨page, -, hw⟩ := mem_forPages h
  unfold onPage at hw
  split at hw
  · obtain ⟨e, he, rfl⟩ := mem_map.1 hw
    obtain ⟨i, hi, hbyte⟩ := mem_entries (mem_filter.1 he).1
    exact ⟨i, e.2, hi, by rw [← hbyte]⟩
  · exact absurd hw not_mem_nil

lemma writeHeader_inside (h : w ∈ (writeHeader io crc file).writes) : w.Inside := by
  unfold writeHeader onPage at h
  split at h
  · rw [mem_singleton.1 h, FrameWrite.Inside, Page.size, zero_add]
  · exact absurd h not_mem_nil

lemma writeValues_inside (hlength : values.length ≤ 510)
    (h : w ∈ (writeValues io file values).writes) : w.Inside := by
  obtain ⟨i, v, hi, rfl⟩ := mem_writeValues h
  rw [writeEntry_inside_iff]
  omega

/-- Nothing fails, and the keys come in the order they were entered. -/
def CsrIo.smooth : CsrIo where
  reserve _ := .ok ()
  pin _ _ := .ok .zero
  order := id
  order_perm _ := .refl _

lemma writeValues_smooth (file : CsrFile) (values : List ℕ) :
    (writeValues CsrIo.smooth file values).result = .ok () ∧
      ∀ e ∈ entries values, writeEntry file e ∈ (writeValues CsrIo.smooth file values).writes := by
  rw [writeValues]
  dsimp only [CsrIo.smooth, onPage, id]
  rw [forPages_of_ok fun _ => rfl]
  refine ⟨rfl, fun e he => ?_⟩
  simp only [mem_flatMap, mem_map, mem_filter, mem_dedup, decide_eq_true_eq]
  exact ⟨e.1 / pageSize, ⟨e, he, rfl⟩, e, ⟨he, rfl⟩, rfl⟩

lemma exists_writeEntry (file : CsrFile) {i : ℕ} (hi : i < values.length) :
    ∃ v, writeEntry file (csrOffsetByte i, v) ∈ (writeValues CsrIo.smooth file values).writes := by
  refine ⟨values[i], (writeValues_smooth file values).2 _ (mem_map.2 ⟨(values[i], i), ?_, rfl⟩)⟩
  exact mem_zipIdx_iff_getElem?.2 (getElem?_eq_getElem hi)

/-! ## Sizes -/

lemma checkedOffsetSlots_eq_ok (h : checkedOffsetSlots numNodes = .ok slots) : slots = numNodes + 2 := by
  rw [checkedOffsetSlots] at h
  split at h
  · cases h
  · split at h
    · cases h
    · exact (Except.ok.inj h).symm

lemma length_accumulate (sum : ℕ) (ns : List ℕ) : (accumulate sum ns).length = ns.length := by
  induction ns generalizing sum with
  | nil => rfl
  | cons n ns ih => rw [accumulate, length_cons, length_cons, ih]

lemma length_offsetTable (slots numNodes : ℕ) (edges : List (ℕ × ℕ)) :
    (offsetTable slots numNodes edges).length = slots := by
  rw [offsetTable, length_accumulate]
  refine foldlRecOn edges _ (motive := fun offsets : List ℕ => offsets.length = slots)
    length_replicate fun offsets h e _ => ?_
  split
  · rw [length_modify, h]
  · exact h

lemma length_targets (edges : List (ℕ × ℕ)) : ((sortEdges edges).map (·.2)).length = edges.length := by
  rw [length_map, sortEdges, length_mergeSort]

/-! ## The build -/

lemma mem_build (hslots : checkedOffsetSlots numNodes = .ok slots)
    (h : w ∈ (build io crc edges numNodes).writes) :
    (∃ file, w ∈ (writeHeader io crc file).writes) ∨
      w ∈ (writeValues io .offsets (offsetTable slots numNodes (sortEdges edges))).writes ∨
        w ∈ (writeValues io .adjacency ((sortEdges edges).map (·.2))).writes := by
  rw [build, hslots] at h
  rcases mem_andThen h with h | h
  · exact absurd h not_mem_nil
  rcases mem_andThen h with h | h
  · exact .inl ⟨_, h⟩
  rcases mem_andThen h with h | h
  · exact .inr (.inl h)
  rcases mem_andThen h with h | h
  · exact .inl ⟨_, h⟩
  · exact .inr (.inr h)

lemma build_smooth (crc : Checksum) (edges : List (ℕ × ℕ))
    (hslots : checkedOffsetSlots numNodes = .ok slots) :
    (∀ w ∈ (writeValues CsrIo.smooth .offsets (offsetTable slots numNodes (sortEdges edges))).writes,
        w ∈ (build CsrIo.smooth crc edges numNodes).writes) ∧
      ∀ w ∈ (writeValues CsrIo.smooth .adjacency ((sortEdges edges).map (·.2))).writes,
        w ∈ (build CsrIo.smooth crc edges numNodes).writes := by
  have hoffsets := (writeValues_smooth .offsets (offsetTable slots numNodes (sortEdges edges))).1
  have hheader : ∀ file, (writeHeader CsrIo.smooth crc file).result = .ok () := fun _ => rfl
  rw [build, hslots]
  dsimp only
  rw [andThen_of_ok rfl, andThen_of_ok (hheader .offsets), andThen_of_ok hoffsets,
    andThen_of_ok (hheader .adjacency)]
  constructor
  · intro w hw
    simp [hw]
  · intro w hw
    simp [hw]

end CSRIndex

open CSRIndex

/-- **Writes of a build.**  For a number of nodes that is accepted, every byte is written to the frame
of the page that was pinned for it, whatever else happens, exactly if there are at most 508 nodes and
510 edges. -/
theorem csr_writes_inside_iff {numNodes slots : ℕ} (hslots : checkedOffsetSlots numNodes = .ok slots)
    (crc : Checksum) (edges : List (ℕ × ℕ)) :
    (∀ io, ∀ w ∈ (build io crc edges numNodes).writes, w.Inside) ↔
      numNodes ≤ 508 ∧ edges.length ≤ 510 := by
  have hslots' := checkedOffsetSlots_eq_ok hslots
  constructor
  · intro h
    obtain ⟨hoffsets, htargets⟩ := build_smooth crc edges hslots
    have hshort : ∀ {file values}, (∀ w ∈ (writeValues CsrIo.smooth file values).writes, w.Inside) →
        values.length ≤ 510 := by
      intro file values hinside
      by_contra hlong
      obtain ⟨v, hv⟩ := exists_writeEntry file (Nat.lt_of_not_le hlong)
      exact (writeEntry_inside_iff 510 v).1 (hinside _ hv) rfl
    have hfirst := hshort fun w hw => h CsrIo.smooth w (hoffsets w hw)
    have hsecond := hshort fun w hw => h CsrIo.smooth w (htargets w hw)
    rw [length_offsetTable] at hfirst
    rw [length_targets] at hsecond
    exact ⟨by omega, hsecond⟩
  · rintro ⟨hnodes, hedges⟩ io w hw
    rcases mem_build hslots hw with ⟨file, hw⟩ | hw | hw
    · exact writeHeader_inside hw
    · exact writeValues_inside (by rw [length_offsetTable]; omega) hw
    · exact writeValues_inside (by rwa [length_targets]) hw

/-- A triangle. -/
theorem csr_writes_inside_triangle : checkedOffsetSlots 3 = .ok 5 ∧
      ∀ io, ∀ w ∈ (build io (fun _ => 0) [(0, 1), (1, 2), (2, 0)] 3).writes, w.Inside :=
  ⟨rfl, (csr_writes_inside_iff (rfl : checkedOffsetSlots 3 = .ok 5) _ _).2 (by decide)⟩

/-- Without a single edge, the table of 509 nodes is written beyond the end of its first page. -/
theorem csr_write_outside : checkedOffsetSlots 509 = .ok 511 ∧
      ∃ w ∈ (build CsrIo.smooth (fun _ => 0) [] 509).writes,
        w.page = 0 ∧ w.offset = 4092 ∧ w.bytes.length = 8 ∧ ¬ w.Inside := by
  have hslots : checkedOffsetSlots 509 = .ok 511 := rfl
  obtain ⟨v, hv⟩ := exists_writeEntry .offsets
    (by rw [length_offsetTable]; decide : 510 < (offsetTable 511 509 (sortEdges [])).length)
  have hpage : csrOffsetByte 510 / pageSize = 0 := by decide
  have hoffset : csrOffsetByte 510 % pageSize = 4092 := by decide
  refine ⟨hslots, _, (build_smooth _ _ hslots).1 _ hv, hpage, hoffset, length_leBytes 8 v, fun h => ?_⟩
  exact (writeEntry_inside_iff 510 v).1 h rfl

end LightningDB
