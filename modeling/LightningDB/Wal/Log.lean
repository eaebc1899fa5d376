import LightningDB.Wal.Record
import Mathlib.Data.Finset.Insert

/-!
# The log file and its writer

`WAL` is the open log: the file with its cursor, the group-commit buffer and the version read from
the header.  The operations are those of the source, over the bytes: `log_page_update` appends to
the buffer and flushes it at a size threshold, `flush_pending` and `log_commit` move the buffer to
the file and pad the file to a multiple of eight.

Above the bytes stands the layout of a log (`LogLayout`): the records and the paddings in the file,
in order, and the records still in the buffer.  `LogLayout.call` says what each operation does to
the layout, and `run_refines` that the bytes of a fresh log driven by any calls are the encoding of
its layout.  The records of the layout are the records of the calls, in the order of the calls
(`layout_records`).
-/

namespace LightningDB

open Framework List WALRecord

/-! ## Files with a cursor -/

/-- An open file: its content and the cursor. -/
structure LogFile where
  bytes : List UInt8
  pos : ℕ
deriving DecidableEq

namespace LogFile

variable (f : LogFile)

/-- `write_all` at the cursor; a gap before the cursor is filled with zeros. -/
def writeAll (buf : List UInt8) : LogFile where
  bytes := f.bytes.take f.pos ++ List.replicate (f.pos - f.bytes.length) 0 ++ buf ++
    f.bytes.drop (f.pos + buf.length)
  pos := f.pos + buf.length

/-- `set_len`. -/
def setLen (n : ℕ) : LogFile :=
  { f with bytes := f.bytes.take n ++ List.replicate (n - f.bytes.length) 0 }

/-- `seek(SeekFrom::Start(n))`. -/
def seek (n : ℕ) : LogFile := { f with pos := n }

/-- The cursor stands at the end of the file. -/
def AtEnd : Prop := f.pos = f.bytes.length

lemma writeAll_of_atEnd {f : LogFile} (h : f.AtEnd) (buf : List UInt8) :
    f.writeAll buf = { bytes := f.bytes ++ buf, pos := f.pos + buf.length } := by
  have hpos : f.pos = f.bytes.length := h
  have hdrop : f.bytes.drop (f.pos + buf.length) = [] := drop_eq_nil_of_le (by omega)
  have htake : f.bytes.take f.pos = f.bytes := take_of_length_le hpos.ge
  rw [writeAll, hdrop, htake, Nat.sub_eq_zero_of_le hpos.le, replicate_zero, append_nil, append_nil]

lemma atEnd_append {b buf : List UInt8} {n : ℕ} (h : LogFile.AtEnd ⟨b, n⟩) :
    LogFile.AtEnd ⟨b ++ buf, n + buf.length⟩ := by
  have hn : n = b.length := h
  change n + buf.length = (b ++ buf).length
  rw [length_append, hn]

end LogFile

open LogFile

/-! ## The log and its operations -/

/-- The open log. -/
structure WAL where
  file : LogFile
  committedTxs : Finset ℕ
  pendingBuf : List UInt8
  walVersion : UInt8

/-- `align_position`: the number of zero bytes that bring the cursor to a multiple of eight. -/
def alignPadding (pos : ℕ) : ℕ := (walAlignment - pos % walAlignment) % walAlignment

variable (f : LogFile)

/-- `align_position`. -/
def LogFile.alignPosition : LogFile :=
  if 0 < alignPadding f.pos then f.writeAll (List.replicate (alignPadding f.pos) 0) else f

/-- `write_header`. -/
def LogFile.writeHeader : LogFile := (f.writeAll walMagic).writeAll [walVersion2]

/-- `validate_header`: the version of a good header, and the cursor behind it. -/
def LogFile.validateHeader : Option (UInt8 × LogFile) :=
  match readExact 4 (f.bytes.drop f.pos) with
  | none => none
  | some (magic, rest) =>
    match rest with
    | [] => none
    | version :: _ =>
      if magic ≠ walMagic then none
      else if version = walVersion1 ∨ version = walVersion2 then some (version, f.seek (f.pos + 5))
      else none

variable (crc : Checksum)

namespace WAL

/-- `WAL::new` over the bytes of `wal.ltng`, none of which exist yet in a new database.  An empty,
truncated or unreadable header is replaced by a fresh version-2 one. -/
def new (bytes : List UInt8) : WAL :=
  let opened : LogFile := { bytes := bytes, pos := 0 }
  let fresh : WAL :=
    { file := ((opened.setLen 0).seek 0).writeHeader
      committedTxs := ∅
      pendingBuf := []
      walVersion := walVersion2 }
  if bytes.length = 0 then { fresh with file := opened.writeHeader }
  else if bytes.length < walHeaderSize then fresh
  else
    match opened.validateHeader with
    | some (version, file) => { fresh with file := file, walVersion := version }
    | none => fresh

variable (wal : WAL)

/-- `flush_pending`. -/
def flushPending : WAL :=
  if wal.pendingBuf = [] then wal
  else { wal with file := (wal.file.writeAll wal.pendingBuf).alignPosition, pendingBuf := [] }

/-- `log_page_update`. -/
def logPageUpdate (txId : ℕ) (w : PageWrite) : WAL :=
  let wal := { wal with pendingBuf := wal.pendingBuf ++ (pageUpdate txId w).encode crc }
  if walPendingFlushBytes ≤ wal.pendingBuf.length then wal.flushPending else wal

/-- `log_commit`. -/
def logCommit (txId : ℕ) : WAL :=
  let commitRecord := wal.pendingBuf ++ (commit txId).encode crc
  { wal with
    file := (wal.file.writeAll commitRecord).alignPosition
    pendingBuf := []
    committedTxs := insert txId wal.committedTxs }

/-- `truncate`: only the header stays in the file.  The buffer is not touched. -/
def truncate : WAL :=
  { wal with file := ((wal.file.setLen 0).seek 0).writeHeader, committedTxs := ∅ }

end WAL

/-- A call of one of the three logging operations, with arguments of the source's types. -/
inductive WalCall where
  | logPageUpdate (txId fileId pageIdx : UInt64) (data : Page)
  | flushPending
  | logCommit (txId : UInt64)

namespace WalCall

def record? : WalCall → Option WALRecord
  | logPageUpdate t f p d => some (.pageUpdate t.toNat ⟨f.toNat, p.toNat, d.bytes⟩)
  | flushPending => none
  | logCommit t => some (.commit t.toNat)

lemma record?_valid {call : WalCall} {r : WALRecord} (h : call.record? = some r) : r.Valid := by
  cases call with
  | logPageUpdate t f p d =>
    cases h
    exact ⟨t.toNat_lt, f.toNat_lt, p.toNat_lt, d.size⟩
  | flushPending => cases h
  | logCommit t =>
    cases h
    exact t.toNat_lt

end WalCall

def records (calls : List WalCall) : List WALRecord := calls.filterMap WalCall.record?

namespace WAL

def call (wal : WAL) : WalCall → WAL
  | .logPageUpdate t f p d => wal.logPageUpdate crc t.toNat ⟨f.toNat, p.toNat, d.bytes⟩
  | .flushPending => wal.flushPending
  | .logCommit t => wal.logCommit crc t.toNat

def run (wal : WAL) (calls : List WalCall) : WAL := calls.foldl (call crc) wal

/-- A freshly created log after the calls. -/
def logged (calls : List WalCall) : WAL := (new []).run crc calls

end WAL

/-! ## The layout of a log -/

/-- A piece of the file behind the header. -/
inductive LogItem where
  | record (r : WALRecord)
  | padding (n : ℕ)

namespace LogItem

def encode (crc : Checksum) : LogItem → List UInt8
  | record r => r.encode crc
  | padding n => List.replicate n 0

def record? : LogItem → Option WALRecord
  | record r => some r
  | padding _ => none

/-- The number of bytes of an item that holds a valid record. -/
def size : LogItem → ℕ
  | record r => r.encodedSize
  | padding n => n

/-- The item holds no invalid record. -/
def Valid : LogItem → Prop
  | record r => r.Valid
  | padding _ => True

lemma length_encode (crc : Checksum) {i : LogItem} (h : i.Valid) :
    (i.encode crc).length = i.size := by
  cases i with
  | record r => exact LightningDB.length_encode crc h
  | padding n => exact length_replicate

end LogItem

def encodeItems (crc : Checksum) (items : List LogItem) : List UInt8 :=
  items.flatMap (LogItem.encode crc)

lemma length_encodeItems (crc : Checksum) {items : List LogItem} (h : ∀ i ∈ items, i.Valid) :
    (encodeItems crc items).length = (items.map LogItem.size).sum := by
  induction items with
  | nil => rfl
  | cons i items ih =>
    rw [forall_mem_cons] at h
    rw [encodeItems, flatMap_cons, length_append, LogItem.length_encode crc h.1,
      map_cons, sum_cons, ← ih h.2, encodeItems]

/-- The header and the items behind it. -/
def walHeader : List UInt8 := walMagic ++ [walVersion2]

/-- The layout of a log: the file's items behind the header, and the records in the buffer. -/
structure LogLayout where
  items : List LogItem
  buffered : List WALRecord

namespace LogLayout

def empty : LogLayout := ⟨[], []⟩

variable (L : LogLayout)

def fileSize : ℕ := walHeaderSize + (L.items.map LogItem.size).sum

def written : List WALRecord := L.items.filterMap LogItem.record?

/-- Append the records to the file and pad it. -/
def append (rs : List WALRecord) : LogLayout where
  items := L.items ++ rs.map .record ++
    [.padding (alignPadding (L.fileSize + (rs.map encodedSize).sum))]
  buffered := []

def call : WalCall → LogLayout
  | .logPageUpdate t f p d =>
      let buffered := L.buffered ++ [.pageUpdate t.toNat ⟨f.toNat, p.toNat, d.bytes⟩]
      if walPendingFlushBytes ≤ (buffered.map encodedSize).sum then L.append buffered
      else { L with buffered := buffered }
  | .flushPending => if L.buffered = [] then L else L.append L.buffered
  | .logCommit t => L.append (L.buffered ++ [.commit t.toNat])

end LogLayout

/-- The layout a sequence of calls leaves of a fresh log. -/
def layout (calls : List WalCall) : LogLayout := calls.foldl LogLayout.call .empty

/-! ## The bytes are the encoding of the layout -/

section Refines

/-- The log holds exactly the layout: its file is the header and the encoded items with the cursor
at the end, its buffer the encoded buffered records. -/
structure WAL.Refines (wal : WAL) (L : LogLayout) : Prop where
  bytes : wal.file.bytes = walHeader ++ encodeItems crc L.items
  atEnd : wal.file.AtEnd
  pending : wal.pendingBuf = encodeItems crc (L.buffered.map .record)
  version : wal.walVersion = walVersion2
  itemsValid : ∀ i ∈ L.items, i.Valid
  bufferedValid : ∀ r ∈ L.buffered, r.Valid

variable {crc} {wal : WAL} {L : LogLayout}

lemma encodeItems_append (is js : List LogItem) :
    encodeItems crc (is ++ js) = encodeItems crc is ++ encodeItems crc js :=
  flatMap_append

lemma encodeItems_eq_nil_iff (rs : List WALRecord) :
    encodeItems crc (rs.map .record) = [] ↔ rs = [] := by
  cases rs with
  | nil => simp [encodeItems]
  | cons r rs => simp [encodeItems, LogItem.encode, encode]

variable {rs : List WALRecord} {f : LogFile}

lemma length_encodeItems_records (h : ∀ r ∈ rs, r.Valid) :
    (encodeItems crc (rs.map .record)).length = (rs.map encodedSize).sum := by
  rw [length_encodeItems crc (by simpa [LogItem.Valid] using h), map_map]
  rfl

lemma WAL.Refines.pos (h : wal.Refines crc L) : wal.file.pos = L.fileSize := by
  have hend : wal.file.pos = wal.file.bytes.length := h.atEnd
  rw [hend, h.bytes, length_append, length_encodeItems crc h.itemsValid]
  rfl

lemma file_truncate (wal : WAL) : wal.truncate.file = ⟨walHeader, walHeaderSize⟩ := by
  rw [WAL.truncate, writeHeader, setLen, Nat.zero_sub]
  rfl

lemma WAL.Refines.truncate (h : wal.Refines crc L) : wal.truncate.Refines crc ⟨[], L.buffered⟩ := by
  have hfile := file_truncate wal
  refine ⟨?_, ?_, h.pending, h.version, ?_, h.bufferedValid⟩
  · rw [hfile]
    rfl
  · rw [hfile]
    rfl
  · intro i hi
    cases hi

/-- `align_position` writes its padding, also when that is empty. -/
lemma LogFile.alignPosition_of_atEnd (h : f.AtEnd) : f.alignPosition =
      { bytes := f.bytes ++ replicate (alignPadding f.pos) 0
        pos := f.pos + alignPadding f.pos } := by
  rw [alignPosition]
  split
  · rw [writeAll_of_atEnd h, length_replicate]
  next hpad => rw [Nat.eq_zero_of_not_pos hpad, replicate_zero, append_nil, add_zero]

lemma LogFile.alignPosition_atEnd (h : f.AtEnd) : f.alignPosition.AtEnd := by
  have hpos : f.pos = f.bytes.length := h
  rw [alignPosition_of_atEnd h]
  change f.pos + _ = (f.bytes ++ replicate _ _).length
  rw [length_append, length_replicate, hpos]

/-- Writing records and padding the file appends them to the layout. -/
lemma WAL.Refines.append (h : wal.Refines crc L) (hrs : ∀ r ∈ rs, r.Valid) {c : Finset ℕ} :
    WAL.Refines crc
      { wal with
        file := (wal.file.writeAll (encodeItems crc (rs.map .record))).alignPosition
        pendingBuf := []
        committedTxs := c }
      (L.append rs) := by
  have hwrite := writeAll_of_atEnd h.atEnd (encodeItems crc (rs.map .record))
  have hend : (wal.file.writeAll (encodeItems crc (rs.map .record))).AtEnd := by
    rw [hwrite]
    exact atEnd_append h.atEnd
  have halign := alignPosition_of_atEnd hend
  have hpos : (wal.file.writeAll (encodeItems crc (rs.map .record))).pos =
      L.fileSize + (rs.map encodedSize).sum := by
    rw [hwrite, ← length_encodeItems_records hrs, ← h.pos]
  constructor
  · rw [halign, hpos, hwrite, h.bytes, LogLayout.append, encodeItems_append, encodeItems_append]
    simp only [encodeItems, flatMap_cons, flatMap_nil, LogItem.encode, append_nil, append_assoc]
  · exact alignPosition_atEnd hend
  · rfl
  · exact h.version
  · intro i hi
    simp only [LogLayout.append, mem_append, mem_map, mem_singleton] at hi
    rcases hi with (hi | ⟨r, hr, rfl⟩) | rfl
    · exact h.itemsValid i hi
    · exact hrs r hr
    · trivial
  · intro r hr
    cases hr

lemma WAL.Refines.flushPending (h : wal.Refines crc L) :
    wal.flushPending.Refines crc (if L.buffered = [] then L else L.append L.buffered) := by
  rw [WAL.flushPending, h.pending]
  by_cases hb : L.buffered = []
  · rw [if_pos ((encodeItems_eq_nil_iff _).2 hb), if_pos hb]
    exact h
  · rw [if_neg (mt (encodeItems_eq_nil_iff _).1 hb), if_neg hb]
    exact h.append h.bufferedValid

lemma WAL.Refines.push (h : wal.Refines crc L) {r : WALRecord} (hr : r.Valid) :
    (∀ r' ∈ L.buffered ++ [r], r'.Valid) ∧
      wal.pendingBuf ++ r.encode crc = encodeItems crc ((L.buffered ++ [r]).map .record) := by
  constructor
  · exact forall_mem_append.2 ⟨h.bufferedValid, forall_mem_singleton.2 hr⟩
  · rw [h.pending]
    simp [encodeItems, LogItem.encode]

lemma WAL.Refines.call (h : wal.Refines crc L) (c : WalCall) :
    (wal.call crc c).Refines crc (L.call c) := by
  cases hc : c with
  | logPageUpdate t f p d =>
    have hr : (pageUpdate t.toNat ⟨f.toNat, p.toNat, d.bytes⟩).Valid :=
      WalCall.record?_valid (congrArg WalCall.record? hc)
    rw [WAL.call, WAL.logPageUpdate, LogLayout.call]
    generalize pageUpdate t.toNat ⟨f.toNat, p.toNat, d.bytes⟩ = r at hr
    obtain ⟨hbuf, hpending⟩ := h.push hr
    -- the log and the layout with the record in the buffer
    have h' : WAL.Refines crc { wal with pendingBuf := wal.pendingBuf ++ r.encode crc }
        { L with buffered := L.buffered ++ [r] } :=
      ⟨h.bytes, h.atEnd, hpending, h.version, h.itemsValid, hbuf⟩
    rw [hpending, length_encodeItems_records hbuf, ← hpending]
    split
    · have hflush := h'.flushPending
      rw [if_neg (by simp)] at hflush
      exact hflush
    · exact h'
  | flushPending => exact h.flushPending
  | logCommit t =>
    have hr : (commit t.toNat).Valid :=
      WalCall.record?_valid (congrArg WalCall.record? hc)
    obtain ⟨hbuf, hpending⟩ := h.push hr
    rw [WAL.call, WAL.logCommit, hpending]
    exact h.append hbuf

/-- **The bytes of a log are its layout.**  Whatever the calls, the file of a log that starts fresh
is the header followed by the items of the layout, and its buffer holds the rest. -/
theorem run_refines (crc : Checksum) (calls : List WalCall) :
    (WAL.logged crc calls).Refines crc (layout calls) := by
  have hrun : ∀ (calls : List WalCall) (wal : WAL) (L : LogLayout), wal.Refines crc L →
      (wal.run crc calls).Refines crc (calls.foldl LogLayout.call L) := by
    intro calls
    induction calls with
    | nil => exact fun _ _ h => h
    | cons c calls ih => exact fun wal L h => ih _ _ (h.call c)
  refine hrun calls _ _ ⟨rfl, rfl, rfl, rfl, ?_, ?_⟩
  · intro i hi
    cases hi
  · intro r hr
    cases hr

end Refines

/-! ## The records of the layout -/

variable (L : LogLayout)

lemma written_append (rs : List WALRecord) : (L.append rs).written = L.written ++ rs := by
  have hrec : (LogItem.record? ∘ LogItem.record) = fun r => some r := rfl
  rw [LogLayout.written, LogLayout.append, filterMap_append, filterMap_append,
    filterMap_map, hrec, filterMap_some]
  exact append_nil _

/-- The file and the buffer of a layout, read one after the other. -/
def LogLayout.all : List WALRecord := L.written ++ L.buffered

lemma all_append (rs : List WALRecord) : (L.append rs).all = L.written ++ rs := by
  rw [LogLayout.all, written_append]
  exact append_nil _

lemma all_call (c : WalCall) : (L.call c).all = L.all ++ c.record?.toList := by
  cases c with
  | logPageUpdate t f p d =>
    rw [LogLayout.call]
    split
    · rw [all_append, ← append_assoc]
      rfl
    · exact (append_assoc _ _ _).symm
  | flushPending =>
    rw [LogLayout.call]
    split
    · exact (append_nil _).symm
    · exact (all_append _ _).trans (append_nil _).symm
  | logCommit t =>
    rw [LogLayout.call, all_append, ← append_assoc]
    rfl

variable (calls : List WalCall)

/-- The records in the file and then those in the buffer are the records of the calls. -/
theorem layout_records : (layout calls).written ++ (layout calls).buffered = records calls := by
  have hfold : ∀ (calls : List WalCall) (L : LogLayout),
      (calls.foldl LogLayout.call L).all = L.all ++ records calls := by
    intro calls
    induction calls with
    | nil => exact fun L => (append_nil _).symm
    | cons c calls ih =>
      intro L
      rw [foldl_cons, ih, all_call, append_assoc]
      cases hc : c.record? with
      | none => rw [records, records, filterMap_cons_none hc]; rfl
      | some r => rw [records, records, filterMap_cons_some hc]; rfl
  exact hfold calls .empty

/-- What the buffer may hold: page updates only, and less than the flush threshold. -/
def LogLayout.Buffered : Prop :=
  (∀ r ∈ L.buffered, ∃ t w, r = .pageUpdate t w) ∧
    (L.buffered.map encodedSize).sum < walPendingFlushBytes

lemma buffered_of_eq_nil {L : LogLayout} (h : L.buffered = []) : L.Buffered := by
  rw [LogLayout.Buffered, h]
  exact ⟨nofun, (by decide)⟩

lemma buffered_call {L : LogLayout} (h : L.Buffered) (c : WalCall) : (L.call c).Buffered := by
  cases c with
  | logPageUpdate t f p d =>
    rw [LogLayout.call]
    split
    · exact buffered_of_eq_nil rfl
    next hsize =>
      exact ⟨forall_mem_append.2 ⟨h.1, forall_mem_singleton.2 ⟨_, _, rfl⟩⟩, not_le.1 hsize⟩
  | flushPending =>
    rw [LogLayout.call]
    split
    · exact h
    · exact buffered_of_eq_nil rfl
  | logCommit t => exact buffered_of_eq_nil rfl

/-- Only page updates stay behind in the buffer, and never more than the threshold allows. -/
theorem layout_buffered : (layout calls).Buffered := by
  have hfold : ∀ (calls : List WalCall) (L : LogLayout), L.Buffered →
      (calls.foldl LogLayout.call L).Buffered := by
    intro calls
    induction calls with
    | nil => exact fun _ h => h
    | cons c calls ih => exact fun L h => ih _ (buffered_call h c)
  exact hfold calls .empty (buffered_of_eq_nil rfl)

/-- A flush or a commit at the end of the calls leaves nothing in the buffer. -/
theorem layout_flushed {c : WalCall}
    (hc : c = .flushPending ∨ ∃ t, c = .logCommit t) : (layout (calls ++ [c])).buffered = [] := by
  rw [layout, foldl_append, foldl_cons]
  rcases hc with rfl | ⟨t, rfl⟩
  · rw [LogLayout.call]
    split
    · assumption
    · rfl
  · rfl

end LightningDB
