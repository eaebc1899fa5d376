import LightningDB.Framework.ByteCodec
import LightningDB.Framework.FinMap
import LightningDB.Storage.Page

/-!
# Log records and their two on-disk formats

The write-ahead log is a 5-byte header followed by records and zero padding.  This module has the
record type, the constants of the format, the version-2 encoder and the reader of one record in
either version.

The reader is the part of `read_and_apply_page_update`, `read_and_apply_commit` and
`skip_unknown_record` that touches the file: it consumes bytes and reports what it found as a
`FrameRead`.  What replay does with the report is in `Wal/Replay.lean`.

The checksum is the CRC32C of a third-party crate; the whole development is parametric in the
function `crc` that computes it.

The results are about version 2: the reader gives back an encoded record (`readFrame_encode`) and
reports a proper, nonempty cut of one as a partial record (`readFrame_take_encode`).
-/

namespace LightningDB

open Framework List

/-- The checksum function, over the concatenation of the digested slices. -/
abbrev Checksum := List UInt8 → UInt32

/-! ## Constants -/

/-- `WAL_MAGIC`, the bytes of `LNIW`. -/
def walMagic : List UInt8 := [76, 78, 73, 87]

/-- `WAL_VERSION`. -/
def walVersion2 : UInt8 := 2

/-- `WAL_VERSION_V1`. -/
def walVersion1 : UInt8 := 1

def walHeaderSize : ℕ := 5

def recordTypePageUpdate : UInt8 := 1

def recordTypeCommit : UInt8 := 2

def walChecksumSize : ℕ := 4

def walLengthSize : ℕ := 2

def walAlignment : ℕ := 8

def pageUpdatePayloadSize : ℕ := 24 + pageSize

def commitPayloadSize : ℕ := 8

def validPageUpdateLength : ℕ := walChecksumSize + pageUpdatePayloadSize

def validCommitLength : ℕ := walChecksumSize + commitPayloadSize

def maxSkipPerCorruptRecord : ℕ := 65536

def walPendingFlushBytes : ℕ := 8 * 1024 * 1024

/-! ## Records -/

/-- A page image addressed to a page of a file: what replay hands to its closure. -/
structure PageWrite where
  fileId : ℕ
  pageIdx : ℕ
  data : List UInt8
deriving DecidableEq

inductive WALRecord where
  | pageUpdate (txId : ℕ) (write : PageWrite)
  | commit (txId : ℕ)
deriving DecidableEq

namespace WALRecord

def txId : WALRecord → ℕ
  | pageUpdate t _ => t
  | commit t => t

/-- The fields fit their machine types and the image is a whole page. -/
def Valid : WALRecord → Prop
  | pageUpdate t w =>
      t < 256 ^ 8 ∧ w.fileId < 256 ^ 8 ∧ w.pageIdx < 256 ^ 8 ∧ w.data.length = pageSize
  | commit t => t < 256 ^ 8

end WALRecord

open WALRecord

/-! ## The version-2 encoder -/

section Encode

variable (crc : Checksum)

/-- `compute_checksum_v2`: the checksum covers type, length and payload. -/
def computeChecksumV2 (recordType : UInt8) (length : ℕ) (payload : List UInt8) : ℕ :=
  (crc (recordType :: (leBytes walLengthSize length ++ payload))).toNat

/-- What follows the type byte of a version-2 frame: `[length:2][crc32c:4][payload]`. -/
def frameBody (recordType : UInt8) (length : ℕ) (payload : List UInt8) : List UInt8 :=
  leBytes walLengthSize length ++
    (leBytes walChecksumSize (computeChecksumV2 crc recordType length payload) ++ payload)

namespace WALRecord

def recordType : WALRecord → UInt8
  | pageUpdate _ _ => recordTypePageUpdate
  | commit _ => recordTypeCommit

/-- The payload size the format fixes for this kind of record. -/
def payloadSize : WALRecord → ℕ
  | pageUpdate _ _ => pageUpdatePayloadSize
  | commit _ => commitPayloadSize

/-- The payload: a page update carries the three ids and the image, a commit the one id. -/
def payload : WALRecord → List UInt8
  | pageUpdate t w => leBytes 8 t ++ (leBytes 8 w.fileId ++ (leBytes 8 w.pageIdx ++ w.data))
  | commit t => leBytes 8 t

/-- The version-2 bytes of a record. -/
def encode (r : WALRecord) : List UInt8 :=
  r.recordType :: frameBody crc r.recordType (walChecksumSize + r.payloadSize) r.payload

/-- The number of bytes a valid record takes in the file. -/
def encodedSize (r : WALRecord) : ℕ := 7 + r.payloadSize

end WALRecord

lemma computeChecksumV2_lt (recordType : UInt8) (length : ℕ) (payload : List UInt8) :
    computeChecksumV2 crc recordType length payload < 256 ^ walChecksumSize :=
  UInt32.toNat_lt _

lemma length_frameBody (recordType : UInt8) (length : ℕ) (payload : List UInt8) :
    (frameBody crc recordType length payload).length = 6 + payload.length := by
  simp only [frameBody, length_append, length_leBytes, walLengthSize, walChecksumSize]
  omega

lemma length_payload {r : WALRecord} (h : r.Valid) : r.payload.length = r.payloadSize := by
  cases r with
  | pageUpdate t w =>
    obtain ⟨-, -, -, hdata⟩ := h
    simp only [payload, length_append, length_leBytes,
      payloadSize, pageUpdatePayloadSize]
    omega
  | commit t => exact length_leBytes 8 t

lemma length_encode {r : WALRecord} (h : r.Valid) : (r.encode crc).length = r.encodedSize := by
  rw [encode, length_cons, length_frameBody, length_payload h, encodedSize]
  omega

lemma payloadSize_fits (r : WALRecord) : walChecksumSize + r.payloadSize < 256 ^ walLengthSize := by
  cases r <;> simp only [payloadSize] <;> decide

end Encode

/-! ## Reading one record -/

/-- What reading one record after its type byte finds. -/
inductive FrameRead where
  /-- A whole record with the right checksum. -/
  | record (r : WALRecord)
  /-- A whole record to be skipped: a checksum mismatch or an unknown type. -/
  | corrupt
  /-- A length that cannot be trusted: the next record boundary is unknown. -/
  | framingLost
  /-- The file ends inside the record. -/
  | partialAtEof
deriving DecidableEq

section Read

variable (crc : Checksum) (version : UInt8)

/-- The record of a page-update payload. -/
def decodePageUpdate (payload : List UInt8) : WALRecord :=
  .pageUpdate (leNat (payload.take 8))
    { fileId := leNat ((payload.drop 8).take 8)
      pageIdx := leNat ((payload.drop 16).take 8)
      data := payload.drop 24 }

variable (recordType : UInt8)

/-- A version-2 record after its type byte: the length is checked against the one valid value
before the checksum and the payload are consumed, the checksum only afterwards.  A failed read
leaves the cursor at the end of the file. -/
def readFrameV2 (validLength : ℕ) (payloadSize : ℕ)
    (decode : List UInt8 → WALRecord) (rest : List UInt8) : FrameRead × List UInt8 :=
  match readExact walLengthSize rest with
  | none => (.partialAtEof, [])
  | some (lengthBytes, rest) =>
    if leNat lengthBytes ≠ validLength then (.framingLost, rest)
    else
      match readExact walChecksumSize rest with
      | none => (.partialAtEof, [])
      | some (checksumBytes, rest) =>
        match readExact payloadSize rest with
        | none => (.partialAtEof, [])
        | some (payload, rest) =>
          let expectedCrc := computeChecksumV2 crc recordType (leNat lengthBytes) payload
          if expectedCrc ≠ leNat checksumBytes then (.corrupt, rest)
          else (.record (decode payload), rest)

/-- A version-1 record after its type byte: no length field, and the checksum covers the type and
the payload only. -/
def readFrameV1 (payloadSize : ℕ) (decode : List UInt8 → WALRecord)
    (rest : List UInt8) : FrameRead × List UInt8 :=
  match readExact walChecksumSize rest with
  | none => (.partialAtEof, [])
  | some (checksumBytes, rest) =>
    match readExact payloadSize rest with
    | none => (.partialAtEof, [])
    | some (payload, rest) =>
      if (crc (recordType :: payload)).toNat ≠ leNat checksumBytes then (.corrupt, rest)
      else (.record (decode payload), rest)

variable (rest : List UInt8)

/-- The reading half of `read_and_apply_page_update`. -/
def readPageUpdate : FrameRead × List UInt8 :=
  if 2 ≤ version then
    readFrameV2 crc recordTypePageUpdate validPageUpdateLength pageUpdatePayloadSize
      decodePageUpdate rest
  else readFrameV1 crc recordTypePageUpdate pageUpdatePayloadSize decodePageUpdate rest

/-- The reading half of `read_and_apply_commit`. -/
def readCommit : FrameRead × List UInt8 :=
  if 2 ≤ version then
    readFrameV2 crc recordTypeCommit validCommitLength commitPayloadSize
      (fun payload => .commit (leNat payload)) rest
  else
    readFrameV1 crc recordTypeCommit commitPayloadSize (fun payload => .commit (leNat payload)) rest

/-- `skip_unknown_record`: version 2 skips the announced length, version 1 nothing at all. -/
def skipUnknownRecord : FrameRead × List UInt8 :=
  if 2 ≤ version then
    match readExact walLengthSize rest with
    | none => (.partialAtEof, [])
    | some (lengthBytes, rest) =>
      if leNat lengthBytes > maxSkipPerCorruptRecord then (.framingLost, rest)
      else
        match readExact (leNat lengthBytes) rest with
        | none => (.partialAtEof, [])
        | some (_, rest) => (.corrupt, rest)
  else (.corrupt, rest)

/-- The record that follows a nonzero type byte. -/
def readFrame : FrameRead × List UInt8 :=
  if recordType = recordTypePageUpdate then readPageUpdate crc version rest
  else if recordType = recordTypeCommit then readCommit crc version rest
  else skipUnknownRecord version rest

end Read

/-! ## The reader against the encoder -/

section ReadEncode

variable (crc : Checksum)

/-- Reading never gives bytes back: the measure of the replay loop. -/
lemma readFrame_rest_length_le (version recordType : UInt8) (rest : List UInt8) :
    (readFrame crc version recordType rest).2.length ≤ rest.length := by
  have hread : ∀ {n : ℕ} {l a r : List UInt8}, readExact n l = some (a, r) →
      r.length ≤ l.length := by
    intro n l a r h
    have hlen := readExact_rest_length h
    omega
  have hV2 : ∀ ty len n dec l, (readFrameV2 crc ty len n dec l).2.length ≤ l.length := by
    intro ty len n dec l
    rw [readFrameV2]
    split
    · exact Nat.zero_le _
    next h₁ =>
      split
      · exact hread h₁
      · split
        · exact Nat.zero_le _
        next h₂ =>
          split
          · exact Nat.zero_le _
          next h₃ =>
            dsimp only
            split <;> exact (hread h₃).trans ((hread h₂).trans (hread h₁))
  have hV1 : ∀ ty n dec l, (readFrameV1 crc ty n dec l).2.length ≤ l.length := by
    intro ty n dec l
    rw [readFrameV1]
    split
    · exact Nat.zero_le _
    next h₁ =>
      split
      · exact Nat.zero_le _
      next h₂ => split <;> exact (hread h₂).trans (hread h₁)
  have hskip : ∀ l, (skipUnknownRecord version l).2.length ≤ l.length := by
    intro l
    rw [skipUnknownRecord]
    split
    · split
      · exact Nat.zero_le _
      next h₁ =>
        split
        · exact hread h₁
        · split
          · exact Nat.zero_le _
          next h₂ => exact (hread h₂).trans (hread h₁)
    · exact le_rfl
  rw [readFrame, readPageUpdate, readCommit]
  split
  · split
    · exact hV2 _ _ _ _ _
    · exact hV1 _ _ _ _
  · split
    · split
      · exact hV2 _ _ _ _ _
      · exact hV1 _ _ _ _
    · exact hskip _

variable {n : ℕ} {payload : List UInt8}

lemma readFrameV2_frameBody (recordType : UInt8) (decode : List UInt8 → WALRecord)
    (hn : walChecksumSize + n < 256 ^ walLengthSize) (hp : payload.length = n) (rest : List UInt8) :
    readFrameV2 crc recordType (walChecksumSize + n) n decode
        (frameBody crc recordType (walChecksumSize + n) payload ++ rest) =
      (.record (decode payload), rest) := by
  rw [readFrameV2, frameBody, append_assoc, append_assoc, readExact_append (length_leBytes _ _)]
  dsimp only
  rw [leNat_leBytes_of_lt hn, if_neg (fun h => h rfl), readExact_append (length_leBytes _ _)]
  dsimp only
  rw [readExact_append hp]
  dsimp only
  rw [leNat_leBytes_of_lt (computeChecksumV2_lt crc _ _ _), if_neg (fun h => h rfl)]

variable {j : ℕ} {r : WALRecord}

/-- A cut anywhere in the frame after its type byte is noticed as the end of the file: in the
length, in the checksum or in the payload. -/
lemma readFrameV2_take_frameBody (recordType : UInt8) (decode : List UInt8 → WALRecord)
    (hn : walChecksumSize + n < 256 ^ walLengthSize) (hp : payload.length = n) (hj : j < 6 + n) :
    readFrameV2 crc recordType (walChecksumSize + n) n decode
        ((frameBody crc recordType (walChecksumSize + n) payload).take j) =
      (.partialAtEof, []) := by
  have hshort : ∀ {m : ℕ} {l : List UInt8}, l.length < m → readExact m l = none :=
    readExact_eq_none_iff.2
  rw [readFrameV2, frameBody]
  by_cases h₁ : j < walLengthSize
  · rw [hshort (by rw [length_take]; omega)]
  have hj₁ : walLengthSize ≤ j := by omega
  rw [take_append, take_of_length_le (by rwa [length_leBytes]),
    readExact_append (length_leBytes _ _)]
  dsimp only
  rw [leNat_leBytes_of_lt hn, if_neg (fun h => h rfl), length_leBytes]
  by_cases h₂ : j - walLengthSize < walChecksumSize
  · rw [hshort (by rw [length_take]; omega)]
  rw [take_append, take_of_length_le (by rw [length_leBytes]; omega),
    readExact_append (length_leBytes _ _)]
  dsimp only
  rw [length_leBytes, hshort]
  rw [length_take]
  simp only [walLengthSize, walChecksumSize] at *
  omega

lemma decodePageUpdate_payload {t : ℕ} {w : PageWrite} (h : (pageUpdate t w).Valid) :
    decodePageUpdate (pageUpdate t w).payload = .pageUpdate t w := by
  obtain ⟨ht, hf, hp, -⟩ := h
  have h8 : ∀ x : ℕ, (leBytes 8 x).length = 8 := length_leBytes 8
  simp only [decodePageUpdate, payload]
  rw [take_left' (h8 t), drop_left' (h8 t), take_left' (h8 _),
    show (16 : ℕ) = 8 + 8 from rfl, show (24 : ℕ) = 8 + (8 + 8) from rfl,
    ← drop_drop, drop_left' (h8 t), drop_left' (h8 _), take_left' (h8 _),
    ← drop_drop, drop_left' (h8 t), ← drop_drop, drop_left' (h8 _),
    drop_left' (h8 _), leNat_leBytes_of_lt ht, leNat_leBytes_of_lt hf,
    leNat_leBytes_of_lt hp]

/-- Reading an encoded record after its type byte gives the record back and leaves the rest. -/
theorem readFrame_encode (h : r.Valid) (rest : List UInt8) : readFrame crc walVersion2 r.recordType
        (frameBody crc r.recordType (walChecksumSize + r.payloadSize) r.payload ++ rest) =
      (.record r, rest) := by
  have hlen := length_payload h
  have hfits := payloadSize_fits r
  cases r with
  | pageUpdate t w =>
    refine (readFrameV2_frameBody crc recordTypePageUpdate decodePageUpdate hfits hlen
      rest).trans ?_
    rw [decodePageUpdate_payload h]
  | commit t =>
    refine (readFrameV2_frameBody crc recordTypeCommit (fun p => .commit (leNat p)) hfits
      hlen rest).trans ?_
    rw [payload, leNat_leBytes_of_lt h]

/-- Reading a record that the file cuts off after its type byte reports a partial record. -/
theorem readFrame_take_encode (h : r.Valid) (hj : j + 1 < r.encodedSize) :
    readFrame crc walVersion2 r.recordType
        ((frameBody crc r.recordType (walChecksumSize + r.payloadSize) r.payload).take j) =
      (.partialAtEof, []) := by
  have hlen := length_payload h
  have hfits := payloadSize_fits r
  have hj' : j < 6 + r.payloadSize := by
    rw [encodedSize] at hj
    omega
  cases r with
  | pageUpdate t w =>
    exact readFrameV2_take_frameBody crc recordTypePageUpdate decodePageUpdate hfits hlen hj'
  | commit t =>
    exact readFrameV2_take_frameBody crc recordTypeCommit (fun p => .commit (leNat p)) hfits
      hlen hj'

end ReadEncode

end LightningDB
