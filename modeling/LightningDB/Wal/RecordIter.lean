import LightningDB.Wal.Cursor
import Mathlib.Logic.Relation

/-!
# Reading the log record by record

`WALRecordIter::next_record` is what `CdcManager` reads the log with, in `subscribe` and in its thread.
It returns a record that it cannot read as `Corrupt` and leaves its position where it is, so that the
next call returns the same again; and both loops of `CdcManager` ask until there is nothing more.

Where the records of a buffer begin can be told from its bytes (`follows`), and so can whether a whole
record is damaged: its length field or its checksum is wrong.  The loops end just if none of the records
is damaged (`cdc_reading_ends_iff`).
-/

namespace LightningDB

open Framework

/-! ## The iterator -/

/-- `WALRecord::Corrupt`: where the record is, and whether its length or its checksum is wrong. -/
structure CorruptRecord where
  offset : ℕ
  fault : FrameRead

namespace WALRecordIter

variable (it : WALRecordIter)

/-- `absolute_pos`. -/
def absolutePos : ℕ := it.baseOffset + it.pos

/-- `align_position`. -/
def alignPosition : WALRecordIter :=
  { it with pos := min (it.pos + alignPadding it.absolutePos) it.buf.length }

/-- What comes after the type byte. -/
def rest : List UInt8 := it.buf.drop (it.pos + 1)

def recordEnd (payloadSize : ℕ) : ℕ :=
  it.pos + (if 2 ≤ it.version then 1 + walLengthSize else 1) + walChecksumSize + payloadSize

variable (crc : Checksum)

/-- `next_record`.  A record that the buffer has as a whole is checked as `replay` checks it. -/
def nextRecord (it : WALRecordIter) : Option (Except CorruptRecord WALRecord) × WALRecordIter :=
  match _hpos : it.buf[it.pos]? with
  | none => (none, it)
  | some recordType =>
    if recordType = recordTypePageUpdate then
      let next := it.recordEnd pageUpdatePayloadSize
      if it.buf.length < next then (none, it)
      else
        match (readPageUpdate crc it.version it.rest).1 with
        | .record r => (some (.ok r), { it with pos := next })
        | fault => (some (.error ⟨it.absolutePos, fault⟩), it)
    else if recordType = recordTypeCommit then
      let next := it.recordEnd commitPayloadSize
      if it.buf.length < next then (none, it)
      else
        match (readCommit crc it.version it.rest).1 with
        | .record r => (some (.ok r), { it with pos := next }.alignPosition)
        | fault =>
          if 2 ≤ it.version then (some (.error ⟨it.absolutePos, fault⟩), it)
          else nextRecord { it with pos := next }.alignPosition
    else if recordType = 0 ∨ it.version < 2 then nextRecord { it with pos := it.pos + 1 }
    else if it.buf.length < it.pos + 1 + walLengthSize then (none, it)
    else
      let length := leNat (it.rest.take walLengthSize)
      let next := it.pos + 1 + walLengthSize + min length maxSkipPerCorruptRecord
      if it.buf.length < next then (none, { it with pos := it.buf.length })
      else nextRecord { it with pos := next }
termination_by it.buf.length - it.pos
decreasing_by
  all_goals
    obtain ⟨hlt, -⟩ := List.getElem?_eq_some_iff.1 _hpos
    grind [alignPosition, recordEnd]

/-- What the calls of `next_record` return, one after the other. -/
def returned : ℕ → WALRecordIter → Option (Except CorruptRecord WALRecord)
  | 0, it => (it.nextRecord crc).1
  | n + 1, it => returned n (it.nextRecord crc).2

/-! ## The records of a buffer, from its bytes -/

/-- `n` bytes of the record at the position, from an offset on. -/
def field (off n : ℕ) : List UInt8 := (it.buf.drop (it.pos + off)).take n

/-- The length field, in version 2, and the checksum of the record at the position are right. -/
def Intact (recordType : UInt8) (payloadSize : ℕ) : Prop :=
  if 2 ≤ it.version then
    leNat (it.field 1 walLengthSize) = walChecksumSize + payloadSize ∧
      computeChecksumV2 crc recordType (walChecksumSize + payloadSize) (it.field 7 payloadSize) =
        leNat (it.field 3 walChecksumSize)
  else (crc (recordType :: it.field 5 payloadSize)).toNat = leNat (it.field 1 walChecksumSize)

/-- A whole record at the position is not intact.  A commit record of version 1 may be skipped. -/
inductive Damaged : Prop
  | pageUpdate (type : it.buf[it.pos]? = some recordTypePageUpdate)
      (whole : it.recordEnd pageUpdatePayloadSize ≤ it.buf.length)
      (broken : ¬ it.Intact crc recordTypePageUpdate pageUpdatePayloadSize)
  | commit (type : it.buf[it.pos]? = some recordTypeCommit) (version : 2 ≤ it.version)
      (whole : it.recordEnd commitPayloadSize ≤ it.buf.length)
      (broken : ¬ it.Intact crc recordTypeCommit commitPayloadSize)

/-- The position of the next record: behind a whole page update or commit, padding included; behind a zero
byte, or in version 1 one that begins no record; and in version 2 behind a record of another type, which is as
long as it says. -/
def follows : Option WALRecordIter :=
  match it.buf[it.pos]? with
  | none => none
  | some recordType =>
    if recordType = recordTypePageUpdate then
      if it.buf.length < it.recordEnd pageUpdatePayloadSize then none
      else some { it with pos := it.recordEnd pageUpdatePayloadSize }
    else if recordType = recordTypeCommit then
      if it.buf.length < it.recordEnd commitPayloadSize then none
      else some { it with pos := it.recordEnd commitPayloadSize }.alignPosition
    else if recordType = 0 ∨ it.version < 2 then some { it with pos := it.pos + 1 }
    else
      let next := it.pos + 3 + min (leNat (it.field 1 walLengthSize)) maxSkipPerCorruptRecord
      if it.buf.length < it.pos + 3 ∨ it.buf.length < next then none else some { it with pos := next }

/-- No record from the position on is damaged. -/
def Undamaged : Prop :=
  ∀ next, Relation.ReflTransGen (fun a b => a.follows = some b) it next → ¬ next.Damaged crc

variable {crc} {it : WALRecordIter}

lemma readExact_field {off n : ℕ} (h : it.pos + off + n ≤ it.buf.length) :
    readExact n (it.buf.drop (it.pos + off)) = some (it.field off n, it.buf.drop (it.pos + (off + n))) := by
  rw [readExact, if_pos (by rw [List.length_drop]; omega), List.drop_drop, add_assoc]
  rfl

variable {recordType : UInt8} {payloadSize : ℕ} {decode : List UInt8 → WALRecord}

lemma readFrameV2_eq (hwhole : it.pos + 7 + payloadSize ≤ it.buf.length) :
    (readFrameV2 crc recordType (walChecksumSize + payloadSize) payloadSize decode it.rest).1 =
      if leNat (it.field 1 walLengthSize) ≠ walChecksumSize + payloadSize then .framingLost
      else if computeChecksumV2 crc recordType (walChecksumSize + payloadSize) (it.field 7 payloadSize) ≠
        leNat (it.field 3 walChecksumSize) then .corrupt
      else .record (decode (it.field 7 payloadSize)) := by
  have hlength : readExact walLengthSize it.rest =
      some (it.field 1 walLengthSize, it.buf.drop (it.pos + 3)) := readExact_field (by
    rw [walLengthSize]
    omega)
  have hcrc : readExact walChecksumSize (it.buf.drop (it.pos + 3)) =
      some (it.field 3 walChecksumSize, it.buf.drop (it.pos + 7)) := readExact_field (by
    rw [walChecksumSize]
    omega)
  rw [readFrameV2, hlength]
  dsimp only
  rw [hcrc]
  dsimp only
  rw [readExact_field hwhole]
  dsimp only
  split
  · rfl
  next heq =>
    rw [not_not.1 heq]
    split <;> rfl

lemma readFrameV1_eq (hwhole : it.pos + 5 + payloadSize ≤ it.buf.length) :
    (readFrameV1 crc recordType payloadSize decode it.rest).1 =
      if (crc (recordType :: it.field 5 payloadSize)).toNat ≠ leNat (it.field 1 walChecksumSize) then .corrupt
      else .record (decode (it.field 5 payloadSize)) := by
  have hcrc : readExact walChecksumSize it.rest =
      some (it.field 1 walChecksumSize, it.buf.drop (it.pos + 5)) := readExact_field (by
    rw [walChecksumSize]
    omega)
  rw [readFrameV1, hcrc]
  dsimp only
  rw [readExact_field hwhole]
  dsimp only
  split <;> rfl

/-- The checks of `replay` on a whole record are those on its bytes. -/
lemma intact_iff (hwhole : it.recordEnd payloadSize ≤ it.buf.length) :
    it.Intact crc recordType payloadSize ↔ ∃ r, (if 2 ≤ it.version then
        readFrameV2 crc recordType (walChecksumSize + payloadSize) payloadSize decode it.rest
      else readFrameV1 crc recordType payloadSize decode it.rest).1 = .record r := by
  rw [recordEnd] at hwhole
  rw [Intact]
  split
  next hversion =>
    rw [if_pos hversion] at hwhole
    rw [readFrameV2_eq (by simpa [walLengthSize, walChecksumSize, add_assoc] using hwhole)]
    by_cases hlength : leNat (it.field 1 walLengthSize) = walChecksumSize + payloadSize
    · by_cases hcrc : computeChecksumV2 crc recordType (walChecksumSize + payloadSize)
          (it.field 7 payloadSize) = leNat (it.field 3 walChecksumSize) <;> simp [hlength, hcrc]
    · simp [hlength]
  next hversion =>
    rw [if_neg hversion] at hwhole
    rw [readFrameV1_eq (by simpa [walChecksumSize, add_assoc] using hwhole)]
    by_cases hcrc : (crc (recordType :: it.field 5 payloadSize)).toNat = leNat (it.field 1 walChecksumSize) <;>
      simp [hcrc]

lemma readPageUpdate_record_iff (hwhole : it.recordEnd pageUpdatePayloadSize ≤ it.buf.length) :
    (∃ r, (readPageUpdate crc it.version it.rest).1 = .record r) ↔
      it.Intact crc recordTypePageUpdate pageUpdatePayloadSize :=
  (intact_iff hwhole).symm

lemma readCommit_record_iff (hwhole : it.recordEnd commitPayloadSize ≤ it.buf.length) :
    (∃ r, (readCommit crc it.version it.rest).1 = .record r) ↔
      it.Intact crc recordTypeCommit commitPayloadSize :=
  (intact_iff hwhole).symm

/-- What a call comes to: there is no next record and it returns `None`; it returns a damaged record and
stays; or it goes on behind the record, which it may return. -/
inductive Called (crc : Checksum) (it : WALRecordIter) : Prop
  | ended (none : it.follows = none) (undamaged : ¬ it.Damaged crc) (returns : (it.nextRecord crc).1 = .none)
  | stuck (damaged : it.Damaged crc) (c : CorruptRecord) (returns : it.nextRecord crc = (some (.error c), it))
  | gone (next : WALRecordIter) (behind : it.follows = some next) (undamaged : ¬ it.Damaged crc)
      (lt : it.pos < next.pos) (le : next.pos ≤ it.buf.length) (buf : next.buf = it.buf)
      (returns : it.nextRecord crc = next.nextRecord crc ∨ ∃ r, it.nextRecord crc = (some (.ok r), next))

lemma nextRecord_some {recordType : UInt8} (htype : it.buf[it.pos]? = some recordType) :
    it.nextRecord crc = if recordType = recordTypePageUpdate then
      if it.buf.length < it.recordEnd pageUpdatePayloadSize then (none, it)
      else
        match (readPageUpdate crc it.version it.rest).1 with
        | .record r => (some (.ok r), { it with pos := it.recordEnd pageUpdatePayloadSize })
        | fault => (some (.error ⟨it.absolutePos, fault⟩), it)
    else if recordType = recordTypeCommit then
      if it.buf.length < it.recordEnd commitPayloadSize then (none, it)
      else
        match (readCommit crc it.version it.rest).1 with
        | .record r => (some (.ok r), { it with pos := it.recordEnd commitPayloadSize }.alignPosition)
        | fault =>
          if 2 ≤ it.version then (some (.error ⟨it.absolutePos, fault⟩), it)
          else nextRecord crc { it with pos := it.recordEnd commitPayloadSize }.alignPosition
    else if recordType = 0 ∨ it.version < 2 then nextRecord crc { it with pos := it.pos + 1 }
    else if it.buf.length < it.pos + 3 then (none, it)
    else if it.buf.length < it.pos + 3 + min (leNat (it.field 1 walLengthSize)) maxSkipPerCorruptRecord then
      (none, { it with pos := it.buf.length })
    else nextRecord crc { it with
      pos := it.pos + 3 + min (leNat (it.field 1 walLengthSize)) maxSkipPerCorruptRecord } := by
  rw [nextRecord]
  split
  next h =>
    rw [htype] at h
    cases h
  next h =>
    obtain rfl := Option.some.inj (h.symm.trans htype)
    rfl

lemma pos_lt_recordEnd (it : WALRecordIter) (n : ℕ) : it.pos < it.recordEnd n := by
  rw [recordEnd]
  split <;> omega

lemma called_pageUpdate (htype : it.buf[it.pos]? = some recordTypePageUpdate) : it.Called crc := by
  have hdamaged : it.Damaged crc ↔ it.recordEnd pageUpdatePayloadSize ≤ it.buf.length ∧
      ¬ it.Intact crc recordTypePageUpdate pageUpdatePayloadSize := by
    refine ⟨?_, fun h => .pageUpdate htype h.1 h.2⟩
    rintro (⟨-, hwhole, hbroken⟩ | ⟨type, -, -, -⟩)
    · exact ⟨hwhole, hbroken⟩
    · exact absurd (Option.some.inj (htype.symm.trans type)) (by decide)
  by_cases hshort : it.buf.length < it.recordEnd pageUpdatePayloadSize
  · refine .ended ?_ (fun h => absurd (hdamaged.1 h).1 (not_le.2 hshort)) ?_
    · simp only [follows, htype, if_true, hshort]
    · rw [nextRecord_some htype]
      simp only [if_true, hshort]
  · have hintact : (∃ r, (readPageUpdate crc it.version it.rest).1 = .record r) ↔ _ :=
      readPageUpdate_record_iff (not_lt.1 hshort)
    cases hread : (readPageUpdate crc it.version it.rest).1 with
    | record r =>
      refine .gone { it with pos := it.recordEnd pageUpdatePayloadSize } ?_
        (fun h => (hdamaged.1 h).2 (hintact.1 ⟨r, hread⟩)) (it.pos_lt_recordEnd _) (not_lt.1 hshort) rfl
        (.inr ⟨r, ?_⟩)
      · simp only [follows, htype, if_true, hshort, if_false]
      · rw [nextRecord_some htype]
        simp only [if_true, hshort, if_false, hread]
    | _ =>
      refine .stuck (hdamaged.2 ⟨not_lt.1 hshort, fun h => ?_⟩)
        ⟨it.absolutePos, (readPageUpdate crc it.version it.rest).1⟩ ?_
      · obtain ⟨r, hr⟩ := hintact.2 h
        rw [hread] at hr
        cases hr
      · rw [nextRecord_some htype]
        simp only [if_true, hshort, if_false, hread]

lemma called_commit (htype : it.buf[it.pos]? = some recordTypeCommit) : it.Called crc := by
  have hne : recordTypeCommit ≠ recordTypePageUpdate := by decide
  have hdamaged : it.Damaged crc ↔ 2 ≤ it.version ∧ it.recordEnd commitPayloadSize ≤ it.buf.length ∧
      ¬ it.Intact crc recordTypeCommit commitPayloadSize := by
    refine ⟨?_, fun h => .commit htype h.1 h.2.1 h.2.2⟩
    rintro (⟨type, -, -⟩ | ⟨-, hversion, hwhole, hbroken⟩)
    · exact absurd (Option.some.inj (htype.symm.trans type)) hne
    · exact ⟨hversion, hwhole, hbroken⟩
  by_cases hshort : it.buf.length < it.recordEnd commitPayloadSize
  · refine .ended ?_ (fun h => absurd (hdamaged.1 h).2.1 (not_le.2 hshort)) ?_
    · simp only [follows, htype, hne, if_true, if_false, hshort]
    · rw [nextRecord_some htype]
      simp only [hne, if_true, if_false, hshort]
  · have hintact : (∃ r, (readCommit crc it.version it.rest).1 = .record r) ↔ _ :=
      readCommit_record_iff (not_lt.1 hshort)
    have hfollows : it.follows = some { it with pos := it.recordEnd commitPayloadSize }.alignPosition := by
      simp only [follows, htype, hne, if_true, hshort, if_false]
    have hpos := it.pos_lt_recordEnd commitPayloadSize
    have hnext : it.pos < ({ it with pos := it.recordEnd commitPayloadSize }.alignPosition).pos ∧
        ({ it with pos := it.recordEnd commitPayloadSize }.alignPosition).pos ≤ it.buf.length := by
      simp only [alignPosition]
      omega
    cases hread : (readCommit crc it.version it.rest).1 with
    | record r =>
      refine .gone _ hfollows (fun h => (hdamaged.1 h).2.2 (hintact.1 ⟨r, hread⟩)) hnext.1 hnext.2 rfl
        (.inr ⟨r, ?_⟩)
      rw [nextRecord_some htype]
      simp only [hne, if_true, hshort, if_false, hread]
    | _ =>
      by_cases hversion : 2 ≤ it.version
      · refine .stuck (hdamaged.2 ⟨hversion, not_lt.1 hshort, fun h => ?_⟩)
          ⟨it.absolutePos, (readCommit crc it.version it.rest).1⟩ ?_
        · obtain ⟨r, hr⟩ := hintact.2 h
          rw [hread] at hr
          cases hr
        · rw [nextRecord_some htype]
          simp only [hne, if_true, hshort, if_false, hread, hversion]
      · -- the commit record of version 1 is skipped
        refine .gone _ hfollows (fun h => hversion (hdamaged.1 h).1) hnext.1 hnext.2 rfl (.inl ?_)
        rw [nextRecord_some htype]
        simp only [hne, if_true, hshort, if_false, hread, hversion]

lemma called_other {recordType : UInt8} (htype : it.buf[it.pos]? = some recordType)
    (hpage : recordType ≠ recordTypePageUpdate) (hcommit : recordType ≠ recordTypeCommit) : it.Called crc := by
  have hlt : it.pos < it.buf.length := (List.getElem?_eq_some_iff.1 htype).1
  have hdamaged : ¬ it.Damaged crc := by
    rintro (⟨type, -, -⟩ | ⟨type, -, -, -⟩) <;> rw [htype, Option.some.injEq] at type
    · exact hpage type
    · exact hcommit type
  by_cases hbyte : recordType = 0 ∨ it.version < 2
  · refine .gone { it with pos := it.pos + 1 } ?_ hdamaged (Nat.lt_succ_self _) hlt rfl (.inl ?_)
    · simp only [follows, htype, hpage, hcommit, hbyte, if_true, if_false]
    · rw [nextRecord_some htype]
      simp only [hpage, hcommit, hbyte, if_true, if_false]
  · by_cases hlength : it.buf.length < it.pos + 3
    · refine .ended ?_ hdamaged ?_
      · simp only [follows, htype, hpage, hcommit, hbyte, hlength, true_or, if_true, if_false]
      · rw [nextRecord_some htype]
        simp only [hpage, hcommit, hbyte, hlength, if_true, if_false]
    · by_cases hnext : it.buf.length <
          it.pos + 3 + min (leNat (it.field 1 walLengthSize)) maxSkipPerCorruptRecord
      · refine .ended ?_ hdamaged ?_
        · simp only [follows, htype, hpage, hcommit, hbyte, hnext, or_true, if_true, if_false]
        · rw [nextRecord_some htype]
          simp only [hpage, hcommit, hbyte, hlength, hnext, if_true, if_false]
      · refine .gone { it with
            pos := it.pos + 3 + min (leNat (it.field 1 walLengthSize)) maxSkipPerCorruptRecord }
          ?_ hdamaged (by dsimp only; omega) (not_lt.1 hnext) rfl (.inl ?_)
        · simp only [follows, htype, hpage, hcommit, hbyte, hlength, hnext, or_self, if_false]
        · rw [nextRecord_some htype]
          simp only [hpage, hcommit, hbyte, hlength, hnext, if_false]

/-- **One call.** -/
lemma called (crc : Checksum) (it : WALRecordIter) : it.Called crc := by
  cases htype : it.buf[it.pos]? with
  | none =>
    have hreturns : it.nextRecord crc = (none, it) := by
      rw [nextRecord]
      split
      · rfl
      next h =>
        rw [htype] at h
        cases h
    refine .ended (by rw [follows, htype]) ?_ (by rw [hreturns])
    rintro (⟨type, -, -⟩ | ⟨type, -, -, -⟩) <;> rw [htype] at type <;> cases type
  | some recordType =>
    by_cases hpage : recordType = recordTypePageUpdate
    · exact called_pageUpdate (hpage ▸ htype)
    · by_cases hcommit : recordType = recordTypeCommit
      · exact called_commit (hcommit ▸ htype)
      · exact called_other htype hpage hcommit

lemma undamaged_of_none (h : it.follows = none) (hdamaged : ¬ it.Damaged crc) : it.Undamaged crc := by
  intro next hnext
  rcases hnext.cases_head with rfl | ⟨b, hb, -⟩
  · exact hdamaged
  · rw [h] at hb
    cases hb

lemma undamaged_iff {next : WALRecordIter} (h : it.follows = some next) (hdamaged : ¬ it.Damaged crc) :
    it.Undamaged crc ↔ next.Undamaged crc := by
  refine ⟨fun hall c hc => hall c (hc.head h), fun hall c hc => ?_⟩
  rcases hc.cases_head with rfl | ⟨b, hb, hrest⟩
  · exact hdamaged
  · rw [h, Option.some.injEq] at hb
    exact hall c (hb ▸ hrest)

/-- **The calls come to an end** just if no record is damaged. -/
lemma exists_returned_eq_none_iff (it : WALRecordIter) :
    (∃ n, it.returned crc n = none) ↔ it.Undamaged crc := by
  generalize hn : it.buf.length - it.pos = n
  induction n using Nat.strong_induction_on generalizing it with
  | _ n ih =>
    cases it.called crc with
    | ended hnone hundamaged hreturns => exact iff_of_true ⟨0, hreturns⟩ (undamaged_of_none hnone hundamaged)
    | stuck hdamaged c hreturns =>
      refine iff_of_false (fun ⟨m, hm⟩ => ?_) fun h => h it .refl hdamaged
      have hall : ∀ m, it.returned crc m = some (.error c) := by
        intro m
        induction m with
        | zero => rw [returned, hreturns]
        | succ m ihm => rw [returned, hreturns, ihm]
      rw [hall] at hm
      cases hm
    | gone next hbehind hundamaged hlt hle hbuf hreturns =>
      rw [undamaged_iff hbehind hundamaged, ← ih _ (by rw [hbuf]; omega) next rfl]
      rcases hreturns with hreturns | ⟨r, hreturns⟩
      · -- the record is skipped within the call
        have hsame : ∀ m, it.returned crc m = next.returned crc m := by
          rintro (_ | m) <;> rw [returned, returned, hreturns]
        simp only [hsame]
      · rw [← Nat.or_exists_add_one]
        simp [returned, hreturns]

end WALRecordIter

/-! ## Change capture -/

/-- `CdcEvent`, without its time. -/
structure CdcEvent where
  txId : ℕ
  fileId : ℕ
  pageIdx : ℕ

namespace CdcManager

open WALRecordIter

variable (crc : Checksum)

/-- The loop over the records, as far as it gets in a number of rounds: the events, and the iterator
at the end. -/
def readEvents : ℕ → WALRecordIter → Option (List CdcEvent × WALRecordIter)
  | 0, _ => none
  | rounds + 1, it =>
    match it.nextRecord crc with
    | (none, it) => some ([], it)
    | (some (.ok (.pageUpdate t w)), it) =>
      (readEvents rounds it).map fun (events, it) => (⟨t, w.fileId, w.pageIdx⟩ :: events, it)
    | (some _, it) => readEvents rounds it

/-- `subscribe`, with the size that it has asked for: the log, the events that it sends, and where the
subscriber starts. -/
def subscribe (wal : WAL) (currentSize rounds : ℕ) : Option (WAL × List CdcEvent × ℕ) :=
  if 0 < currentSize then
    let (wal, it) := wal.readRecordsFrom currentSize
    (readEvents crc rounds it).map fun (events, _) => (wal, events, currentSize)
  else some (wal, [], currentSize)

/-- The pass of the thread for one subscriber, with its new position. -/
def poll (wal : WAL) (lastPosition rounds : ℕ) : Option (WAL × List CdcEvent × ℕ) :=
  let (wal, it) := wal.readRecordsFrom lastPosition
  (readEvents crc rounds it).map fun (events, it) => (wal, events, it.absolutePos)

lemma readEvents_ends_iff (it : WALRecordIter) :
    (∃ rounds, (readEvents crc rounds it).isSome) ↔ it.Undamaged crc := by
  have hrounds : ∀ rounds (it : WALRecordIter), (readEvents crc rounds it).isSome ↔
      ∃ n < rounds, it.returned crc n = none := by
    intro rounds
    induction rounds with
    | zero => simp [readEvents]
    | succ rounds ih =>
      intro it
      rw [readEvents, Nat.exists_lt_succ_left]
      simp only [returned, ← ih]
      rcases it.nextRecord crc with ⟨_ | _ | _ | _, it'⟩ <;> simp
  simp only [← exists_returned_eq_none_iff, hrounds]
  exact ⟨fun ⟨_, n, _, hn⟩ => ⟨n, hn⟩, fun ⟨n, hn⟩ => ⟨n + 1, n, Nat.lt_succ_self n, hn⟩⟩

end CdcManager

open CdcManager in
/-- **Reading ends just if no record is damaged**: calls of `next_record`, a call of `subscribe`, and the
pass of the thread for a subscriber. -/
theorem cdc_reading_ends_iff (crc : Checksum) :
    (∀ it : WALRecordIter, (∃ n, it.returned crc n = none) ↔ it.Undamaged crc) ∧
    (∀ (wal : WAL) (size : ℕ), (∃ rounds, (subscribe crc wal size rounds).isSome) ↔
      (0 < size → (wal.readRecordsFrom size).2.Undamaged crc)) ∧
    ∀ (wal : WAL) (position : ℕ), (∃ rounds, (poll crc wal position rounds).isSome) ↔
      (wal.readRecordsFrom position).2.Undamaged crc := by
  refine ⟨fun it => it.exists_returned_eq_none_iff, fun wal size => ?_, fun wal position => ?_⟩
  · by_cases hsize : 0 < size
    · simp [subscribe, hsize, readEvents_ends_iff]
    · simp [subscribe, hsize]
  · simp [poll, readEvents_ends_iff]

/-- A commit record with a wrong length, behind the header of a log. -/
def brokenCommit : WALRecordIter := ⟨2 :: List.replicate 14 0, 0, 5, 2⟩

/-- It is returned by every call, and the thread never gets past it. -/
theorem corrupt_record_read_for_ever :
    (¬ ∃ n, brokenCommit.returned (fun _ => 0) n = none) ∧ ¬ ∃ rounds,
      (CdcManager.poll (fun _ => 0) (WAL.new (walHeader ++ brokenCommit.buf)) 5 rounds).isSome := by
  have hcorrupt : ¬ brokenCommit.Undamaged fun _ => 0 := by
    refine fun h => h brokenCommit .refl (.commit rfl (by decide) (by decide) fun hintact => ?_)
    rw [WALRecordIter.Intact, if_pos (by decide)] at hintact
    exact absurd hintact.1 (by decide)
  have hread : ((WAL.new (walHeader ++ brokenCommit.buf)).readRecordsFrom 5).2 = brokenCommit := by
    decide +kernel
  rw [WALRecordIter.exists_returned_eq_none_iff]
  refine ⟨hcorrupt, fun h => hcorrupt ?_⟩
  simp only [CdcManager.poll, hread, Option.isSome_map] at h
  exact (CdcManager.readEvents_ends_iff _ _).1 h

end LightningDB
