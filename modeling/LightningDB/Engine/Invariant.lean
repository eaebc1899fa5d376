import LightningDB.Engine.Moves

/-!
# The parts of the engine's invariant

What holds of the histories, the resident frames, the files and the transactions of a reachable
state, and what the operations of the buffer manager and of a transaction's thread do to it:

* `HistoryOk`: the committed versions of a page have distinct timestamps, none in the future, and go
  back to the initial content;
* `Copies`: every committed frame, every page of a file, every image that a crash may leave of it
  and every prefetched page is a copy of a committed version, and a stamped frame of the one it is
  stamped with;
* `Owners`: a frame with a mark belongs to a live transaction and has its bytes, or it is left of a
  read-only transaction that has ended;
* `PhaseOk`: where the thread of each transaction stands.

None of this says that a copy is of the *right* version.
-/

namespace LightningDB

open Framework Function List BufferManager BufferManager

variable {bm bm' : BufferManager} {d d' : Disk} {hist hist' : PageKey → List Image} {now now' t : ℕ}
  {live : ℕ → Option LiveTx} {ended : Finset ℕ} {lt lt' : LiveTx} {k : PageKey}
  {committer committer' : Option ℕ}

/-! ## Histories and copies -/

lemma committed_of_version_mark {e : Entry} {t : ℕ} (h : e.frame.version = mark t) :
    e.committed = false := by
  rw [Entry.committed, h, isUncommitted_mark]
  rfl

/-- The committed versions of each page, newest first. -/
structure HistoryOk (hist : PageKey → List Image) (now : ℕ) : Prop where
  sorted : ∀ k, (hist k).Pairwise fun v w => w.origin < v.origin
  initial : ∀ k, ∃ v ∈ hist k, v.origin = 0
  upTo : ∀ k, ∀ v ∈ hist k, v.origin ≤ now

/-- Whatever is read of a page is one of its committed versions. -/
structure Copies (bm : BufferManager) (d : Disk) (hist : PageKey → List Image)
    (prefetched : List (PageKey × Image)) : Prop where
  resident : ∀ k, ∀ e ∈ bm.entries k, e.committed = true →
    e.frame.data ∈ hist k ∧ (e.frame.version = 0 ∨ e.frame.version = e.frame.data.origin)
  current : ∀ k, d.current k ∈ hist k
  durable : ∀ k, ∀ v ∈ d.durable k, v ∈ hist k
  beyond : ∀ k, (d k.1).numPages ≤ k.2 → Image.zero ∈ hist k
  prefetched : ∀ x ∈ prefetched, x.2 ∈ hist x.1

lemma committed_of_version_zero {e : Entry} (h : e.frame.version = 0) : e.committed = true := by
  rw [Entry.committed, h]
  rfl

namespace HistoryOk

lemma mono (h : HistoryOk hist now) {now' : ℕ} (hle : now ≤ now') : HistoryOk hist now' :=
  ⟨h.sorted, h.initial, fun k v hv => (h.upTo k v hv).trans hle⟩

variable {w v : Image}

lemma mem_update_cons {k' : PageKey} (v : Image) (hw : w ∈ hist k') :
    w ∈ update hist k (v :: hist k) k' := by
  by_cases hk : k' = k
  · subst hk
    rw [update_self]
    exact mem_cons_of_mem _ hw
  · rwa [update_of_ne hk]

lemma push (h : HistoryOk hist now) (hv : v.origin ≤ now)
    (hlt : ∀ w ∈ hist k, w.origin < v.origin) :
    HistoryOk (update hist k (v :: hist k)) now := by
  constructor
  · refine (forall_update_iff hist fun _ l => l.Pairwise _).2 ⟨?_, fun k' _ => h.sorted k'⟩
    exact pairwise_cons.2 ⟨hlt, h.sorted k⟩
  · intro k'
    obtain ⟨w, hw, hw0⟩ := h.initial k'
    exact ⟨w, mem_update_cons v hw, hw0⟩
  · intro k' w hw
    rcases of_mem_update hw with ⟨rfl, hw⟩ | ⟨-, hw⟩
    · rcases mem_cons.1 hw with rfl | hw
      · exact hv
      · exact h.upTo k' w hw
    · exact h.upTo k' w hw

end HistoryOk

namespace Copies

variable {prefetched : List (PageKey × Image)}

variable (h : Copies bm d hist prefetched)

include h

lemma loadPage (k : PageKey) : d.loadPage k ∈ hist k := by
  rw [Disk.loadPage]
  split
  · exact h.current k
  · exact h.beyond k (not_lt.1 ‹_›)

lemma writes
    (hw : d.Writes (fun k img => ∃ e ∈ bm.entries k, e.Unflushed ∧ img = e.frame.data) d') :
    Copies bm d' hist prefetched where
  __ := h
  current k := by
    rcases hw.current k with hc | ⟨e, he, hun, hc⟩
    · exact hc ▸ h.current k
    · exact hc ▸ (h.resident k e he hun.2).1
  durable k v hv := by
    rcases hw.durable hv with hv | ⟨e, he, hun, rfl⟩
    · exact h.durable k v hv
    · exact (h.resident k e he hun.2).1
  beyond k hk := h.beyond k (hw.numPages k.1 ▸ hk)

/-- The committed frames are old ones, or have version `0` and a copy of a committed version. -/
lemma frames (hbm : ∀ k, ∀ e ∈ bm'.entries k, e.committed = true →
      (∃ e₀ ∈ bm.entries k, e₀.frame = e.frame) ∨
        (e.frame.version = 0 ∧ e.frame.data ∈ hist k)) : Copies bm' d hist prefetched where
  __ := h
  resident k e he hc := by
    rcases hbm k e he hc with ⟨e₀, he₀, hf⟩ | ⟨hv, hdata⟩
    · have hc₀ : e₀.committed = true := by rw [Entry.committed, hf]; exact hc
      rw [← hf]
      exact h.resident k e₀ he₀ hc₀
    · exact ⟨hdata, .inl hv⟩

lemma of_entries_eq (hbm : ∀ k, bm'.entries k = bm.entries k) : Copies bm' d hist prefetched :=
  h.frames fun k e he _ => .inl ⟨e, hbm k ▸ he, rfl⟩

lemma history {hist' : PageKey → List Image}
    (hsub : ∀ k, ∀ v ∈ hist k, v ∈ hist' k) : Copies bm d hist' prefetched where
  resident k e he hc := ⟨hsub k _ (h.resident k e he hc).1, (h.resident k e he hc).2⟩
  current k := hsub k _ (h.current k)
  durable k v hv := hsub k v (h.durable k v hv)
  beyond k hk := hsub k _ (h.beyond k hk)
  prefetched x hx := hsub x.1 x.2 (h.prefetched x hx)

lemma subset (hbm : ∀ k, ∀ e ∈ bm'.entries k, e ∈ bm.entries k) : Copies bm' d hist prefetched :=
  h.frames fun k e he _ => .inl ⟨e, hbm k e he, rfl⟩

lemma writeFrame (k : PageKey) (t : ℕ) (page : Page) :
    Copies (bm.writeFrame k t page) d hist prefetched := by
  refine h.frames fun k' e he hc => .inl ?_
  rw [entries_writeFrame] at he
  split at he
  next hk =>
    subst hk
    obtain ⟨e₀, he₀, rfl⟩ := mem_map.1 he
    rw [writeEntry] at hc ⊢
    split
    next hv =>
      rw [if_pos hv] at hc
      exact absurd hc (by rw [Entry.committed, hv]; simp)
    · exact ⟨e₀, he₀, rfl⟩
  · exact ⟨e, he, rfl⟩

variable {f : Frame}

/-- The frames of an own version are stamped as the version enters the history. -/
lemma stamp {ts : ℕ} {page : Page}
    (hpage : ∀ e ∈ bm.entries k, e.frame.version = mark t → e.frame.data.page = page) :
    Copies (bm.updateTimestamps k t ts) d (update hist k (⟨page, ts⟩ :: hist k))
      prefetched := by
  have h' := h.history fun k' v => HistoryOk.mem_update_cons (k := k) ⟨page, ts⟩
  refine { h' with resident := fun k' e he hc => ?_ }
  rw [entries_updateTimestamps] at he
  split at he
  next hk =>
    subst hk
    obtain ⟨e₀, he₀, rfl⟩ := mem_map.1 he
    by_cases hv : e₀.frame.version = mark t
    · rw [stampEntry, if_pos hv, update_self, hpage e₀ he₀ hv]
      exact ⟨mem_cons_self, .inr rfl⟩
    · rw [stampEntry, if_neg hv] at hc ⊢
      exact h'.resident k' e₀ he₀ hc
  · exact h'.resident k' e he hc

/-- A frame is placed: an uncommitted one, or a copy of a committed version under version `0`. -/
lemma place {e₀ : Entry} (hbm : bm.PlacedFrame d k e₀ bm' d')
    (he₀ : e₀.committed = true → e₀.frame.version = 0 ∧ e₀.frame.data ∈ hist k) :
    Copies bm' d' hist prefetched := by
  refine (h.writes hbm.writes).frames fun k' e he hc => ?_
  rcases hbm.mem k' e he with he | ⟨rfl, rfl⟩
  · exact .inl ⟨e, he, rfl⟩
  · exact .inr (he₀ hc)

lemma placeMarked (hv : f.version = mark t)
    (hbm : bm.PlacedFrame d k ⟨f, true⟩ bm' d') : Copies bm' d' hist prefetched := by
  refine h.place hbm fun hcom => ?_
  rw [committed_of_version_mark (e := ⟨f, true⟩) hv] at hcom
  cases hcom

lemma cleaned (hbm : ∀ k, Cleaned (bm.entries k) (bm'.entries k)) : Copies bm' d hist prefetched :=
  h.frames fun k e he _ => by
    obtain ⟨e₀, he₀, hto⟩ := (hbm k).mem e he
    exact .inl ⟨e₀, he₀, hto.1.symm⟩

lemma sync (f : ℕ) : Copies bm (d.sync f) hist prefetched where
  __ := h
  current k := by
    rw [Disk.current_sync]
    exact h.current k
  durable k v hv := by
    rw [Disk.durable_sync] at hv
    split at hv
    · rw [mem_singleton.1 hv]
      exact h.current k
    · exact h.durable k v hv
  beyond k hk := h.beyond k (Disk.numPages_sync d f k.1 ▸ hk)

lemma addNewPage (f : ℕ) : Copies bm (d.addNewPage f) hist prefetched where
  __ := h
  current k := by
    rw [Disk.current_addNewPage]
    exact h.current k
  durable k v hv := by
    rw [Disk.durable_addNewPage] at hv
    exact h.durable k v hv
  beyond k hk := h.beyond k ((Disk.numPages_le_addNewPage d f k.1).trans hk)

lemma prefetch {prefetched' : List (PageKey × Image)}
    (hsub : ∀ x ∈ prefetched', x ∈ prefetched ∨ x.2 ∈ hist x.1) : Copies bm d hist prefetched' :=
  { h with
    prefetched := fun x hx => (hsub x hx).elim (h.prefetched x) id }

end Copies

/-! ## Marks and their owners -/

/-- The frame has the bytes of a live transaction's own version, or a read-only transaction has left
it. -/
def Owned (live : ℕ → Option LiveTx) (ended : Finset ℕ) (k : PageKey) (e : Entry) : Prop :=
  (∃ t lt, live t = some lt ∧ e.frame.version = mark t ∧ lt.own k = some e.frame.data.page) ∨
    ∃ t ∈ ended, e.frame.version = mark t

/-- A frame with a mark is dirty, its file can be written, and it has an owner; and each own version
of a live transaction is resident. -/
structure Owners (bm : BufferManager) (live : ℕ → Option LiveTx) (ended : Finset ℕ) : Prop where
  marked : ∀ k, ∀ e ∈ bm.entries k, e.committed = false →
    e.dirty = true ∧ bm.knows k ∧ Owned live ended k e
  resident : ∀ t lt k, live t = some lt → lt.own k ≠ none →
    ∃ e ∈ bm.entries k, e.frame.version = mark t
  listed : ∀ t lt k, live t = some lt → lt.own k ≠ none → k ∈ lt.tx.modifiedPages

def ForLive (live : ℕ → Option LiveTx) (P : ℕ → LiveTx → Prop) : Prop :=
  ∀ t lt, live t = some lt → P t lt

namespace ForLive

variable {P : ℕ → LiveTx → Prop}

lemma setLive (h : ForLive live P) (hnew : P t lt') : ForLive (update live t (some lt')) P := by
  intro t₁ lt₁ hlt₁
  rcases of_update hlt₁ with ⟨rfl, ⟨⟩⟩ | ⟨-, hlt₁⟩
  · exact hnew
  · exact h t₁ lt₁ hlt₁

lemma keep (h : ForLive live P) (hlt : live t = some lt) (hnew : P t lt → P t lt') :
    ForLive (update live t (some lt')) P := h.setLive (hnew (h t lt hlt))

lemma finish (h : ForLive live P) : ForLive (update live t none) P := by
  intro t₁ lt₁ hlt₁
  rcases of_update hlt₁ with ⟨-, ⟨⟩⟩ | ⟨-, hlt₁⟩
  exact h t₁ lt₁ hlt₁

lemma of_none (h : ∀ t, live t = none) : ForLive live P := fun t lt hlt => by
  rw [h] at hlt
  cases hlt

end ForLive

/-- Ids are below the bit that marks are made with, and those of ended readers are not in use. -/
structure IdsBelow (live : ℕ → Option LiveTx) (ended : Finset ℕ) : Prop where
  below : ForLive live fun t _ => t < uncommittedBit
  ended : ∀ t ∈ ended, t < uncommittedBit ∧ live t = none

lemma IdsBelow.mark_ne (hids : IdsBelow live ended) (hlt : live t = some lt) {t' : ℕ}
    (ht' : t' ∈ ended) : mark t' ≠ mark t := by
  intro hm
  obtain rfl := mark_injOn (hids.ended t' ht').1 (hids.below t lt hlt) hm
  rw [(hids.ended t' ht').2] at hlt
  cases hlt

lemma Owned.imp {e : Entry} {live' : ℕ → Option LiveTx} {ended' : Finset ℕ} (h : Owned live ended k e)
    (hlive : ∀ t lt, live t = some lt → e.frame.version = mark t → lt.own k = some e.frame.data.page →
      Owned live' ended' k e)
    (hsub : ended ⊆ ended') : Owned live' ended' k e := by
  rcases h with ⟨t, lt, hlt, hv, hown⟩ | ⟨t, ht, hv⟩
  · exact hlive t lt hlt hv hown
  · exact .inr ⟨t, hsub ht, hv⟩

lemma Owned.update_of_ne {e : Entry} {x : Option LiveTx} (h : Owned live ended k e)
    (hne : e.frame.version ≠ mark t) : Owned (update live t x) ended k e := by
  refine h.imp (fun t' lt' hlt' hv hown => .inl ⟨t', lt', ?_, hv, hown⟩) subset_rfl
  rw [Function.update_of_ne]
  · exact hlt'
  · rintro rfl
    exact hne hv

namespace Owners

variable (h : Owners bm live ended)

include h

lemma own_eq (hids : IdsBelow live ended) (hlt : live t = some lt) {e : Entry}
    (he : e ∈ bm.entries k) (hv : e.frame.version = mark t) :
    lt.own k = some e.frame.data.page := by
  obtain ⟨-, -, ⟨t', lt', hlt', hv', hown⟩ | ⟨t', ht', hv'⟩⟩ := h.marked k e he (committed_of_version_mark hv)
  · obtain rfl := mark_injOn (hids.below t' lt' hlt') (hids.below t lt hlt) (hv'.symm.trans hv)
    rw [hlt, Option.some.injEq] at hlt'
    rw [hlt', hown]
  · exact absurd (hv'.symm.trans hv) (hids.mark_ne hlt ht')

lemma frames (hmem : ∀ k e, e ∈ bm'.entries k → e.committed = false → e ∈ bm.entries k)
    (hkept : ∀ k e, e ∈ bm.entries k → e.committed = false → e.dirty = true → e ∈ bm'.entries k)
    (hknows : ∀ k, bm.knows k → bm'.knows k) : Owners bm' live ended where
  marked k e he hc := by
    obtain ⟨hd, hk, howner⟩ := h.marked k e (hmem k e he hc) hc
    exact ⟨hd, hknows k hk, howner⟩
  resident t lt k hlt hown := by
    obtain ⟨e, he, hv⟩ := h.resident t lt k hlt hown
    have hc := committed_of_version_mark hv
    exact ⟨e, hkept k e he hc (h.marked k e he hc).1, hv⟩
  listed := h.listed

lemma of_entries_eq (hbm : ∀ k, bm'.entries k = bm.entries k)
    (hknows : ∀ k, bm.knows k → bm'.knows k) : Owners bm' live ended :=
  h.frames (fun k _ he _ => hbm k ▸ he) (fun k _ he _ _ => (hbm k).symm ▸ he) hknows

lemma pin (fid : ℕ) : Owners (bm.pin fid) live ended :=
  h.of_entries_eq (fun _ => rfl) fun _ => id

lemma unpin (fid : ℕ) : Owners (bm.unpin fid) live ended :=
  h.of_entries_eq (fun _ => rfl) fun _ => id

lemma touch (k : PageKey) (fid : ℕ) : Owners (bm.touch k fid) live ended :=
  h.of_entries_eq (fun k' => bm.entries_touch k k' fid) fun k' => (bm.knows_touch k k' fid).2

lemma insertHandle (k : PageKey) : Owners (bm.insertHandle k) live ended :=
  h.of_entries_eq (bm.entries_insertHandle k) fun _ => bm.knows_insertHandle

lemma subset (hsub : ∀ k, ∀ e ∈ bm'.entries k, e ∈ bm.entries k)
    (hkept : ∀ k, ∀ e ∈ bm.entries k, e ∈ bm'.entries k ∨ e.committed = true)
    (hknows : ∀ k, bm.knows k → bm'.knows k) : Owners bm' live ended := by
  refine h.frames (fun k e he _ => hsub k e he) (fun k e he hc _ => ?_) hknows
  refine (hkept k e he).resolve_right fun hc' => ?_
  rw [hc] at hc'
  cases hc'

lemma sameFrames (hbm : bm.SameFrames bm') : Owners bm' live ended :=
  h.of_entries_eq hbm.entries fun k => (hbm.knows k).2

/-- A committed frame is placed; the victim of the eviction had no mark. -/
lemma place {e₀ : Entry} (hbm : bm.PlacedFrame d k e₀ bm' d')
    (he₀ : e₀.committed = true) : Owners bm' live ended := by
  refine h.frames (fun k' e he hc => ?_) (fun k' e he hc hd => ?_) fun k' => (hbm.knows k').2
  · rcases hbm.mem k' e he with he | ⟨-, rfl⟩
    · exact he
    · rw [he₀] at hc
      cases hc
  · rcases hbm.kept k' e he with he | ⟨-, hvictim⟩
    · exact he
    · rw [(hvictim hd).1] at hc
      cases hc

lemma cleaned (hbm : ∀ k, Cleaned (bm.entries k) (bm'.entries k))
    (hknows : ∀ k, bm.knows k → bm'.knows k) : Owners bm' live ended := by
  refine h.frames (fun k e he hc => ?_) (fun k e he hc _ => ?_) hknows
  · obtain ⟨e₀, he₀, hto⟩ := (hbm k).mem e he
    have hc₀ : e₀.committed = false := by rw [Entry.committed, ← hto.1]; exact hc
    rw [hto.2.2 hc₀]
    exact he₀
  · obtain ⟨e', he', hto⟩ := (hbm k).kept e he
    rw [← hto.2.2 hc]
    exact he'

lemma setLive (hlt : live t = some lt) (hown : lt'.own = lt.own)
    (hpages : ∀ k ∈ lt.tx.modifiedPages, k ∈ lt'.tx.modifiedPages) :
    Owners bm (update live t (some lt')) ended where
  marked k e he hc := by
    obtain ⟨hd, hk, howned⟩ := h.marked k e he hc
    refine ⟨hd, hk, howned.imp (fun t' lt₁ hlt₁ hv hown₁ => .inl ⟨t', ?_⟩) subset_rfl⟩
    exact exists_update hlt hlt₁ ⟨hv, hown₁⟩ fun ho => ⟨ho.1, hown ▸ ho.2⟩
  resident t' lt₁ k := by
    refine ForLive.keep (h.resident · · k) hlt (fun hold => ?_) t' lt₁
    rwa [hown]
  listed t' lt₁ k :=
    ForLive.keep (h.listed · · k) hlt (fun hold hown₁ => hpages k (hold (hown ▸ hown₁))) t' lt₁

lemma register (hlt : live t = none) (hown : ∀ k, lt.own k = none) :
    Owners bm (update live t (some lt)) ended where
  marked k e he hc := by
    obtain ⟨hd, hk, howned⟩ := h.marked k e he hc
    refine ⟨hd, hk, howned.imp (fun t' lt₁ hlt₁ hv hown₁ => .inl ⟨t', lt₁, ?_, hv, hown₁⟩) subset_rfl⟩
    exact update_of_absent hlt _ hlt₁
  resident t' lt₁ k := ForLive.setLive (h.resident · · k) (absurd (hown k)) t' lt₁
  listed t' lt₁ k := ForLive.setLive (h.listed · · k) (absurd (hown k)) t' lt₁

/-- A transaction ends: the frames with its mark are gone, or it was a reader; no others are gone. -/
lemma finish {ended' : Finset ℕ} (hsub : ended ⊆ ended')
    (hmem : ∀ k e, e ∈ bm'.entries k → e.committed = false →
      e ∈ bm.entries k ∧ ∀ lt, live t = some lt → lt.own k = some e.frame.data.page →
        e.frame.version = mark t → t ∈ ended')
    (hkept : ∀ k e, e ∈ bm.entries k → (∃ t', t' ≠ t ∧ (∃ lt, live t' = some lt) ∧
      e.frame.version = mark t') → e ∈ bm'.entries k) (hknows : ∀ k, bm.knows k → bm'.knows k) :
    Owners bm' (update live t none) ended' where
  marked k e he hc := by
    obtain ⟨he, hended⟩ := hmem k e he hc
    obtain ⟨hd, hk, howned⟩ := h.marked k e he hc
    refine ⟨hd, hknows k hk, howned.imp (fun t' lt hlt hv hown => ?_) hsub⟩
    by_cases ht : t' = t
    · subst ht
      exact .inr ⟨t', hended lt hlt hown hv, hv⟩
    · exact .inl ⟨t', lt, by rwa [Function.update_of_ne ht], hv, hown⟩
  resident t' lt k hlt hown := by
    rcases of_update hlt with ⟨-, ⟨⟩⟩ | ⟨ht, hlt⟩
    obtain ⟨e, he, hv⟩ := h.resident t' lt k hlt hown
    exact ⟨e, hkept k e he ⟨t', ht, ⟨lt, hlt⟩, hv⟩, hv⟩
  listed t' lt k := ForLive.finish (h.listed · · k) t' lt

/-- A transaction ends that owns nothing any more. -/
lemma finish_of_own_none (hlt : live t = some lt)
    (hown : ∀ k, lt.own k = none) : Owners bm (update live t none) ended := by
  refine h.finish subset_rfl (fun k e he _ => ⟨he, fun lt' hlt' hown' => ?_⟩) (fun k e he _ => he)
    fun _ => id
  rw [hlt, Option.some.injEq] at hlt'
  rw [← hlt', hown k] at hown'
  cases hown'

lemma finishReader : Owners bm (update live t none) (insert t ended) :=
  h.finish (Finset.subset_insert t ended) (fun _ _ he _ => ⟨he, fun _ _ _ _ => Finset.mem_insert_self t ended⟩)
    (fun _ _ he _ => he) fun _ => id

/-- `rollback_versions`. -/
lemma rollback (hids : IdsBelow live ended) (hlt : live t = some lt) :
    Owners (bm.rollbackVersions t) (update live t none) ended := by
  refine h.finish subset_rfl (fun k e he _ => ?_) (fun k e he howner => ?_) fun _ => id
  · rw [entries_rollbackVersions, mem_filter] at he
    exact ⟨he.1, fun _ _ _ hv => by simp [hv] at he⟩
  · obtain ⟨t', ht, ⟨lt', hlt'⟩, hv⟩ := howner
    rw [entries_rollbackVersions, mem_filter]
    refine ⟨he, ?_⟩
    rw [Bool.not_eq_true', decide_eq_false_iff_not, hv]
    exact fun hm => ht (mark_injOn (hids.below t' lt' hlt') (hids.below t lt hlt) hm)

/-- The owner's frames of one page change, and with them what it owns of that page. -/
lemma mapPage (hids : IdsBelow live ended) (hlt : live t = some lt)
    {g : Entry → Entry} (hg : ∀ e, e.frame.version ≠ mark t → g e = e)
    (hbm : ∀ k', bm'.entries k' = if k' = k then (bm.entries k).map g else bm.entries k')
    (hknows : ∀ k, bm.knows k → bm'.knows k) (hother : ∀ k', k' ≠ k → lt'.own k' = lt.own k')
    (hmarked : ∀ e ∈ bm.entries k, e.frame.version = mark t → (g e).committed = false →
      (g e).dirty = e.dirty ∧ (g e).frame.version = mark t ∧
        lt'.own k = some (g e).frame.data.page) (hresident : lt'.own k ≠ none → lt.own k ≠ none ∧
      ∀ e ∈ bm.entries k, e.frame.version = mark t → (g e).frame.version = mark t)
    (htx : lt'.tx = lt.tx) : Owners bm' (update live t (some lt')) ended where
  marked k' e' he' hc' := by
    rw [hbm] at he'
    by_cases hk : k' = k
    · subst hk
      rw [if_pos rfl, mem_map] at he'
      obtain ⟨e, he, rfl⟩ := he'
      by_cases hv : e.frame.version = mark t
      · obtain ⟨hd, hkn, -⟩ := h.marked k' e he (committed_of_version_mark hv)
        obtain ⟨hd', hv', hown'⟩ := hmarked e he hv hc'
        exact ⟨hd'.trans hd, hknows k' hkn, .inl ⟨t, lt', update_self .., hv', hown'⟩⟩
      · rw [hg e hv] at hc' ⊢
        obtain ⟨hd, hkn, howned⟩ := h.marked k' e he hc'
        exact ⟨hd, hknows k' hkn, howned.update_of_ne hv⟩
    · rw [if_neg hk] at he'
      obtain ⟨hd, hkn, howned⟩ := h.marked k' e' he' hc'
      refine ⟨hd, hknows k' hkn, howned.imp (fun t₁ lt₁ hlt₁ hv hown => .inl ⟨t₁, ?_⟩) subset_rfl⟩
      exact exists_update hlt hlt₁ ⟨hv, hown⟩ fun ho => ⟨ho.1, (hother k' hk).trans ho.2⟩
  resident t₁ lt₁ k' hlt₁ hown₁ := by
    rcases of_update hlt₁ with ⟨rfl, ⟨⟩⟩ | ⟨ht, hlt₁⟩
    · rw [hbm]
      by_cases hk : k' = k
      · subst hk
        obtain ⟨hown, hv'⟩ := hresident hown₁
        obtain ⟨e, he, hv⟩ := h.resident t₁ lt k' hlt hown
        rw [if_pos rfl]
        exact ⟨g e, mem_map_of_mem he, hv' e he hv⟩
      · rw [if_neg hk]
        exact h.resident t₁ lt k' hlt (hother k' hk ▸ hown₁)
    · obtain ⟨e, he, hv⟩ := h.resident t₁ lt₁ k' hlt₁ hown₁
      rw [hbm]
      by_cases hk : k' = k
      · subst hk
        rw [if_pos rfl]
        -- the marks of two live transactions differ, so `g` leaves this frame alone
        have hne : e.frame.version ≠ mark t := by
          rw [hv]
          exact fun hm => ht (mark_injOn (hids.below t₁ lt₁ hlt₁) (hids.below t lt hlt) hm)
        exact ⟨e, mem_map.2 ⟨e, he, hg e hne⟩, hv⟩
      · rw [if_neg hk]
        exact ⟨e, he, hv⟩
  listed t₁ lt₁ k' := by
    refine ForLive.keep (h.listed · · k') hlt (fun hold hown₁ => ?_) t₁ lt₁
    rw [htx]
    by_cases hk : k' = k
    · subst hk
      exact hold (hresident hown₁).1
    · exact hold (hother k' hk ▸ hown₁)

lemma write (hids : IdsBelow live ended) (hlt : live t = some lt) {page : Page}
    (hown : lt.own k ≠ none) (hown' : lt'.own = update lt.own k (some page))
    (htx : lt'.tx = lt.tx) :
    Owners (bm.writeFrame k t page) (update live t (some lt')) ended := by
  refine h.mapPage hids hlt (g := writeEntry t page) (fun e hv => if_neg hv)
    (fun k' => bm.entries_writeFrame k k' t page)
    (fun k' => (bm.knows_writeFrame k k' t page).2)
    (fun k' hk => by rw [hown', update_of_ne hk]) ?_
    (fun _ => ⟨hown, fun e _ hv => ?_⟩) htx
  · intro e he hv hc
    rw [writeEntry, if_pos hv]
    exact ⟨rfl, hv, by rw [hown', update_self]⟩
  · rw [writeEntry, if_pos hv]
    exact hv

/-- `update_timestamps`. -/
lemma stamp (hids : IdsBelow live ended) (hlt : live t = some lt) {ts : ℕ}
    (hts : ts < uncommittedBit) {lt' : LiveTx} (hown : lt'.own = update lt.own k none)
    (htx : lt'.tx = lt.tx) :
    Owners (bm.updateTimestamps k t ts) (update live t (some lt')) ended := by
  refine h.mapPage hids hlt (g := stampEntry t ts) (fun e hv => if_neg hv)
    (fun k' => bm.entries_updateTimestamps k k' t ts)
    (fun k' => (bm.knows_updateTimestamps k k' t ts).2)
    (fun k' hk => by rw [hown, update_of_ne hk]) ?_ (fun hne => ?_) htx
  · intro e he hv hc
    rw [stampEntry, if_pos hv, Entry.committed, isUncommitted_of_lt hts] at hc
    cases hc
  · rw [hown, update_self] at hne
    exact absurd rfl hne

lemma placeMarked {f : Frame} (lt' : LiveTx)
    (hbm : bm.PlacedFrame d k ⟨f, true⟩ bm' d') (hlt : live t = some lt) (hv : f.version = mark t)
    (hnone : lt.own k = none) (hknows : bm.knows k)
    (hown : lt'.own = update lt.own k (some f.data.page))
    (hpages : ∀ k' ∈ lt.tx.modifiedPages, k' ∈ lt'.tx.modifiedPages)
    (hk : k ∈ lt'.tx.modifiedPages) : Owners bm' (update live t (some lt')) ended where
  marked k' e he hc := by
    rcases hbm.mem k' e he with he | ⟨rfl, rfl⟩
    · obtain ⟨hd, hkn, howned⟩ := h.marked k' e he hc
      refine ⟨hd, (hbm.knows k').2 hkn, howned.imp (fun t₁ lt₁ hlt₁ hv hown₁ => .inl ⟨t₁, ?_⟩) subset_rfl⟩
      refine exists_update hlt hlt₁ ⟨hv, hown₁⟩ fun ho => ⟨ho.1, ?_⟩
      rw [hown]
      exact update_of_absent hnone _ ho.2
    · refine ⟨rfl, (hbm.knows k').2 hknows, .inl ⟨t, lt', update_self .., hv, ?_⟩⟩
      rw [hown, update_self]
  resident t₁ lt₁ k' hlt₁ hown₁ := by
    by_cases hnew : t₁ = t ∧ k' = k
    · obtain ⟨rfl, rfl⟩ := hnew
      exact ⟨_, hbm.new, hv⟩
    · obtain ⟨lt₀, hlt₀, hown₀⟩ : ∃ lt₀, live t₁ = some lt₀ ∧ lt₀.own k' ≠ none := by
        rcases of_update hlt₁ with ⟨rfl, ⟨⟩⟩ | ⟨-, hlt₁⟩
        · rw [hown, update_of_ne fun hk => hnew ⟨rfl, hk⟩] at hown₁
          exact ⟨lt, hlt, hown₁⟩
        · exact ⟨lt₁, hlt₁, hown₁⟩
      obtain ⟨e, he, hve⟩ := h.resident t₁ lt₀ k' hlt₀ hown₀
      have hc := committed_of_version_mark hve
      rcases hbm.kept k' e he with he' | ⟨-, hvictim⟩
      · exact ⟨e, he', hve⟩
      · rw [(hvictim (h.marked k' e he hc).1).1] at hc
        cases hc
  listed t₁ lt₁ k' := by
    refine ForLive.keep (h.listed · · k') hlt (fun hold hown₁ => ?_) t₁ lt₁
    by_cases hkk : k' = k
    · exact hkk ▸ hk
    · rw [hown, update_of_ne hkk] at hown₁
      exact hpages k' (hold hown₁)

end Owners

/-! ## Where the threads stand -/

namespace CommitStage

def merges : CommitStage → Bool
  | .merging _ | .installing _ _ _ | .loggingMerged _ _ => true
  | _ => false

/-- The stage leaves an own version of the page to be stamped. -/
def unstamped (k : PageKey) : CommitStage → Prop
  | .merging _ | .installing _ _ _ | .loggingMerged _ _ | .pinning _ => True
  | .stamping pages => k ∈ pages
  | _ => False

end CommitStage

/-- A commit under way: until it has left, it is the only one and has the latest timestamp; and
what it has not stamped yet is to be newer than everything committed. -/
structure CommitOk (hist : PageKey → List Image) (committer : Option ℕ) (now t : ℕ) (lt : LiveTx)
    (c : CommitState) : Prop where
  lock : c.stage ≠ .returning → committer = some t ∧ lt.tx.commitTs = now
  unstamped : ∀ k, lt.own k ≠ none → c.stage.unstamped k
  newest : ∀ k, (lt.own k ≠ none ∨ c.stage.merges = true) →
    ∀ v ∈ hist k, v.origin < lt.tx.commitTs
  listed : ∀ k page groups, c.stage = .installing k page groups → k ∈ lt.tx.modifiedPages

/-- Where the thread of a transaction stands. -/
def PhaseOk (bm : BufferManager) (hist : PageKey → List Image) (committer : Option ℕ) (now t : ℕ)
    (lt : LiveTx) : Prop :=
  match lt.phase with
  | .running => True
  | .pinning k => lt.own k = none
  | .creating k _ => lt.own k = none ∧ bm.knows k ∧ k ∈ lt.tx.modifiedPages
  | .committing c => CommitOk hist committer now t lt c

namespace PhaseOk

lemma running (h : lt.phase = .running) : PhaseOk bm hist committer now t lt := by
  rw [PhaseOk, h]
  trivial

lemma commitOk (h : PhaseOk bm hist committer now t lt) {c : CommitState}
    (hphase : lt.phase = .committing c) : CommitOk hist committer now t lt c := by
  rw [PhaseOk, hphase] at h
  exact h

lemma knows (h : PhaseOk bm hist committer now t lt) (hknows : ∀ k, bm.knows k → bm'.knows k) :
    PhaseOk bm' hist committer now t lt := by
  rw [PhaseOk] at h ⊢
  split at h
  · trivial
  · exact h
  · exact ⟨h.1, hknows _ h.2.1, h.2.2⟩
  · exact h

lemma other (h : PhaseOk bm hist committer now t lt) (hne : committer ≠ some t) :
    PhaseOk bm hist' committer' now' t lt := by
  rw [PhaseOk] at h ⊢
  split at h
  · trivial
  · exact h
  · exact h
  next c hphase =>
    have hstage : c.stage = .returning := not_not.1 fun hs => hne (h.lock hs).1
    refine ⟨fun hs => absurd hstage hs, h.unstamped, fun k hk => ?_, h.listed⟩
    rcases hk with hk | hk
    · have hfalse := h.unstamped k hk
      rw [hstage] at hfalse
      exact hfalse.elim
    · rw [hstage] at hk
      cases hk

end PhaseOk

namespace CommitOk

variable {c c' : CommitState} {stage : CommitStage}

variable (h : CommitOk hist committer now t lt c)

include h

lemma goMerge (hmerges : c.stage.merges = true) (hstage : stage.merges = true)
    (hlisted : ∀ k page groups, stage = .installing k page groups → k ∈ lt.tx.modifiedPages) :
    PhaseOk bm hist committer now t (lt.goOn c' stage) where
  lock _ := h.lock fun hs => by
    rw [hs] at hmerges
    cases hmerges
  unstamped k _ := by
    cases stage with
    | merging | installing | loggingMerged => trivial
    | _ => cases hstage
  newest k _ := h.newest k (.inr hmerges)
  listed := hlisted

lemma goPast (hlock : c.stage ≠ .returning)
    (hunstamped : ∀ k, lt.own k ≠ none → c.stage.unstamped k → stage.unstamped k)
    (hstage : stage.merges = false) : PhaseOk bm hist committer now t (lt.goOn c' stage) where
  lock _ := h.lock hlock
  unstamped k hk := hunstamped k hk (h.unstamped k hk)
  newest k hk := h.newest k <| hk.imp id fun hm => by
    rw [hstage] at hm
    cases hm
  listed := by
    rintro k page groups rfl
    cases hstage

lemma pushPage : CommitOk hist committer now t (lt.pushPage k) c where
  __ := h
  listed k page groups hs := mem_append_left _ (h.listed k page groups hs)

lemma setOwn (hmerges : c.stage.merges = true)
    {page : Page} : CommitOk hist committer now t (lt.setOwn k page) c where
  __ := h
  unstamped k _ := by
    cases hstage : c.stage with
    | merging | installing | loggingMerged => trivial
    | _ =>
      rw [hstage] at hmerges
      cases hmerges
  newest k _ := h.newest k (.inr hmerges)

end CommitOk

/-- Where the threads of all transactions stand. -/
def Phases (bm : BufferManager) (hist : PageKey → List Image) (committer : Option ℕ) (now : ℕ)
    (live : ℕ → Option LiveTx) : Prop :=
  ForLive live (PhaseOk bm hist committer now)

namespace Phases

lemma knows (h : Phases bm hist committer now live) (hknows : ∀ k, bm.knows k → bm'.knows k) :
    Phases bm' hist committer now live :=
  fun t lt hlt => (h t lt hlt).knows hknows

lemma commitStep (h : Phases bm hist committer now live)
    (hcommitter : ∀ t', committer = some t' → t' = t)
    (hnew : PhaseOk bm hist' committer' now' t lt') :
    Phases bm hist' committer' now' (update live t (some lt')) := by
  intro t₁ lt₁ hlt₁
  rcases of_update hlt₁ with ⟨rfl, ⟨⟩⟩ | ⟨ht, hlt₁⟩
  · exact hnew
  · exact (h t₁ lt₁ hlt₁).other fun hc => ht (hcommitter t₁ hc)

end Phases

/-! ## Ids -/

/-- Ids are given out in turn, and those that are not registered yet and those of ended readers are
not live. -/
structure IdsOk (live : ℕ → Option LiveTx) (beginning ended : Finset ℕ) (next : ℕ) : Prop where
  issued : ∀ t lt, live t = some lt → t < next ∧ lt.tx.txId = t
  pending : ∀ t ∈ beginning, t < next ∧ live t = none
  ended : ∀ t ∈ ended, t < next ∧ t ∉ beginning ∧ live t = none

namespace IdsOk

variable {beginning : Finset ℕ} {next : ℕ}

variable (h : IdsOk live beginning ended next)

include h

lemma alloc : IdsOk live (insert next beginning) ended (next + 1) where
  issued t lt hlt := ⟨(h.issued t lt hlt).1.trans (Nat.lt_succ_self _), (h.issued t lt hlt).2⟩
  pending t ht := by
    rcases Finset.mem_insert.1 ht with rfl | ht
    · refine ⟨Nat.lt_succ_self t, Option.eq_none_iff_forall_ne_some.2 fun lt hlt => ?_⟩
      exact absurd (h.issued t lt hlt).1 (lt_irrefl t)
    · exact ⟨(h.pending t ht).1.trans (Nat.lt_succ_self _), (h.pending t ht).2⟩
  ended t ht := by
    obtain ⟨hlt, hbegin, hnone⟩ := h.ended t ht
    exact ⟨hlt.trans (Nat.lt_succ_self _), by simp [hbegin, hlt.ne], hnone⟩

lemma register (ht : t ∈ beginning) (hid : lt.tx.txId = t) :
    IdsOk (update live t (some lt)) (beginning.erase t) ended next where
  issued := ForLive.setLive h.issued ⟨(h.pending t ht).1, hid⟩
  pending t₁ ht₁ := by
    rw [Finset.mem_erase] at ht₁
    rw [update_of_ne ht₁.1]
    exact h.pending t₁ ht₁.2
  ended t₁ ht₁ := by
    obtain ⟨hlt, hbegin, hnone⟩ := h.ended t₁ ht₁
    refine ⟨hlt, fun hmem => hbegin (Finset.mem_of_mem_erase hmem), ?_⟩
    rwa [update_of_ne]
    rintro rfl
    exact hbegin ht

lemma setLive (hlt : live t = some lt) (hid : lt'.tx.txId = lt.tx.txId) :
    IdsOk (update live t (some lt')) beginning ended next := by
  have hne : ∀ t₁, live t₁ = none → update live t (some lt') t₁ = none := by
    intro t₁ hnone
    rwa [update_of_ne]
    rintro rfl
    rw [hnone] at hlt
    cases hlt
  exact ⟨ForLive.keep h.issued hlt fun hold => ⟨hold.1, hid.trans hold.2⟩,
    fun t₁ ht₁ => ⟨(h.pending t₁ ht₁).1, hne t₁ (h.pending t₁ ht₁).2⟩,
    fun t₁ ht₁ => ⟨(h.ended t₁ ht₁).1, (h.ended t₁ ht₁).2.1, hne t₁ (h.ended t₁ ht₁).2.2⟩⟩

lemma finish : IdsOk (update live t none) beginning ended next := by
  have hne : ∀ t₁, live t₁ = none → update live t none t₁ = none := by
    intro t₁ hnone
    by_cases htt : t₁ = t
    · rw [htt, update_self]
    · rwa [update_of_ne htt]
  exact ⟨ForLive.finish h.issued,
    fun t₁ ht₁ => ⟨(h.pending t₁ ht₁).1, hne t₁ (h.pending t₁ ht₁).2⟩,
    fun t₁ ht₁ => ⟨(h.ended t₁ ht₁).1, (h.ended t₁ ht₁).2.1, hne t₁ (h.ended t₁ ht₁).2.2⟩⟩

lemma finishReader (hlt : live t = some lt) :
    IdsOk (update live t none) beginning (insert t ended) next where
  __ := h.finish
  ended t₁ ht₁ := by
    rcases Finset.mem_insert.1 ht₁ with rfl | ht₁
    · refine ⟨(h.issued t₁ lt hlt).1, fun hbegin => ?_, update_self ..⟩
      rw [(h.pending t₁ hbegin).2] at hlt
      cases hlt
    · exact h.finish.ended t₁ ht₁

end IdsOk

end LightningDB
