import Ctxmux.StaleGathered

/-!
# A batch presented again

A call that failed on a transient error has made a front of the batch durable, and the retry
presents the whole batch once more. If no chunk was given up meanwhile, the batch feeds the
store again, and what it leaves is what it would have left of the store before the first call.
-/

namespace Ctxmux
namespace Durable

open Tiling

variable {f : Funding} {limits : OutputLimits} {streams : RunId → ℕ → Byte} {s s' : Store}
  {a : Appender} {batch done : Entries} {row : RunRow}

theorem reach_eq_max (head : ℕ) (chunks : List OutputChunk) :
    reach head chunks = max head (reach 0 chunks) := by
  induction chunks generalizing head with
  | nil => exact (Nat.max_zero head).symm
  | cons chunk chunks ih =>
    show reach (max head chunk.endByte) chunks = max head (reach (max 0 chunk.endByte) chunks)
    rw [ih (max head chunk.endByte),ih (max 0 chunk.endByte)]
    omega

theorem reach_between {head head' : ℕ} {chunks : List OutputChunk} (hle : head ≤ head')
    (hreach : head' ≤ reach head chunks) : reach head' chunks = reach head chunks := by
  rw [reach_eq_max head']
  rw [reach_eq_max head] at hreach ⊢
  omega

/-- A front of the batch followed by the whole batch extends a row as the batch does. -/
theorem Part.extend (limit : ℕ) (h : Part s done batch) (hr : row ∈ s.db.runs) :
    batch.extend limit (done.extend limit row) = batch.extend limit row := by
  obtain ⟨hnone,hle⟩ := h row hr
  obtain ⟨hfloor,hfloor'⟩ := Entries.extend_floor limit done row
  have hhead := Entries.extend_head limit done row
  have hle' := le_reach row.durableOutputBytes (done.chunksOf row.id)
  have hreach : reach (done.extend limit row).durableOutputBytes (batch.chunksOf row.id) =
      reach row.durableOutputBytes (batch.chunksOf row.id) :=
    reach_between (by omega) (by omega)
  have hge := le_reach (done.extend limit row).durableOutputBytes (batch.chunksOf row.id)
  rw [Entries.extend_eq limit batch (done.extend limit row),Entries.extend_eq limit batch row,
    Entries.extend_id]
  cases htruncated : batch.truncatedOf row.id with
  | none =>
    dsimp only
    rw [Entries.extend_eq,hnone htruncated]
  | some truncated =>
    have hsame : max (done.extend limit row).durableFirstAvailableByte
        (reach row.durableOutputBytes (batch.chunksOf row.id)-limit) =
        max row.durableFirstAvailableByte
          (reach row.durableOutputBytes (batch.chunksOf row.id)-limit) := by
      omega
    dsimp only
    unfold RunRow.extend
    dsimp only
    rw [hreach,hsame,Entries.extend_frame limit done row]

/-- No chunk begins below what is durable of its Run without being kept from there on. -/
def Replayable (db : Database) (batch : Entries) : Prop :=
  ∀ item ∈ batch, ∀ row, db.run? item.1 = some row → ∀ chunk ∈ item.2.chunks,
    chunk.startByte < row.durableOutputBytes → row.durableFirstAvailableByte ≤ chunk.startByte

theorem replayable_iff {db : Database} : Replayable db batch ↔ ¬Stale db batch := by
  constructor
  · rintro h ⟨_,chunk,row,⟨item,hitem,rfl,hchunk⟩,hrow,hhead,hfloor⟩
    exact absurd (h item hitem row hrow chunk hchunk hhead) (not_le.mpr hfloor)
  · intro h item hitem row hrow chunk hchunk hhead
    by_contra hfloor
    exact h ⟨item.1,chunk,row,⟨item,hitem,rfl,hchunk⟩,hrow,hhead,not_le.mp hfloor⟩

/-- The bytes that are left to add once a front was added. -/
theorem Part.fresh (limit : ℕ) (h : Part s done batch) (hr : row ∈ s.db.runs) :
    done.fresh row+batch.fresh (done.extend limit row) = batch.fresh row := by
  obtain ⟨_,hle⟩ := h row hr
  have hhead := Entries.extend_head limit done row
  have hle' := le_reach row.durableOutputBytes (done.chunksOf row.id)
  have hreach : reach (done.extend limit row).durableOutputBytes (batch.chunksOf row.id) =
      reach row.durableOutputBytes (batch.chunksOf row.id) :=
    reach_between (by omega) (by omega)
  unfold Entries.fresh
  rw [Entries.extend_id,hreach]
  omega

theorem Part.growth (limit : ℕ) (h : Part s done batch) :
    done.growth s.db.runs+batch.growth (s.db.runs.map (done.extend limit)) =
      batch.growth s.db.runs := by
  unfold Entries.growth
  rw [List.map_map,← List.sum_map_add]
  exact congrArg List.sum (List.map_congr_left fun row hr => h.fresh limit hr)

/-- What was presented is presented again, if nothing of it was given up. -/
theorem Part.presents {stream : ℕ → Byte} (h : Part s done batch) (hi : Intact streams s')
    (ht : Taken limits streams s done s') (hkept : Replayable s'.db batch) (hr : row ∈ s.db.runs)
    (hp : Presents limits.durableRunOutputBytes stream row (batch.chunksOf row.id)) :
    Presents limits.durableRunOutputBytes stream (done.extend limits.durableRunOutputBytes row)
      (batch.chunksOf row.id) := by
  obtain ⟨first,last,htiles,hfloor,hhead,hbound⟩ := hp.tiles
  obtain ⟨hnone,hle⟩ := h row hr
  have hmem : done.extend limits.durableRunOutputBytes row ∈ s'.db.runs := by
    rw [ht.runs]
    exact List.mem_map_of_mem hr
  have hwindow := (hi.windows _ hmem)
  have hwithin := hwindow.tiles.le
  have hend := hwindow.bound
  have hhead' := Entries.extend_head limits.durableRunOutputBytes done row
  have hge := le_reach row.durableOutputBytes (done.chunksOf row.id)
  obtain ⟨hlow,hhigh⟩ := Entries.extend_floor limits.durableRunOutputBytes done row
  refine ⟨?_,hp.data⟩
  cases hchunks : batch.chunksOf row.id with
  | nil =>
    exact ⟨_,_,rfl,by omega,le_rfl,hend⟩
  | cons chunk chunks =>
    rw [hchunks] at htiles
    have hstart : chunk.startByte = first := htiles.1
    refine ⟨first,last,htiles,?_,by omega,hbound⟩
    by_cases hbelow : first < (done.extend limits.durableRunOutputBytes row).durableOutputBytes
    · have hin : chunk ∈ batch.chunksOf row.id := by rw [hchunks]; exact List.mem_cons_self
      obtain ⟨item,hitem,hid,hchunk⟩ := Entries.mem_chunksOf.mp hin
      have hrow' : s'.db.run? item.1 = some (done.extend limits.durableRunOutputBytes row) := by
        rw [hid,← Entries.extend_id limits.durableRunOutputBytes done row]
        exact Database.run?_of_mem hi.sound.ids hmem
      have hkept := hkept item hitem _ hrow' chunk hchunk (by omega)
      cases htouched : done.truncatedOf row.id with
      | none =>
        have hsame : done.extend limits.durableRunOutputBytes row = row := by
          rw [Entries.extend_eq,htouched]
        rw [hsame]
        exact hfloor
      | some truncated =>
        have hcut : (done.extend limits.durableRunOutputBytes row).durableOutputBytes-
            limits.durableRunOutputBytes ≤
            (done.extend limits.durableRunOutputBytes row).durableFirstAvailableByte := by
          rw [Entries.extend_eq,htouched]
          exact le_max_right _ _
        omega
    · omega

theorem Part.feeds (h : Part s done batch) (hw : ∀ r ∈ s.db.runs, Window s.db r)
    (ht : Taken limits streams s done s') (hfeeds : Feeds limits streams s batch)
    (hkept : Replayable s'.db batch) : Feeds limits streams s' batch where
  found item hitem := by
    obtain ⟨row,hrow⟩ := hfeeds.found item hitem
    exact ⟨_,by rw [ht.run?,hrow]; rfl⟩
  running item hitem hne row' hrow' := by
    rw [ht.run?] at hrow'
    obtain ⟨row,hrow,rfl⟩ := Option.map_eq_some_iff.mp hrow'
    rw [Entries.extend_stateKind]
    exact hfeeds.running item hitem hne row hrow
  rendered := hfeeds.rendered
  presents row' hr' := by
    rw [ht.runs] at hr'
    obtain ⟨row,hr,rfl⟩ := List.mem_map.mp hr'
    rw [Entries.extend_id]
    exact h.presents ht.intact ht hkept hr (hfeeds.presents row hr)
  total := by
    have hbytes := ht.bytes_le hw
    have htotal := hfeeds.total
    have hgrowth := h.growth limits.durableRunOutputBytes
    rw [← ht.runs] at hgrowth
    omega
  room := by
    have hroom := hfeeds.room
    have hlength := ht.length
    have hgrowth := h.growth limits.durableRunOutputBytes
    rw [← ht.runs] at hgrowth
    rw [ht.file]
    omega

/-- The window takes every transaction, and none fails. -/
def Fits (f : Funding) : Prop := ∀ n batch, f.output n batch = .fits

/-- What a call meets when no reclamation is under way. -/
structure Idle (f : Funding) (streams : RunId → ℕ → Byte) (a : Appender) (batch : Entries) :
    Prop where
  intact : Intact streams a.store
  feeds : Feeds f.limits streams a.store batch
  calm : a.reclaimingOutput = []

theorem Idle.left {xs ys : Entries} (h : Idle f streams a (xs ++ ys)) : Idle f streams a xs :=
  ⟨h.intact,h.feeds.left,h.calm⟩

theorem Idle.recut {b : Entries} (h : Idle f streams a batch) (hcut : Recut b batch) :
    Idle f streams a b :=
  ⟨h.intact,h.feeds.recut hcut,h.calm⟩

theorem reclaimBefore_calm (f : Funding) (batch : Entries) (hcalm : a.reclaimingOutput = []) :
    a.reclaimBefore f batch = (a,.ok true) := by
  unfold Appender.reclaimBefore
  split
  · rw [hcalm]
    rfl
  · rfl

theorem transaction_fits (hfits : Fits f) (h : Idle f streams a batch)
    (hsmall : batch.payload ≤ maxTransactionPayloadBytes) :
    (appendTransactionWithShutdown f a batch none).2 = .ok true ∧
      (appendTransactionWithShutdown f a batch none).1.reclaimingOutput = [] := by
  obtain ⟨s₁,_,hstage⟩ := h.feeds.stageOutput h.intact f.codec none
  have honce : (a.appendTransactionOnce f batch none).2 = .ok true ∧
      (a.appendTransactionOnce f batch none).1.reclaimingOutput = [] := by
    unfold Appender.appendTransactionOnce
    rw [if_neg (not_lt.mpr hsmall),hstage,hfits]
    exact ⟨rfl,h.calm⟩
  unfold appendTransactionWithShutdown
  rw [reclaimBefore_calm f batch h.calm,andThen_of_true rfl]
  dsimp only
  rw [honce.1]
  exact ⟨rfl,honce.2⟩

theorem fits_rule (streams : RunId → ℕ → Byte) (hfits : Fits f) :
    BatchRule f
      (fun replay => ∀ chunk ∈ replay.chunks, chunk.data.length ≤ maxTransactionPayloadBytes)
      (Idle f streams)
      fun a total result => Outcome f streams a.store total none result.1.store result.2 ∧
        result.2 = .ok true ∧ result.1.reclaimingOutput = [] where
  left h := h.left
  after h ht := ⟨ht.1.taken.intact,h.feeds.after h.intact.windows ht.1.taken,ht.2.2⟩
  live _ ht := ht.1.taken.live
  empty h := ⟨.whole (Taken.refl h.intact) rfl,rfl,h.calm⟩
  seq _ ht hnext := ⟨Outcome.after ht.1.taken hnext.1,hnext.2⟩
  ends _ ht hne := absurd ht.2.1 hne
  run h _ hsmall :=
    ⟨appendTransaction_outcome none h.intact h.feeds,transaction_fits hfits h hsmall⟩
  fails _ hfine herror := by
    obtain ⟨groups,hgroups⟩ := splitChunks_ok hfine
    rw [hgroups] at herror
    cases herror
  forget _ h := ⟨⟨h.intact,h.feeds,by simp [h.calm]⟩,fun _ ht => ht⟩

/-- When the storage operations succeed and no reclamation is under way, a batch that feeds
the store goes through. -/
theorem appendBatch_fits (hfits : Fits f) (h : Idle f streams a (batch.live a.store.db))
    (hblocks : Blocks batch) : (appendBatchWithShutdown f a batch).2 = .ok true :=
  ((fits_rule streams hfits).appendBatch hblocks (h.recut (Entries.pieces_recut _))).2.1

end Durable
end Ctxmux
