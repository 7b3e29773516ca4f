import Ctxmux.RetriedRuns

/-!
# The gathering loop above the daemon-wide limit

The loop passes a batch on as before: the pieces that were run and those that are gathered
are its pieces, in their order.
-/

namespace Ctxmux
namespace Durable

open Tiling

variable {f : Funding} {streams : RunId → ℕ → Byte} {s s' : Store} {a : Appender}
  {batch xs ys : Entries} {limits : OutputLimits}

theorem ran_rule (f : Funding) (streams : RunId → ℕ → Byte) :
    BatchRule f
      (fun replay => ∀ chunk ∈ replay.chunks, chunk.data.length ≤ maxTransactionPayloadBytes)
      (fun a total => Intact streams a.store ∧ Fed f.limits streams a.store total)
      fun a total result => Ran f streams a.store total result.1.store result.2 ∧
        (a.reclaimingOutput = [] → result.2 ≠ .ok false → result.1.reclaimingOutput = []) where
  left h := ⟨h.1,h.2.left⟩
  after h ht := ⟨ht.1.advanced.intact,h.2.after h.1 ht.1.advanced⟩
  live _ ht := ht.1.advanced.live
  empty h := ⟨.whole (.refl h.1),fun hcalm _ => hcalm⟩
  seq h ht hnext := ⟨hnext.1.after h.2.left.shaped ht.1.advanced,
    fun hcalm => hnext.2 (ht.2 hcalm fun heq => (by cases heq))⟩
  ends _ ht hne := ⟨ht.1.left hne _,ht.2⟩
  run h _ hsmall := (ran_transactions f streams).run ⟨h.1,h.2,hsmall,rfl⟩
  fails _ hfine herror := by
    obtain ⟨groups,hgroups⟩ := splitChunks_ok hfine
    rw [hgroups] at herror
    cases herror
  forget _ h := ⟨h,fun _ ht => ⟨ht.1,fun hcalm => ht.2 (by simp [hcalm])⟩⟩

/-- Whatever the verdicts and the limits are, a front of the batch is durable after the call,
and only a call that stopped on a retired page leaves a reclamation under way. -/
theorem appendBatch_ran (hi : Intact streams a.store)
    (hfed : Fed f.limits streams a.store (batch.live a.store.db)) (hblocks : Blocks batch) :
    Ran f streams a.store (batch.live a.store.db) (appendBatchWithShutdown f a batch).1.store
        (appendBatchWithShutdown f a batch).2 ∧
      (a.reclaimingOutput = [] → (appendBatchWithShutdown f a batch).2 ≠ .ok false →
        (appendBatchWithShutdown f a batch).1.reclaimingOutput = []) := by
  have hcut := (batch.live a.store.db).pieces_recut
  have hpositions := (batch.live a.store.db).pieces_positions
  obtain ⟨hran,hcalm⟩ := (ran_rule f streams).appendBatch hblocks
    ⟨hi,hfed.recut hi hcut hpositions⟩
  exact ⟨hran.recut hi hfed hcut hpositions,hcalm⟩

/-- The batch continues every Run from its durable head on. -/
def FromHeads (s : Store) (batch : Entries) : Prop :=
  ∀ row ∈ s.db.runs, ∀ chunk ∈ batch.chunksOf row.id, row.durableOutputBytes ≤ chunk.startByte

theorem Fed.reach_front {done : Entries} {row : RunRow} (h : Fed limits streams s batch)
    (hfront : Front done batch) (hr : row ∈ s.db.runs) :
    reach (reach row.durableOutputBytes (done.chunksOf row.id)) (batch.chunksOf row.id) =
      reach row.durableOutputBytes (batch.chunksOf row.id) := by
  obtain ⟨first,last,ht,hhead,_⟩ := h.tiles row hr
  obtain ⟨middle,_,hmiddle,hends,_⟩ := hfront.of_run ht (h.lengths hr)
  apply reach_between (le_reach _ _)
  rw [reach_tiles ht hhead]
  exact reach_le (le_max_left _ _) fun chunk hchunk =>
    ((hends chunk hchunk).trans hmiddle).trans (le_max_right _ _)

theorem Fed.growth_front {done : Entries} (h : Fed limits streams s batch)
    (hfront : Front done batch) :
    Entries.growth (done ++ batch) s.db.runs = batch.growth s.db.runs := by
  refine congrArg List.sum (List.map_congr_left fun row hr => ?_)
  unfold Entries.fresh
  rw [Entries.chunksOf_append,reach_append,h.reach_front hfront hr]

/-- What was durable of the batch is presented again before the rest: a batch of which nothing
was given up is fed once more. -/
theorem Fed.again {done : Entries} (h : Fed limits streams s batch) (hheads : FromHeads s batch)
    (hfront : Front done batch) (ha : Advanced limits streams s done s')
    (hkept : Replayable s'.db batch) : Fed limits streams s' batch where
  found item hitem := by
    obtain ⟨row,hrow⟩ := h.found item hitem
    obtain ⟨row',hrow',_⟩ := ha.run? hrow
    exact ⟨row',hrow'⟩
  running item hitem hne row' hrow' := by
    obtain ⟨row,hrow,honward⟩ := ha.run?_back hrow'
    rw [honward.stateKind]
    exact h.running item hitem hne row hrow
  rendered := h.rendered
  tiles row' hr' := by
    obtain ⟨row,hr,honward⟩ := forall₂_mem_right ha.rows hr'
    obtain ⟨first,last,ht,hhead,hlast⟩ := h.tiles row hr
    have hle := le_reach row.durableOutputBytes (done.chunksOf row.id)
    rw [honward.same,honward.head]
    exact ⟨first,last,ht,hhead.trans hle,hlast⟩
  data row' hr' := by
    obtain ⟨row,hr,honward⟩ := forall₂_mem_right ha.rows hr'
    rw [honward.same]
    exact h.data row hr
  room := by
    have hroom := h.room
    have hlength := ha.length
    have hgrowth := growth_onward batch ha.rows
    rw [h.growth_front hfront] at hgrowth
    rw [ha.file]
    omega
  order := by
    obtain ⟨rest,hrest⟩ := hfront.positions
    refine ⟨done.positions,rest,hrest.symm,fun x hx row' hrow' => ?_,fun x hx row' hrow' => ?_,
      fun hne => ?_⟩
    · obtain ⟨row,hrow,honward⟩ := ha.run?_back hrow'
      obtain ⟨_,hid⟩ := Database.run?_mem hrow
      obtain ⟨chunk,hchunk,hstart,hend⟩ := mem_positionsIn.mp (Entries.mem_positions.mp hx)
      obtain ⟨hlt,hsize⟩ := hfront.shaped.chunksOf x.1 chunk hchunk
      have hhead : x.2 < row'.durableOutputBytes := by
        have hle := endByte_le_reach row.durableOutputBytes hchunk
        rw [honward.head,hid]
        omega
      refine ⟨hhead,?_,honward.cut (hid ▸ List.ne_nil_of_mem hchunk)⟩
      have hwhole : x ∈ batch.positions := hrest ▸ List.mem_append_left _ hx
      obtain ⟨c,hc,hfirst,_⟩ := mem_positionsIn.mp (Entries.mem_positions.mp hwhole)
      obtain ⟨item,hitem,howner,hin⟩ := Entries.mem_chunksOf.mp hc
      have hfloor := hkept item hitem row' (howner ▸ hrow') c hin (by omega)
      omega
    · obtain ⟨row,hrow,honward⟩ := ha.run?_back hrow'
      obtain ⟨hr,hid⟩ := Database.run?_mem hrow
      obtain ⟨first,last,ht,_⟩ := h.tiles row hr
      obtain ⟨middle,_,_,hends,hlater⟩ := hfront.of_run ht (h.lengths hr)
      have hwhole : x ∈ batch.positions := hrest ▸ List.mem_append_right _ hx
      obtain ⟨c,hc,hfirst,_⟩ := mem_positionsIn.mp (Entries.mem_positions.mp hwhole)
      have hbeyond := hheads row hr c (hid ▸ hc)
      have hmiddle := hlater rest hrest.symm x.2 (hid ▸ hx)
      rw [honward.head]
      exact reach_le (by omega) fun chunk hchunk => (hends chunk hchunk).trans hmiddle
    · rcases ha.capped with hcapped | ⟨hnil,_⟩
      · exact hcapped
      · exact absurd (hnil ▸ Entries.positions_nil) hne

end Durable
end Ctxmux
