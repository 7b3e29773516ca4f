import Ctxmux.BatchRecut

/-!
# Staging a batch

A store that a batch feeds accepts the whole of it in one transaction, whatever was coalesced:
every Run's row is extended by its part of the batch, and the store that is left is fed by
whatever followed.
-/

namespace Ctxmux
namespace Durable

open Tiling

variable {codec : Codec} {limits : OutputLimits} {streams : RunId → ℕ → Byte} {s s' : Store}
  {row : RunRow} {id : RunId} {xs ys batch : Entries} {limit : ℕ} {stream : ℕ → Byte}

/-- The batch presents bytes of the streams that the store's Runs do not lack a byte of, and
that its daemon-wide limit, its integers and its file offsets hold. -/
structure Feeds (limits : OutputLimits) (streams : RunId → ℕ → Byte) (s : Store) (batch : Entries) :
    Prop where
  found : ∀ item ∈ batch, ∃ row, s.db.run? item.1 = some row
  running : ∀ item ∈ batch, item.2.chunks ≠ [] → ∀ row, s.db.run? item.1 = some row →
    row.stateKind = .running
  rendered : ∀ item ∈ batch, item.2.firstAvailableByte = 0
  presents : ∀ row ∈ s.db.runs,
    Presents limits.durableRunOutputBytes (streams row.id) row (batch.chunksOf row.id)
  total : (s.db.runs.map (·.replayBytes)).sum+batch.growth s.db.runs ≤ limits.durableReplayBytes
  room : s.files.len s.db.replayFile+batch.growth s.db.runs ≤ i64Max

/-- The store after the appends of a batch. -/
structure Taken (limits : OutputLimits) (streams : RunId → ℕ → Byte) (s : Store) (batch : Entries)
    (s' : Store) : Prop extends Grew streams s s' (batch.growth s.db.runs) where
  runs : s'.db.runs = s.db.runs.map (batch.extend limits.durableRunOutputBytes)

theorem Entries.growth_nil (runs : List RunRow) : Entries.growth [] runs = 0 := by
  have hfresh : ∀ row ∈ runs, Entries.fresh [] row = 0 := fun row _ => Nat.sub_self _
  unfold growth
  rw [List.map_congr_left hfresh,List.map_const',List.sum_replicate,smul_zero]

theorem Entries.extend_nil (limit : ℕ) (row : RunRow) : Entries.extend limit [] row = row := rfl

theorem Taken.refl (h : Intact streams s) : Taken limits streams s [] s where
  intact := h
  file := rfl
  length := by rw [Entries.growth_nil,Nat.add_zero]
  runs := ((List.map_congr_left fun row _ => Entries.extend_nil _ row).trans (List.map_id' _)).symm

theorem Taken.trans {s'' : Store} (h : Taken limits streams s xs s')
    (h' : Taken limits streams s' ys s'') : Taken limits streams s (xs ++ ys) s'' where
  intact := h'.intact
  file := h'.file.trans h.file
  length := by
    have hlength := h'.length
    rw [h.file,h.length,h.runs] at hlength
    rw [hlength,Entries.growth_append limits.durableRunOutputBytes,Nat.add_assoc]
  runs := by
    rw [h'.runs,h.runs,List.map_map]
    exact List.map_congr_left fun row _ => (Entries.extend_append _ xs ys row).symm

theorem Taken.run? (h : Taken limits streams s batch s') (id : RunId) :
    s'.db.run? id = (s.db.run? id).map (batch.extend limits.durableRunOutputBytes) :=
  Database.run?_map (fun row => Entries.extend_id _ batch row) h.runs id

theorem Entries.fresh_le (xs ys : Entries) (row : RunRow) : xs.fresh row ≤ fresh (xs ++ ys) row := by
  rw [fresh_append 0]
  exact Nat.le_add_right _ _

theorem Entries.growth_le (runs : List RunRow) :
    xs.growth runs ≤ growth (xs ++ ys) runs := by
  rw [growth_append 0]
  exact Nat.le_add_right _ _

theorem Presents.left {xs ys : List OutputChunk} (h : Presents limit stream row (xs ++ ys)) :
    Presents limit stream row xs := by
  obtain ⟨first,last,ht,hfloor,hhead,hbound⟩ := h.tiles
  obtain ⟨m,hx,hy⟩ := Tiles.append.mp ht
  have hle := hy.le
  exact ⟨⟨first,m,hx,hfloor,hhead,by omega⟩,fun c hc => h.data c (List.mem_append_left _ hc)⟩

theorem Presents.after (h : Presents limit stream row ((xs ++ ys : Entries).chunksOf row.id)) :
    Presents limit stream (xs.extend limit row) (ys.chunksOf row.id) := by
  rw [Entries.chunksOf_append] at h
  obtain ⟨first,last,ht,hfloor,hhead,hbound⟩ := h.tiles
  obtain ⟨m,hx,hy⟩ := Tiles.append.mp ht
  have hxle := hx.le
  obtain ⟨_,hfloor'⟩ := Entries.extend_floor limit xs row
  have hhead' := Entries.extend_head limit xs row
  rw [reach_tiles hx hhead] at hhead'
  refine ⟨⟨m,last,hy,?_,?_,hbound⟩,fun c hc => h.data c (List.mem_append_right _ hc)⟩
  · omega
  · omega

theorem Feeds.left (h : Feeds limits streams s (xs ++ ys)) :
    Feeds limits streams s xs where
  found item hitem := h.found item (List.mem_append_left _ hitem)
  running item hitem := h.running item (List.mem_append_left _ hitem)
  rendered item hitem := h.rendered item (List.mem_append_left _ hitem)
  presents row hr := by
    have hp := h.presents row hr
    rw [Entries.chunksOf_append] at hp
    exact hp.left
  total := (Nat.add_le_add_left (Entries.growth_le _) _).trans h.total
  room := (Nat.add_le_add_left (Entries.growth_le _) _).trans h.room

theorem Taken.bytes_le (hw : ∀ r ∈ s.db.runs, Window s.db r) (h : Taken limits streams s batch s') :
    (s'.db.runs.map (·.replayBytes)).sum ≤
      (s.db.runs.map (·.replayBytes)).sum+batch.growth s.db.runs := by
  unfold Entries.growth
  rw [h.runs,List.map_map,← List.sum_map_add]
  refine List.sum_le_sum fun row hr => ?_
  have hmem : batch.extend limits.durableRunOutputBytes row ∈ s'.db.runs := by
    rw [h.runs]
    exact List.mem_map_of_mem hr
  have hbytes := (hw row hr).bytes
  have hbytes' := (h.intact.windows _ hmem).bytes
  have hle := (hw row hr).tiles.le
  obtain ⟨hfloor,_⟩ := Entries.extend_floor limits.durableRunOutputBytes batch row
  have hhead := Entries.extend_head limits.durableRunOutputBytes batch row
  have hreach := le_reach row.durableOutputBytes (batch.chunksOf row.id)
  unfold Entries.fresh
  simp only [Function.comp]
  omega

theorem Feeds.after (h : Feeds limits streams s (xs ++ ys)) (hw : ∀ r ∈ s.db.runs, Window s.db r)
    (ht : Taken limits streams s xs s') :
    Feeds limits streams s' ys where
  found item hitem := by
    obtain ⟨row,hrow⟩ := h.found item (List.mem_append_right _ hitem)
    exact ⟨_,by rw [ht.run?,hrow]; rfl⟩
  running item hitem hne row' hrow' := by
    rw [ht.run?] at hrow'
    obtain ⟨row,hrow,rfl⟩ := Option.map_eq_some_iff.mp hrow'
    rw [Entries.extend_stateKind]
    exact h.running item (List.mem_append_right _ hitem) hne row hrow
  rendered item hitem := h.rendered item (List.mem_append_right _ hitem)
  presents row' hr' := by
    rw [ht.runs] at hr'
    obtain ⟨row,hr,rfl⟩ := List.mem_map.mp hr'
    rw [Entries.extend_id]
    exact (h.presents row hr).after
  total := by
    have hbytes := ht.bytes_le hw
    have htotal := h.total
    rw [Entries.growth_append limits.durableRunOutputBytes,← ht.runs] at htotal
    omega
  room := by
    have hroom := h.room
    have hlength := ht.length
    rw [Entries.growth_append limits.durableRunOutputBytes,← ht.runs] at hroom
    rw [ht.file]
    omega

/-- A recut batch extends every Run that the batch is presented to alike. -/
theorem Recut.extend {a b : Entries} (h : Recut b a)
    (hp : Presents limit stream row (a.chunksOf row.id)) :
    Presents limit stream row (b.chunksOf row.id) ∧ b.extend limit row = a.extend limit row ∧
      b.fresh row = a.fresh row := by
  obtain ⟨first,last,ht,hfloor,hhead,hbound⟩ := hp.tiles
  have hlength : ∀ chunk ∈ a.chunksOf row.id, chunk.data.length = chunk.endByte-chunk.startByte :=
    fun chunk hc => by rw [hp.data chunk hc,length_slice]
  have ht' := h.tiles row.id first last ht hlength
  have hreach : reach row.durableOutputBytes (b.chunksOf row.id) =
      reach row.durableOutputBytes (a.chunksOf row.id) :=
    (reach_tiles ht' hhead).trans (reach_tiles ht hhead).symm
  refine ⟨⟨⟨first,last,ht',hfloor,hhead,hbound⟩,h.data row.id stream fun chunk hc =>
    ⟨(ht.mem_bounds hc).2.1,hp.data chunk hc⟩⟩,?_,?_⟩
  · rw [Entries.extend_eq,Entries.extend_eq,h.truncated]
    cases a.truncatedOf row.id with
    | none => rfl
    | some truncated => exact RunRow.extend_congr hreach rfl
  · unfold Entries.fresh
    rw [hreach]

theorem Entries.mem_chunksOf {id : RunId} {chunk : OutputChunk} :
    chunk ∈ batch.chunksOf id ↔ ∃ item ∈ batch, item.1 = id ∧ chunk ∈ item.2.chunks := by
  simp only [chunksOf,replaysOf,List.mem_flatMap,List.mem_map,List.mem_filter,decide_eq_true_eq]
  constructor
  · rintro ⟨_,⟨item,⟨hitem,hid⟩,rfl⟩,hc⟩
    exact ⟨item,hitem,hid,hc⟩
  · rintro ⟨item,hitem,hid,hc⟩
    exact ⟨_,⟨item,⟨hitem,hid⟩,rfl⟩,hc⟩

theorem Feeds.recut {a b : Entries} (h : Feeds limits streams s a) (hcut : Recut b a) :
    Feeds limits streams s b := by
  have hnamed : ∀ item ∈ b, ∃ item' ∈ a, item'.1 = item.1 := by
    intro item hitem
    by_contra hnone
    push Not at hnone
    have habsent := Entries.truncatedOf_eq_none.mpr hnone
    rw [← hcut.truncated item.1] at habsent
    exact Entries.truncatedOf_eq_none.mp habsent item hitem rfl
  have hgrowth : b.growth s.db.runs = a.growth s.db.runs :=
    congrArg List.sum (List.map_congr_left fun row hr => (hcut.extend (h.presents row hr)).2.2)
  refine ⟨fun item hitem => ?_,fun item hitem hne row hrow => ?_,hcut.rendered h.rendered,
    fun row hr => (hcut.extend (h.presents row hr)).1,hgrowth ▸ h.total,hgrowth ▸ h.room⟩
  · obtain ⟨item',hitem',hid⟩ := hnamed item hitem
    exact hid ▸ h.found item' hitem'
  · obtain ⟨chunk,hchunk⟩ := List.exists_mem_of_ne_nil _ hne
    obtain ⟨hmem,hid⟩ := Database.run?_mem hrow
    have hsome : a.chunksOf item.1 ≠ [] := by
      intro hnil
      have ht := hcut.tiles item.1 0 0 (by rw [hnil]; rfl) (by simp [hnil])
      have hin : chunk ∈ b.chunksOf item.1 := Entries.mem_chunksOf.mpr ⟨item,hitem,rfl,hchunk⟩
      have := ht.mem_bounds hin
      omega
    obtain ⟨chunk',hchunk'⟩ := List.exists_mem_of_ne_nil _ hsome
    obtain ⟨item',hitem',hid',hin⟩ := Entries.mem_chunksOf.mp hchunk'
    exact h.running item' hitem' (List.ne_nil_of_mem hin) row (hid' ▸ hrow)

theorem Taken.recut {a b : Entries} (h : Taken limits streams s b s') (hcut : Recut b a)
    (hfeeds : Feeds limits streams s a) : Taken limits streams s a s' := by
  have hgrowth : b.growth s.db.runs = a.growth s.db.runs :=
    congrArg List.sum (List.map_congr_left fun row hr => (hcut.extend (hfeeds.presents row hr)).2.2)
  refine ⟨⟨h.intact,h.file,hgrowth ▸ h.length⟩,?_⟩
  rw [h.runs]
  exact List.map_congr_left fun row hr => (hcut.extend (hfeeds.presents row hr)).2.1

/-- Merging one more replay, into a batch that names every Run once. -/
theorem mergeReplay_chunksOf (id : RunId) (replay : OutputReplay) {merged : Entries}
    (hids : (merged.map (·.1)).Nodup) (other : RunId) :
    Entries.chunksOf (mergeReplay id replay merged) other =
        merged.chunksOf other ++ (if id = other then replay.chunks else []) ∧
      Entries.truncatedOf (mergeReplay id replay merged) other =
        (if id = other then some replay.truncated else merged.truncatedOf other) := by
  induction merged with
  | nil =>
    rw [show mergeReplay id replay [] = [(id,replay)] from rfl,Entries.chunksOf_single,
      Entries.truncatedOf_single]
    exact ⟨rfl,rfl⟩
  | cons item merged ih =>
    obtain ⟨hnot,hids⟩ := List.nodup_cons.mp hids
    obtain ⟨hchunks,htruncated⟩ := ih hids
    unfold mergeReplay
    by_cases heq : item.1 = id
    · rw [if_pos heq,Entries.chunksOf_cons,Entries.truncatedOf_cons,Entries.chunksOf_cons,
        Entries.truncatedOf_cons,heq]
      by_cases hother : id = other
      · have habsent : Entries.truncatedOf merged other = none :=
          Entries.truncatedOf_eq_none.mpr fun x hx hxid =>
            hnot (List.mem_map.mpr ⟨x,hx,by dsimp only; rw [hxid,heq,hother]⟩)
        have hnone : Entries.chunksOf merged other = [] := by
          refine List.eq_nil_iff_forall_not_mem.mpr fun c hc => ?_
          obtain ⟨x,hx,hxid,_⟩ := Entries.mem_chunksOf.mp hc
          exact Entries.truncatedOf_eq_none.mp habsent x hx hxid
        simp [hother,habsent,hnone]
      · simp [hother]
    · rw [if_neg heq,Entries.chunksOf_cons,Entries.truncatedOf_cons,Entries.chunksOf_cons,
        Entries.truncatedOf_cons,hchunks,htruncated]
      refine ⟨by rw [List.append_assoc],?_⟩
      by_cases hother : id = other
      · simp [hother]
      · simp [hother]

theorem mergeReplay_rendered (replay : OutputReplay) {merged : Entries}
    (hmerged : ∀ item ∈ merged, item.2.firstAvailableByte = 0) (hfirst : replay.firstAvailableByte = 0) :
    ∀ item ∈ mergeReplay id replay merged, item.2.firstAvailableByte = 0 := by
  induction merged with
  | nil =>
    intro item hitem
    rw [List.mem_singleton.mp hitem]
    exact hfirst
  | cons x merged ih =>
    intro item hitem
    unfold mergeReplay at hitem
    split at hitem
    · rcases List.mem_cons.mp hitem with rfl | hitem
      · exact hfirst
      · exact hmerged item (by simp [hitem])
    · rcases List.mem_cons.mp hitem with rfl | hitem
      · exact hmerged _ (by simp)
      · exact ih (fun y hy => hmerged y (by simp [hy])) item hitem

theorem coalesceBatch_recut (batch : Entries) : Recut (coalesceBatch batch) batch := by
  have hfold : ∀ merged : Entries, (merged.map (·.1)).Nodup →
      (∀ id, Entries.chunksOf (batch.foldl (fun m item => mergeReplay item.1 item.2 m) merged) id =
          merged.chunksOf id ++ batch.chunksOf id ∧
        Entries.truncatedOf (batch.foldl (fun m item => mergeReplay item.1 item.2 m) merged) id =
          (batch.truncatedOf id).or (merged.truncatedOf id)) ∧
      ((∀ item ∈ merged, item.2.firstAvailableByte = 0) →
        (∀ item ∈ batch, item.2.firstAvailableByte = 0) →
        ∀ item ∈ batch.foldl (fun m item => mergeReplay item.1 item.2 m) merged,
          item.2.firstAvailableByte = 0) := by
    induction batch with
    | nil => exact fun merged _ => ⟨fun id => ⟨by simp [Entries.chunksOf,Entries.replaysOf],by
        simp [Entries.truncatedOf,Entries.replaysOf]⟩,fun h _ => h⟩
    | cons item batch ih =>
      intro merged hids
      have hmerged : ((mergeReplay item.1 item.2 merged).map (·.1)).Nodup := by
        rw [mergeReplay_ids]
        split
        · exact hids
        · rename_i hnot
          exact List.nodup_append.mpr ⟨hids,List.nodup_singleton _,by
            intro a ha b hb heq
            rw [List.mem_singleton.mp hb] at heq
            exact hnot (heq ▸ ha)⟩
      obtain ⟨hsame,hrendered⟩ := ih _ hmerged
      refine ⟨fun id => ?_,fun hm hb => hrendered (mergeReplay_rendered item.2 hm (hb item (by simp)))
        fun x hx => hb x (by simp [hx])⟩
      obtain ⟨hchunks,htruncated⟩ := hsame id
      obtain ⟨hmchunks,hmtruncated⟩ := mergeReplay_chunksOf item.1 item.2 hids id
      rw [List.foldl_cons,hchunks,htruncated,hmchunks,hmtruncated,Entries.chunksOf_cons,
        Entries.truncatedOf_cons]
      refine ⟨by rw [List.append_assoc],?_⟩
      split
      · cases Entries.truncatedOf batch id <;> rfl
      · cases Entries.truncatedOf batch id <;> rfl
  obtain ⟨hsame,hrendered⟩ := hfold [] List.nodup_nil
  have hchunks : ∀ id, Entries.chunksOf (coalesceBatch batch) id = batch.chunksOf id := fun id =>
    (hsame id).1
  refine ⟨fun h => hrendered (by simp) h,fun id first last h _ => hchunks id ▸ h,
    fun id stream h chunk hc => ?_,fun id => ?_⟩
  · rw [hchunks] at hc
    exact (h chunk hc).2
  · refine (hsame id).2.trans ?_
    simp [Entries.truncatedOf,Entries.replaysOf]

theorem sum_ite_id {runs : List RunRow} (hids : (runs.map (·.id)).Nodup) (hr : row ∈ runs) (n : ℕ) :
    (runs.map fun r => if r.id = row.id then n else 0).sum = n := by
  obtain ⟨before,after,rfl⟩ := List.append_of_mem hr
  rw [List.map_append,List.map_cons] at hids
  obtain ⟨-,hcons,hdisjoint⟩ := List.nodup_append.mp hids
  have hzero : ∀ l : List RunRow, (∀ x ∈ l, x.id ≠ row.id) →
      (l.map fun r => if r.id = row.id then n else 0).sum = 0 := by
    intro l hl
    rw [List.map_congr_left fun x hx => if_neg (hl x hx),List.map_const',List.sum_replicate,smul_zero]
  have hbefore := hzero before fun x hx =>
    hdisjoint x.id (List.mem_map_of_mem hx) row.id List.mem_cons_self
  have hafter := hzero after fun x hx heq =>
    (List.nodup_cons.mp hcons).1 (List.mem_map.mpr ⟨x,hx,heq⟩)
  rw [List.map_append,List.map_cons,List.sum_append,List.sum_cons,hbefore,hafter,if_pos rfl]
  omega

theorem Feeds.stage {item : RunId × OutputReplay} (hi : Intact streams s)
    (h : Feeds limits streams s [item]) :
    ∃ s', stageAppend limits s item = .ok s' ∧ Taken limits streams s [item] s' := by
  obtain ⟨id,replay⟩ := item
  obtain ⟨row,hrow⟩ := h.found (id,replay) (by simp)
  obtain ⟨hmem,hid⟩ := Database.run?_mem hrow
  subst hid
  have hp := h.presents row hmem
  rw [Entries.chunksOf_single,if_pos rfl] at hp
  have hfresh : ∀ r ∈ s.db.runs, Entries.fresh [(row.id,replay)] r = if r.id = row.id then
      reach row.durableOutputBytes replay.chunks-row.durableOutputBytes else 0 := by
    intro r hr
    unfold Entries.fresh
    rw [Entries.chunksOf_single]
    by_cases hsame : r.id = row.id
    · obtain rfl := List.inj_on_of_nodup_map hi.sound.ids hr hmem hsame
      rw [if_pos rfl,if_pos rfl]
    · rw [if_neg (Ne.symm hsame),if_neg hsame]
      exact Nat.sub_self _
  have hgrowth : Entries.growth [(row.id,replay)] s.db.runs =
      reach row.durableOutputBytes replay.chunks-row.durableOutputBytes := by
    unfold Entries.growth
    rw [List.map_congr_left hfresh]
    exact sum_ite_id hi.sound.ids hmem _
  have hroom := h.room
  rw [hgrowth] at hroom
  obtain ⟨s',evicted,happend,hgrew,hruns⟩ := append_presented hi hrow
    (fun hne => h.running (row.id,replay) (by simp) hne row hrow)
    (h.rendered (row.id,replay) (by simp)) hp hroom
  have htaken : Taken limits streams s [(row.id,replay)] s' := by
    refine ⟨hgrowth ▸ hgrew,hruns.trans (List.map_congr_left fun r _ => ?_)⟩
    rw [Entries.extend_single]
  refine ⟨s',?_,htaken⟩
  have hfound : ∃ row', s'.db.run? row.id = some row' := ⟨_,by rw [htaken.run?,hrow]; rfl⟩
  obtain ⟨row',hrow'⟩ := hfound
  exact (ok_bind happend).trans (ok_bind (Database.selectRun_eq_ok.mpr hrow'))

theorem Feeds.stageAll (hi : Intact streams s) (h : Feeds limits streams s batch) :
    ∃ s', batch.foldlM (stageAppend limits) s = .ok s' ∧ Taken limits streams s batch s' := by
  induction batch generalizing s with
  | nil => exact ⟨s,rfl,Taken.refl hi⟩
  | cons item batch ih =>
    have hsplit : Feeds limits streams s ([item] ++ batch) := h
    obtain ⟨s₁,hstage,htaken⟩ := hsplit.left.stage hi
    obtain ⟨s',hrest,htaken'⟩ := ih htaken.intact (hsplit.after hi.windows htaken)
    refine ⟨s',?_,htaken.trans htaken'⟩
    rw [List.foldlM_cons,ok_bind hstage,hrest]

theorem pruneGlobal_within {rows : ℕ} {db : Database} (h : db.accounting.replayBytes ≤ limit) :
    pruneGlobalReplayWithRowFunding limit rows db = .ok (true,db) := by
  cases rows with
  | zero => simp [pruneGlobalReplayWithRowFunding,h]
  | succ rows => simp [pruneGlobalReplayWithRowFunding,h]

/-- The whole batch in one transaction, before its terminal settlement. -/
theorem Feeds.stageOutput (hi : Intact streams s) (h : Feeds limits streams s batch) (codec : Codec)
    (terminal : Option TerminalSettlement) :
    ∃ s', Taken limits streams s batch s' ∧
      Durable.stageOutput codec limits s batch terminal =
        (stageTerminal codec s'.db terminal).map fun db => (true,⟨db,s'.files⟩) := by
  have hcut := coalesceBatch_recut batch
  obtain ⟨s',hstage,htaken⟩ := (h.recut hcut).stageAll hi
  have htaken := htaken.recut hcut h
  have hwithin : s'.db.accounting.replayBytes ≤ limits.durableReplayBytes := by
    rw [htaken.intact.sound.accounting]
    exact (htaken.bytes_le hi.windows).trans h.total
  refine ⟨s',htaken,?_⟩
  unfold Durable.stageOutput
  rw [ok_bind hstage,ok_bind (pruneGlobal_within hwithin)]
  simp only [if_true]
  cases stageTerminal codec s'.db terminal with
  | ok db => rfl
  | error error => rfl

end Durable
end Ctxmux
