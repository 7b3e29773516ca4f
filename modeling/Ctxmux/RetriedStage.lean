import Ctxmux.BatchPositions
import Ctxmux.PruneExact
import Ctxmux.RetriedAppend

/-!
# Transactions above the daemon-wide limit

Where the daemon-wide limit is exceeded a transaction gives up bytes of other Runs. A batch
still goes through as long as it presents what is durable already before anything new: until
then no transaction adds a byte, so none is given up.
-/

namespace Ctxmux
namespace Durable

open Tiling

variable {limits : OutputLimits} {streams : RunId → ℕ → Byte} {s s' s'' : Store}
  {batch xs ys done : Entries} {row row' : RunRow} {runs runs' : List RunRow} {limit : ℕ}

/-- The bytes that the windows of all Runs hold. -/
def Store.stored (s : Store) : ℕ := (s.db.runs.map (·.replayBytes)).sum

/-- A Run's row after a front of a batch: its head is where the chunks end, its floor did not
move back, and a Run that was presented a chunk keeps no more than its limit. -/
structure Onward (limit : ℕ) (done : Entries) (row row' : RunRow) : Prop where
  same : row'.id = row.id
  stateKind : row'.stateKind = row.stateKind
  head : row'.durableOutputBytes = reach row.durableOutputBytes (done.chunksOf row.id)
  floor : row.durableFirstAvailableByte ≤ row'.durableFirstAvailableByte
  cut : done.chunksOf row.id ≠ [] → row'.durableOutputBytes-limit ≤ row'.durableFirstAvailableByte

theorem Onward.refl (limit : ℕ) (row : RunRow) : Onward limit [] row row :=
  ⟨rfl,rfl,rfl,le_rfl,fun h => absurd rfl h⟩

theorem Onward.trans {row'' : RunRow} (h : Onward limit xs row row')
    (h' : Onward limit ys row' row'') : Onward limit (xs ++ ys) row row'' where
  same := h'.same.trans h.same
  stateKind := h'.stateKind.trans h.stateKind
  head := by rw [h'.head,h.head,h.same,Entries.chunksOf_append,reach_append]
  floor := h.floor.trans h'.floor
  cut := by
    intro hne
    rw [Entries.chunksOf_append] at hne
    by_cases hys : ys.chunksOf row'.id = []
    · have hxs : xs.chunksOf row.id ≠ [] := by
        intro hnil
        rw [h.same] at hys
        exact hne (by rw [hnil,hys]; rfl)
      have hhead := h'.head
      rw [hys] at hhead
      have hcut := h.cut hxs
      have hfloor := h'.floor
      have hsame : row''.durableOutputBytes = row'.durableOutputBytes := hhead
      omega
    · exact h'.cut hys

theorem Onward.fresh (ys : Entries) (h : Onward limit xs row row') :
    xs.fresh row+ys.fresh row' = Entries.fresh (xs ++ ys) row := by
  have h₁ := le_reach row.durableOutputBytes (xs.chunksOf row.id)
  have h₂ := le_reach (reach row.durableOutputBytes (xs.chunksOf row.id)) (ys.chunksOf row.id)
  unfold Entries.fresh
  rw [h.head,h.same,Entries.chunksOf_append,reach_append]
  omega

theorem growth_onward (ys : Entries) (h : List.Forall₂ (Onward limit xs) runs runs') :
    xs.growth runs+ys.growth runs' = Entries.growth (xs ++ ys) runs := by
  induction h with
  | nil => rfl
  | @cons row row' runs runs' hrow _ ih =>
    have hfresh := hrow.fresh ys
    unfold Entries.growth at ih ⊢
    simp only [List.map_cons,List.sum_cons]
    omega

/-- The store after a front of a batch, whatever the limits made it give up. -/
structure Advanced (limits : OutputLimits) (streams : RunId → ℕ → Byte) (s : Store)
    (done : Entries) (s' : Store) : Prop extends Grew streams s s' (done.growth s.db.runs) where
  rows : List.Forall₂ (Onward limits.durableRunOutputBytes done) s.db.runs s'.db.runs
  capped : s'.stored ≤ limits.durableReplayBytes ∨ (done = [] ∧ s'.stored ≤ s.stored)
  still : done.growth s.db.runs = 0 → s.stored ≤ limits.durableReplayBytes →
    ∀ id row row', s.db.run? id = some row → s'.db.run? id = some row' →
      row.durableOutputBytes-limits.durableRunOutputBytes ≤ row.durableFirstAvailableByte →
      row'.durableFirstAvailableByte = row.durableFirstAvailableByte

namespace Advanced

theorem refl (h : Intact streams s) : Advanced limits streams s [] s where
  intact := h
  file := rfl
  length := by rw [Entries.growth_nil,Nat.add_zero]
  rows := List.forall₂_same.mpr fun row _ => Onward.refl _ row
  capped := .inr ⟨rfl,le_rfl⟩
  still _ _ id row row' hrow hrow' _ := by rw [Option.some.inj (hrow.symm.trans hrow')]

theorem run? (h : Advanced limits streams s done s') {id : RunId}
    (hrow : s.db.run? id = some row) :
    ∃ row', s'.db.run? id = some row' ∧ Onward limits.durableRunOutputBytes done row row' := by
  have hrel := Database.run?_forall₂ (fun _ _ hr => hr.same) h.rows id
  rw [hrow] at hrel
  generalize s'.db.run? id = found at hrel
  cases hrel with
  | some hr => exact ⟨_,rfl,hr⟩

theorem run?_back (h : Advanced limits streams s done s') {id : RunId}
    (hrow' : s'.db.run? id = some row') :
    ∃ row, s.db.run? id = some row ∧ Onward limits.durableRunOutputBytes done row row' := by
  have hrel := Database.run?_forall₂ (fun _ _ hr => hr.same) h.rows id
  rw [hrow'] at hrel
  generalize s.db.run? id = found at hrel
  cases hrel with
  | some hr => exact ⟨_,rfl,hr⟩

theorem live (h : Advanced limits streams s done s') (batch : Entries) :
    batch.live s'.db = batch.live s.db := by
  refine List.filter_congr fun item _ => ?_
  have hrel := Database.run?_forall₂ (fun _ _ hr => hr.same) h.rows item.1
  generalize s.db.run? item.1 = found at hrel
  generalize s'.db.run? item.1 = found' at hrel
  cases hrel with
  | none => rfl
  | some _ => rfl

theorem trans (h : Advanced limits streams s xs s') (h' : Advanced limits streams s' ys s'') :
    Advanced limits streams s (xs ++ ys) s'' where
  intact := h'.intact
  file := h'.file.trans h.file
  length := by
    have hlength := h'.length
    have hgrowth := growth_onward ys h.rows
    rw [h.file,h.length] at hlength
    omega
  rows := forall₂_comp (fun _ _ _ hr hr' => hr.trans hr') h.rows h'.rows
  capped := by
    rcases h'.capped with hcapped | ⟨rfl,hle⟩
    · exact .inl hcapped
    · rcases h.capped with hcapped | ⟨rfl,hle'⟩
      · exact .inl (hle.trans hcapped)
      · exact .inr ⟨rfl,hle.trans hle'⟩
  still hzero hstored id row row'' hrow hrow'' hcut := by
    obtain ⟨row',hrow',honward⟩ := h.run? hrow
    have hgrowth := growth_onward ys h.rows
    have hsame := h.still (by omega) hstored id row row' hrow hrow' hcut
    have hstored' : s'.stored ≤ limits.durableReplayBytes := by
      rcases h.capped with hcapped | ⟨_,hle⟩
      · exact hcapped
      · exact hle.trans hstored
    have hhead : row'.durableOutputBytes = row.durableOutputBytes := by
      have hfresh : xs.fresh row = 0 := by
        refine List.sum_eq_zero_iff.mp (show (s.db.runs.map xs.fresh).sum = 0 from ?_) _
          (List.mem_map_of_mem (Database.run?_mem hrow).1)
        have : xs.growth s.db.runs = 0 := by omega
        exact this
      have hle := le_reach row.durableOutputBytes (xs.chunksOf row.id)
      unfold Entries.fresh at hfresh
      rw [honward.head]
      omega
    rw [← hsame]
    exact h'.still (by omega) hstored' id row' row'' hrow' hrow'' (by rw [hhead,hsame]; exact hcut)

end Advanced

/-- What is still to be presented: first positions that are durable and kept, then positions
that are not durable yet. Where the first kind is left, the limits are met. -/
structure Ordered (limits : OutputLimits) (s : Store) (old new : List (RunId × ℕ)) : Prop where
  durable : ∀ x ∈ old, ∀ row, s.db.run? x.1 = some row → x.2 < row.durableOutputBytes ∧
    row.durableFirstAvailableByte ≤ x.2 ∧
    row.durableOutputBytes-limits.durableRunOutputBytes ≤ row.durableFirstAvailableByte
  fresh : ∀ x ∈ new, ∀ row, s.db.run? x.1 = some row → row.durableOutputBytes ≤ x.2
  capped : old ≠ [] → s.stored ≤ limits.durableReplayBytes

/-- The batch presents bytes of the streams that the store's Runs do not lack a byte of, those
that are durable already first, and within its integers and its file offsets. -/
structure Fed (limits : OutputLimits) (streams : RunId → ℕ → Byte) (s : Store) (batch : Entries) :
    Prop where
  found : ∀ item ∈ batch, ∃ row, s.db.run? item.1 = some row
  running : ∀ item ∈ batch, item.2.chunks ≠ [] → ∀ row, s.db.run? item.1 = some row →
    row.stateKind = .running
  rendered : Rendered batch
  tiles : ∀ row ∈ s.db.runs, ∃ first last,
    Tiles OutputChunk.startByte OutputChunk.endByte first (batch.chunksOf row.id) last ∧
      first ≤ row.durableOutputBytes ∧ last ≤ i64Max
  data : ∀ row ∈ s.db.runs, ∀ chunk ∈ batch.chunksOf row.id,
    chunk.data = slice (streams row.id) chunk.startByte chunk.endByte
  room : s.files.len s.db.replayFile+batch.growth s.db.runs ≤ i64Max
  order : ∃ old new, batch.positions = old ++ new ∧ Ordered limits s old new

namespace Fed

theorem lengths (h : Fed limits streams s batch) (hr : row ∈ s.db.runs) :
    ∀ chunk ∈ batch.chunksOf row.id, chunk.data.length = chunk.endByte-chunk.startByte :=
  fun chunk hchunk => by rw [h.data row hr chunk hchunk,length_slice]

theorem shaped (h : Fed limits streams s batch) : batch.Shaped := by
  intro item hitem chunk hchunk
  obtain ⟨row,hrow⟩ := h.found item hitem
  obtain ⟨hmem,hid⟩ := Database.run?_mem hrow
  obtain ⟨first,last,ht,_⟩ := h.tiles row hmem
  have hin : chunk ∈ batch.chunksOf row.id :=
    Entries.mem_chunksOf.mpr ⟨item,hitem,hid.symm,hchunk⟩
  exact ⟨(ht.mem_bounds hin).2.1,h.lengths hmem chunk hin⟩

/-- A first chunk begins at the head, or inside a window that is within its limit. -/
theorem presents (h : Fed limits streams s batch) (hi : Intact streams s) (hr : row ∈ s.db.runs) :
    Presents limits.durableRunOutputBytes (streams row.id) row (batch.chunksOf row.id) := by
  have hrow := Database.run?_of_mem hi.sound.ids hr
  have hwindow := (hi.windows row hr)
  have hle := hwindow.tiles.le
  have hbound := hwindow.bound
  obtain ⟨first,last,ht,hhead,hlast⟩ := h.tiles row hr
  refine ⟨?_,h.data row hr⟩
  cases hchunks : batch.chunksOf row.id with
  | nil => exact ⟨_,_,rfl,by omega,le_rfl,hbound⟩
  | cons chunk chunks =>
    have hin : chunk ∈ batch.chunksOf row.id := by rw [hchunks]; exact List.mem_cons_self
    have hsize := h.lengths hr chunk hin
    rw [hchunks] at ht
    have hstart : chunk.startByte = first := ht.1
    have hlt : chunk.startByte < chunk.endByte := ht.2.1
    have hposition : (row.id,first) ∈ batch.positions :=
      Entries.mem_positions.mpr (mem_positionsIn.mpr ⟨chunk,hin,by omega,by omega⟩)
    obtain ⟨old,new,hsplit,hordered⟩ := h.order
    refine ⟨first,last,ht,?_,hhead,hlast⟩
    rw [hsplit] at hposition
    rcases List.mem_append.mp hposition with hold | hnew
    · obtain ⟨_,hfloor,hcut⟩ := hordered.durable _ hold row hrow
      dsimp only at hfloor
      omega
    · have hat := hordered.fresh _ hnew row hrow
      dsimp only at hat
      omega

/-- What is fed would be taken whole, were the daemon-wide limit as wide as it needs. -/
theorem feeds (h : Fed limits streams s batch) (hi : Intact streams s) :
    Feeds { limits with durableReplayBytes := s.stored+batch.growth s.db.runs } streams s batch :=
  ⟨h.found,h.running,h.rendered,fun _ hr => h.presents hi hr,le_rfl,h.room⟩

theorem recut {b : Entries} (h : Fed limits streams s batch) (hi : Intact streams s)
    (hcut : Recut b batch) (hsame : b.positions = batch.positions) : Fed limits streams s b := by
  have hcutfeeds := (h.feeds hi).recut hcut
  refine ⟨hcutfeeds.found,hcutfeeds.running,hcutfeeds.rendered,fun row hr => ?_,fun row hr => ?_,
    hcutfeeds.room,?_⟩
  · obtain ⟨first,last,ht,_,hhead,hlast⟩ := (hcutfeeds.presents row hr).tiles
    exact ⟨first,last,ht,hhead,hlast⟩
  · exact (hcutfeeds.presents row hr).data
  · rw [hsame]
    exact h.order

theorem left (h : Fed limits streams s (xs ++ ys)) : Fed limits streams s xs where
  found item hitem := h.found item (List.mem_append_left _ hitem)
  running item hitem := h.running item (List.mem_append_left _ hitem)
  rendered := h.rendered.left
  tiles row hr := by
    obtain ⟨first,last,ht,hhead,hlast⟩ := h.tiles row hr
    rw [Entries.chunksOf_append] at ht
    obtain ⟨middle,hx,hy⟩ := Tiles.append.mp ht
    have hle := hy.le
    exact ⟨first,middle,hx,hhead,by omega⟩
  data row hr chunk hchunk := by
    apply h.data row hr chunk
    rw [Entries.chunksOf_append]
    exact List.mem_append_left _ hchunk
  room := (Nat.add_le_add_left (Entries.growth_le _) _).trans h.room
  order := by
    obtain ⟨old,new,hsplit,hordered⟩ := h.order
    rw [Entries.positions_append] at hsplit
    rcases List.append_eq_append_iff.mp hsplit with ⟨more,hold,_⟩ | ⟨more,hxs,hnew⟩
    · refine ⟨xs.positions,[],(List.append_nil _).symm,fun x hx => ?_,fun x hx => (by cases hx),?_⟩
      · exact hordered.durable x (hold ▸ List.mem_append_left _ hx)
      · intro hne
        apply hordered.capped
        rw [hold]
        exact fun hnil => hne (List.append_eq_nil_iff.mp hnil).1
    · refine ⟨old,more,hxs,hordered.durable,fun x hx => ?_,hordered.capped⟩
      exact hordered.fresh x (hnew ▸ List.mem_append_left _ hx)

/-- A front of which every position is durable already adds nothing. -/
theorem adds_nothing (h : Fed limits streams s xs) (hi : Intact streams s)
    (hold : ∀ x ∈ xs.positions, ∀ row, s.db.run? x.1 = some row → x.2 < row.durableOutputBytes) :
    ∀ row ∈ s.db.runs, reach row.durableOutputBytes (xs.chunksOf row.id) =
      row.durableOutputBytes := by
  intro row hr
  apply le_antisymm _ (le_reach _ _)
  apply reach_le le_rfl
  intro chunk hchunk
  obtain ⟨first,last,ht,_⟩ := h.tiles row hr
  have hlt := (ht.mem_bounds hchunk).2.1
  have hsize := h.lengths hr chunk hchunk
  have hposition : (row.id,chunk.endByte-1) ∈ xs.positions :=
    Entries.mem_positions.mpr (mem_positionsIn.mpr ⟨chunk,hchunk,by omega,by omega⟩)
  have hbelow := hold _ hposition row (Database.run?_of_mem hi.sound.ids hr)
  dsimp only at hbelow
  omega

theorem after (h : Fed limits streams s (xs ++ ys)) (hi : Intact streams s)
    (ha : Advanced limits streams s xs s') : Fed limits streams s' ys where
  found item hitem := by
    obtain ⟨row,hrow⟩ := h.found item (List.mem_append_right _ hitem)
    obtain ⟨row',hrow',_⟩ := ha.run? hrow
    exact ⟨row',hrow'⟩
  running item hitem hne row' hrow' := by
    obtain ⟨row,hrow,honward⟩ := ha.run?_back hrow'
    rw [honward.stateKind]
    exact h.running item (List.mem_append_right _ hitem) hne row hrow
  rendered := h.rendered.right
  tiles row' hr' := by
    obtain ⟨row,hr,honward⟩ := forall₂_mem_right ha.rows hr'
    obtain ⟨first,last,ht,hhead,hlast⟩ := h.tiles row hr
    rw [Entries.chunksOf_append] at ht
    obtain ⟨middle,hx,hy⟩ := Tiles.append.mp ht
    have hreach := reach_tiles hx hhead
    rw [honward.same]
    refine ⟨middle,last,hy,?_,hlast⟩
    rw [honward.head,hreach]
    exact le_max_right _ _
  data row' hr' chunk hchunk := by
    obtain ⟨row,hr,honward⟩ := forall₂_mem_right ha.rows hr'
    rw [honward.same] at hchunk ⊢
    apply h.data row hr chunk
    rw [Entries.chunksOf_append]
    exact List.mem_append_right _ hchunk
  room := by
    have hroom := h.room
    have hlength := ha.length
    have hgrowth := growth_onward ys ha.rows
    rw [ha.file]
    omega
  order := by
    obtain ⟨old,new,hsplit,hordered⟩ := h.order
    rw [Entries.positions_append] at hsplit
    rcases List.append_eq_append_iff.mp hsplit with ⟨more,hold,hys⟩ | ⟨more,hxs,hnew⟩
    · have hkept := h.left.adds_nothing hi fun x hx row hrow =>
        (hordered.durable x (hold ▸ List.mem_append_left _ hx) row hrow).1
      have hzero : xs.growth s.db.runs = 0 := by
        unfold Entries.growth
        refine List.sum_eq_zero_iff.mpr fun n hn => ?_
        obtain ⟨row,hr,rfl⟩ := List.mem_map.mp hn
        unfold Entries.fresh
        rw [hkept row hr,Nat.sub_self]
      refine ⟨more,new,hys,fun x hx row' hrow' => ?_,fun x hx row' hrow' => ?_,fun hne => ?_⟩
      · obtain ⟨row,hrow,honward⟩ := ha.run?_back hrow'
        have hmem : x ∈ old := hold ▸ List.mem_append_right _ hx
        obtain ⟨hbelow,hfloor,hcut⟩ := hordered.durable x hmem row hrow
        have hstored := hordered.capped (List.ne_nil_of_mem hmem)
        have hsame := ha.still hzero hstored x.1 row row' hrow hrow' hcut
        rw [honward.head,hkept row (Database.run?_mem hrow).1,hsame]
        exact ⟨hbelow,hfloor,hcut⟩
      · obtain ⟨row,hrow,honward⟩ := ha.run?_back hrow'
        rw [honward.head,hkept row (Database.run?_mem hrow).1]
        exact hordered.fresh x hx row hrow
      · have hstored := hordered.capped fun hnil => hne (by
          rw [hold] at hnil
          exact (List.append_eq_nil_iff.mp hnil).2)
        rcases ha.capped with hcapped | ⟨_,hle⟩
        · exact hcapped
        · exact hle.trans hstored
    · refine ⟨[],ys.positions,rfl,fun x hx => (by cases hx),fun x hx row' hrow' => ?_,
        fun hne => absurd rfl hne⟩
      obtain ⟨row,hrow,honward⟩ := ha.run?_back hrow'
      obtain ⟨hr,hid⟩ := Database.run?_mem hrow
      obtain ⟨first,last,ht,hhead,_⟩ := h.tiles row hr
      have hlengths := h.lengths hr
      rw [Entries.chunksOf_append] at ht hlengths
      obtain ⟨middle,hx',hy'⟩ := Tiles.append.mp ht
      have hat := hordered.fresh x (hnew ▸ List.mem_append_right _ hx) row hrow
      have hin : x.2 ∈ positionsIn (ys.chunksOf row.id) :=
        hid ▸ Entries.mem_positions.mp hx
      rw [positionsIn_tiles hy' fun chunk hchunk => hlengths chunk (by simp [hchunk]),
        List.mem_range'_1] at hin
      rw [honward.head,reach_tiles hx' hhead]
      exact max_le hat hin.1

end Fed

end Durable
end Ctxmux
