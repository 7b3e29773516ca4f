import Ctxmux.BatchOneByOne

/-!
# Chunks that were given up

A chunk that begins below the durable head of its Run is compared with what is stored. Once
the window has moved past its beginning, no transaction that carries it is committed, however
the batch is gathered and divided: heads and floors never move back.
-/

namespace Ctxmux
namespace Durable

open Tiling

variable {codec : Codec} {limits : OutputLimits} {f : Funding} {s s' s'' : Store} {a : Appender}
  {batch : Entries} {id : RunId} {w : String} {replay : OutputReplay} {chunk : OutputChunk}
  {c c' : ReplayCursors} {g : Gathering} {result : GatherStep}

/-- Tables and files in order, whatever bytes they hold. -/
structure Tidy (s : Store) : Prop where
  sound : Sound s.db s.files
  windows : ∀ r ∈ s.db.runs, Window s.db r
  named : validReplayFileName s.db.replayFile = true

/-- No Run went away, and no head or floor moved back. -/
def Later (db db' : Database) : Prop :=
  ∀ id row, db.run? id = some row → ∃ row', db'.run? id = some row' ∧
    row.durableOutputBytes ≤ row'.durableOutputBytes ∧
    row.durableFirstAvailableByte ≤ row'.durableFirstAvailableByte

theorem Later.refl (db : Database) : Later db db := fun _ row hrow => ⟨row,hrow,le_rfl,le_rfl⟩

theorem Later.trans {db db' db'' : Database} (h : Later db db') (h' : Later db' db'') :
    Later db db'' := by
  intro id row hrow
  obtain ⟨row',hrow',hhead,hfloor⟩ := h id row hrow
  obtain ⟨row'',hrow'',hhead',hfloor'⟩ := h' id row' hrow'
  exact ⟨row'',hrow'',hhead.trans hhead',hfloor.trans hfloor'⟩

/-- A step that keeps the store in order and moves nothing back. -/
structure Moved (s s' : Store) : Prop where
  tidy : Tidy s'
  later : Later s.db s'.db
  found : ∀ id, (s'.db.run? id).isSome = (s.db.run? id).isSome

theorem Moved.refl (h : Tidy s) : Moved s s := ⟨h,Later.refl s.db,fun _ => rfl⟩

theorem Moved.trans (h : Moved s s') (h' : Moved s' s'') : Moved s s'' :=
  ⟨h'.tidy,h.later.trans h'.later,fun id => (h'.found id).trans (h.found id)⟩

theorem Moved.live (h : Moved s s') (batch : Entries) : batch.live s'.db = batch.live s.db :=
  List.filter_congr fun item _ => h.found item.1

theorem moved_evicts {db : Database} (h : Tidy s) (he : Evicts s.files s.db db) :
    Moved s ⟨db,s.files⟩ := by
  refine ⟨⟨he.sound,he.windows,by rw [he.retired.replayFile]; exact h.named⟩,
    fun id row hrow => ?_,fun id => ?_⟩
  · obtain ⟨row',hrow',hframe⟩ := he.retired.run? hrow
    have hhead : row'.durableOutputBytes = row.durableOutputBytes := by rw [hframe]
    have hid : row'.id = row.id := by rw [hframe]
    exact ⟨row',hrow',hhead.ge,
      he.floor_le h.windows (Database.run?_mem hrow).1 (Database.run?_mem hrow').1 hid hhead⟩
  · have hrel := Database.run?_forall₂ (fun _ _ hr => by rw [hr]) he.retired.runs id
    generalize s.db.run? id = found at hrel
    generalize db.run? id = found' at hrel
    cases hrel with
    | none => rfl
    | some _ => rfl

theorem moved_append {limit : ℕ} {evicted : Bool} (h : Tidy s)
    (hfirst : replay.firstAvailableByte = 0)
    (hok : appendReplayWithStorage s s.db.replayFile id replay limit = .ok (s',evicted)) :
    Moved s s' := by
  obtain ⟨hsound,hwindows,hfile,_⟩ := append_sound h.sound h.windows h.named hok
  have hruns := append_extends h.sound h.windows h.named hfirst hok
  have hmap := Database.run?_map (fun r => by split <;> rfl) hruns
  refine ⟨⟨hsound,hwindows,hfile ▸ h.named⟩,fun other row hrow => ?_,fun other => ?_⟩
  · refine ⟨_,(hmap other).trans (congrArg _ hrow),?_⟩
    dsimp only
    split
    · exact ⟨le_reach _ _,le_max_left _ _⟩
    · exact ⟨le_rfl,le_rfl⟩
  · rw [hmap,Option.isSome_map]

/-- The replays are rendered from the beginning of their streams. -/
def Rendered (batch : Entries) : Prop := ∀ item ∈ batch, item.2.firstAvailableByte = 0

theorem Rendered.left {xs ys : Entries} (h : Rendered (xs ++ ys)) : Rendered xs :=
  fun item hitem => h item (List.mem_append_left _ hitem)

theorem Rendered.right {xs ys : Entries} (h : Rendered (xs ++ ys)) : Rendered ys :=
  fun item hitem => h item (List.mem_append_right _ hitem)

theorem Rendered.live (h : Rendered batch) (db : Database) : Rendered (batch.live db) :=
  fun item hitem => h item (List.mem_filter.mp hitem).1

theorem moved_stageAppend {item : RunId × OutputReplay} (h : Tidy s)
    (hfirst : item.2.firstAvailableByte = 0) (hok : stageAppend limits s item = .ok s') :
    Moved s s' := by
  obtain ⟨⟨next,evicted⟩,happend,hrest⟩ := bind_eq_ok.mp hok
  obtain ⟨_,_,hrest⟩ := bind_eq_ok.mp hrest
  obtain rfl := Except.ok.inj hrest
  exact moved_append h hfirst happend

theorem moved_stageAll (h : Tidy s) (hfirst : Rendered batch)
    (hok : batch.foldlM (stageAppend limits) s = .ok s') : Moved s s' := by
  induction batch generalizing s with
  | nil =>
    obtain rfl := Except.ok.inj hok
    exact Moved.refl h
  | cons item batch ih =>
    rw [List.foldlM_cons] at hok
    obtain ⟨s₁,hstage,hrest⟩ := bind_eq_ok.mp hok
    have hmoved := moved_stageAppend h (hfirst item (by simp)) hstage
    exact hmoved.trans (ih hmoved.tidy (fun x hx => hfirst x (by simp [hx])) hrest)

theorem moved_stageOutput (h : Tidy s) (hfirst : Rendered batch)
    (hok : stageOutput codec limits s batch none = .ok (true,s')) : Moved s s' := by
  obtain ⟨s₁,hstage,hrest⟩ := bind_eq_ok.mp hok
  obtain ⟨⟨fits,db⟩,hprune,hrest⟩ := bind_eq_ok.mp hrest
  have hmoved := moved_stageAll h ((coalesceBatch_recut batch).rendered hfirst) hstage
  have hevicts := moved_evicts hmoved.tidy
    (evicts_pruneGlobal hmoved.tidy.sound hmoved.tidy.windows hprune)
  dsimp only at hrest
  split at hrest
  · obtain rfl := (Prod.mk.inj (Except.ok.inj hrest)).2
    exact hmoved.trans hevicts
  · cases hrest

/-- A chunk of the batch that begins below both what is durable of its Run and what is kept. -/
def Stale (db : Database) (batch : Entries) : Prop :=
  ∃ id chunk row, Offers batch id chunk ∧ db.run? id = some row ∧
    chunk.startByte < row.durableOutputBytes ∧ chunk.startByte < row.durableFirstAvailableByte

theorem Stale.later {db db' : Database} (h : Stale db batch) (hlater : Later db db') :
    Stale db' batch := by
  obtain ⟨id,chunk,row,hoffers,hrow,hhead,hfloor⟩ := h
  obtain ⟨row',hrow',hhead',hfloor'⟩ := hlater id row hrow
  exact ⟨id,chunk,row',hoffers,hrow',hhead.trans_le hhead',hfloor.trans_le hfloor'⟩

/-- A Run with a stale chunk is among those that the store has. -/
theorem Stale.live {db : Database} (h : Stale db batch) : Stale db (batch.live db) := by
  obtain ⟨id,chunk,row,⟨item,hitem,hid,hchunk⟩,hrow,hrest⟩ := h
  have hfound : (db.run? item.1).isSome = true := by rw [hid,hrow]; rfl
  exact ⟨id,chunk,row,⟨item,List.mem_filter.mpr ⟨hitem,hfound⟩,hid,hchunk⟩,hrow,hrest⟩

theorem stale_append {db : Database} {xs ys : Entries} :
    Stale db (xs ++ ys) ↔ Stale db xs ∨ Stale db ys := by
  constructor
  · rintro ⟨id,chunk,row,⟨item,hitem,hid,hchunk⟩,hrest⟩
    rcases List.mem_append.mp hitem with hitem | hitem
    · exact .inl ⟨id,chunk,row,⟨item,hitem,hid,hchunk⟩,hrest⟩
    · exact .inr ⟨id,chunk,row,⟨item,hitem,hid,hchunk⟩,hrest⟩
  · rintro (⟨id,chunk,row,⟨item,hitem,hid,hchunk⟩,hrest⟩ | ⟨id,chunk,row,⟨item,hitem,hid,hchunk⟩,hrest⟩)
    · exact ⟨id,chunk,row,⟨item,List.mem_append_left _ hitem,hid,hchunk⟩,hrest⟩
    · exact ⟨id,chunk,row,⟨item,List.mem_append_right _ hitem,hid,hchunk⟩,hrest⟩

theorem not_stale_nil (db : Database) : ¬Stale db [] := by
  rintro ⟨_,_,_,⟨item,hitem,_⟩,_⟩
  cases hitem

/-- Below the head a chunk is compared with the window, which has no bytes for it. -/
theorem applyAligned_stale (hend : chunk.endByte ≤ c.durableHead)
    (hfloor : chunk.startByte < c.durableOldest) : applyAligned id replay chunk c ≠ .ok c' := by
  intro hok
  obtain ⟨_,_,hverify⟩ := bind_eq_ok.mp hok
  rw [if_pos hend] at hverify
  unfold verifyChunk at hverify
  rw [if_pos hfloor] at hverify
  cases hverify

theorem applyReplayChunk_stale (hhead : chunk.startByte < c.durableHead)
    (hfloor : chunk.startByte < c.durableOldest) : applyReplayChunk id replay c chunk ≠ .ok c' := by
  intro hok
  obtain ⟨_,_,hrest⟩ := bind_eq_ok.mp hok
  split at hrest
  · obtain ⟨c₁,hfront,_⟩ := bind_eq_ok.mp hrest
    exact @applyAligned_stale id replay ⟨chunk.startByte,c.durableHead,_⟩ c c₁ le_rfl hfloor hfront
  · rename_i hnot
    exact applyAligned_stale (not_lt.mp (not_and.mp hnot hhead)) hfloor hrest

theorem append_stale {row : RunRow} {limit : ℕ} {evicted : Bool} (h : Tidy s)
    (hfirst : replay.firstAvailableByte = 0) (hrow : s.db.run? id = some row)
    (hchunk : chunk ∈ replay.chunks) (hhead : chunk.startByte < row.durableOutputBytes)
    (hfloor : chunk.startByte < row.durableFirstAvailableByte) :
    appendReplayWithStorage s s.db.replayFile id replay limit ≠ .ok (s',evicted) := by
  intro hok
  obtain ⟨row',c₁,_,_,_,_,hrow',hfold,_⟩ := appendReplayWithStorage_eq_ok hok
  obtain rfl := Option.some.inj (hrow.symm.trans hrow')
  obtain ⟨xs,ys,hsplit⟩ := List.append_of_mem hchunk
  rw [hsplit,List.foldlM_append] at hfold
  obtain ⟨c₂,hfront,hfold⟩ := bind_eq_ok.mp hfold
  rw [List.foldlM_cons] at hfold
  obtain ⟨c₃,happly,_⟩ := bind_eq_ok.mp hfold
  obtain ⟨_,hle,hkept⟩ := (packed_start h.sound h.windows h.named hrow).fold hfront
  dsimp only at hle hkept
  have holdest : row.durableFirstAvailableByte ≤ c₂.durableOldest := by
    rcases hkept with hkept | ⟨_,hjumped,hlt⟩
    · exact hkept.ge
    · omega
  exact applyReplayChunk_stale (by omega) (by omega) happly

theorem stageOutput_stale (h : Tidy s) (hfirst : Rendered batch) (hstale : Stale s.db batch) :
    stageOutput codec limits s batch none ≠ .ok (true,s') := by
  intro hok
  obtain ⟨s₁,hstage,_⟩ := bind_eq_ok.mp hok
  have hfirst' := (coalesceBatch_recut batch).rendered hfirst
  obtain ⟨id,chunk,row,hoffers,hrow,hhead,hfloor⟩ := hstale
  obtain ⟨item,hitem,rfl,hchunk⟩ := ((coalesceBatch_spec batch).2 id chunk).mpr hoffers
  generalize coalesceBatch batch = items at hstage hfirst' hitem
  obtain ⟨xs,ys,rfl⟩ := List.append_of_mem hitem
  rw [List.foldlM_append] at hstage
  obtain ⟨s₂,hfront,hstage⟩ := bind_eq_ok.mp hstage
  rw [List.foldlM_cons] at hstage
  obtain ⟨s₃,hitem',_⟩ := bind_eq_ok.mp hstage
  have hmoved := moved_stageAll h (Rendered.left hfirst') hfront
  obtain ⟨row',hrow',hhead',hfloor'⟩ := hmoved.later _ row hrow
  obtain ⟨⟨next,evicted⟩,happend,_⟩ := bind_eq_ok.mp hitem'
  exact append_stale hmoved.tidy (hfirst' item (by simp)) hrow' hchunk (by omega) (by omega) happend

end Durable
end Ctxmux
