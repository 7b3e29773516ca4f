import Ctxmux.WindowPrune

/-!
# Cuts at the front of a Run

Every eviction of stored bytes is a cut at the oldest row of one Run, followed by the move
of its floor. A cut within the row always succeeds, and it costs the daemon-wide total
exactly what it sheds.
-/

namespace Ctxmux
namespace Durable

open Tiling

/-- The Run after `shed` of its bytes went. -/
def RunRow.shed (r : RunRow) (shed : ℕ) : RunRow :=
  { r with
    durableFirstAvailableByte := r.durableFirstAvailableByte+shed
    replayBytes := r.replayBytes-shed
    replayTruncated := true }

/-- The oldest row of one Run loses `shed` bytes, and the Run with it. -/
structure FrontCut (db db' : Database) (row : ChunkRow) (shed : ℕ) : Prop where
  leads : Leads db row
  pos : 0 < shed
  within : shed ≤ row.dataBytes
  runs : db'.runs = db.runs.map fun r => if r.id = row.runId then r.shed shed else r
  front : db'.rowsOf row.runId = (if shed = row.dataBytes then [] else [row.trim shed]) ++
    (db.rowsOf row.runId).tail
  others : ∀ id, id ≠ row.runId → db'.rowsOf id = db.rowsOf id
  total : db'.accounting.replayBytes+shed = db.accounting.replayBytes

section Cut

variable {db : Database} {files : Files} {row : ChunkRow} {shed : ℕ}

/-- The Run of a row, and what its window says of a first row. -/
theorem Leads.owner (hs : Sound db files) (hw : ∀ r ∈ db.runs, Window db r) (hlead : Leads db row) :
    ∃ r ∈ db.runs, r.id = row.runId ∧ r.durableFirstAvailableByte = row.startByte ∧
      row.startByte < row.endByte ∧ r.durableFirstAvailableByte+row.dataBytes ≤
        r.durableOutputBytes := by
  obtain ⟨r,hr,hid⟩ := hs.owned row hlead.mem
  obtain ⟨rest,hrest⟩ := hlead
  have htiles := (hw r hr).tiles
  rw [hid,hrest] at htiles
  obtain ⟨hstart,hlt,htail⟩ := htiles
  have hsize := hs.sized row (Leads.mem ⟨rest,hrest⟩)
  have hle := htail.le
  exact ⟨r,hr,hid,hstart.symm,hlt,by omega⟩

theorem trimChunk_ok (hs : Sound db files) (hw : ∀ r ∈ db.runs, Window db r)
    (hlead : Leads db row) (hshed : shed < row.dataBytes) :
    ∃ db₁, db.trimChunk row.ordinal shed = .ok db₁ := by
  unfold Database.trimChunk
  rw [if_pos]
  · exact ⟨_,rfl⟩
  · intro x hx hordinal
    have hrow := hs.ordinal_inj hx hlead.mem hordinal
    subst hrow
    obtain ⟨r,hr,hid,hfloor,hlt,hhead⟩ := hlead.owner hs hw
    have hsize := hs.sized x hlead.mem
    refine ⟨by omega,hshed,?_⟩
    intro other hother hne
    obtain ⟨rest,hrest⟩ := hlead
    have htiles := (hw r hr).tiles
    rw [hid,hrest] at htiles
    rw [hrest] at hother
    rcases List.mem_cons.mp hother with rfl | hother
    · exact absurd rfl hne
    · have hbound := (htiles.2.2.mem_bounds hother).1
      omega

theorem shedChunk_ok (hs : Sound db files) (hw : ∀ r ∈ db.runs, Window db r)
    (hlead : Leads db row) (hshed : shed ≤ row.dataBytes) :
    ∃ db₁, shedChunk db row.ordinal row.dataBytes shed = .ok db₁ := by
  unfold shedChunk
  split
  · exact ⟨_,rfl⟩
  · exact trimChunk_ok hs hw hlead (by omega)

theorem updateRun_congr {db : Database} (hids : (db.runs.map (·.id)).Nodup) {r : RunRow}
    (hr : r ∈ db.runs) {f g : RunRow → RunRow} (h : f r = g r) :
    db.updateRun r.id f = db.updateRun r.id g := by
  have hmap : (db.runs.map fun row => if row.id = r.id then f row else row) =
      db.runs.map fun row => if row.id = r.id then g row else row := by
    apply List.map_congr_left
    intro row hrow
    by_cases hid : row.id = r.id
    · rw [List.inj_on_of_nodup_map hids hrow hr hid,h]
    · rw [if_neg hid,if_neg hid]
  unfold Database.updateRun
  rw [Database.run?_of_mem hids hr]
  dsimp only
  rw [hmap,h]

/-- Once a Run owes `shed` bytes, its floor is moved by them. -/
theorem shedRunBytes_ok {debt : RunId → ℕ} {r : RunRow} (hs : Sound db files)
    (hw : ∀ r ∈ db.runs, Owing db debt r) (hr : r ∈ db.runs) (hle : debt r.id ≤ r.replayBytes) :
    shedRunBytes db r.id (debt r.id) = .ok (db.updateRun r.id (·.shed (debt r.id))) := by
  unfold shedRunBytes
  rw [Database.run?_of_mem hs.ids hr]
  dsimp only
  rw [if_neg (Nat.not_lt.mpr hle)]
  congr 1
  apply updateRun_congr hs.ids hr
  have hfloor := min?_startByte (hw r hr).tiles
  unfold RunRow.shed
  rw [hfloor]

/-- What the Runs hold altogether after one of them lost `shed` bytes. -/
theorem sum_shed {runs : List RunRow} (hids : (runs.map (·.id)).Nodup) {r : RunRow}
    (hr : r ∈ runs) (hle : shed ≤ r.replayBytes) :
    ((runs.map fun x => if x.id = r.id then x.shed shed else x).map (·.replayBytes)).sum+shed =
      (runs.map (·.replayBytes)).sum := by
  obtain ⟨before,after,rfl⟩ := List.append_of_mem hr
  rw [List.map_append,List.map_cons] at hids
  obtain ⟨-,hcons,hdisjoint⟩ := List.nodup_append.mp hids
  have hfix : ∀ l : List RunRow, (∀ x ∈ l, x.id ≠ r.id) →
      l.map (fun x => if x.id = r.id then x.shed shed else x) = l := fun l hl =>
    (List.map_congr_left fun x hx => if_neg (hl x hx)).trans (List.map_id' l)
  have hbefore : ∀ x ∈ before, x.id ≠ r.id := fun x hx =>
    hdisjoint x.id (List.mem_map_of_mem hx) r.id List.mem_cons_self
  have hafter : ∀ x ∈ after, x.id ≠ r.id := by
    intro x hx heq
    exact (List.nodup_cons.mp hcons).1 (List.mem_map.mpr ⟨x,hx,heq⟩)
  rw [List.map_append,List.map_cons,hfix before hbefore,hfix after hafter,if_pos rfl]
  simp only [List.map_append,List.map_cons,List.sum_append,List.sum_cons,RunRow.shed]
  omega

theorem front_cut (hs : Sound db files) (hw : ∀ r ∈ db.runs, Window db r) (hlead : Leads db row)
    (hpos : 0 < shed) (hshed : shed ≤ row.dataBytes) :
    ∃ db₁ db₂, shedChunk db row.ordinal row.dataBytes shed = .ok db₁ ∧
      shedRunBytes db₁ row.runId shed = .ok db₂ ∧ FrontCut db db₂ row shed ∧
      Evicts files db db₂ := by
  obtain ⟨db₁,h₁⟩ := shedChunk_ok hs hw hlead hshed
  obtain ⟨rest,hrest⟩ := id hlead
  obtain ⟨-,hdb₁,hothers,hself⟩ := shedChunk_spec hs hrest h₁
  obtain ⟨hs₁,-,hw₁⟩ := owing_shedChunk hs (fun r hr => owing_zero.mpr (hw r hr)) hlead h₁
  have hruns : db₁.runs = db.runs := by rw [hdb₁]
  obtain ⟨r,hr,hid,hfloor,hlt,hhead⟩ := hlead.owner hs hw
  have hbytes := (hw r hr).bytes
  have hr₁ : r ∈ db₁.runs := by rw [hruns]; exact hr
  have hdebt : Function.update (fun _ => 0) row.runId (0+shed) r.id = shed := by simp [hid]
  have hle : shed ≤ r.replayBytes := by omega
  have h₂ := shedRunBytes_ok hs₁ hw₁ hr₁ (by rw [hdebt]; exact hle)
  rw [hdebt,hid] at h₂
  have hevicts := evicts_shed hs hw hlead h₁ h₂
  refine ⟨db₁,_,h₁,h₂,?_,hevicts⟩
  have hnew : (db₁.updateRun row.runId (·.shed shed)).runs =
      db.runs.map fun x => if x.id = row.runId then x.shed shed else x := by
    rw [Database.updateRun_runs,hruns]
  constructor
  · exact hlead
  · exact hpos
  · exact hshed
  · exact hnew
  · rw [Database.updateRun_rowsOf,hrest,List.tail_cons]
    rcases hself with ⟨hall,hrows,-⟩ | ⟨hpart,hrows⟩
    · rw [hrows,if_pos hall,List.nil_append]
    · rw [hrows,if_neg (by omega)]
      rfl
  · intro other hne
    rw [Database.updateRun_rowsOf]
    exact hothers other hne
  · rw [hevicts.sound.accounting,hs.accounting]
    unfold Accounting.ofRuns
    dsimp only
    rw [hnew,← hid]
    exact sum_shed hs.ids hr hle

end Cut

end Durable
end Ctxmux
