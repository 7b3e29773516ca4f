import Ctxmux.PruneCuts

/-!
# Global replay pruning

The daemon-wide total is brought to its limit by cuts in two orders: first at the oldest
row that is not the last of its Run, then, once no Run has a second row, at the largest
Run down to an equal share of the limit.
-/

namespace Ctxmux
namespace Durable

open Tiling

/-- The row is not the last of its Run. -/
def HasLater (db : Database) (row : ChunkRow) : Prop :=
  ∃ retained ∈ db.chunks, retained.runId = row.runId ∧ row.startByte < retained.startByte

def OneRowEach (db : Database) : Prop := ∀ id, (db.rowsOf id).length ≤ 1

/-- A cut of the first phase. -/
structure WholeCut (limit : ℕ) (db db' : Database) (row : ChunkRow) : Prop where
  exceeds : limit < db.accounting.replayBytes
  stored : row ∈ db.chunks
  later : HasLater db row
  oldest : ∀ other ∈ db.chunks, HasLater db other → row.ordinal ≤ other.ordinal
  cut : FrontCut db db' row (min row.dataBytes (db.accounting.replayBytes-limit))

/-- A cut of the second phase: the largest Run keeps its share of the limit. -/
structure FairCut (limit : ℕ) (db db' : Database) (row : ChunkRow) : Prop where
  exceeds : limit < db.accounting.replayBytes
  single : OneRowEach db
  largest : ∀ r ∈ db.runs, r.replayBytes ≤ row.dataBytes
  cut : ∃ shed, shed ≤ db.accounting.replayBytes-limit ∧ FrontCut db db' row shed ∧
    limit/db.accounting.replayRuns+shed ≤ row.dataBytes

/-- `n` cuts in a row. -/
inductive Cuts (step : Database → Database → ChunkRow → Prop) : ℕ → Database → Database → Prop
  | none (db : Database) : Cuts step 0 db db
  | cut {n : ℕ} {db db₁ db' : Database} {row : ChunkRow} (first : step db db₁ row)
    (rest : Cuts step n db₁ db') : Cuts step (n+1) db db'

/-- The front of a Run's window went: its head and all else of it is unchanged. -/
structure RunRow.Front (r r' : RunRow) : Prop where
  frame : r' = { r with
    durableFirstAvailableByte := r'.durableFirstAvailableByte
    replayBytes := r'.replayBytes
    replayTruncated := r'.replayTruncated }
  floor : r.durableFirstAvailableByte ≤ r'.durableFirstAvailableByte
  bytes : r'.replayBytes+(r'.durableFirstAvailableByte-r.durableFirstAvailableByte) = r.replayBytes
  kept : r'.durableFirstAvailableByte = r.durableFirstAvailableByte →
    r'.replayTruncated = r.replayTruncated
  truncated : r.durableFirstAvailableByte < r'.durableFirstAvailableByte → r'.replayTruncated = true

theorem RunRow.Front.refl (r : RunRow) : r.Front r := ⟨rfl,le_rfl,by omega,fun _ => rfl,by omega⟩

theorem RunRow.Front.trans {a b c : RunRow} (hab : a.Front b) (hbc : b.Front c) : a.Front c where
  frame := by rw [hbc.frame,hab.frame]
  floor := hab.floor.trans hbc.floor
  bytes := by
    have h₁ := hab.bytes
    have h₂ := hbc.bytes
    have h₃ := hab.floor
    have h₄ := hbc.floor
    omega
  kept := by
    intro h
    have h₁ := hab.floor
    have h₂ := hbc.floor
    rw [hbc.kept (by omega),hab.kept (by omega)]
  truncated := by
    intro h
    by_cases hmoved : b.durableFirstAvailableByte < c.durableFirstAvailableByte
    · exact hbc.truncated hmoved
    · have h₁ := hbc.floor
      rw [hbc.kept (by omega)]
      exact hab.truncated (by omega)

section Loop

variable {db db' : Database} {files : Files} {row : ChunkRow} {shed limit : ℕ}

theorem FrontCut.runs_front (h : FrontCut db db' row shed) (hs : Sound db files)
    (hw : ∀ r ∈ db.runs, Window db r) : List.Forall₂ RunRow.Front db.runs db'.runs := by
  obtain ⟨owner,howner,hid,hfloor,-,hhead⟩ := h.leads.owner hs hw
  rw [h.runs,List.forall₂_map_right_iff]
  apply List.forall₂_same.mpr
  intro r hr
  by_cases hrow : r.id = row.runId
  · rw [if_pos hrow]
    have hsame : r = owner := List.inj_on_of_nodup_map hs.ids hr howner (hrow.trans hid.symm)
    have hbytes := (hw r hr).bytes
    have hwithin := h.within
    have hpos := h.pos
    unfold RunRow.shed
    constructor
    · rfl
    · exact Nat.le_add_right _ _
    · dsimp only
      rw [hsame] at hbytes ⊢
      omega
    · intro heq
      dsimp only at heq
      omega
    · exact fun _ => rfl
  · rw [if_neg hrow]
    exact RunRow.Front.refl r

theorem candidate_whole (hs : Sound db files) (hw : ∀ r ∈ db.runs, Window db r)
    (hexceeds : limit < db.accounting.replayBytes) (h : globalReplayCandidate db = some row) :
    ∃ db₁ db₂, shedChunk db row.ordinal row.dataBytes
        (min row.dataBytes (db.accounting.replayBytes-limit)) = .ok db₁ ∧
      shedRunBytes db₁ row.runId (min row.dataBytes (db.accounting.replayBytes-limit)) = .ok db₂ ∧
      WholeCut limit db db₂ row ∧ Evicts files db db₂ := by
  have hlead := globalReplayCandidate_leads hs hw h
  have hbytes := hs.filled row hlead.mem
  have hpos : 0 < min row.dataBytes (db.accounting.replayBytes-limit) := by omega
  obtain ⟨db₁,db₂,h₁,h₂,hcut,hevicts⟩ := front_cut hs hw hlead hpos (Nat.min_le_left _ _)
  refine ⟨db₁,db₂,h₁,h₂,⟨hexceeds,hlead.mem,?_,?_,hcut⟩,hevicts⟩
  · have hfound := List.find?_some h
    obtain ⟨retained,hmem,hlater⟩ := List.any_eq_true.mp hfound
    exact ⟨retained,hmem,of_decide_eq_true hlater⟩
  · intro other hother ⟨retained,hmem,hlater⟩
    obtain ⟨-,before,after,hchunks,hbefore⟩ := List.find?_eq_some_iff_append.mp h
    have hpair := hs.ordinals
    rw [hchunks] at hother hpair
    rcases List.mem_append.mp hother with hb | hb
    · have hnot := hbefore other hb
      simp only [Bool.not_eq_true',List.any_eq_false,decide_eq_true_eq] at hnot
      exact absurd hlater (hnot retained hmem)
    · rcases List.mem_cons.mp hb with rfl | hb
      · exact le_rfl
      · exact ((List.pairwise_cons.mp (List.pairwise_append.mp hpair).2.1).1 other hb).le

theorem candidate_none (hs : Sound db files) (hw : ∀ r ∈ db.runs, Window db r)
    (h : globalReplayCandidate db = none) : OneRowEach db := by
  intro id
  by_contra hmany
  cases hrows : db.rowsOf id with
  | nil => simp [hrows] at hmany
  | cons first rest =>
    cases rest with
    | nil => simp [hrows] at hmany
    | cons second rest =>
      have hfirst : first ∈ db.chunks ∧ first.runId = id := by
        have hin : first ∈ db.rowsOf id := by simp [hrows]
        simpa using List.mem_filter.mp hin
      have hsecond : second ∈ db.chunks ∧ second.runId = id := by
        have hin : second ∈ db.rowsOf id := by simp [hrows]
        simpa using List.mem_filter.mp hin
      obtain ⟨r,hr,hid⟩ := hs.owned first hfirst.1
      have htiles := (hw r hr).tiles
      rw [hid,hfirst.2,hrows] at htiles
      obtain ⟨-,hlt,hstart,-⟩ := htiles
      have hnot := List.find?_eq_none.mp h first hfirst.1
      apply hnot
      apply List.any_eq_true.mpr
      refine ⟨second,hsecond.1,decide_eq_true ⟨hsecond.2.trans hfirst.2.symm,?_⟩⟩
      omega

theorem OneRowEach.cut (h : OneRowEach db) (hcut : FrontCut db db' row shed) : OneRowEach db' := by
  intro id
  by_cases hid : id = row.runId
  · subst hid
    have hone := h row.runId
    obtain ⟨rest,hrest⟩ := hcut.leads
    rw [hcut.front,hrest,List.tail_cons]
    rw [hrest,List.length_cons] at hone
    have hempty : rest = [] := List.length_eq_zero_iff.mp (by omega)
    rw [hempty]
    split
    · exact Nat.zero_le _
    · exact le_rfl
  · rw [hcut.others id hid]
    exact h id

theorem OneRowEach.bytes (h : OneRowEach db) (hs : Sound db files)
    (hw : ∀ r ∈ db.runs, Window db r) {r : RunRow} (hr : r ∈ db.runs) :
    (db.rowsOf r.id = [] ∧ r.replayBytes = 0) ∨
      ∃ row ∈ db.chunks, row.runId = r.id ∧ r.replayBytes = row.dataBytes := by
  have hone := h r.id
  have htiles := (hw r hr).tiles
  have hbytes := (hw r hr).bytes
  cases hrows : db.rowsOf r.id with
  | nil =>
    rw [hrows] at htiles
    have heq := tiles_nil.mp htiles
    exact Or.inl ⟨rfl,by omega⟩
  | cons row rest =>
    right
    rw [hrows,List.length_cons] at hone
    have hempty : rest = [] := List.length_eq_zero_iff.mp (by omega)
    subst hempty
    rw [hrows] at htiles
    obtain ⟨hstart,hlt,hend⟩ := htiles
    have hend := tiles_nil.mp hend
    have hin : row ∈ db.rowsOf r.id := by simp [hrows]
    obtain ⟨hmem,hid⟩ := List.mem_filter.mp hin
    have hsize := hs.sized row hmem
    exact ⟨row,hmem,of_decide_eq_true hid,by omega⟩

/-- The sum of the Runs is bounded by the number of those that hold anything. -/
theorem sum_le_count {runs : List RunRow} {most : ℕ} (h : ∀ r ∈ runs, r.replayBytes ≤ most) :
    (runs.map (·.replayBytes)).sum ≤ (runs.countP fun r => 0 < r.replayBytes)*most := by
  induction runs with
  | nil => exact Nat.zero_le _
  | cons r runs ih =>
    have hr := h r List.mem_cons_self
    have hruns := ih fun x hx => h x (List.mem_cons_of_mem _ hx)
    rw [List.map_cons,List.sum_cons,List.countP_cons]
    by_cases hpos : 0 < r.replayBytes
    · rw [if_pos (decide_eq_true hpos),Nat.add_mul,Nat.one_mul]
      omega
    · rw [if_neg (by simpa using hpos),Nat.add_zero]
      omega

/-- Over the limit, some Run has more than its share, and the largest one does. -/
theorem largest_exceeds (h : OneRowEach db) (hs : Sound db files)
    (hw : ∀ r ∈ db.runs, Window db r) (hexceeds : limit < db.accounting.replayBytes) :
    ∃ row, largestRow db = some row ∧ (∀ r ∈ db.runs, r.replayBytes ≤ row.dataBytes) ∧
      limit/db.accounting.replayRuns < row.dataBytes ∧ db.accounting.replayRuns ≠ 0 := by
  have htotal : db.accounting.replayBytes = (db.runs.map (·.replayBytes)).sum := by
    rw [hs.accounting]
    rfl
  have hcount : db.accounting.replayRuns = db.runs.countP fun r => 0 < r.replayBytes := by
    rw [hs.accounting]
    rfl
  have hsome : ∃ row, largestRow db = some row := by
    cases hl : largestRow db with
    | some row => exact ⟨row,rfl⟩
    | none =>
      have hempty : db.chunks = [] := List.argmax_eq_none.mp hl
      have hzero : ∀ r ∈ db.runs, r.replayBytes ≤ 0 := by
        intro r hr
        rcases h.bytes hs hw hr with ⟨-,hz⟩ | ⟨row,hmem,-⟩
        · exact hz.le
        · rw [hempty] at hmem
          cases hmem
      have hsum := sum_le_count hzero
      omega
  obtain ⟨row,hrow⟩ := hsome
  have hmem : row ∈ db.chunks := List.argmax_mem hrow
  have hheld : ∀ r ∈ db.runs, ∀ x ∈ db.chunks, x.runId = r.id →
      ((db.run? x.runId).map (·.replayBytes)).getD 0 = r.replayBytes := by
    intro r hr x hx hid
    rw [hid,Database.run?_of_mem hs.ids hr]
    rfl
  obtain ⟨owner,howner,hid⟩ := hs.owned row hmem
  have hself : owner.replayBytes = row.dataBytes := by
    rcases h.bytes hs hw howner with ⟨hnone,-⟩ | ⟨x,hx,hxid,hxbytes⟩
    · have hin := rowsOf_mem hmem
      rw [← hid,hnone] at hin
      cases hin
    · have hin := rowsOf_mem hmem
      have hxin := rowsOf_mem hx
      rw [← hid] at hin
      rw [hxid] at hxin
      have hone := h owner.id
      obtain ⟨y,hy⟩ := List.length_eq_one_iff.mp
        (Nat.le_antisymm hone (List.length_pos_of_mem hin))
      rw [hy] at hin hxin
      rw [List.mem_singleton.mp hin,← List.mem_singleton.mp hxin]
      exact hxbytes
  have hlargest : ∀ r ∈ db.runs, r.replayBytes ≤ row.dataBytes := by
    intro r hr
    rcases h.bytes hs hw hr with ⟨-,hz⟩ | ⟨x,hx,hxid,-⟩
    · omega
    · have hle := List.le_of_mem_argmax hx hrow
      rw [hheld r hr x hx hxid,hheld owner howner row hmem hid.symm,hself] at hle
      exact hle
  have hsum := sum_le_count hlargest
  rw [← htotal,← hcount] at hsum
  refine ⟨row,hrow,hlargest,?_,?_⟩
  · by_contra hshare
    have hmul : db.accounting.replayRuns*row.dataBytes ≤ limit := by
      calc db.accounting.replayRuns*row.dataBytes
          ≤ db.accounting.replayRuns*(limit/db.accounting.replayRuns) :=
            Nat.mul_le_mul_left _ (Nat.le_of_not_lt hshare)
        _ ≤ limit := Nat.mul_div_le _ _
    omega
  · intro hzero
    rw [hzero,Nat.zero_mul] at hsum
    omega

theorem count_front {runs runs' : List RunRow} (h : List.Forall₂ RunRow.Front runs runs') :
    (runs'.countP fun r => 0 < r.replayBytes) ≤ runs.countP fun r => 0 < r.replayBytes := by
  induction h with
  | nil => exact le_rfl
  | @cons r r' runs runs' hfront _ ih =>
    have hbytes := hfront.bytes
    rw [List.countP_cons,List.countP_cons]
    by_cases hpos : 0 < r'.replayBytes
    · rw [if_pos (decide_eq_true hpos),if_pos (decide_eq_true (by omega : 0 < r.replayBytes))]
      omega
    · rw [if_neg (by simpa using hpos)]
      omega

theorem emptied (hs : Sound db files) (hzero : db.accounting.replayRuns = 0) :
    db.accounting.replayBytes = 0 := by
  rw [hs.accounting] at hzero ⊢
  have hcount : (db.runs.countP fun r => 0 < r.replayBytes) = 0 := hzero
  have hall : ∀ r ∈ db.runs, r.replayBytes ≤ 0 := by
    intro r hr
    have hnot := List.countP_eq_zero.mp hcount r hr
    simpa using hnot
  have hsum := sum_le_count hall
  rw [Nat.mul_zero] at hsum
  exact Nat.le_zero.mp hsum

theorem trim_fair (hs : Sound db files) (hw : ∀ r ∈ db.runs, Window db r)
    (hsingle : OneRowEach db) (hexceeds : limit < db.accounting.replayBytes) :
    ∃ row, largestRow db = some row ∧ db.accounting.replayRuns ≠ 0 ∧
      ∃ shed, shed = min (min (row.dataBytes-limit/db.accounting.replayRuns) row.dataBytes)
          (db.accounting.replayBytes-limit) ∧ 0 < shed ∧
        ∃ db₁ db₂, shedChunk db row.ordinal row.dataBytes shed = .ok db₁ ∧
          shedRunBytes db₁ row.runId shed = .ok db₂ ∧ FairCut limit db db₂ row ∧
          Evicts files db db₂ ∧ OneRowEach db₂ ∧
          List.Forall₂ RunRow.Front db.runs db₂.runs := by
  obtain ⟨row,hrow,hlargest,hshare,hruns⟩ := largest_exceeds hsingle hs hw hexceeds
  have hlead := largestRow_leads hs hrow
  obtain ⟨share,hq⟩ : ∃ share, share = limit/db.accounting.replayRuns := ⟨_,rfl⟩
  rw [← hq] at hshare ⊢
  have hpos : 0 < min (min (row.dataBytes-share) row.dataBytes)
      (db.accounting.replayBytes-limit) := by omega
  have hwithin : min (min (row.dataBytes-share) row.dataBytes)
      (db.accounting.replayBytes-limit) ≤ row.dataBytes := by omega
  obtain ⟨db₁,db₂,h₁,h₂,hcut,hevicts⟩ := front_cut hs hw hlead hpos hwithin
  refine ⟨row,hrow,hruns,_,rfl,hpos,db₁,db₂,h₁,h₂,?_,hevicts,hsingle.cut hcut,
    hcut.runs_front hs hw⟩
  refine ⟨hexceeds,hsingle,hlargest,_,Nat.min_le_right _ _,hcut,?_⟩
  rw [← hq]
  omega

/-- After a cut of the second phase no Run is below its share, unless it was before. -/
theorem FairCut.kept {row : ChunkRow} (h : FairCut limit db db' row) (hs : Sound db files)
    (hw : ∀ r ∈ db.runs, Window db r) :
    List.Forall₂ (fun r r' : RunRow =>
      min r.replayBytes (limit/db.accounting.replayRuns) ≤ r'.replayBytes) db.runs db'.runs := by
  obtain ⟨shed,-,hcut,hshare⟩ := h.cut
  obtain ⟨owner,howner,hid,hfloor,-,hhead⟩ := hcut.leads.owner hs hw
  rw [hcut.runs,List.forall₂_map_right_iff]
  apply List.forall₂_same.mpr
  intro r hr
  by_cases hrow : r.id = row.runId
  · have hsame : r = owner := List.inj_on_of_nodup_map hs.ids hr howner (hrow.trans hid.symm)
    have hbytes := (hw r hr).bytes
    rw [if_pos hrow]
    show _ ≤ r.replayBytes-shed
    rw [← hsame] at hfloor hhead
    omega
  · rw [if_neg hrow]
    exact Nat.min_le_left _ _

/-- What the two loops owe: `n` cuts, the limit exactly if it was reached, and every Run
its share. -/
structure Trimmed (files : Files) (limit rows : ℕ) (mid db' : Database) (fits : Bool) (n : ℕ) :
    Prop where
  evicts : Evicts files mid db'
  front : List.Forall₂ RunRow.Front mid.runs db'.runs
  cuts : Cuts (fun db db' row => FairCut limit db db' row) n mid db'
  within : n ≤ rows
  kept : List.Forall₂ (fun r r' : RunRow =>
    min r.replayBytes (limit/mid.accounting.replayRuns) ≤ r'.replayBytes) mid.runs db'.runs
  reached : fits = true → db'.accounting.replayBytes = min mid.accounting.replayBytes limit
  spent : fits = false → limit < db'.accounting.replayBytes ∧ n = rows

theorem trimOldestRow_exact (rows : ℕ) {mid : Database} (hs : Sound mid files)
    (hw : ∀ r ∈ mid.runs, Window mid r) (hsingle : OneRowEach mid) :
    ∃ fits db' n, trimOldestRow limit rows mid = .ok (fits,db') ∧
      Trimmed files limit rows mid db' fits n := by
  have hkept : ∀ db : Database, List.Forall₂ (fun r r' : RunRow =>
      min r.replayBytes (limit/db.accounting.replayRuns) ≤ r'.replayBytes) db.runs db.runs :=
    fun db => List.forall₂_same.mpr fun r _ => Nat.min_le_left _ _
  have hstop : ∀ (rows : ℕ) {mid : Database}, Sound mid files → (∀ r ∈ mid.runs, Window mid r) →
      mid.accounting.replayBytes ≤ limit → Trimmed files limit rows mid mid true 0 := by
    intro rows mid hs hw hfits
    refine ⟨Evicts.refl hs hw,?_,.none _,Nat.zero_le _,hkept mid,?_,fun h => (nomatch h)⟩
    · exact List.forall₂_same.mpr fun r _ => RunRow.Front.refl r
    · intro _
      omega
  induction rows generalizing mid with
  | zero =>
    by_cases hfits : mid.accounting.replayBytes ≤ limit
    · refine ⟨true,mid,0,?_,hstop 0 hs hw hfits⟩
      simp [trimOldestRow,hfits]
    · have hruns : mid.accounting.replayRuns ≠ 0 := by
        intro hzero
        have hempty := emptied hs hzero
        omega
      refine ⟨false,mid,0,?_,Evicts.refl hs hw,?_,.none _,le_rfl,hkept mid,fun h => (nomatch h),?_⟩
      · simp [trimOldestRow,hfits,hruns]
      · exact List.forall₂_same.mpr fun r _ => RunRow.Front.refl r
      · exact fun _ => ⟨Nat.lt_of_not_le hfits,rfl⟩
  | succ rows ih =>
    by_cases hfits : mid.accounting.replayBytes ≤ limit
    · refine ⟨true,mid,0,?_,hstop (rows+1) hs hw hfits⟩
      unfold trimOldestRow
      rw [if_pos (Or.inl hfits)]
    · obtain ⟨row,hrow,hruns,shed,hshed,hpos,db₁,db₂,h₁,h₂,hfair,hevicts,hsingle₂,hfront⟩ :=
        trim_fair hs hw hsingle (Nat.lt_of_not_le hfits)
      obtain ⟨fits,db',n,hrest,ht⟩ := ih hevicts.sound hevicts.windows hsingle₂
      refine ⟨fits,db',n+1,?_,hevicts.trans ht.evicts,?_,.cut hfair ht.cuts,
        Nat.succ_le_succ ht.within,?_,?_,?_⟩
      · unfold trimOldestRow
        rw [if_neg (by omega),hrow]
        dsimp only
        rw [← hshed,if_neg (by omega),h₁]
        show (shedRunBytes db₁ row.runId shed).bind _ = _
        rw [h₂]
        exact hrest
      · exact forall₂_comp (R := RunRow.Front) (S := RunRow.Front)
          (fun _ _ _ h h' => h.trans h') hfront ht.front
      · have hcount : db₂.accounting.replayRuns ≤ mid.accounting.replayRuns := by
          rw [hevicts.sound.accounting,hs.accounting]
          exact count_front hfront
        have hstep := hfair.kept hs hw
        have hshare : limit/mid.accounting.replayRuns ≤ limit/db₂.accounting.replayRuns := by
          by_cases hzero : db₂.accounting.replayRuns = 0
          · obtain ⟨shed',hle,hcut,-⟩ := hfair.cut
            have hcost := hcut.total
            have hempty := emptied hevicts.sound hzero
            have hlimit : limit = 0 := by omega
            rw [hlimit,Nat.zero_div]
            exact Nat.zero_le _
          · exact Nat.div_le_div_left hcount (Nat.pos_of_ne_zero hzero)
        refine forall₂_comp ?_ hstep ht.kept
        intro a b c hab hbc
        omega
      · intro hreached
        have htotal := hfair.cut
        obtain ⟨shed',hle,hcut,-⟩ := htotal
        have hcost := hcut.total
        have hend := ht.reached hreached
        omega
      · intro hspent
        obtain ⟨hend,hn⟩ := ht.spent hspent
        exact ⟨hend,by omega⟩

/-- What pruning with a row funding comes to: cuts of the first phase up to `mid`, then
cuts of the second. -/
structure Pruned (files : Files) (limit rows : ℕ) (db mid db' : Database) (fits : Bool)
    (whole fair : ℕ) : Prop where
  evicts : Evicts files db db'
  front : List.Forall₂ RunRow.Front db.runs db'.runs
  first : Cuts (WholeCut limit) whole db mid
  second : Cuts (FairCut limit) fair mid db'
  within : whole+fair ≤ rows
  kept : List.Forall₂ (fun r r' : RunRow =>
    min r.replayBytes (limit/mid.accounting.replayRuns) ≤ r'.replayBytes) mid.runs db'.runs
  emptied : List.Forall₂ (fun r r' : RunRow => 0 < r.replayBytes → r'.replayBytes = 0 →
    limit < mid.accounting.replayRuns) mid.runs db'.runs
  reached : fits = true → db'.accounting.replayBytes = min db.accounting.replayBytes limit
  spent : fits = false → limit < db'.accounting.replayBytes ∧
    (rows = whole ∧ fair = 0 ∨ rows = whole+1+fair)

theorem emptied_of_kept {runs runs' : List RunRow} {holding : ℕ}
    (h : List.Forall₂ (fun r r' : RunRow => min r.replayBytes (limit/holding) ≤ r'.replayBytes)
      runs runs') (hholding : ∀ r ∈ runs, 0 < r.replayBytes → holding ≠ 0) :
    List.Forall₂ (fun r r' : RunRow => 0 < r.replayBytes → r'.replayBytes = 0 → limit < holding)
      runs runs' := by
  induction h with
  | nil => exact .nil
  | @cons r r' runs runs' hkept _ ih =>
    apply List.Forall₂.cons
    · intro hpos hzero
      have hshare : limit/holding = 0 := by
        generalize limit/holding = share at hkept ⊢
        omega
      exact (Nat.div_eq_zero_iff.mp hshare).resolve_left (hholding r List.mem_cons_self hpos)
    · exact ih fun x hx => hholding x (List.mem_cons_of_mem _ hx)

theorem holding_ne_zero (hs : Sound db files) {r : RunRow} (hr : r ∈ db.runs)
    (hpos : 0 < r.replayBytes) : db.accounting.replayRuns ≠ 0 := by
  rw [hs.accounting]
  have hcount : 0 < db.runs.countP fun r => 0 < r.replayBytes :=
    List.countP_pos_iff.mpr ⟨r,hr,decide_eq_true hpos⟩
  exact hcount.ne'

theorem pruned_stop (hs : Sound db files) (hw : ∀ r ∈ db.runs, Window db r) (rows : ℕ)
    {fits : Bool} (hreached : fits = true → db.accounting.replayBytes ≤ limit)
    (hspent : fits = false → limit < db.accounting.replayBytes ∧ rows = 0) :
    Pruned files limit rows db db db fits 0 0 := by
  have hkept : List.Forall₂ (fun r r' : RunRow =>
      min r.replayBytes (limit/db.accounting.replayRuns) ≤ r'.replayBytes) db.runs db.runs :=
    List.forall₂_same.mpr fun r _ => Nat.min_le_left _ _
  constructor
  · exact Evicts.refl hs hw
  · exact List.forall₂_same.mpr fun r _ => RunRow.Front.refl r
  · exact .none _
  · exact .none _
  · exact Nat.zero_le _
  · exact hkept
  · exact emptied_of_kept hkept fun r hr => holding_ne_zero hs hr
  · intro h
    have := hreached h
    omega
  · intro h
    obtain ⟨hlt,hzero⟩ := hspent h
    exact ⟨hlt,Or.inl ⟨hzero,rfl⟩⟩

theorem pruned_trim (hs : Sound db files) {rows n : ℕ}
    {fits : Bool} (h : Trimmed files limit rows db db' fits n) :
    Pruned files limit (rows+1) db db db' fits 0 n := by
  constructor
  · exact h.evicts
  · exact h.front
  · exact .none _
  · exact h.cuts
  · have := h.within
    omega
  · exact h.kept
  · exact emptied_of_kept h.kept fun r hr => holding_ne_zero hs hr
  · exact h.reached
  · intro hspent
    obtain ⟨hlt,hn⟩ := h.spent hspent
    exact ⟨hlt,Or.inr (by omega)⟩

theorem pruned_cut {db₁ mid : Database} {rows whole fair : ℕ} {fits : Bool}
    (hcut : WholeCut limit db db₁ row) (hevicts : Evicts files db db₁)
    (hfront : List.Forall₂ RunRow.Front db.runs db₁.runs)
    (h : Pruned files limit rows db₁ mid db' fits whole fair) :
    Pruned files limit (rows+1) db mid db' fits (whole+1) fair := by
  have hcost := hcut.cut.total
  have hexceeds := hcut.exceeds
  constructor
  · exact hevicts.trans h.evicts
  · exact forall₂_comp (R := RunRow.Front) (S := RunRow.Front)
      (fun _ _ _ hab hbc => hab.trans hbc) hfront h.front
  · exact .cut hcut h.first
  · exact h.second
  · have := h.within
    omega
  · exact h.kept
  · exact h.emptied
  · intro hreached
    have := h.reached hreached
    omega
  · intro hspent
    obtain ⟨hlt,hrows⟩ := h.spent hspent
    exact ⟨hlt,by omega⟩

end Loop

theorem pruneGlobal_pruned (files : Files) (limit rows : ℕ) (db : Database)
    (hs : Sound db files) (hw : ∀ r ∈ db.runs, Window db r) :
    ∃ fits mid db' whole fair,
      pruneGlobalReplayWithRowFunding limit rows db = .ok (fits,db') ∧
        Pruned files limit rows db mid db' fits whole fair := by
  induction rows generalizing db with
  | zero =>
    refine ⟨_,db,db,0,0,rfl,?_⟩
    apply pruned_stop hs hw
    · exact of_decide_eq_true
    · intro h
      exact ⟨Nat.lt_of_not_le (of_decide_eq_false h),rfl⟩
  | succ rows ih =>
    unfold pruneGlobalReplayWithRowFunding
    by_cases hfits : db.accounting.replayBytes ≤ limit
    · rw [if_pos hfits]
      exact ⟨true,db,db,0,0,rfl,pruned_stop hs hw _ (fun _ => hfits) (fun h => (by cases h))⟩
    · rw [if_neg hfits]
      cases hcandidate : globalReplayCandidate db with
      | none =>
        have hsingle := candidate_none hs hw hcandidate
        obtain ⟨fits,db',n,hok,ht⟩ := trimOldestRow_exact rows hs hw hsingle
        exact ⟨fits,db,db',0,n,hok,pruned_trim hs ht⟩
      | some row =>
        obtain ⟨db₁,db₂,h₁,h₂,hcut,hevicts⟩ :=
          candidate_whole hs hw (Nat.lt_of_not_le hfits) hcandidate
        obtain ⟨fits,mid,db',whole,fair,hok,hpruned⟩ := ih db₂ hevicts.sound hevicts.windows
        refine ⟨fits,mid,db',whole+1,fair,?_,
          pruned_cut hcut hevicts (hcut.cut.runs_front hs hw) hpruned⟩
        dsimp only
        rw [h₁]
        show (shedRunBytes db₁ row.runId _).bind _ = _
        rw [h₂]
        exact hok

/-- Global pruning is exact, fair and total: from any store whose windows are whole, it
ends within its funding, without an error, in the cuts that the two phases prescribe. -/
theorem global_pruning_exact (files : Files) (limit rows : ℕ) (db : Database)
    (hs : Sound db files) (hw : ∀ r ∈ db.runs, Window db r) :
    ∃ fits mid db' whole fair,
      pruneGlobalReplayWithRowFunding limit rows db = .ok (fits,db') ∧
        Pruned files limit rows db mid db' fits whole fair :=
  pruneGlobal_pruned files limit rows db hs hw

/-- Two Runs of three bytes, the first in two rows. -/
def twoRuns : Database where
  runs := [⟨⟨"a"⟩,"a","",none,.exited,"","",none,0,3,3,false,0⟩,
    ⟨⟨"b"⟩,"b","",none,.exited,"","",none,0,3,3,false,0⟩]
  chunks := [⟨1,⟨"a"⟩,0,2,"1.bin",0,2⟩,⟨2,⟨"b"⟩,0,3,"1.bin",2,3⟩,⟨3,⟨"a"⟩,2,3,"1.bin",5,1⟩]
  nextOrdinal := 4
  replayFile := "1.bin"
  accounting := ⟨2,0,6,2⟩

def sixBytes : Files := fun name => if name = "1.bin" then some [1,2,3,4,5,6] else none

theorem twoRuns_sound : Sound twoRuns sixBytes where
  ids := by decide
  keys := by decide
  accounting := by decide
  ordinals := by decide
  fresh := by decide
  owned := by decide
  filled := by
    show ∀ row ∈ twoRuns.chunks, 0 < row.dataBytes
    decide
  sized := by decide
  apart := by
    show twoRuns.chunks.Pairwise fun x y => x.dataFile = y.dataFile →
      x.dataOffset+x.dataBytes ≤ y.dataOffset ∨ y.dataOffset+y.dataBytes ≤ x.dataOffset
    decide
  backed := by
    have hfile : ∀ row ∈ twoRuns.chunks, row.dataFile = "1.bin" ∧ row.dataOffset+row.dataBytes ≤ 6 := by
      decide
    intro row hrow
    obtain ⟨hname,hle⟩ := hfile row hrow
    refine ⟨by rw [hname]; decide,[1,2,3,4,5,6],by rw [hname]; rfl,hle⟩

theorem twoRuns_windows : ∀ r ∈ twoRuns.runs, Window twoRuns r := by
  have htiles : ∀ r ∈ twoRuns.runs, Tiles ChunkRow.startByte ChunkRow.endByte
      r.durableFirstAvailableByte (twoRuns.rowsOf r.id) r.durableOutputBytes := by decide
  have hcounts : ∀ r ∈ twoRuns.runs, r.replayBytes = r.durableOutputBytes-r.durableFirstAvailableByte ∧
      (0 < r.durableFirstAvailableByte → r.replayTruncated = true) ∧
      r.durableOutputBytes ≤ i64Max := by decide
  intro r hr
  obtain ⟨hbytes,htruncated,hbound⟩ := hcounts r hr
  exact ⟨htiles r hr,hbytes,htruncated,hbound⟩

/-- The limit is reached by one cut of either phase. -/
theorem twoRuns_pruned : ∃ fits mid db' whole fair,
    pruneGlobalReplayWithRowFunding 3 8 twoRuns = .ok (fits,db') ∧
      Pruned sixBytes 3 8 twoRuns mid db' fits whole fair :=
  global_pruning_exact sixBytes 3 8 twoRuns twoRuns_sound twoRuns_windows

end Durable
end Ctxmux
