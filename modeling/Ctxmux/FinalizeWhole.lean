import Ctxmux.FinalizeSplit
import Ctxmux.FinalizeTail
import Ctxmux.PayloadKept

/-!
# Finalizing writes the whole tail

A finalize call makes the whole tail of a Run durable exactly when the reverse scan over
the sizes of its missing chunks never skips one: a skipped chunk that has a smaller one
before it leaves a hole in front of the first transaction, which fails as a replay gap.
-/

namespace Ctxmux
namespace Durable

open Tiling

variable {codec : Codec} {limits : OutputLimits} {streams : RunId → ℕ → Byte} {id : RunId}
  {s s' : Store} {row row' : RunRow} {replay : OutputReplay} {stream : ℕ → Byte}
  {latest floor head : ℕ} {chunk : OutputChunk} {xs : List OutputChunk} {active : String}
  {stores : List Store}

/-- Every extent of the Run holds the stream's bytes for its range. -/
def Reads (stream : ℕ → Byte) (id : RunId) (s : Store) : Prop :=
  ∀ row ∈ s.db.rowsOf id, extent s.files row = slice stream row.startByte row.endByte

/-- The byte that the store holds of a Run at an offset. -/
def storedByte (s : Store) (id : RunId) (p : ℕ) : Byte :=
  match s.db.chunks.find? fun row => row.runId = id ∧ row.startByte ≤ p ∧ p < row.endByte with
  | some row => (extent s.files row).getD (p-row.startByte) 0
  | none => 0

theorem length_extent (hs : Sound s.db s.files) {row : ChunkRow} (hr : row ∈ s.db.chunks) :
    (extent s.files row).length = row.endByte-row.startByte := by
  have hlen := (hs.backed row hr).extent_le_len
  have hsized := hs.sized row hr
  unfold Files.len at hlen
  simp only [extent,List.length_take,List.length_drop]
  omega

theorem reads_storedByte (hs : Sound s.db s.files) (hw : ∀ r ∈ s.db.runs, Window s.db r)
    (id : RunId) : Reads (storedByte s id) id s := by
  intro row hr
  obtain ⟨hmem,hid⟩ := List.mem_filter.mp hr
  have hid : row.runId = id := by simpa using hid
  obtain ⟨run,hrun,hrunid⟩ := hs.owned row hmem
  have htiles := (hw run hrun).tiles
  rw [hrunid,hid] at htiles
  have hbounds := htiles.mem_bounds hr
  refine List.ext_getElem (by rw [length_extent hs hmem,length_slice]) fun k hk hk' => ?_
  rw [length_slice] at hk'
  have hfind : s.db.chunks.find? (fun r => r.runId = id ∧ r.startByte ≤ row.startByte+k ∧
      row.startByte+k < r.endByte) = some row := by
    cases hfound : s.db.chunks.find? (fun r => decide (r.runId = id ∧ r.startByte ≤ row.startByte+k ∧
      row.startByte+k < r.endByte)) with
    | none =>
      have hnone := List.find?_eq_none.mp hfound row hmem
      simp only [decide_eq_true_eq] at hnone
      exact absurd ⟨hid,by omega,by omega⟩ hnone
    | some other =>
      have hother := List.find?_some hfound
      simp only [decide_eq_true_eq] at hother
      have hin : other ∈ s.db.rowsOf id :=
        List.mem_filter.mpr ⟨List.mem_of_find?_eq_some hfound,by simpa using hother.1⟩
      rw [htiles.eq_of_mem hr hin (by omega) hother.2]
  have hbyte : storedByte s id (row.startByte+k) = (extent s.files row)[k] := by
    unfold storedByte
    rw [hfind]
    simp only [Nat.add_sub_cancel_left]
    rw [List.getD_eq_getElem?_getD,List.getElem?_eq_getElem hk,Option.getD_some]
  simp only [slice,List.getElem_map,List.getElem_range',Nat.one_mul]
  exact hbyte.symm

/-- A stream that the Run's rows agree with extends to all Runs. -/
theorem exists_streams (hs : Sound s.db s.files) (hw : ∀ r ∈ s.db.runs, Window s.db r)
    (hreads : Reads stream id s) :
    ∃ streams : RunId → ℕ → Byte, streams id = stream ∧ Faithful streams s.db s.files := by
  refine ⟨Function.update (storedByte s) id stream,Function.update_self _ _ _,fun row hr => ?_⟩
  have hmem : row ∈ s.db.rowsOf row.runId := List.mem_filter.mpr ⟨hr,by simp⟩
  by_cases heq : row.runId = id
  · rw [heq] at hmem ⊢
    rw [Function.update_self]
    exact hreads row hmem
  · rw [Function.update_of_ne heq]
    exact reads_storedByte hs hw row.runId row hmem

theorem Continues.split {ys : List OutputChunk} (h : Continues stream floor head (xs ++ ys) latest)
    (hxs : xs ≠ [] ∨ ys = []) :
    ∃ m, Continues stream floor head xs m ∧ m ≤ latest ∧
      ∀ floor', floor' ≤ m → Continues stream floor' m ys latest := by
  obtain ⟨first,hfloor,hfirst,ht⟩ := h.tiles
  obtain ⟨m,hx,hy⟩ := Tiles.append.mp ht
  have hhead : head ≤ m := by
    rcases hxs with hne | rfl
    · obtain ⟨x,hmem⟩ := List.exists_mem_of_ne_nil xs hne
      have := hx.mem_bounds hmem
      have := h.missing x (by simp [hmem])
      omega
    · rw [tiles_nil.mp hy]
      exact h.latest_ge
  refine ⟨m,⟨⟨first,hfloor,hfirst,hx⟩,fun c hc => h.missing c (by simp [hc]),hhead,
    fun c hc => h.data c (by simp [hc])⟩,hy.le,fun floor' hle => ?_⟩
  refine ⟨⟨m,hle,le_rfl,hy⟩,fun c hc => ?_,hy.le,fun c hc => h.data c (by simp [hc])⟩
  have := hy.mem_bounds hc
  omega

/-- A slice of the stream is no longer than the chunks that carry it. -/
theorem Continues.length_le (h : Continues stream floor head xs latest) :
    latest-head ≤ (xs.map (·.data.length)).sum := by
  obtain ⟨first,_,hfirst,ht⟩ := h.tiles
  have hsum := ht.sum_length
  have hsame : (xs.map fun x => x.endByte-x.startByte) = xs.map (·.data.length) :=
    List.map_congr_left fun x hx => by rw [h.data x hx,length_slice]
  rw [hsame] at hsum
  omega

/-- The row funding admits the transaction once its rows are staged. -/
def Admitted (limits : OutputLimits) (s : Store) (id : RunId) (replay : OutputReplay) : Prop :=
  ∀ s₁ evicted, appendReplayWithStorage s s.db.replayFile id replay limits.durableRunOutputBytes =
    .ok (s₁,evicted) →
      ∃ db, pruneGlobalReplayWithRowFunding limits.durableReplayBytes limits.rowFunding s₁.db =
        .ok (true,db)

/-- A store that takes the chunks as the continuation of the Run up to `latest`. -/
structure Ready (streams : RunId → ℕ → Byte) (id : RunId) (active : String) (latest : ℕ)
    (s : Store) (row : RunRow) (chunks : List OutputChunk) : Prop where
  sound : Sound s.db s.files
  windows : ∀ r ∈ s.db.runs, Window s.db r
  name : validReplayFileName active = true
  file : s.db.replayFile = active
  faithful : Faithful streams s.db s.files
  found : s.db.run? id = some row
  running : row.stateKind = .running
  continues : Continues (streams id) row.durableFirstAvailableByte row.durableOutputBytes chunks
    latest
  bound : latest ≤ i64Max
  room : s.files.len active+(latest-row.durableOutputBytes) ≤ i64Max

/-- What a transaction of the finalizer adds. -/
structure Extended (streams : RunId → ℕ → Byte) (id : RunId) (active : String) (s s' : Store)
    (row row' : RunRow) (payload : List Byte) : Prop where
  sound : Sound s'.db s'.files
  windows : ∀ r ∈ s'.db.runs, Window s'.db r
  file : s'.db.replayFile = active
  faithful : Faithful streams s'.db s'.files
  found : s'.db.run? id = some row'
  grown : Grown active s.files s'.files payload
  bytes : payload = slice (streams id) row.durableOutputBytes row'.durableOutputBytes
  head : row.durableOutputBytes ≤ row'.durableOutputBytes
  small : payload.length ≤ maxTransactionPayloadBytes

theorem stageTerminal_ok {db : Database} {terminal : Option TerminalSettlement}
    (hrow : db.run? id = some row) (hrunning : row.stateKind = .running)
    (hid : ∀ t, terminal = some t → t.id = id) : ∃ db', stageTerminal codec db terminal = .ok db' := by
  cases terminal with
  | none => exact ⟨db,rfl⟩
  | some t =>
    obtain rfl := hid t rfl
    simp only [stageTerminal,settleTerminal]
    rw [ok_bind (Database.selectRun_eq_ok.mpr hrow),if_neg (by simp [hrunning])]
    exact ⟨_,rfl⟩

theorem Ready.transaction {ys : List OutputChunk}
    (h : Ready streams id active latest s row (xs ++ ys)) (codec : Codec) (replay : OutputReplay)
    (terminal : Option TerminalSettlement) (hxs : xs ≠ [] ∨ ys = []) (hchunks : replay.chunks = xs)
    (hfirst : replay.firstAvailableByte = 0)
    (hsmall : (xs.map (·.data.length)).sum ≤ maxTransactionPayloadBytes)
    (hadmitted : Admitted limits s id replay) (hid : ∀ t, terminal = some t → t.id = id) :
    ∃ s' row' payload, appendTransaction codec limits s [(id,replay)] terminal = .ok (true,s') ∧
      Extended streams id active s s' row row' payload ∧
      (ys = [] → row'.durableOutputBytes = latest) ∧
      (terminal = none → Ready streams id active latest s' row' ys) ∧
      ∀ t, terminal = some t → row'.stateKind = .exited ∧ row'.stateJson = t.stateJson codec := by
  obtain ⟨m,hcontinues,hmle,hrest⟩ := h.continues.split hxs
  have hroom := h.room
  have hhead := hcontinues.latest_ge
  have hbound := h.bound
  obtain ⟨s₁,evicted,happend,row₁,hrow₁,hhead₁,hsame₁⟩ := append_accepts h.sound h.windows h.name
    h.faithful h.found h.running replay (by rw [hchunks]; exact hcontinues) (by omega) (by omega)
    limits.durableRunOutputBytes
  rw [← h.file] at happend
  obtain ⟨hsound₁,hwindows₁,hfile₁,_⟩ := append_sound h.sound h.windows (h.file ▸ h.name) happend
  have hcarries : Carries (streams id) replay := by
    intro chunk hc
    rw [hchunks] at hc
    obtain ⟨_,_,_,ht⟩ := hcontinues.tiles
    have hle := (ht.mem_bounds hc).2.1
    have hdata := hcontinues.data chunk hc
    have hlength := congrArg List.length hdata
    rw [length_slice] at hlength
    rw [hlength,Nat.add_sub_cancel' hle.le]
    exact hdata
  obtain ⟨hfaithful₁,happended⟩ := append_faithful h.sound h.windows (h.file ▸ h.name) h.faithful
    hcarries happend
  obtain ⟨hmem,hmemid⟩ := Database.run?_mem h.found
  obtain ⟨hmem₁,hmemid₁⟩ := Database.run?_mem hrow₁
  have hwritten : Appended (streams id) s.db.replayFile s.files s₁.files replay row row₁ := by
    rcases happended row hmem row₁ hmem₁ (hmemid₁.trans hmemid.symm) with ⟨hne,_⟩ | ⟨_,hwritten⟩
    · exact absurd hmemid hne
    · exact hwritten
  obtain ⟨payload,skipped,resumed,hgrown,hle₁,hle₂,hle₃,hpayload,hgap⟩ := hwritten
  have hwhole : skipped = resumed := by
    by_contra hne
    have := (hgap (by omega)).2.1
    omega
  rw [hwhole,slice_append (by omega) hle₃] at hpayload
  obtain ⟨db,hprune⟩ := hadmitted s₁ evicted happend
  have he := evicts_pruneGlobal hsound₁ hwindows₁ hprune
  obtain ⟨row₂,hrow₂,hsame₂⟩ := he.retired.run? hrow₁
  have hrunning₁ : row₁.stateKind = .running := by
    rw [hsame₁]
    exact h.running
  have hrunning₂ : row₂.stateKind = .running := by
    rw [hsame₂]
    exact hrunning₁
  have hsettles : ∃ db', stageTerminal codec db terminal = .ok db' :=
    stageTerminal_ok hrow₂ hrunning₂ hid
  obtain ⟨db',hsettle⟩ := hsettles
  obtain ⟨⟨hsound',hwindows',hfile'⟩,hfaithful',row',hrow',hhead',hkept,hsettled⟩ :=
    afterAppends_spec hsound₁ hwindows₁ hprune hsettle hrow₁ hid
  have hm : row'.durableOutputBytes = m := hhead'.trans hhead₁
  have hextended : Extended streams id active s ⟨db',s₁.files⟩ row row' payload := by
    refine ⟨hsound',hwindows',(hfile'.trans hfile₁).trans h.file,hfaithful' streams hfaithful₁,hrow',
      h.file ▸ hgrown,by rw [hpayload,hhead'],hm ▸ hhead,?_⟩
    rw [hpayload,length_slice,hhead₁]
    exact hcontinues.length_le.trans hsmall
  refine ⟨⟨db',s₁.files⟩,row',payload,?_,hextended,?_,?_,hsettled⟩
  · unfold appendTransaction
    simp only [List.map_cons,List.map_nil,List.sum_cons,List.sum_nil,Nat.add_zero]
    rw [if_neg (by unfold replayPayload; rw [hchunks]; omega)]
    have hstage : stageOutput codec limits s [(id,replay)] terminal =
        .ok (true,⟨db',s₁.files⟩) := by
      have happends : (coalesceBatch [(id,replay)]).foldlM (stageAppend limits) s = .ok s₁ := by
        have hone : stageAppend limits s (id,replay) = .ok s₁ :=
          (ok_bind happend).trans (ok_bind (Database.selectRun_eq_ok.mpr hrow₁))
        show (stageAppend limits s (id,replay) >>= fun s => .ok s) = .ok s₁
        rw [ok_bind hone]
      unfold stageOutput
      rw [ok_bind happends,ok_bind hprune]
      simp only [if_true]
      rw [ok_bind hsettle]
    rw [ok_bind hstage]
    rfl
  · rintro rfl
    obtain ⟨first,_,hfirstle,ht⟩ := (hrest 0 (Nat.zero_le _)).tiles
    have : first = latest := ht
    omega
  · intro hnone
    have hwindow := hwindows' row' (Database.run?_mem hrow').1
    have hlength := hextended.grown.len
    rw [hextended.bytes,length_slice] at hlength
    refine ⟨hsound',hwindows',h.name,hextended.file,hextended.faithful,hrow',
      (hkept hnone).trans hrunning₁,?_,hbound,by simp only at hlength ⊢; omega⟩
    rw [hm]
    exact hrest _ (hm ▸ hwindow.tiles.le)

/-- The transactions of a finalizer, each with the bytes it put into the payload file. -/
def Commits (active : String) : Store → List Store → List (List Byte) → Prop
  | _, [], [] => True
  | s, s'::stores, payload::payloads => Grown active s.files s'.files payload ∧
      payload.length ≤ maxTransactionPayloadBytes ∧ Commits active s' stores payloads
  | _, _, _ => False

theorem Commits.concat {payloads : List (List Byte)} (h : Commits active s stores payloads)
    {last : Store} {payload : List Byte}
    (hgrown : Grown active (stores.getLastD s).files last.files payload)
    (hsmall : payload.length ≤ maxTransactionPayloadBytes) :
    Commits active s (stores ++ [last]) (payloads ++ [payload]) := by
  induction stores generalizing s payloads with
  | nil =>
    cases payloads with
    | nil => exact ⟨hgrown,hsmall,trivial⟩
    | cons p ps => exact absurd h id
  | cons s₁ stores ih =>
    cases payloads with
    | nil => exact absurd h id
    | cons p ps =>
      obtain ⟨hfirst,hlen,hrest⟩ := h
      rw [List.getLastD_cons] at hgrown
      exact ⟨hfirst,hlen,ih hrest hgrown⟩

/-- The row funding admits every transaction that the finalizer attempts. -/
def AdmittedAll (codec : Codec) (limits : OutputLimits) (id : RunId) (replay : OutputReplay)
    (final : List OutputChunk) : Store → List (List OutputChunk) → Prop
  | s, [] => Admitted limits s id { replay with chunks := final }
  | s, group::groups => Admitted limits s id (groupReplay replay group) ∧
      ∀ s', appendTransaction codec limits s [(id,groupReplay replay group)] none = .ok (true,s') →
        AdmittedAll codec limits id replay final s' groups

theorem Ready.commitGroups {groups : List (List OutputChunk)} {final : List OutputChunk}
    (h : Ready streams id active latest s row (groups.flatten ++ final))
    (hfirst : replay.firstAvailableByte = 0)
    (hgroups : ∀ group ∈ groups, group ≠ [] ∧
      (group.map (·.data.length)).sum ≤ maxTransactionPayloadBytes)
    (hadmitted : AdmittedAll codec limits id replay final s groups) :
    ∃ stores payloads row', Durable.commitGroups codec limits id replay s groups =
        .ok (true,stores) ∧
      Commits active s stores payloads ∧
      Ready streams id active latest (stores.getLastD s) row' final ∧
      Admitted limits (stores.getLastD s) id { replay with chunks := final } ∧
      row.durableOutputBytes ≤ row'.durableOutputBytes ∧
      payloads.flatten = slice (streams id) row.durableOutputBytes row'.durableOutputBytes := by
  induction groups generalizing s row with
  | nil => exact ⟨[],[],row,rfl,trivial,h,hadmitted,le_rfl,by simp⟩
  | cons group groups ih =>
    obtain ⟨hne,hsmall⟩ := hgroups group (by simp)
    rw [List.flatten_cons,List.append_assoc] at h
    obtain ⟨s₁,row₁,payload,htransaction,hextended,_,hready,_⟩ :=
      h.transaction codec (groupReplay replay group) none (.inl hne) rfl hfirst hsmall
        hadmitted.1 fun t ht => (by cases ht)
    obtain ⟨stores,payloads,row',hcommit,hcommits,hready',hadmitted',hhead,hpayloads⟩ :=
      ih (hready rfl) (fun g hg => hgroups g (by simp [hg])) (hadmitted.2 s₁ htransaction)
    rw [← List.getLastD_cons] at hready' hadmitted'
    refine ⟨s₁::stores,payload::payloads,row',?_,⟨hextended.grown,hextended.small,hcommits⟩,hready',
      hadmitted',hextended.head.trans hhead,?_⟩
    · unfold Durable.commitGroups
      rw [ok_bind htransaction]
      simp only [if_true]
      rw [ok_bind hcommit]
    · rw [List.flatten_cons,hpayloads,hextended.bytes,slice_append hextended.head hhead]

theorem mapM_ok {α β : Type} {f : α → Except PersistenceError β} {g : α → β} {xs : List α}
    (h : ∀ x ∈ xs, f x = .ok (g x)) : xs.mapM f = .ok (xs.map g) := by
  induction xs with
  | nil => rfl
  | cons x xs ih =>
    rw [List.mapM_cons,ok_bind (h x (by simp)),ok_bind (ih fun y hy => h y (by simp [hy]))]
    rfl

/-- The part of a chunk from the floor on. -/
def fromFloor (floor : ℕ) (chunk : OutputChunk) : OutputChunk :=
  if floor ≤ chunk.startByte then chunk
  else ⟨floor,chunk.endByte,chunk.data.drop (floor-chunk.startByte)⟩

theorem clipChunk_ok (hlt : chunk.startByte < chunk.endByte)
    (hdata : chunk.data = slice stream chunk.startByte chunk.endByte) :
    clipChunk id floor chunk = .ok (fromFloor floor chunk) := by
  unfold clipChunk fromFloor
  rw [if_neg (by rw [hdata,length_slice]; omega)]
  split
  · rfl
  · rfl

theorem fromFloor_spec (floor : ℕ) (hdata : chunk.data = slice stream chunk.startByte chunk.endByte)
    :
    (fromFloor floor chunk).startByte = max chunk.startByte floor ∧
      (fromFloor floor chunk).endByte = chunk.endByte ∧
      (fromFloor floor chunk).data = slice stream (max chunk.startByte floor) chunk.endByte := by
  unfold fromFloor
  split
  · rename_i hle
    rw [max_eq_left hle]
    exact ⟨rfl,rfl,hdata⟩
  · rename_i hlt
    rw [max_eq_right (by omega)]
    refine ⟨rfl,rfl,?_⟩
    simp only
    rw [hdata,drop_slice]
    congr 1
    omega

/-- Cutting the first of the chunks at the floor leaves a tiling from there. -/
theorem tiles_fromFloor {first : ℕ} {chunks : List OutputChunk}
    (ht : Tiles OutputChunk.startByte OutputChunk.endByte first chunks latest)
    (hfirst : first ≤ head) (hfloor : floor ≤ head) (hlatest : head ≤ latest)
    (hmissing : ∀ chunk ∈ chunks, head < chunk.endByte) :
    ∃ d, floor ≤ d ∧ d ≤ head ∧
      Tiles OutputChunk.startByte OutputChunk.endByte d (chunks.map (fromFloor floor)) latest := by
  cases chunks with
  | nil =>
    have hend : first = latest := ht
    exact ⟨latest,by omega,by omega,rfl⟩
  | cons x xs =>
    obtain ⟨rfl,_,hrest⟩ := ht
    have hx := hmissing x (by simp)
    have hxs : xs.map (fromFloor floor) = xs := by
      refine (List.map_congr_left fun y hy => ?_).trans (List.map_id' xs)
      have := hrest.mem_bounds hy
      exact if_pos (by omega)
    rw [List.map_cons,hxs]
    unfold fromFloor
    split
    · exact ⟨x.startByte,by assumption,hfirst,rfl,by omega,hrest⟩
    · exact ⟨floor,le_rfl,hfloor,rfl,by simp only; omega,hrest⟩

/-- The sizes of the chunks that end above the durable head, each from the floor on. -/
def tailSizes (row : RunRow) (replay : OutputReplay) : List ℕ :=
  (replay.chunks.filter fun chunk => row.durableOutputBytes < chunk.endByte).map fun chunk =>
    chunk.endByte-max chunk.startByte row.durableFirstAvailableByte

/-- What is missing of a contiguous log continues the window. -/
theorem missingChunks_ok {db : Database} {first : ℕ} (hrow : db.run? id = some row)
    (hfloor : row.durableFirstAvailableByte ≤ row.durableOutputBytes)
    (ht : Tiles OutputChunk.startByte OutputChunk.endByte first replay.chunks
      replay.latestOutputBytes) (hfirst : first ≤ row.durableOutputBytes)
    (hlatest : row.durableOutputBytes ≤ replay.latestOutputBytes)
    (hdata : ∀ chunk ∈ replay.chunks, chunk.data = slice stream chunk.startByte chunk.endByte) :
    ∃ missing, missingChunks db id replay = .ok missing ∧
      Continues stream row.durableFirstAvailableByte row.durableOutputBytes missing
        replay.latestOutputBytes ∧
      missing.map (·.data.length) = tailSizes row replay := by
  obtain ⟨d,_,hd,htail⟩ := ht.after hfirst
  have hmem : ∀ chunk ∈ replay.chunks.filter (fun chunk => row.durableOutputBytes < chunk.endByte),
      chunk ∈ replay.chunks ∧ row.durableOutputBytes < chunk.endByte := fun chunk hc => by
    simpa using List.mem_filter.mp hc
  have hspec := fun chunk hc =>
    fromFloor_spec row.durableFirstAvailableByte (hdata chunk (hmem chunk hc).1)
  refine ⟨(replay.chunks.filter fun chunk => row.durableOutputBytes < chunk.endByte).map
    (fromFloor row.durableFirstAvailableByte),?_,?_,?_⟩
  · unfold missingChunks
    rw [ok_bind (Database.selectRun_eq_ok.mpr hrow),if_neg (not_lt.mpr hfloor)]
    exact mapM_ok fun chunk hc =>
      clipChunk_ok (htail.mem_bounds hc).2.1 (hdata chunk (hmem chunk hc).1)
  · refine ⟨?_,fun chunk hc => ?_,hlatest,fun chunk hc => ?_⟩
    · exact tiles_fromFloor htail hd hfloor hlatest fun chunk hc => (hmem chunk hc).2
    · obtain ⟨x,hx,rfl⟩ := List.mem_map.mp hc
      rw [(hspec x hx).2.1]
      exact (hmem x hx).2
    · obtain ⟨x,hx,rfl⟩ := List.mem_map.mp hc
      obtain ⟨hstart,hend,hbytes⟩ := hspec x hx
      rw [hbytes,hstart,hend]
  · rw [List.map_map]
    refine List.map_congr_left fun chunk hc => ?_
    simp only [Function.comp]
    rw [(hspec chunk hc).2.2,length_slice]

theorem committed_commitGroups {groups : List (List OutputChunk)} (hs : Sound s.db s.files)
    (hw : ∀ r ∈ s.db.runs, Window s.db r) (hname : validReplayFileName s.db.replayFile = true)
    (hrow : s.db.run? id = some row) (hfirst : replay.firstAvailableByte = 0)
    (hok : commitGroups codec limits id replay s groups = .ok (true,stores)) :
    ∃ row', Committed id s (stores.getLastD s) groups.flatten row row' := by
  induction groups generalizing s row stores with
  | nil =>
    obtain ⟨_,rfl⟩ := Prod.mk.inj (Except.ok.inj hok)
    exact ⟨row,hs,hw,rfl,hrow,trivial,rfl⟩
  | cons group groups ih =>
    unfold commitGroups at hok
    obtain ⟨⟨fits,s₁⟩,htransaction,hrest⟩ := bind_eq_ok.mp hok
    simp only at hrest
    split at hrest
    · rename_i hfits
      obtain ⟨⟨done,more⟩,hmore,hrest⟩ := bind_eq_ok.mp hrest
      obtain ⟨rfl,rfl⟩ := Prod.mk.inj (Except.ok.inj hrest)
      rw [hfits] at htransaction
      obtain ⟨row₁,h₁⟩ := committed_appendTransaction hs hw hname hrow (by exact hfirst)
        htransaction (by simp)
      obtain ⟨row',h'⟩ := ih h₁.sound h₁.windows (h₁.replayFile ▸ hname) h₁.found hmore
      rw [← List.getLastD_cons] at h'
      refine ⟨row',h'.sound,h'.windows,h'.replayFile.trans h₁.replayFile,h'.found,?_,?_⟩
      · rw [List.flatten_cons,contig_append]
        exact ⟨h₁.contig,h₁.head ▸ h'.contig⟩
      · rw [List.flatten_cons,reach_append,h'.head,h₁.head]
        rfl
    · cases (Prod.mk.inj (Except.ok.inj hrest)).1

theorem Continues.neverSkips {missing : List OutputChunk}
    (h : Continues stream floor head missing latest)
    (hcontig : Contig head (finalPartition missing).1) :
    NeverSkips maxTransactionPayloadBytes (missing.map (·.data.length)).reverse := by
  by_contra hskips
  obtain ⟨first,_,_,ht⟩ := h.tiles
  obtain ⟨c,m,hsub,hc,hm⟩ := finalPartition_skips hskips
  have hperm := finalPartition_perm missing
  have hpair : [m,c].Pairwise fun x y => x.endByte ≤ y.startByte := ht.pairwise.sublist hsub
  have horder : m.endByte ≤ c.startByte := by simpa using hpair
  have hmissing : ∀ x, x ∈ [m,c] → x ∈ missing := fun x hx => hsub.subset hx
  have hmbounds := ht.mem_bounds (hmissing m (by simp))
  have hcbounds := ht.mem_bounds (hmissing c (by simp))
  have hmhead := h.missing m (hmissing m (by simp))
  obtain ⟨x,hx,hcovers⟩ := hcontig.covers (p := m.endByte-1) (by omega) hc (by omega)
  have hsame : x = m := ht.eq_of_mem (hperm.subset (List.mem_append_left _ hx))
    (hmissing m (by simp)) hcovers (by omega)
  have hnodup : ((finalPartition missing).1 ++ (finalPartition missing).2).Nodup :=
    hperm.nodup_iff.mpr (ht.pairwise_lt.imp fun hlt heq => absurd hlt (by rw [heq]; exact lt_irrefl _))
  exact (List.nodup_append.mp hnodup).2.2 x hx m hm hsame

/-- The largest block of the replay cache. -/
def replayCacheBlockBytes : ℕ := 64*1024

/-- The committed store after the events of a run from a created store. -/
def reachedStore (codec : Codec) (replayFile : { name : String // validReplayFileName name = true })
    (events : List (StoreEvent codec)) : Store :=
  Machine.run (storeStep codec) (createdStore replayFile) events

/-- A finalize call as the daemon makes it: a durable running Run of a reached store, the
log of the Run as `durable_replay` renders it, and a store that admits every transaction
that the call attempts. -/
structure FinalizeCall (codec : Codec) (limits : OutputLimits) where
  replayFile : { name : String // validReplayFileName name = true }
  events : List (StoreEvent codec)
  terminal : TerminalSettlement
  replay : OutputReplay
  row : RunRow
  stream : ℕ → Byte
  first : ℕ
  found : (reachedStore codec replayFile events).db.run? terminal.id = some row
  running : row.stateKind = .running
  tiles : Tiles OutputChunk.startByte OutputChunk.endByte first replay.chunks
    replay.latestOutputBytes
  first_le : first ≤ row.durableOutputBytes
  latest_ge : row.durableOutputBytes ≤ replay.latestOutputBytes
  small : ∀ chunk ∈ replay.chunks, chunk.data.length ≤ replayCacheBlockBytes
  data : ∀ chunk ∈ replay.chunks, chunk.data = slice stream chunk.startByte chunk.endByte
  rendered : replay.firstAvailableByte = 0
  reads : Reads stream terminal.id (reachedStore codec replayFile events)
  admitted : ∀ missing groups,
    missingChunks (reachedStore codec replayFile events).db terminal.id replay = .ok missing →
    splitChunks (finalPartition missing).1 = .ok groups →
    AdmittedAll codec limits terminal.id replay (finalPartition missing).2
      (reachedStore codec replayFile events) groups
  room : (reachedStore codec replayFile events).files.len
      (reachedStore codec replayFile events).db.replayFile+
    (replay.latestOutputBytes-row.durableOutputBytes) ≤ i64Max

namespace FinalizeCall

def store (call : FinalizeCall codec limits) : Store :=
  reachedStore codec call.replayFile call.events

/-- The call settles the Run and its transactions write the bytes from the durable head to
the end of the log once and in order; the rows that are left read the Run's bytes. -/
def MakesTailDurable (call : FinalizeCall codec limits) : Prop :=
  ∃ stores payloads row',
    finalizeWithShutdown codec limits call.store call.terminal call.replay = .ok (true,stores) ∧
    Commits call.store.db.replayFile call.store stores payloads ∧
    payloads.flatten = slice call.stream call.row.durableOutputBytes call.replay.latestOutputBytes ∧
    (stores.getLastD call.store).db.run? call.terminal.id = some row' ∧
    row'.durableOutputBytes = call.replay.latestOutputBytes ∧
    row'.stateKind = .exited ∧ row'.stateJson = call.terminal.stateJson codec ∧
    Reads call.stream call.terminal.id (stores.getLastD call.store)

section

variable (call : FinalizeCall codec limits)

theorem wellFormed : WellFormed codec call.store :=
  wellFormed_run call.replayFile.2 call.events

theorem window : Window call.store.db call.row :=
  call.wellFormed.windows call.row (Database.run?_mem call.found).1

theorem missing_ok :
    ∃ missing, missingChunks call.store.db call.terminal.id call.replay = .ok missing ∧
      Continues call.stream call.row.durableFirstAvailableByte call.row.durableOutputBytes missing
        call.replay.latestOutputBytes ∧
      missing.map (·.data.length) = tailSizes call.row call.replay :=
  missingChunks_ok call.found call.window.tiles.le call.tiles call.first_le call.latest_ge call.data

/-- The partition of a call whose sizes never skip is carried out. -/
theorem makesTailDurable (hbound : call.replay.latestOutputBytes ≤ i64Max)
    (hnever : NeverSkips maxTransactionPayloadBytes (tailSizes call.row call.replay).reverse) :
    call.MakesTailDurable := by
  have h := call.wellFormed
  obtain ⟨missing,hmissing,hcontinues,hsizes⟩ := call.missing_ok
  rw [← hsizes] at hnever
  obtain ⟨hwhole,hfinal⟩ := finalPartition_contiguous hnever
  have hchunk : ∀ chunk ∈ (finalPartition missing).1,
      chunk.data.length ≤ maxTransactionPayloadBytes := by
    intro chunk hc
    have hsize : chunk.data.length ∈ tailSizes call.row call.replay := by
      rw [← hsizes]
      exact List.mem_map.mpr ⟨chunk,hwhole ▸ List.mem_append_left _ hc,rfl⟩
    obtain ⟨x,hx,hlen⟩ := List.mem_map.mp hsize
    have hsmall := call.small x (List.mem_filter.mp hx).1
    rw [call.data x (List.mem_filter.mp hx).1,length_slice] at hsmall
    have hblock : replayCacheBlockBytes ≤ maxTransactionPayloadBytes := by decide
    omega
  obtain ⟨groups,hgroups⟩ := splitChunks_ok hchunk
  obtain ⟨hflatten,hfilled⟩ := splitChunks_spec hgroups
  have hadmitted := call.admitted missing groups hmissing hgroups
  obtain ⟨streams,hstream,hfaithful⟩ := exists_streams h.sound h.windows call.reads
  have hready : Ready streams call.terminal.id call.store.db.replayFile
      call.replay.latestOutputBytes call.store call.row
      (groups.flatten ++ (finalPartition missing).2) :=
    ⟨h.sound,h.windows,h.active.1,rfl,hfaithful,call.found,call.running,
      by rw [hflatten,hwhole,hstream]; exact hcontinues,hbound,call.room⟩
  obtain ⟨stores,payloads,row₁,hcommit,hcommits,hready₁,hadmitted₁,hhead₁,hpayloads⟩ :=
    hready.commitGroups call.rendered hfilled hadmitted
  rw [← List.append_nil (finalPartition missing).2] at hready₁
  obtain ⟨last,row',payload,htransaction,hextended,hlatest,_,hsettled⟩ :=
    hready₁.transaction codec { call.replay with chunks := (finalPartition missing).2 }
      (some call.terminal) (.inr rfl) rfl call.rendered hfinal hadmitted₁ (by simp)
  have hlast : (stores ++ [last]).getLastD call.store = last := by simp
  refine ⟨stores ++ [last],payloads ++ [payload],row',?_,
    hcommits.concat hextended.grown hextended.small,?_,?_,hlatest rfl,(hsettled _ rfl).1,
    (hsettled _ rfl).2,?_⟩
  · unfold finalizeWithShutdown
    rw [ok_bind hmissing]
    simp only
    rw [ok_bind hgroups,ok_bind hcommit]
    simp only [if_true]
    rw [ok_bind htransaction]
  · rw [List.flatten_append,hpayloads,List.flatten_singleton,hextended.bytes,
      slice_append hhead₁ hextended.head,hlatest rfl,hstream]
  · rw [hlast]
    exact hextended.found
  · rw [hlast,← hstream]
    intro row hr
    obtain ⟨hmem,hid⟩ := List.mem_filter.mp hr
    have hid : row.runId = call.terminal.id := by simpa using hid
    rw [hextended.faithful row hmem,hid]

theorem neverSkips_of_settled
    (hok : finalizeWithShutdown codec limits call.store call.terminal call.replay =
      .ok (true,stores)) :
    NeverSkips maxTransactionPayloadBytes (tailSizes call.row call.replay).reverse ∧
      ∃ row', (stores.getLastD call.store).db.run? call.terminal.id = some row' ∧
        row'.durableOutputBytes ≤ i64Max := by
  have h := call.wellFormed
  obtain ⟨missing,hmissing,hcontinues,hsizes⟩ := call.missing_ok
  unfold finalizeWithShutdown at hok
  rw [ok_bind hmissing] at hok
  simp only at hok
  obtain ⟨groups,hgroups,hok⟩ := bind_eq_ok.mp hok
  obtain ⟨⟨done,before⟩,hcommit,hok⟩ := bind_eq_ok.mp hok
  obtain ⟨hflatten,_⟩ := splitChunks_spec hgroups
  simp only at hok
  split at hok
  · rename_i hdone
    rw [hdone] at hcommit
    obtain ⟨⟨settled,last⟩,htransaction,hrest⟩ := bind_eq_ok.mp hok
    obtain ⟨rfl,rfl⟩ := Prod.mk.inj (Except.ok.inj hrest)
    obtain ⟨row₁,h₁⟩ := committed_commitGroups h.sound h.windows h.active.1 call.found
      call.rendered hcommit
    have hname : validReplayFileName (before.getLastD call.store).db.replayFile = true := by
      rw [h₁.replayFile]
      exact h.active.1
    obtain ⟨row',h'⟩ := committed_appendTransaction h₁.sound h₁.windows hname h₁.found
      (by exact call.rendered) htransaction (by simp)
    rw [← hsizes]
    refine ⟨hcontinues.neverSkips (hflatten ▸ h₁.contig),row',?_,?_⟩
    · simpa using h'.found
    · exact (h'.windows row' (Database.run?_mem h'.found).1).bound
  · cases (Prod.mk.inj (Except.ok.inj hok)).1

end

end FinalizeCall

/-- A finalize call makes the whole tail of its Run durable exactly when the log ends
within SQLite's integers and the reverse scan over the missing chunks skips none. -/
theorem finalize_makes_tail_durable_iff (codec : Codec) (limits : OutputLimits)
    (call : FinalizeCall codec limits) :
    call.MakesTailDurable ↔ call.replay.latestOutputBytes ≤ i64Max ∧
      NeverSkips maxTransactionPayloadBytes (tailSizes call.row call.replay).reverse := by
  constructor
  · rintro ⟨stores,payloads,row',hok,_,_,hrow',hhead,_⟩
    obtain ⟨hnever,last,hlast,hbound⟩ := call.neverSkips_of_settled hok
    obtain rfl := Option.some.inj (hrow'.symm.trans hlast)
    exact ⟨hhead ▸ hbound,hnever⟩
  · rintro ⟨hbound,hnever⟩
    exact call.makesTailDurable hbound hnever

/-- A log in blocks of the given sizes. -/
def layOut (block : ℕ → List Byte) : ℕ → List ℕ → List OutputChunk
  | _, [] => []
  | start, n::ns => ⟨start,start+n,block n⟩::layOut block (start+n) ns

theorem tiles_layOut {block : ℕ → List Byte} {start : ℕ} {ns : List ℕ} (hpos : ∀ n ∈ ns, 0 < n) :
    Tiles OutputChunk.startByte OutputChunk.endByte start (layOut block start ns)
      (start+ns.sum) := by
  induction ns generalizing start with
  | nil => rfl
  | cons n ns ih =>
    have := hpos n (by simp)
    refine ⟨rfl,by simp only; omega,?_⟩
    rw [List.sum_cons,← Nat.add_assoc]
    exact ih fun m hm => hpos m (by simp [hm])

/-- A block of a silent stream. -/
def zeros (n : ℕ) : List Byte := List.replicate n 0

theorem length_zeros (n : ℕ) : (zeros n).length = n := List.length_replicate

theorem layOut_mem {start : ℕ} {ns : List ℕ} (h : chunk ∈ layOut zeros start ns) :
    chunk.data = slice (fun _ => 0) chunk.startByte chunk.endByte ∧ chunk.data.length ∈ ns := by
  induction ns generalizing start with
  | nil => cases h
  | cons n ns ih =>
    rcases List.mem_cons.mp h with rfl | h
    · simp [slice,zeros,List.map_const']
    · obtain ⟨hdata,hlen⟩ := ih h
      exact ⟨hdata,by simp [hlen]⟩

/-- One byte, a full block, half a block and fifteen full blocks. -/
def skippedSizes : List ℕ :=
  [1,65536,32768,65536,65536,65536,65536,65536,65536,65536,65536,65536,65536,65536,65536,65536,
    65536,65536]

theorem finalPartition_skipped {block : ℕ → List Byte} (hlength : ∀ n, (block n).length = n) :
    (finalPartition (layOut block 0 skippedSizes)).1 = [⟨1,65537,block 65536⟩] := by
  simp [finalPartition,skippedSizes,layOut,FinalScan.push,maxTransactionPayloadBytes,hlength]

def skippedReplay : OutputReplay := ⟨layOut zeros 0 skippedSizes,0,1081345,false⟩

theorem append_gap (hs : Sound s.db s.files)
    (hw : ∀ r ∈ s.db.runs, Window s.db r) (hname : validReplayFileName s.db.replayFile = true)
    (hrow : s.db.run? id = some row) (hfirst : replay.firstAvailableByte = 0)
    (hgap : ¬Contig row.durableOutputBytes replay.chunks) (limit : ℕ) {evicted : Bool} :
    appendReplayWithStorage s s.db.replayFile id replay limit ≠ .ok (s',evicted) := by
  intro happend
  obtain ⟨row₀,c₁,c₂,_,_,_,hrow₀,hfold,_⟩ := appendReplayWithStorage_eq_ok happend
  obtain rfl := Option.some.inj (hrow.symm.trans hrow₀)
  exact hgap ((packed_start hs hw hname hrow).contig_fold hfirst hfold).1

theorem admittedAll_of_gap {group final : List OutputChunk} (hs : Sound s.db s.files)
    (hw : ∀ r ∈ s.db.runs, Window s.db r) (hname : validReplayFileName s.db.replayFile = true)
    (hrow : s.db.run? id = some row) (hfirst : replay.firstAvailableByte = 0)
    (hgap : ¬Contig row.durableOutputBytes group) (groups : List (List OutputChunk)) :
    AdmittedAll codec limits id replay final s (group::groups) := by
  have hfails : ∀ s₁ evicted, appendReplayWithStorage s s.db.replayFile id
      (groupReplay replay group) limits.durableRunOutputBytes ≠ .ok (s₁,evicted) :=
    fun _ _ => append_gap hs hw hname hrow (by exact hfirst) hgap _
  refine ⟨fun s₁ evicted hok => absurd hok (hfails s₁ evicted),fun s' hok => ?_⟩
  obtain ⟨s₁,evicted,_,_,happend,_⟩ := appendTransaction_eq_ok hok
  exact absurd happend (hfails s₁ evicted)

/-- Of a Run without durable output everything is missing. -/
theorem missingChunks_all {db : Database} (hrow : db.run? id = some row)
    (hfloor : row.durableFirstAvailableByte = 0) (hhead : row.durableOutputBytes = 0)
    (ht : Tiles OutputChunk.startByte OutputChunk.endByte 0 replay.chunks latest)
    (hdata : ∀ chunk ∈ replay.chunks, chunk.data = slice stream chunk.startByte chunk.endByte) :
    missingChunks db id replay = .ok replay.chunks := by
  unfold missingChunks
  rw [ok_bind (Database.selectRun_eq_ok.mpr hrow),hfloor,hhead,if_neg (by simp),
    List.filter_eq_self.mpr fun chunk hc => ?_,mapM_ok fun chunk hc =>
      clipChunk_ok (ht.mem_bounds hc).2.1 (hdata chunk hc)]
  · simp [fromFloor]
  · have := ht.mem_bounds hc
    simp only [decide_eq_true_eq]
    omega

/-- The row of a Run that was just started. -/
def skippedRow : RunRow where
  id := sampleRun
  creationKey := "0198f3c2-6f00-7c00-8a00-000000000002"
  specJson := "\x7b\"program\":\"sh\"\x7d"
  lineageJson := none
  stateKind := .running
  stateJson := sampleCodec.stateText .running
  sourceEpoch := "5e0c1a52-3f3e-4d9e-9d66-1f6f1c1b2a10"
  pid := none
  durableFirstAvailableByte := 0
  durableOutputBytes := 0
  replayBytes := 0
  replayTruncated := false
  metadataBytes := metadataSize sampleRun "0198f3c2-6f00-7c00-8a00-000000000002"
    "\x7b\"program\":\"sh\"\x7d" none (sampleCodec.stateText .running)
    "5e0c1a52-3f3e-4d9e-9d66-1f6f1c1b2a10"

theorem skippedRow_found :
    (reachedStore sampleCodec ⟨"a.bin",by decide⟩ [sampleStart]).db.run? sampleRun =
      some skippedRow := by
  decide

theorem skippedReplay_missing :
    missingChunks (reachedStore sampleCodec ⟨"a.bin",by decide⟩ [sampleStart]).db sampleRun
      skippedReplay = .ok skippedReplay.chunks :=
  missingChunks_all skippedRow_found rfl rfl (tiles_layOut (by decide)) fun _ hc =>
    (layOut_mem hc).1

/-- A Run that was just started, exited after this log. -/
def skippedCall : FinalizeCall sampleCodec sampleLimits where
  replayFile := ⟨"a.bin",by decide⟩
  events := [sampleStart]
  terminal := ⟨sampleRun,4242,0,none,none⟩
  replay := skippedReplay
  row := skippedRow
  stream := fun _ => 0
  first := 0
  found := skippedRow_found
  running := rfl
  tiles := tiles_layOut (by decide)
  first_le := le_rfl
  latest_ge := Nat.zero_le _
  small chunk hc := by
    have hsize : ∀ n ∈ skippedSizes, n ≤ replayCacheBlockBytes := by decide
    exact hsize _ (layOut_mem hc).2
  data chunk hc := (layOut_mem hc).1
  rendered := rfl
  reads row hr := by
    have hnone : (reachedStore sampleCodec ⟨"a.bin",by decide⟩ [sampleStart]).db.chunks = [] := by
      decide
    rw [Database.rowsOf,hnone] at hr
    cases hr
  admitted missing groups hmissing hgroups := by
    have h : WellFormed sampleCodec (reachedStore sampleCodec ⟨"a.bin",by decide⟩ [sampleStart]) :=
      wellFormed_run (by decide) _
    have hall : missing = skippedReplay.chunks := by
      exact Except.ok.inj (hmissing.symm.trans skippedReplay_missing)
    rw [hall,show skippedReplay.chunks = layOut zeros 0 skippedSizes from rfl,
      finalPartition_skipped length_zeros] at hgroups
    obtain ⟨hflatten,hfilled⟩ := splitChunks_spec hgroups
    cases groups with
    | nil => cases hflatten
    | cons group groups =>
      refine admittedAll_of_gap h.sound h.windows h.active.1 skippedRow_found rfl ?_ _
      cases group with
      | nil => exact absurd rfl (hfilled [] (by simp)).1
      | cons x xs =>
        have hx : x = ⟨1,65537,zeros 65536⟩ := (List.cons.inj hflatten).1
        rintro ⟨hstart,_⟩
        rw [hx] at hstart
        exact absurd hstart (by decide)
  room := by decide


theorem error_bind {α β : Type} {x : Except PersistenceError α} {error : PersistenceError}
    {f : α → Except PersistenceError β} (h : x = .error error) : (x >>= f) = .error error := by
  rw [h]
  rfl

/-- What storage says about a hole in front of the first chunk. -/
theorem append_gap_error {chunks : List OutputChunk} (w : String) (limit : ℕ)
    (hrow : s.db.run? id = some row) (hrunning : row.stateKind = .running)
    (hchunks : replay.chunks = chunk::chunks) (hfirst : replay.firstAvailableByte = 0)
    (hrange : checkChunkRange id chunk = .ok ()) (hgap : row.durableOutputBytes < chunk.startByte) :
    appendReplayWithStorage s w id replay limit = .error (.mutation
      s!"Run {id} durable replay gap: got {chunk.startByte}, expected {row.durableOutputBytes}") := by
  obtain ⟨hsize,_,_⟩ := checkChunkRange_eq_ok hrange
  unfold appendReplayWithStorage
  rw [ok_bind (Database.selectRun_eq_ok.mpr hrow),if_neg (by simp [hrunning]),hchunks,
    List.foldlM_cons]
  refine error_bind (error_bind ?_)
  unfold applyReplayChunk applyAligned jumpGap
  rw [ok_bind hrange,if_neg (by simp only; omega),ok_bind hrange,if_neg (by simp only; omega),
    if_neg (by simp only; omega),if_pos]
  · rfl
  · rintro ⟨_,hstart⟩
    omega

/-- A call whose first transaction would carry one chunk above the head fails as a gap. -/
theorem finalize_gap {t : TerminalSettlement} {missing : List OutputChunk} (start head : ℕ)
    (hid : t.id = id) (hstart : chunk.startByte = start) (hhead : row.durableOutputBytes = head)
    (hmissing : missingChunks s.db t.id replay = .ok missing)
    (hbefore : (finalPartition missing).1 = [chunk]) (hrow : s.db.run? t.id = some row)
    (hrunning : row.stateKind = .running) (hfirst : replay.firstAvailableByte = 0)
    (hrange : checkChunkRange t.id chunk = .ok ())
    (hsmall : chunk.data.length ≤ maxTransactionPayloadBytes) (hgap : head < start) :
    finalizeWithShutdown codec limits s t replay = .error (.mutation
      s!"Run {id} durable replay gap: got {start}, expected {head}") := by
  subst hid hstart hhead
  have hsplit : splitChunks (finalPartition missing).1 = .ok [[chunk]] := by
    have hpush : ChunkGroups.push ⟨[],[],0⟩ chunk = .ok ⟨[],[chunk],chunk.data.length⟩ := by
      unfold ChunkGroups.push
      rw [if_neg (not_lt.mpr hsmall),if_neg (by simp)]
      simp
    rw [hbefore]
    unfold splitChunks
    rw [List.foldlM_cons,ok_bind hpush]
    rfl
  have hgroup : appendTransaction codec limits s [(t.id,groupReplay replay [chunk])] none =
      .error (.mutation s!"Run {t.id} durable replay gap: got {chunk.startByte}, expected {row.durableOutputBytes}") := by
    unfold appendTransaction
    simp only
    rw [if_neg (by simp [replayPayload,groupReplay,hsmall])]
    refine error_bind (error_bind ?_)
    show (stageAppend limits s (t.id,groupReplay replay [chunk]) >>= fun s => .ok s) = _
    exact error_bind (error_bind
      (append_gap_error _ _ hrow hrunning rfl (by exact hfirst) hrange hgap))
  unfold finalizeWithShutdown
  rw [ok_bind hmissing]
  simp only
  rw [ok_bind hsplit]
  exact error_bind (error_bind hgroup)

theorem checkChunkRange_skipped {data : List Byte} (hlength : data.length = 65536) :
    checkChunkRange sampleRun ⟨1,65537,data⟩ = .ok () := by
  refine checkChunkRange_ok ?_ (List.ne_nil_of_length_pos ?_) (show 65537 ≤ i64Max by decide)
  · show 1+data.length = 65537
    omega
  · show 0 < data.length
    omega

theorem skippedReplay_gap :
    finalizeWithShutdown sampleCodec sampleLimits
        (reachedStore sampleCodec ⟨"a.bin",by decide⟩ [sampleStart]) ⟨sampleRun,4242,0,none,none⟩
        skippedReplay = .error (.mutation
          s!"Run {sampleRun} durable replay gap: got {1}, expected {0}") := by
  have hrange := checkChunkRange_skipped (length_zeros 65536)
  have hsmall : (zeros 65536).length ≤ maxTransactionPayloadBytes := by
    rw [length_zeros]
    decide
  exact finalize_gap 1 0 rfl rfl rfl skippedReplay_missing (finalPartition_skipped length_zeros)
    skippedRow_found rfl rfl hrange hsmall Nat.zero_lt_one

/-- The block after the first byte is skipped, the byte itself fits, and the block comes
first: storage finds a hole and the whole call fails. -/
theorem finalize_skips_into_a_gap :
    ¬skippedCall.MakesTailDurable ∧
      finalizeWithShutdown sampleCodec sampleLimits skippedCall.store skippedCall.terminal
        skippedCall.replay = .error (.mutation
          s!"Run {sampleRun} durable replay gap: got {1}, expected {0}") := by
  refine ⟨?_,skippedReplay_gap⟩
  rintro ⟨stores,_,_,hok,_⟩
  have hnever := (skippedCall.neverSkips_of_settled hok).1
  exact absurd hnever (by decide)

end Durable
end Ctxmux
