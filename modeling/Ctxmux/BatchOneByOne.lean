import Ctxmux.BatchMeaning

/-!
# Batches and single appends

The windows that a batch leaves are compared with those that its entries leave one by one,
each in one transaction that is not divided.
-/

namespace Ctxmux
namespace Durable

open Tiling

variable {f : Funding} {streams : RunId → ℕ → Byte} {s s' : Store} {a : Appender} {batch : Entries}
  {terminal : Option TerminalSettlement} {row : RunRow} {db : Database} {codec : Codec}

/-- The entries one by one, each in one transaction; entries of removed Runs are dropped. -/
def appendOneByOne (codec : Codec) (limits : OutputLimits) :
    Store → Entries → Except PersistenceError (Bool × Store)
  | s, [] => .ok (true,s)
  | s, (id,replay)::batch =>
    if (s.db.run? id).isNone then appendOneByOne codec limits s batch
    else do
      let (fits,s') ← stageOutput codec limits s [(id,replay)] none
      if fits then appendOneByOne codec limits s' batch else .ok (false,s)

/-- The bytes of a Run that the store holds, in their order. -/
def windowBytes (s : Store) (id : RunId) : List Byte := (s.db.rowsByStart id).flatMap (extent s.files)

/-- What is durable of a Run's output. -/
structure DurableWindow where
  head : ℕ
  floor : ℕ
  truncated : Bool
  bytes : List Byte
deriving DecidableEq,Repr

def Store.window? (s : Store) (id : RunId) : Option DurableWindow :=
  (s.db.run? id).map fun row =>
    ⟨row.durableOutputBytes,row.durableFirstAvailableByte,row.replayTruncated,windowBytes s id⟩

theorem windowBytes_eq (hw : ∀ r ∈ s.db.runs, Window s.db r) (hf : Faithful streams s.db s.files)
    (hr : row ∈ s.db.runs) : windowBytes s row.id =
      slice (streams row.id) row.durableFirstAvailableByte row.durableOutputBytes := by
  have ht := (hw row hr).tiles
  unfold windowBytes Database.rowsByStart
  rw [ht.insertionSort_eq]
  refine ht.flatMap_slice fun chunk hc => ?_
  obtain ⟨hmem,hid⟩ := List.mem_filter.mp hc
  rw [hf chunk hmem,of_decide_eq_true hid]

/-- Stores with the same rows of Runs, faithful to the same streams, have the same windows. -/
theorem window?_congr (h : Intact streams s) (h' : Intact streams s')
    (hruns : s'.db.runs = s.db.runs) (id : RunId) : s'.window? id = s.window? id := by
  have hrun : s'.db.run? id = s.db.run? id := by
    unfold Database.run?
    rw [hruns]
  unfold Store.window?
  rw [hrun]
  cases hrow : s.db.run? id with
  | none => rfl
  | some row =>
    obtain ⟨hmem,rfl⟩ := Database.run?_mem hrow
    simp only [Option.map_some]
    rw [windowBytes_eq h.windows h.faithful hmem,
      windowBytes_eq h'.windows h'.faithful (hruns ▸ hmem)]

theorem appendOneByOne_taken (codec : Codec) (hi : Intact streams s)
    (hfeeds : Feeds f.limits streams s (batch.live s.db)) :
    ∃ s', appendOneByOne codec f.limits s batch = .ok (true,s') ∧
      Taken f.limits streams s (batch.live s.db) s' := by
  induction batch generalizing s with
  | nil => exact ⟨s,rfl,Taken.refl hi⟩
  | cons item batch ih =>
    obtain ⟨id,replay⟩ := item
    unfold appendOneByOne
    by_cases hfound : (s.db.run? id).isSome = true
    · have hsplit : Entries.live s.db ((id,replay)::batch) =
          [(id,replay)] ++ Entries.live s.db batch :=
        List.filter_cons_of_pos hfound
      rw [hsplit] at hfeeds ⊢
      obtain ⟨s₁,htaken,hstage⟩ := hfeeds.left.stageOutput hi codec none
      have hrest := hfeeds.after hi.windows htaken
      rw [← htaken.live batch] at hrest ⊢
      obtain ⟨s',hbatch,htaken'⟩ := ih htaken.intact hrest
      refine ⟨s',?_,htaken.trans htaken'⟩
      rw [if_neg (by simp [Option.isNone_iff_eq_none,Option.isSome_iff_ne_none.mp hfound]),
        ok_bind hstage]
      exact hbatch
    · have hsame : Entries.live s.db ((id,replay)::batch) = Entries.live s.db batch :=
        List.filter_cons_of_neg hfound
      rw [hsame] at hfeeds ⊢
      rw [if_pos (by simpa using hfound)]
      exact ih hi hfeeds

theorem Evicts.floor_le {files : Files} {db' : Database} {row row' : RunRow}
    (hw : ∀ r ∈ db.runs, Window db r) (h : Evicts files db db') (hr : row ∈ db.runs)
    (hr' : row' ∈ db'.runs) (hid : row'.id = row.id)
    (hhead : row'.durableOutputBytes = row.durableOutputBytes) :
    row.durableFirstAvailableByte ≤ row'.durableFirstAvailableByte := by
  have ht := (hw row hr).tiles
  have ht' := (h.windows row' hr').tiles
  cases hrows : db'.rowsOf row'.id with
  | nil =>
    rw [hrows] at ht'
    have hend : row'.durableFirstAvailableByte = row'.durableOutputBytes := ht'
    have hle := ht.le
    omega
  | cons chunk chunks =>
    rw [hrows] at ht'
    have hmem : chunk ∈ db'.rowsOf row'.id := by rw [hrows]; simp
    obtain ⟨hin,howner⟩ := List.mem_filter.mp hmem
    obtain ⟨old,hold,k,_,rfl⟩ := h.retired.chunks.mem hin
    have hof : old ∈ db.rowsOf row.id :=
      List.mem_filter.mpr ⟨hold,by rw [← hid]; exact howner⟩
    have hbounds := ht.mem_bounds hof
    have hstart : old.startByte+k = row'.durableFirstAvailableByte := ht'.1
    omega

/-- A Run after a call that stopped anywhere: its window is what the stream has between a
floor and a head that moved forward, the head not beyond what the batch presents. -/
structure Reached (streams : RunId → ℕ → Byte) (batch : Entries) (row : RunRow) (s' : Store)
    (row' : RunRow) : Prop where
  found : s'.db.run? row.id = some row'
  head_ge : row.durableOutputBytes ≤ row'.durableOutputBytes
  head_le : row'.durableOutputBytes ≤ reach row.durableOutputBytes (batch.chunksOf row.id)
  floor : row.durableFirstAvailableByte ≤ row'.durableFirstAvailableByte
  bytes : windowBytes s' row.id =
    slice (streams row.id) row'.durableFirstAvailableByte row'.durableOutputBytes

theorem Part.reached {limits : OutputLimits} {done : Entries} (hpart : Part s done batch)
    (ht : Taken limits streams s done s') (hi : Intact streams s) (he : Evicts s'.files s'.db db)
    (hr : row ∈ s.db.runs) :
    ∃ row', Reached streams batch row ⟨db,s'.files⟩ row' := by
  have hrow : s.db.run? row.id = some row := Database.run?_of_mem hi.sound.ids hr
  have hrow₁ : s'.db.run? row.id = some (done.extend limits.durableRunOutputBytes row) := by
    rw [ht.run?,hrow]
    rfl
  obtain ⟨row',hrow',hframe⟩ := he.retired.run? hrow₁
  obtain ⟨hmem',hid'⟩ := Database.run?_mem hrow'
  have hmem₁ := (Database.run?_mem hrow₁).1
  have hhead : row'.durableOutputBytes = reach row.durableOutputBytes (done.chunksOf row.id) := by
    rw [hframe]
    exact Entries.extend_head _ _ _
  have hfaithful : Faithful streams db s'.files := ht.intact.faithful.shrink he.retired.chunks
  have hfloor := he.floor_le ht.intact.windows hmem₁ hmem' (by rw [hframe]) (by rw [hframe])
  refine ⟨row',hrow',?_,?_,(Entries.extend_floor _ _ _).1.trans hfloor,?_⟩
  · rw [hhead]
    exact le_reach _ _
  · rw [hhead]
    exact (hpart row hr).2
  · have hbytes := windowBytes_eq (s := ⟨db,s'.files⟩) he.windows hfaithful hmem'
    rwa [hid'] at hbytes

theorem Outcome.reached {outcome : Except PersistenceError Bool} (hi : Intact streams s)
    (h : Outcome f streams s batch none s' outcome) (hr : row ∈ s.db.runs) :
    ∃ row', Reached streams batch row s' row' := by
  cases h with
  | whole taken settled =>
    obtain rfl := Except.ok.inj settled
    exact (Part.refl s batch).reached taken hi
      (Evicts.refl taken.intact.sound taken.intact.windows) hr
  | stopped part taken evicts => exact part.reached taken hi evicts hr
  | failed part taken =>
    exact part.reached taken hi (Evicts.refl taken.intact.sound taken.intact.windows) hr

theorem stageTerminal_runs {db' dbs dbs' : Database} (hruns : db'.runs = db.runs)
    (h : stageTerminal codec db terminal = .ok dbs)
    (h' : stageTerminal codec db' terminal = .ok dbs') : dbs'.runs = dbs.runs := by
  cases terminal with
  | none =>
    obtain rfl := Except.ok.inj h
    obtain rfl := Except.ok.inj h'
    exact hruns
  | some t =>
    obtain ⟨row,_,hupdate⟩ := bind_eq_ok.mp h
    obtain ⟨row',_,hupdate'⟩ := bind_eq_ok.mp h'
    dsimp only at hupdate hupdate'
    split at hupdate
    · cases hupdate
    · split at hupdate'
      · cases hupdate'
      · obtain rfl := Except.ok.inj hupdate
        obtain rfl := Except.ok.inj hupdate'
        rw [Database.updateRun_runs,Database.updateRun_runs,hruns]

theorem stageTerminal_chunks {db' : Database} (h : stageTerminal codec db terminal = .ok db') :
    db'.chunks = db.chunks := by
  cases terminal with
  | none =>
    obtain rfl := Except.ok.inj h
    rfl
  | some t =>
    obtain ⟨row,_,hupdate⟩ := bind_eq_ok.mp h
    dsimp only at hupdate
    split at hupdate
    · cases hupdate
    · obtain rfl := Except.ok.inj hupdate
      exact Database.updateRun_chunks _ _ _

/-- Two stores that took the same batch have the same windows, also once they are settled. -/
theorem Taken.settled_window? {limits : OutputLimits} {s₁ s₂ : Store} {db₁ db₂ : Database}
    (h₁ : Taken limits streams s batch s₁) (h₂ : Taken limits streams s batch s₂)
    (hs₁ : stageTerminal codec s₁.db terminal = .ok db₁)
    (hs₂ : stageTerminal codec s₂.db terminal = .ok db₂) (id : RunId) :
    (Store.mk db₁ s₁.files).window? id = (Store.mk db₂ s₂.files).window? id := by
  have hruns : db₁.runs = db₂.runs := stageTerminal_runs (h₁.runs.trans h₂.runs.symm) hs₂ hs₁
  have hbytes : ∀ row ∈ s₁.db.runs, windowBytes ⟨db₁,s₁.files⟩ row.id =
      windowBytes ⟨db₂,s₂.files⟩ row.id := by
    intro row hr
    have hleft : windowBytes ⟨db₁,s₁.files⟩ row.id = windowBytes s₁ row.id := by
      unfold windowBytes Database.rowsByStart Database.rowsOf
      rw [stageTerminal_chunks hs₁]
    have hright : windowBytes ⟨db₂,s₂.files⟩ row.id = windowBytes s₂ row.id := by
      unfold windowBytes Database.rowsByStart Database.rowsOf
      rw [stageTerminal_chunks hs₂]
    rw [hleft,hright,windowBytes_eq h₁.intact.windows h₁.intact.faithful hr,
      windowBytes_eq h₂.intact.windows h₂.intact.faithful ((h₁.runs.trans h₂.runs.symm) ▸ hr)]
  have hids : db₁.runs.map (·.id) = s₁.db.runs.map (·.id) := by
    cases terminal with
    | none =>
      obtain rfl := Except.ok.inj hs₁
      rfl
    | some t =>
      obtain ⟨row,_,hupdate⟩ := bind_eq_ok.mp hs₁
      dsimp only at hupdate
      split at hupdate
      · cases hupdate
      · obtain rfl := Except.ok.inj hupdate
        rw [Database.updateRun_runs,List.map_map]
        refine List.map_congr_left fun r _ => ?_
        simp only [Function.comp]
        split <;> rfl
  have hrun : db₁.run? id = db₂.run? id := by
    unfold Database.run?
    rw [hruns]
  unfold Store.window?
  rw [← hrun]
  cases hrow : db₁.run? id with
  | none => rfl
  | some row =>
    obtain ⟨hmem,rfl⟩ := Database.run?_mem hrow
    have hin : row.id ∈ s₁.db.runs.map (·.id) := hids ▸ List.mem_map_of_mem hmem
    obtain ⟨old,hold,hid⟩ := List.mem_map.mp hin
    have hsame := hbytes old hold
    rw [hid] at hsame
    simp only [Option.map_some,hsame]

theorem WellFormed.intact (h : WellFormed codec s) (hf : Faithful streams s.db s.files) :
    Intact streams s :=
  ⟨h.sound,h.windows,h.active.1,hf⟩

/-- A unit of at most a byte that is over budget is refused. -/
theorem unit_refused {id : RunId} {replay : OutputReplay} (hpassing : Passing f streams a.store
      [(id,replay)]) (hunit : replayPayload replay ≤ 1) (hne : replay.chunks.length ≤ 1)
    (hover : f.output a.attempts.length [(id,replay)] = .overBudget)
    (hbefore : a.reclaimingOutput = []) :
    (appendTransactionWithShutdown f a [(id,replay)] none).2 = .error (.resourcePressure
      "one output metadata unit does not fit the configured WAL window; increase wal_checkpoint_bytes") := by
  obtain ⟨⟨hi,hfeeds⟩,hwithin⟩ := hpassing
  have hstart : a.reclaimBefore f [(id,replay)] = (a,.ok true) := by
    unfold Appender.reclaimBefore
    split
    · rw [hbefore]
      rfl
    · rfl
  have honce : a.appendTransactionOnce f [(id,replay)] none =
      ({ a with attempts := a.attempts ++ [⟨[(id,replay)],none,false⟩] },.ok false) := by
    obtain ⟨s₁,_,hstage⟩ := hfeeds.stageOutput hi f.codec none
    have hsmall : ¬maxTransactionPayloadBytes < Entries.payload [(id,replay)] := by
      rw [Entries.payload_single,not_lt]
      exact hunit.trans (by decide)
    unfold Appender.appendTransactionOnce
    rw [if_neg hsmall,hstage,hover]
    rfl
  have hpieces : reducedOutput [(id,replay)] = .error (.resourcePressure
      "one output metadata unit does not fit the configured WAL window; increase wal_checkpoint_bytes") := by
    have hnone : (replay.chunks.head?.filter fun chunk => 1 < chunk.data.length) = none := by
      rw [Option.filter_eq_none_iff]
      intro chunk hchunk hlong
      have hlong : 1 < chunk.data.length := of_decide_eq_true hlong
      obtain ⟨more,hmore⟩ := List.head?_eq_some_iff.mp hchunk
      unfold replayPayload at hunit
      rw [hmore,List.map_cons,List.sum_cons] at hunit
      omega
    unfold reducedOutput
    rw [if_neg (by simp)]
    dsimp only
    rw [if_neg (by omega),hnone]
  unfold appendTransactionWithShutdown
  rw [hstart,andThen_of_true rfl]
  dsimp only
  rw [honce]
  dsimp only
  have hafter := reclaim_goes (a := { a with
    attempts := a.attempts ++ [⟨[(id,replay)],none,false⟩] }) hi hfeeds hwithin
  rw [andThen_of_true hafter.2]
  split
  · rename_i error herror
    rw [hpieces] at herror
    exact congrArg Except.error (Except.error.inj herror).symm
  · rename_i front tail hdivided
    rw [hpieces] at hdivided
    cases hdivided

/-- Inside the limits, and if a unit of at most a byte always fits, a batch goes through: in
transactions of at most 1 MiB, no more than twice as many as it has units, with every window
as its entries leave it one by one; a terminal settlement is committed once, in the last
transaction. Whatever the verdicts are, a call leaves of every Run the stream's bytes up to
a point of the batch. -/
theorem adaptive_append_keeps_meaning (f : Funding) (streams : RunId → ℕ → Byte) (a : Appender)
    (hwell : WellFormed f.codec a.store) (hfaithful : Faithful streams a.store.db a.store.files) :
    (∀ batch, Feeds f.limits streams a.store (Entries.live a.store.db batch) →
      (∀ row ∈ a.store.db.runs, ∃ row', Reached streams (Entries.live a.store.db batch) row
        (appendBatchWithShutdown f a batch).1.store row') ∧
      (Within f.limits a.store (Entries.live a.store.db batch) → Blocks batch → Admits f →
        ∃ single new, (appendBatchWithShutdown f a batch).2 = .ok true ∧
          appendOneByOne f.codec f.limits a.store batch = .ok (true,single) ∧
          (appendBatchWithShutdown f a batch).1.attempts = a.attempts ++ new ∧
          (∀ attempt ∈ new, attempt.batch.payload ≤ maxTransactionPayloadBytes) ∧
          new.length ≤ 2*Entries.units (Entries.live a.store.db batch).pieces ∧
          ∀ id, (appendBatchWithShutdown f a batch).1.store.window? id = single.window? id)) ∧
    (Admits f → ∀ (batch : Entries) (terminal : Option TerminalSettlement), batch ≠ [] →
      batch.payload ≤ maxTransactionPayloadBytes → Feeds f.limits streams a.store batch →
      Within f.limits a.store batch → Settles a.store terminal →
      ∃ whole new, (appendTransactionWithShutdown f a batch terminal).2 = .ok true ∧
        stageOutput f.codec f.limits a.store batch terminal = .ok (true,whole) ∧
        (appendTransactionWithShutdown f a batch terminal).1.attempts = a.attempts ++ new ∧
        Concluded batch terminal new ∧
        (appendTransactionWithShutdown f a batch terminal).1.store.db.runs = whole.db.runs ∧
        ∀ id, (appendTransactionWithShutdown f a batch terminal).1.store.window? id =
          whole.window? id) := by
  have hi := hwell.intact hfaithful
  refine ⟨fun batch hfeeds => ?_,fun hadmits batch terminal hne hsmall hfeeds hwithin hsettles => ?_⟩
  · have houtcome := appendBatch_outcome hi hfeeds
    refine ⟨fun row hr => houtcome.reached hi hr,fun hwithin hblocks hadmits => ?_⟩
    obtain ⟨hdone,new,hlog,hceiling,hbound⟩ :=
      appendBatch_succeeds hadmits ⟨⟨hi,hfeeds⟩,hwithin⟩ hblocks
    obtain ⟨single,hsingle,htaken'⟩ := appendOneByOne_taken f.codec hi hfeeds
    refine ⟨single,new,hdone,hsingle,hlog,hceiling,hbound,fun id => ?_⟩
    rw [hdone] at houtcome
    generalize (appendBatchWithShutdown f a batch).1.store = left at houtcome
    cases houtcome with
    | whole taken settled =>
      obtain rfl := Except.ok.inj settled
      exact window?_congr htaken'.intact taken.intact (taken.runs.trans htaken'.runs.symm) id
  · obtain ⟨hdone,new,hlog,hconcluded⟩ :=
      appendTransaction_succeeds hadmits hi hfeeds hwithin hne hsmall hsettles
    obtain ⟨s₁,htaken₁,hstage⟩ := hfeeds.stageOutput hi f.codec terminal
    obtain ⟨db₁,hsettled₁⟩ := (hsettles.after htaken₁).stageTerminal f.codec
    have houtcome := appendTransaction_outcome terminal hi hfeeds
    rw [hsettled₁] at hstage
    rw [hdone] at houtcome
    refine ⟨⟨db₁,s₁.files⟩,new,hdone,hstage,hlog,hconcluded,?_⟩
    generalize (appendTransactionWithShutdown f a batch terminal).1.store = left at houtcome
    cases houtcome with
    | whole taken settled =>
      exact ⟨stageTerminal_runs (taken.runs.trans htaken₁.runs.symm) hsettled₁ settled,
        taken.settled_window? htaken₁ settled hsettled₁⟩

theorem validReplayFileName_sample : validReplayFileName "a.bin" = true := by
  decide

/-- A store with one Run that was just started, and a window that takes what is allowed. -/
def startedAppender : Appender where
  store := reachedStore sampleCodec ⟨"a.bin",validReplayFileName_sample⟩ [sampleStart]
  durableHead := fun _ => 0
  reclaimingOutput := []
  attempts := []

def fundedBy (fits : Entries → Bool) : Funding where
  codec := sampleCodec
  limits := sampleLimits
  output := fun _ batch => if fits batch then .fits else .overBudget
  page := fun _ _ => .fits
  exhausted := fun _ => none

theorem startedAppender_runs : startedAppender.store.db.runs = [skippedRow] := by
  decide

theorem startedAppender_chunks : startedAppender.store.db.chunks = [] := by
  decide

theorem startedAppender_wellFormed : WellFormed sampleCodec startedAppender.store :=
  wellFormed_run (by decide) _

theorem startedAppender_faithful :
    Faithful streams startedAppender.store.db startedAppender.store.files := by
  intro row hr
  rw [startedAppender_chunks] at hr
  cases hr

/-- What the started Run is fed: chunks that tile its stream from the beginning. -/
theorem startedAppender_feeds (batch : Entries) (last : ℕ) (stream : ℕ → Byte)
    (hnamed : ∀ item ∈ batch, item.1 = sampleRun) (hfirst : ∀ item ∈ batch, item.2.firstAvailableByte = 0)
    (ht : Tiles OutputChunk.startByte OutputChunk.endByte 0 (batch.chunksOf sampleRun) last)
    (hdata : ∀ chunk ∈ batch.chunksOf sampleRun,
      chunk.data = slice stream chunk.startByte chunk.endByte) (hlast : last ≤ 4096) :
    Feeds sampleLimits (fun _ => stream) startedAppender.store batch ∧
      Within sampleLimits startedAppender.store batch := by
  have hreach : batch.fresh skippedRow = last := by
    have h := reach_tiles ht le_rfl
    unfold Entries.fresh
    rw [show skippedRow.durableOutputBytes = 0 from rfl,show skippedRow.id = sampleRun from rfl,h]
    omega
  have hgrowth : batch.growth startedAppender.store.db.runs = last := by
    unfold Entries.growth
    rw [startedAppender_runs]
    simpa using hreach
  have hrun : startedAppender.store.db.run? sampleRun = some skippedRow := by
    decide
  have hlen : startedAppender.store.files.len startedAppender.store.db.replayFile = 0 := by
    decide
  have hbytes : (startedAppender.store.db.runs.map (·.replayBytes)).sum = 0 := by
    decide
  have hlarge : 4096 ≤ i64Max := by decide
  have hlimit : sampleLimits.durableReplayBytes = 8192 := rfl
  refine ⟨⟨fun item hitem => ⟨skippedRow,hnamed item hitem ▸ hrun⟩,fun item hitem _ row hrow => ?_,
    hfirst,fun row hr => ?_,?_,?_⟩,fun row hr _ => ?_⟩
  · rw [hnamed item hitem,hrun] at hrow
    rw [← Option.some.inj hrow]
    rfl
  · rw [startedAppender_runs] at hr
    rw [List.mem_singleton.mp hr]
    exact ⟨⟨0,last,ht,by decide,le_rfl,by omega⟩,hdata⟩
  · rw [hgrowth,hbytes,hlimit]
    omega
  · rw [hgrowth,hlen]
    omega
  · rw [startedAppender_runs] at hr
    rw [List.mem_singleton.mp hr,hreach]
    show 0+last ≤ 4096
    omega

/-- Three bytes in three appends, one of them without chunks. -/
def threeAppends : Entries :=
  [(sampleRun,⟨[⟨0,2,[65,66]⟩],0,2,false⟩),(sampleRun,⟨[],0,2,true⟩),
    (sampleRun,⟨[⟨2,3,[67]⟩],0,3,false⟩)]

/-- The three bytes are committed one by one when the window takes no more. -/
theorem adaptive_append_keeps_meaning_bytewise :
    (appendBatchWithShutdown (fundedBy fun batch => batch.payload ≤ 1) startedAppender
        threeAppends).2 = .ok true ∧
      (appendBatchWithShutdown (fundedBy fun batch => batch.payload ≤ 1) startedAppender
        threeAppends).1.store.window? sampleRun = some ⟨3,0,false,[65,66,67]⟩ := by
  have hfed := startedAppender_feeds threeAppends 3
    (fun p => ([65,66,67] : List Byte).getD p 0) (by decide) (by decide) (by decide)
    (by decide) (by decide)
  have hlive : Entries.live startedAppender.store.db threeAppends = threeAppends := by decide
  have hblocks : Blocks threeAppends := by
    unfold Blocks
    decide
  have hadmits : Admits (fundedBy fun batch => batch.payload ≤ 1) := by
    refine ⟨fun n batch error h => ?_,fun n id replay hunit h => ?_⟩
    · simp only [fundedBy] at h
      split at h <;> cases h
    · simp [fundedBy,hunit] at h
  obtain ⟨single,_,hdone,hsingle,_,_,_,hwindow⟩ :=
    ((adaptive_append_keeps_meaning (fundedBy fun batch => batch.payload ≤ 1) _ startedAppender
      startedAppender_wellFormed startedAppender_faithful).1 threeAppends (hlive.symm ▸ hfed.1)).2
      (hlive.symm ▸ hfed.2) hblocks hadmits
  have heval : (appendOneByOne sampleCodec sampleLimits startedAppender.store threeAppends).map
      (fun r => r.2.window? sampleRun) = .ok (some ⟨3,0,false,[65,66,67]⟩) := by
    decide +kernel
  refine ⟨hdone,(hwindow sampleRun).trans ?_⟩
  rw [show appendOneByOne sampleCodec sampleLimits startedAppender.store threeAppends =
    .ok (true,single) from hsingle] at heval
  exact Except.ok.inj heval

/-- An append without chunks that is over budget cannot be divided: the call fails although
every transaction of one byte fits. -/
theorem chunkless_append_refused :
    let f := fundedBy fun batch => batch.payload ≠ 0
    let batch : Entries := [(sampleRun,⟨[],0,0,false⟩)]
    (∀ n (transaction : Entries), (transaction.payload = 1 →
      f.output n transaction ≠ .overBudget) ∧ ∀ error, f.output n transaction ≠ .fails error) ∧
    WellFormed f.codec startedAppender.store ∧ Blocks batch ∧
    Feeds f.limits (fun _ _ => 0) startedAppender.store
      (Entries.live startedAppender.store.db batch) ∧
    Within f.limits startedAppender.store (Entries.live startedAppender.store.db batch) ∧
    (appendBatchWithShutdown f startedAppender batch).2 ≠ .ok true := by
  intro f batch
  have hlive : Entries.live startedAppender.store.db batch = batch := by decide
  have hfed := startedAppender_feeds batch 0 (fun _ => 0) (by decide) (by decide) (by decide) (by decide) (by decide)
  rw [hlive]
  refine ⟨fun n transaction => ⟨fun hone hover => ?_,fun error hfails => ?_⟩,
    startedAppender_wellFormed,?_,hfed.1,hfed.2,?_⟩
  · simp [f,fundedBy,hone] at hover
  · simp only [f,fundedBy] at hfails
    split at hfails <;> cases hfails
  · unfold Blocks
    decide
  · have hrun : (appendBatchWithShutdown f startedAppender batch) =
        appendTransactionWithShutdown f startedAppender batch none := by
      have hgathered : gatherBatch f batch startedAppender Gathering.start =
          (startedAppender,.ok (some { Gathering.start with batch := batch })) := by
        have hfound : (startedAppender.store.db.run? sampleRun).isNone = false := by decide
        have hentry : gatherEntry f startedAppender Gathering.start sampleRun ⟨[],0,0,false⟩ =
            (startedAppender,.ok (some { Gathering.start with batch := batch })) := by
          unfold gatherEntry
          rw [hfound]
          rfl
        show (gatherEntry f startedAppender Gathering.start sampleRun ⟨[],0,0,false⟩).andThen _ = _
        rw [hentry]
        rfl
      unfold appendBatchWithShutdown
      rw [hgathered]
      rfl
    have hrefused := unit_refused (f := f) (a := startedAppender)
      ⟨⟨startedAppender_wellFormed.intact startedAppender_faithful,hfed.1⟩,hfed.2⟩ (by decide)
      (by decide) rfl rfl
    rw [hrun,hrefused]
    intro h
    cases h

end Durable
end Ctxmux
