import Ctxmux.RetriedLoop

/-!
# The second call

The actor calls the store once more after a transient failure, with the same batch. As long as
nothing that the first call made durable was given up again, the second is not refused and
ends at the heads of an uninterrupted call. Where the floors end follows the order in which rows were
written, and so the cuts of the transactions, as soon as the daemon-wide limit is exceeded.
-/

namespace Ctxmux
namespace Durable

open Tiling

variable {f r : Funding} {streams : RunId → ℕ → Byte} {s : Store} {a : Appender} {batch : Entries}
  {limits : OutputLimits}

/-- `retry_transient_storage` while no shutdown is asked for: what failed on a transient
condition is called a second time, and its second answer stands. -/
def retryTransientStorage {σ α : Type} (mutation : ℕ → σ → σ × Except PersistenceError α)
    (state : σ) : σ × Except PersistenceError α :=
  let first := mutation 0 state
  match first.2 with
  | .error error => if error.isTransientStorage then mutation 1 first.1 else first
  | .ok _ => first

/-- The closure that the actor retries, with what each of its calls meets. -/
def appendAttempt (funding : ℕ → Funding) (batch : Entries) (call : ℕ) (a : Appender) : AppendStep :=
  let result := appendBatchWithShutdown (funding call) a batch
  (result.1,result.2.mapError (·.atStage .append .notCommitted))

theorem retried_eq {funding : ℕ → Funding} {error : PersistenceError}
    (hfailed : (appendBatchWithShutdown (funding 0) a batch).2 = .error error)
    (htransient : (error.atStage .append .notCommitted).isTransientStorage = true) :
    retryTransientStorage (appendAttempt funding batch) a =
      appendAttempt funding batch 1 (appendBatchWithShutdown (funding 0) a batch).1 := by
  unfold retryTransientStorage
  have hfirst : (appendAttempt funding batch 0 a).2 =
      .error (error.atStage .append .notCommitted) := by
    unfold appendAttempt
    dsimp only
    rw [hfailed]
    rfl
  dsimp only
  rw [hfirst]
  dsimp only
  rw [if_pos htransient]
  rfl

theorem mapError_eq_ok {α ε ε' : Type} {g : ε → ε'} {result : Except ε α} {x : α} :
    result.mapError g = .ok x ↔ result = .ok x := by
  cases result with
  | ok y => exact ⟨fun h => congrArg _ (Except.ok.inj h),fun h => congrArg _ (Except.ok.inj h)⟩
  | error e => exact ⟨fun h => (by cases h),fun h => (by cases h)⟩

theorem mapError_eq_error {α ε ε' : Type} {g : ε → ε'} {result : Except ε α} {e : ε'} :
    result.mapError g = .error e ↔ ∃ e', result = .error e' ∧ e = g e' := by
  cases result with
  | ok y => exact ⟨fun h => (by cases h),fun ⟨_,h,_⟩ => (by cases h)⟩
  | error e' =>
    constructor
    · exact fun h => ⟨e',rfl,(Except.error.inj h).symm⟩
    · rintro ⟨_,h,rfl⟩
      rw [← Except.error.inj h]
      rfl

/-- What the store is offered: chunks of the streams from inside its windows or from its heads
on, within its integers and its file offsets. -/
structure Offered (limits : OutputLimits) (streams : RunId → ℕ → Byte) (s : Store)
    (batch : Entries) : Prop where
  found : ∀ item ∈ batch, ∃ row, s.db.run? item.1 = some row
  running : ∀ item ∈ batch, item.2.chunks ≠ [] → ∀ row, s.db.run? item.1 = some row →
    row.stateKind = .running
  presents : ∀ row ∈ s.db.runs,
    Presents limits.durableRunOutputBytes (streams row.id) row (batch.chunksOf row.id)
  room : s.files.len s.db.replayFile+batch.growth s.db.runs ≤ i64Max

/-- The daemon-wide limit holds what is stored and what the batch adds to it. -/
def HoldsAll (limits : OutputLimits) (s : Store) (batch : Entries) : Prop :=
  (s.db.runs.map (·.replayBytes)).sum+batch.growth s.db.runs ≤ limits.durableReplayBytes

theorem Offered.feeds (h : Offered limits streams s batch) (hrendered : Rendered batch)
    (htotal : HoldsAll limits s batch) :
    Feeds limits streams s batch :=
  ⟨h.found,h.running,hrendered,h.presents,htotal,h.room⟩

/-- A batch that begins at the heads presents nothing that is durable. -/
theorem Offered.fed (h : Offered limits streams s batch) (hrendered : Rendered batch)
    (hheads : FromHeads s batch) : Fed limits streams s batch where
  found := h.found
  running := h.running
  rendered := hrendered
  tiles row hr := by
    obtain ⟨first,last,ht,_,hhead,hlast⟩ := (h.presents row hr).tiles
    exact ⟨first,last,ht,hhead,hlast⟩
  data row hr := (h.presents row hr).data
  room := h.room
  order := by
    refine ⟨[],batch.positions,rfl,fun x hx => (by cases hx),fun x hx row hrow => ?_,
      fun hne => absurd rfl hne⟩
    obtain ⟨hr,hid⟩ := Database.run?_mem hrow
    obtain ⟨chunk,hchunk,hstart,_⟩ := mem_positionsIn.mp (Entries.mem_positions.mp hx)
    exact (hheads row hr chunk (hid ▸ hchunk)).trans hstart

/-- A batch as the actor takes it from the outputs of its Runs, and a first call of the store
that failed on a transient condition. -/
structure Interrupted (funding : ℕ → Funding) (streams : RunId → ℕ → Byte) (a : Appender)
    (batch : Entries) (error : PersistenceError) : Prop where
  limits : (funding 1).limits = (funding 0).limits
  wellFormed : WellFormed (funding 0).codec a.store
  faithful : Faithful streams a.store.db a.store.files
  rendered : Rendered batch
  blocks : Blocks batch
  offered : Offered (funding 0).limits streams a.store (batch.live a.store.db)
  heads : FromHeads a.store (batch.live a.store.db)
  failed : (appendBatchWithShutdown (funding 0) a batch).2 = .error error
  transient : (error.atStage .append .notCommitted).isTransientStorage = true

/-- The retry went through, and left every window as an uninterrupted call leaves it. -/
def RetrySettles (funding : ℕ → Funding) (a : Appender) (batch : Entries) : Prop :=
  (retryTransientStorage (appendAttempt funding batch) a).2 = .ok true ∧
  ∀ u : Funding, u.codec = (funding 0).codec → u.limits = (funding 0).limits →
    (appendBatchWithShutdown u a batch).2 = .ok true → ∀ id,
      (retryTransientStorage (appendAttempt funding batch) a).1.store.window? id =
        (appendBatchWithShutdown u a batch).1.store.window? id

/-- What a batch leaves of a store, however its transactions were cut: every Run ends where
an uninterrupted call ends it and holds the bytes of its stream, within the limits; while the
daemon-wide limit holds everything the windows are those of an uninterrupted call. -/
structure Settled (limits : OutputLimits) (streams : RunId → ℕ → Byte) (a : Appender)
    (batch : Entries) (s : Store) : Prop where
  head : ∀ u : Funding, u.limits = limits → (appendBatchWithShutdown u a batch).2 = .ok true →
    ∀ id, (s.window? id).map (·.head) =
      ((appendBatchWithShutdown u a batch).1.store.window? id).map (·.head)
  bytes : ∀ id window, s.window? id = some window → window.floor ≤ window.head ∧
    window.bytes = slice (streams id) window.floor window.head
  within : ∀ id window, s.window? id = some window → (batch.live a.store.db).chunksOf id ≠ [] →
    window.head-limits.durableRunOutputBytes ≤ window.floor
  stored : batch.live a.store.db ≠ [] →
    (s.db.runs.map (·.replayBytes)).sum ≤ limits.durableReplayBytes
  windows : HoldsAll limits a.store (batch.live a.store.db) →
    ∀ u : Funding, u.limits = limits → (appendBatchWithShutdown u a batch).2 = .ok true →
      ∀ id, s.window? id = (appendBatchWithShutdown u a batch).1.store.window? id

theorem appendBatch_whole (hi : Intact streams a.store)
    (hfeeds : Feeds f.limits streams a.store (batch.live a.store.db))
    (hdone : (appendBatchWithShutdown f a batch).2 = .ok true) :
    Taken f.limits streams a.store (batch.live a.store.db)
      (appendBatchWithShutdown f a batch).1.store := by
  have houtcome := appendBatch_outcome hi hfeeds
  rw [hdone] at houtcome
  exact houtcome.taken

/-- A call that goes through ends every Run at the end of its chunks. -/
theorem Fed.whole (hi : Intact streams a.store)
    (hfed : Fed f.limits streams a.store (batch.live a.store.db)) (hblocks : Blocks batch)
    (hdone : (appendBatchWithShutdown f a batch).2 = .ok true) :
    Advanced f.limits streams a.store (batch.live a.store.db)
      (appendBatchWithShutdown f a batch).1.store := by
  have hran := (appendBatch_ran hi hfed hblocks).1
  rw [hdone] at hran
  exact hran.advanced

theorem Store.window?_head (s : Store) (id : RunId) :
    (s.window? id).map (·.head) = (s.db.run? id).map (·.durableOutputBytes) := by
  unfold Store.window?
  rw [Option.map_map]
  rfl

theorem Intact.window? (h : Intact streams s) {id : RunId} {window : DurableWindow}
    (hwindow : s.window? id = some window) : window.floor ≤ window.head ∧
      window.bytes = slice (streams id) window.floor window.head := by
  obtain ⟨row,hrow,rfl⟩ := Option.map_eq_some_iff.mp hwindow
  obtain ⟨hr,rfl⟩ := Database.run?_mem hrow
  exact ⟨(h.windows row hr).tiles.le,windowBytes_eq h.windows h.faithful hr⟩

/-- A front, and after it the batch once more, end a Run where the batch alone ends it. -/
theorem Fed.head_again {done : Entries} {s' s'' left : Store} (hfed : Fed limits streams s batch)
    (hfront : Front done batch) (ha : Advanced limits streams s done s')
    (hagain : Advanced limits streams s' batch s'') (hplain : Advanced limits streams s batch left)
    (id : RunId) :
    (s''.window? id).map (·.head) = (left.window? id).map (·.head) := by
  rw [Store.window?_head,Store.window?_head]
  cases hrow : s.db.run? id with
  | none =>
    have hnone : ∀ {t : Store}, List.Forall₂ (fun r r' => r'.id = r.id) s.db.runs t.db.runs →
        t.db.run? id = none := by
      intro t hids
      have hrel := Database.run?_forall₂ (fun _ _ hsame => hsame) hids id
      rw [hrow] at hrel
      cases h : t.db.run? id with
      | none => rfl
      | some row =>
        rw [h] at hrel
        cases hrel
    have hids := forall₂_comp (fun _ _ _ hr hr' => hr.trans hr') ha.rows hagain.rows
    rw [hnone (hids.imp fun _ _ hr => hr.same),hnone (hplain.rows.imp fun _ _ hr => hr.same)]
  | some row =>
    obtain ⟨row',hrow',honward⟩ := ha.run? hrow
    obtain ⟨row'',hrow'',honward'⟩ := hagain.run? hrow'
    obtain ⟨last,hlast,hplain'⟩ := hplain.run? hrow
    obtain ⟨hr,_⟩ := Database.run?_mem hrow
    rw [hrow'',hlast,Option.map_some,Option.map_some,honward'.head,hplain'.head,honward.same,
      honward.head,hfed.reach_front hfront hr]

namespace Interrupted

variable {funding : ℕ → Funding} {error : PersistenceError}

section

variable (h : Interrupted funding streams a batch error)
include h

theorem intact : Intact streams a.store :=
  h.wellFormed.intact h.faithful

theorem fed :
    Fed (funding 0).limits streams a.store (batch.live a.store.db) :=
  h.offered.fed (h.rendered.live _) h.heads

theorem front :
    ∃ done, Front done (batch.live a.store.db) ∧ Advanced (funding 0).limits streams a.store done
      (appendBatchWithShutdown (funding 0) a batch).1.store := by
  have hran := (appendBatch_ran h.intact h.fed h.blocks).1
  rw [h.failed] at hran
  generalize (appendBatchWithShutdown (funding 0) a batch).1.store = left at hran ⊢
  cases hran with
  | failed front advanced sound => exact ⟨_,front,advanced⟩

/-- The retry is fed, if nothing of the batch was given up. -/
theorem again (hkept : Replayable (appendBatchWithShutdown (funding 0) a batch).1.store.db batch) :
    Fed (funding 1).limits streams (appendBatchWithShutdown (funding 0) a batch).1.store
      (batch.live (appendBatchWithShutdown (funding 0) a batch).1.store.db) := by
  obtain ⟨done,hfront,hadvanced⟩ := h.front
  rw [h.limits,hadvanced.live batch]
  exact h.fed.again h.heads hfront hadvanced fun item hitem =>
    hkept item (List.mem_filter.mp hitem).1

theorem accepted (hkept : Replayable (appendBatchWithShutdown (funding 0) a batch).1.store.db batch)
    (hsucceeds : Succeeds (funding 1)) {e : PersistenceError}
    (hrefused : (retryTransientStorage (appendAttempt funding batch) a).2 = .error e) :
    e.isMutation = false := by
  rw [retried_eq h.failed h.transient] at hrefused
  obtain ⟨e',hagain,rfl⟩ := mapError_eq_error.mp hrefused
  obtain ⟨_,_,hadvanced⟩ := h.front
  have hran := (appendBatch_ran hadvanced.intact (h.again hkept) h.blocks).1
  rw [hagain] at hran
  rw [PersistenceError.isMutation_atStage]
  generalize (appendBatchWithShutdown (funding 1)
    (appendBatchWithShutdown (funding 0) a batch).1 batch).1.store = left at hran
  cases hran with
  | failed front advanced sound => exact sound hsucceeds

/-- While the daemon-wide limit holds everything, the retry is fed without a byte given up. -/
theorem feeds (htotal : HoldsAll (funding 0).limits a.store (batch.live a.store.db))
    (hkept : Replayable (appendBatchWithShutdown (funding 0) a batch).1.store.db batch) :
    ∃ done, Part a.store done (batch.live a.store.db) ∧
      Taken (funding 0).limits streams a.store done
        (appendBatchWithShutdown (funding 0) a batch).1.store ∧
      Feeds (funding 1).limits streams (appendBatchWithShutdown (funding 0) a batch).1.store
        (batch.live (appendBatchWithShutdown (funding 0) a batch).1.store.db) := by
  have hfeeds := h.offered.feeds (h.rendered.live _) htotal
  have houtcome := appendBatch_outcome h.intact hfeeds
  rw [h.failed] at houtcome
  generalize (appendBatchWithShutdown (funding 0) a batch).1.store = left at houtcome hkept ⊢
  cases houtcome with
  | failed part taken =>
    refine ⟨_,part,taken,?_⟩
    rw [h.limits,taken.live batch]
    exact part.feeds h.intact.windows taken hfeeds fun item hitem =>
      hkept item (List.mem_filter.mp hitem).1

theorem goes (hcalm : a.reclaimingOutput = []) (hfits : Fits (funding 1))
    (htotal : HoldsAll (funding 0).limits a.store (batch.live a.store.db))
    (hkept : Replayable (appendBatchWithShutdown (funding 0) a batch).1.store.db batch) :
    (retryTransientStorage (appendAttempt funding batch) a).2 = .ok true := by
  have hne : (appendBatchWithShutdown (funding 0) a batch).2 ≠ .ok false := by
    rw [h.failed]
    exact fun heq => (by cases heq)
  obtain ⟨done,_,taken,hagain⟩ := h.feeds htotal hkept
  rw [retried_eq h.failed h.transient]
  exact mapError_eq_ok.mpr (appendBatch_fits hfits
    ⟨taken.intact,hagain,(appendBatch_ran h.intact h.fed h.blocks).2 hcalm hne⟩ h.blocks)

theorem windows (htotal : HoldsAll (funding 0).limits a.store (batch.live a.store.db))
    (hkept : Replayable (appendBatchWithShutdown (funding 0) a batch).1.store.db batch)
    (hdone : (appendBatchWithShutdown (funding 1)
      (appendBatchWithShutdown (funding 0) a batch).1 batch).2 = .ok true) {u : Funding}
    (hlimits : u.limits = (funding 0).limits)
    (hwhole : (appendBatchWithShutdown u a batch).2 = .ok true) (id : RunId) :
    (appendBatchWithShutdown (funding 1)
      (appendBatchWithShutdown (funding 0) a batch).1 batch).1.store.window? id =
      (appendBatchWithShutdown u a batch).1.store.window? id := by
  obtain ⟨done,part,taken,hagain⟩ := h.feeds htotal hkept
  have hretry := appendBatch_whole taken.intact hagain hdone
  have hplain := appendBatch_whole h.intact
    (hlimits ▸ h.offered.feeds (h.rendered.live _) htotal) hwhole
  refine window?_congr hplain.intact hretry.intact ?_ id
  rw [hretry.runs,taken.runs,hplain.runs,taken.live batch,h.limits,hlimits,List.map_map]
  exact List.map_congr_left fun row hr => part.extend _ hr

theorem settled (hkept : Replayable (appendBatchWithShutdown (funding 0) a batch).1.store.db batch)
    (hdone : (retryTransientStorage (appendAttempt funding batch) a).2 = .ok true) :
    Settled (funding 0).limits streams a batch
      (retryTransientStorage (appendAttempt funding batch) a).1.store := by
  rw [retried_eq h.failed h.transient] at hdone ⊢
  have hdone := mapError_eq_ok.mp hdone
  obtain ⟨done,hfront,hadvanced⟩ := h.front
  have hwhole := (h.again hkept).whole hadvanced.intact h.blocks hdone
  rw [h.limits,hadvanced.live batch] at hwhole
  refine ⟨fun u hlimits hplain id => ?_,fun id window => hwhole.intact.window?,
    fun id window hwindow hne => ?_,fun hne => ?_,
    fun htotal u hlimits hplain => h.windows htotal hkept hdone hlimits hplain⟩
  · have huninterrupted := Fed.whole h.intact (hlimits ▸ h.fed) h.blocks hplain
    exact h.fed.head_again hfront hadvanced hwhole (hlimits ▸ huninterrupted) id
  · obtain ⟨row',hrow',rfl⟩ := Option.map_eq_some_iff.mp hwindow
    obtain ⟨row,hrow,honward⟩ := hwhole.run?_back hrow'
    obtain ⟨_,hid⟩ := Database.run?_mem hrow
    exact honward.cut (hid.symm ▸ hne)
  · rcases hwhole.capped with hcapped | ⟨hnil,_⟩
    · exact hcapped
    · exact absurd hnil hne

end

end Interrupted

/-- As long as no chunk of the batch begins below the durable head and below the durable floor
of its Run, the retry is not refused as a mutation, and when it goes through it settles the
batch; while the daemon-wide limit holds everything it goes through if the window takes its
transactions. A retry that goes through found no such chunk. -/
theorem retried_append_settles (funding : ℕ → Funding) (streams : RunId → ℕ → Byte) (a : Appender)
    (batch : Entries) (error : PersistenceError)
    (h : Interrupted funding streams a batch error) :
    ((retryTransientStorage (appendAttempt funding batch) a).2 = .ok true →
      Replayable (appendBatchWithShutdown (funding 0) a batch).1.store.db batch) ∧
    (Replayable (appendBatchWithShutdown (funding 0) a batch).1.store.db batch →
      (Succeeds (funding 1) → ∀ e,
        (retryTransientStorage (appendAttempt funding batch) a).2 = .error e →
          e.isMutation = false) ∧
      ((retryTransientStorage (appendAttempt funding batch) a).2 = .ok true →
        Settled (funding 0).limits streams a batch
          (retryTransientStorage (appendAttempt funding batch) a).1.store) ∧
      (HoldsAll (funding 0).limits a.store (batch.live a.store.db) → a.reclaimingOutput = [] →
        Fits (funding 1) →
          (retryTransientStorage (appendAttempt funding batch) a).2 = .ok true)) := by
  refine ⟨fun hdone => ?_,fun hkept => ⟨fun hsucceeds e => h.accepted hkept hsucceeds,
    h.settled hkept,fun htotal hcalm hfits => h.goes hcalm hfits htotal hkept⟩⟩
  rw [retried_eq h.failed h.transient] at hdone
  obtain ⟨hmoved,_⟩ := appendBatch_moved (f := funding 0)
    ⟨h.intact.sound,h.intact.windows,h.intact.named⟩ h.rendered
  exact replayable_iff.mpr ((appendBatch_moved hmoved.tidy h.rendered).2 (mapError_eq_ok.mp hdone))

/-- Four bytes in two chunks. -/
def fourBytes : Entries := [(sampleRun,⟨[⟨0,3,[65,66,67]⟩,⟨3,4,[68]⟩],0,4,false⟩)]

def diskFull : PersistenceError :=
  .database "database or disk is full" (some .diskFull) (some 13) none

/-- The first call is divided, and its second piece finds the disk full; the second call has
room for all of it. -/
def interruptedFunding (limit call : ℕ) : Funding where
  codec := sampleCodec
  limits := { sampleLimits with durableRunOutputBytes := limit }
  output := fun n _ =>
    if call = 0 then if n = 0 then .overBudget else if n = 1 then .fits else .fails diskFull
    else .fits
  page := fun _ _ => .fits
  exhausted := fun _ => none

def fourByteStream (_ : RunId) (p : ℕ) : Byte := ([65,66,67,68] : List Byte).getD p 0

theorem fourBytes_live : Entries.live startedAppender.store.db fourBytes = fourBytes := by
  decide

theorem fourBytes_offered (limit : ℕ) :
    Offered (interruptedFunding limit 0).limits fourByteStream startedAppender.store fourBytes ∧
      HoldsAll (interruptedFunding limit 0).limits startedAppender.store fourBytes := by
  obtain ⟨hfeeds,_⟩ := startedAppender_feeds fourBytes 4
    (fun p => ([65,66,67,68] : List Byte).getD p 0) (by decide) (by decide) (by decide) (by decide)
    (by decide)
  refine ⟨⟨hfeeds.found,hfeeds.running,fun row hr => ?_,hfeeds.room⟩,hfeeds.total⟩
  have hp := hfeeds.presents row hr
  rw [startedAppender_runs] at hr
  obtain rfl := List.mem_singleton.mp hr
  obtain ⟨first,last,ht,_,hhead,hbound⟩ := hp.tiles
  refine ⟨⟨first,last,ht,?_,hhead,hbound⟩,hp.data⟩
  show max 0 (0-limit) ≤ first
  omega

theorem fourBytes_interrupted {limit : ℕ}
    (hfailed : (appendBatchWithShutdown (interruptedFunding limit 0) startedAppender fourBytes).2 =
      .error diskFull) :
    Interrupted (interruptedFunding limit) fourByteStream startedAppender fourBytes diskFull where
  limits := rfl
  wellFormed := startedAppender_wellFormed
  faithful := startedAppender_faithful
  rendered := by unfold Rendered; decide
  blocks := by unfold Blocks; decide
  offered := fourBytes_live.symm ▸ (fourBytes_offered limit).1
  heads := by
    intro row hr _ _
    rw [startedAppender_runs] at hr
    rw [List.mem_singleton.mp hr]
    exact Nat.zero_le _
  failed := hfailed
  transient := by decide

/-- With room for all four bytes in the window, the retry settles them. -/
theorem retried_append_settles_four :
    (retryTransientStorage (appendAttempt (interruptedFunding 4096) fourBytes) startedAppender).2 =
      .ok true ∧
    Settled (interruptedFunding 4096 0).limits fourByteStream startedAppender fourBytes
      (retryTransientStorage (appendAttempt (interruptedFunding 4096) fourBytes)
        startedAppender).1.store := by
  have hkept : Replayable (appendBatchWithShutdown (interruptedFunding 4096 0) startedAppender
      fourBytes).1.store.db fourBytes := by
    intro item hitem row hrow chunk _ _
    have hfloor : ((appendBatchWithShutdown (interruptedFunding 4096 0) startedAppender
        fourBytes).1.store.db.run? sampleRun).all
        (fun row => row.durableFirstAvailableByte = 0) = true := by
      decide +kernel
    rw [List.mem_singleton.mp hitem] at hrow
    rw [show (appendBatchWithShutdown (interruptedFunding 4096 0) startedAppender
      fourBytes).1.store.db.run? sampleRun = some row from hrow] at hfloor
    have hzero : row.durableFirstAvailableByte = 0 := by simpa using hfloor
    omega
  obtain ⟨_,hretried⟩ := retried_append_settles (interruptedFunding 4096) fourByteStream
    startedAppender fourBytes diskFull (fourBytes_interrupted (by decide +kernel))
  obtain ⟨_,hsettles,hgoes⟩ := hretried hkept
  have hdone := hgoes (fourBytes_live.symm ▸ (fourBytes_offered 4096).2) rfl fun _ _ => rfl
  exact ⟨hdone,hsettles hdone⟩

section Crowded

def otherRun : RunId := ⟨"0198f3c2-6f00-7c00-8a00-000000000003"⟩

def otherStart : StoreEvent sampleCodec :=
  .start ⟨"5e0c1a52-3f3e-4d9e-9d66-1f6f1c1b2a11",rfl⟩ "0198f3c2-6f00-7c00-8a00-000000000004" otherRun
    "\x7b\"program\":\"sh\"\x7d" none []

def otherRow : RunRow :=
  { skippedRow with
    id := otherRun
    creationKey := "0198f3c2-6f00-7c00-8a00-000000000004"
    sourceEpoch := "5e0c1a52-3f3e-4d9e-9d66-1f6f1c1b2a11" }

/-- A store with two Runs that were just started. -/
def crowdedAppender : Appender where
  store := reachedStore sampleCodec ⟨"a.bin",validReplayFileName_sample⟩ [sampleStart,otherStart]
  durableHead := fun _ => 0
  reclaimingOutput := []
  attempts := []

/-- Five bytes of two Runs, the first of them cut in two. -/
def fiveBytes : Entries :=
  [(sampleRun,⟨[⟨0,1,[65]⟩],0,1,false⟩),(otherRun,⟨[⟨0,2,[89,90]⟩],0,2,false⟩),
    (sampleRun,⟨[⟨1,3,[66,67]⟩],0,3,false⟩)]

def fiveByteStream (id : RunId) (p : ℕ) : Byte :=
  (if id = sampleRun then [65,66,67] else [89,90] : List Byte).getD p 0

/-- A daemon-wide limit of three bytes. The first call is divided, and its last piece finds
the disk full. -/
def crowdedFunding (call : ℕ) : Funding where
  codec := sampleCodec
  limits := { sampleLimits with durableReplayBytes := 3 }
  output := fun n _ =>
    if call = 0 then if n = 0 ∨ n = 2 then .overBudget else if n = 4 then .fails diskFull else .fits
    else .fits
  page := fun _ _ => .fits
  exhausted := fun _ => none

theorem crowdedAppender_runs : crowdedAppender.store.db.runs = [skippedRow,otherRow] := by
  decide

theorem fiveBytes_live : Entries.live crowdedAppender.store.db fiveBytes = fiveBytes := by
  decide

theorem fiveBytes_offered :
    Offered (crowdedFunding 0).limits fiveByteStream crowdedAppender.store fiveBytes where
  found item hitem := Option.isSome_iff_exists.mp
    ((by decide : ∀ item ∈ fiveBytes, (crowdedAppender.store.db.run? item.1).isSome) item hitem)
  running item hitem _ row hrow := by
    have hrunning : ∀ item ∈ fiveBytes,
        (crowdedAppender.store.db.run? item.1).all (·.stateKind = .running) = true := by
      decide
    have hrow' := hrunning item hitem
    rw [hrow] at hrow'
    simpa using hrow'
  presents row hr := by
    rw [crowdedAppender_runs] at hr
    rcases List.mem_cons.mp hr with rfl | hr
    · exact ⟨⟨0,3,by decide,by decide,by decide,by decide⟩,by decide⟩
    · rw [List.mem_singleton.mp hr]
      exact ⟨⟨0,2,by decide,by decide,by decide,by decide⟩,by decide⟩
  room := by decide

theorem fiveBytes_interrupted :
    Interrupted crowdedFunding fiveByteStream crowdedAppender fiveBytes diskFull where
  limits := rfl
  wellFormed := wellFormed_run (by decide) _
  faithful := by
    intro row hr
    rw [show crowdedAppender.store.db.chunks = [] by decide] at hr
    cases hr
  rendered := by unfold Rendered; decide
  blocks := by unfold Blocks; decide
  offered := fiveBytes_live.symm ▸ fiveBytes_offered
  heads := by
    intro row hr _ _
    rw [crowdedAppender_runs] at hr
    rcases List.mem_cons.mp hr with rfl | hr
    · exact Nat.zero_le _
    · rw [List.mem_singleton.mp hr]
      exact Nat.zero_le _
  failed := by decide +kernel
  transient := by decide

end Crowded

/-- Two ways in which a retry ends otherwise than an uninterrupted call. Above the daemon-wide
limit the rows of an earlier transaction are given up before those of a later one, so the
floors depend on the cuts. And with a window of two bytes the first piece of the batch has
given up its front when it is presented again: the retry is refused as a mutation. -/
theorem retried_append_differs :
    (Interrupted crowdedFunding fiveByteStream crowdedAppender fiveBytes diskFull ∧
      Fits (crowdedFunding 1) ∧ (appendBatchWithShutdown (crowdedFunding 1) crowdedAppender
        fiveBytes).2 = .ok true ∧
      (retryTransientStorage (appendAttempt crowdedFunding fiveBytes) crowdedAppender).2 =
        .ok true ∧
      ¬RetrySettles crowdedFunding crowdedAppender fiveBytes) ∧
    (Interrupted (interruptedFunding 2) fourByteStream startedAppender fourBytes diskFull ∧
      Fits (interruptedFunding 2 1) ∧ (appendBatchWithShutdown (interruptedFunding 2 1)
        startedAppender fourBytes).2 = .ok true ∧
      (retryTransientStorage (appendAttempt (interruptedFunding 2) fourBytes) startedAppender).2 =
        .error (.operation "" .append .unknown (.mutation
          "Run 0198f3c2-6f00-7c00-8a00-000000000001 cannot verify evicted replay range [0, 3)")) ∧
      ¬RetrySettles (interruptedFunding 2) startedAppender fourBytes) := by
  have hwhole : (appendBatchWithShutdown (crowdedFunding 1) crowdedAppender fiveBytes).2 =
      .ok true := by
    decide +kernel
  have hrefused : (retryTransientStorage (appendAttempt (interruptedFunding 2) fourBytes)
      startedAppender).2 = .error (.operation "" .append .unknown (.mutation
        "Run 0198f3c2-6f00-7c00-8a00-000000000001 cannot verify evicted replay range [0, 3)")) := by
    decide +kernel
  refine ⟨⟨fiveBytes_interrupted,fun _ _ => rfl,hwhole,by decide +kernel,fun hsettles => ?_⟩,
    fourBytes_interrupted (by decide +kernel),fun _ _ => rfl,by decide +kernel,hrefused,
    fun hsettles => ?_⟩
  · have hsame := congrArg (·.map (·.floor)) (hsettles.2 (crowdedFunding 1) rfl rfl hwhole sampleRun)
    have hretried : ((retryTransientStorage (appendAttempt crowdedFunding fiveBytes)
        crowdedAppender).1.store.window? sampleRun).map (·.floor) = some 1 := by
      decide +kernel
    have hplain : ((appendBatchWithShutdown (crowdedFunding 1) crowdedAppender
        fiveBytes).1.store.window? sampleRun).map (·.floor) = some 2 := by
      decide +kernel
    rw [show ((retryTransientStorage (appendAttempt crowdedFunding fiveBytes)
      crowdedAppender).1.store.window? sampleRun).map (·.floor) = _ from hsame,hplain] at hretried
    cases hretried
  · have hdone := hsettles.1
    rw [hrefused] at hdone
    cases hdone

end Durable
end Ctxmux
