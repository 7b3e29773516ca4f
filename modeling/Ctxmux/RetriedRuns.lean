import Ctxmux.RetriedStage

/-!
# Calls above the daemon-wide limit

Whatever the limits are and whatever the window admits, a call makes a front of the batch
durable; where its storage operations succeed it is never refused as a mutation.
-/

namespace Ctxmux
namespace Durable

open Tiling

variable {f : Funding} {limits : OutputLimits} {streams : RunId → ℕ → Byte} {s s' s'' : Store}
  {a : Appender} {batch xs ys done : Entries} {row row' row'' : RunRow} {limit : ℕ}
  {g : Gathering} {error : PersistenceError}

theorem Onward.front (h : Onward limit done row row') (hf : row'.Front row'') :
    Onward limit done row row'' := by
  have hframe := hf.frame
  have hfloor := hf.floor
  have hhead : row''.durableOutputBytes = row'.durableOutputBytes := by rw [hframe]
  refine ⟨?_,?_,hhead.trans h.head,h.floor.trans hfloor,fun hne => ?_⟩
  · rw [hframe]
    exact h.same
  · rw [hframe]
    exact h.stateKind
  · have hcut := h.cut hne
    omega

theorem onward_extend (limit : ℕ) (batch : Entries) (row : RunRow) :
    Onward limit batch row (batch.extend limit row) where
  same := Entries.extend_id limit batch row
  stateKind := Entries.extend_stateKind limit batch row
  head := Entries.extend_head limit batch row
  floor := (Entries.extend_floor limit batch row).1
  cut := by
    intro hne
    rw [Entries.extend_eq]
    cases htruncated : batch.truncatedOf row.id with
    | none =>
      obtain ⟨chunk,hchunk⟩ := List.exists_mem_of_ne_nil _ hne
      obtain ⟨item,hitem,hid,_⟩ := Entries.mem_chunksOf.mp hchunk
      exact absurd hid (Entries.truncatedOf_eq_none.mp htruncated item hitem)
    | some truncated => exact le_max_right _ _

/-- The whole batch in one transaction: it is staged without an error, and only a row funding
that is used up keeps it from being committed. -/
theorem Fed.stageOutput (h : Fed limits streams s batch) (hi : Intact streams s) (codec : Codec) :
    ∃ fits s', Durable.stageOutput codec limits s batch none = .ok (fits,s') ∧
      (fits = true → Advanced limits streams s batch s') := by
  have hfeeds := h.feeds hi
  have hcut := coalesceBatch_recut batch
  obtain ⟨s₁,hstage,htaken⟩ := (hfeeds.recut hcut).stageAll hi
  have htaken := htaken.recut hcut hfeeds
  have hintact := htaken.intact
  obtain ⟨fits,mid,db,whole,fair,hok,hpruned⟩ := pruneGlobal_pruned s₁.files
    limits.durableReplayBytes limits.rowFunding s₁.db hintact.sound hintact.windows
  have hstage : (coalesceBatch batch).foldlM (stageAppend limits) s = .ok s₁ := hstage
  refine ⟨fits,⟨db,s₁.files⟩,?_,fun hfits => ?_⟩
  · unfold Durable.stageOutput
    rw [ok_bind hstage,ok_bind hok]
    cases fits <;> rfl
  · have hevicts := hpruned.evicts
    have hrows : List.Forall₂ (Onward limits.durableRunOutputBytes batch) s.db.runs s₁.db.runs := by
      rw [htaken.runs,List.forall₂_map_right_iff]
      exact List.forall₂_same.mpr fun row _ => onward_extend _ batch row
    refine ⟨⟨⟨hevicts.sound,hevicts.windows,?_,?_⟩,?_,htaken.length⟩,?_,.inl ?_,?_⟩
    · rw [hevicts.retired.replayFile]
      exact hintact.named
    · exact hintact.faithful.shrink hevicts.retired.chunks
    · exact hevicts.retired.replayFile.trans htaken.file
    · exact forall₂_comp (R := Onward limits.durableRunOutputBytes batch) (S := RunRow.Front)
        (fun _ _ _ hr hf => hr.front hf) hrows hpruned.front
    · have hreached := hpruned.reached hfits
      rw [hevicts.sound.accounting] at hreached
      have hstored : Store.stored ⟨db,s₁.files⟩ = (Accounting.ofRuns db.runs).replayBytes := rfl
      omega
    · intro hzero hstored id row row' hrow hrow' hkept
      have hbytes := htaken.bytes_le hi.windows
      have hwithin : s₁.db.accounting.replayBytes ≤ limits.durableReplayBytes := by
        rw [hintact.sound.accounting]
        have hsum : (Accounting.ofRuns s₁.db.runs).replayBytes =
          (s₁.db.runs.map (·.replayBytes)).sum := rfl
        unfold Store.stored at hstored
        omega
      have hsame : db = s₁.db :=
        (Prod.mk.inj (Except.ok.inj (hok.symm.trans (pruneGlobal_within hwithin)))).2
      dsimp only at hrow'
      rw [hsame,htaken.run?,hrow] at hrow'
      obtain rfl := Option.some.inj hrow'
      have hfresh : batch.fresh row = 0 :=
        List.sum_eq_zero_iff.mp (show (s.db.runs.map batch.fresh).sum = 0 from hzero) _
          (List.mem_map_of_mem (Database.run?_mem hrow).1)
      have hle := le_reach row.durableOutputBytes (batch.chunksOf row.id)
      have hhead := Entries.extend_head limits.durableRunOutputBytes batch row
      obtain ⟨hlow,hhigh⟩ := Entries.extend_floor limits.durableRunOutputBytes batch row
      unfold Entries.fresh at hfresh
      show (batch.extend limits.durableRunOutputBytes row).durableFirstAvailableByte = _
      omega

/-- A refusal of what was presented, whatever facts were attached to it. -/
def PersistenceError.isMutation : PersistenceError → Bool
  | .mutation _ => true
  | .operation _ _ _ error | .storageUnavailable _ error | .uncertain _ error => error.isMutation
  | _ => false

@[simp] theorem PersistenceError.isMutation_atStage (error : PersistenceError)
    (stage : StorageFailureStage) (outcome : StorageTransactionOutcome) :
    (error.atStage stage outcome).isMutation = error.isMutation := by
  unfold atStage
  split
  · rfl
  · rfl
  · rfl
  · rfl
  · split <;> rfl

/-- Verdicts without failures of the storage. -/
structure Succeeds (f : Funding) : Prop where
  output : ∀ n batch error, f.output n batch ≠ .fails error
  page : ∀ n rows error, f.page n rows ≠ .fails error

/-- How a call leaves the store, with a front of the batch durable. -/
inductive Ran (f : Funding) (streams : RunId → ℕ → Byte) (s : Store) (batch : Entries) :
    Store → Except PersistenceError Bool → Prop
  | whole {s' : Store} (advanced : Advanced f.limits streams s batch s') :
      Ran f streams s batch s' (.ok true)
  | stopped {done : Entries} {s₁ : Store} {db : Database} (front : Front done batch)
      (advanced : Advanced f.limits streams s done s₁) (evicts : Evicts s₁.files s₁.db db) :
      Ran f streams s batch ⟨db,s₁.files⟩ (.ok false)
  | failed {done : Entries} {s₁ : Store} {error : PersistenceError} (front : Front done batch)
      (advanced : Advanced f.limits streams s done s₁)
      (sound : Succeeds f → error.isMutation = false) :
      Ran f streams s batch s₁ (.error error)

namespace Ran

theorem failed_at (h : Intact streams s) (hsound : Succeeds f → error.isMutation = false) :
    Ran f streams s batch s (.error error) :=
  .failed (.nil batch) (.refl h) hsound

theorem stopped_at (h : Intact streams s) {db : Database} (he : Evicts s.files s.db db) :
    Ran f streams s batch ⟨db,s.files⟩ (.ok false) :=
  .stopped (.nil batch) (.refl h) he

theorem after {result : Except PersistenceError Bool} (hxs : xs.Shaped)
    (ha : Advanced f.limits streams s xs s') (h : Ran f streams s' ys s'' result) :
    Ran f streams s (xs ++ ys) s'' result := by
  cases h with
  | whole advanced => exact .whole (ha.trans advanced)
  | stopped front advanced evicts => exact .stopped (front.right hxs) (ha.trans advanced) evicts
  | failed front advanced sound => exact .failed (front.right hxs) (ha.trans advanced) sound

theorem left {result : Except PersistenceError Bool} (h : Ran f streams s xs s' result)
    (hne : result ≠ .ok true) (ys : Entries) : Ran f streams s (xs ++ ys) s' result := by
  cases h with
  | whole advanced => exact absurd rfl hne
  | stopped front advanced evicts => exact .stopped (front.left ys) advanced evicts
  | failed front advanced sound => exact .failed (front.left ys) advanced sound

theorem advanced (h : Ran f streams s batch s' (.ok true)) :
    Advanced f.limits streams s batch s' := by
  cases h with
  | whole advanced => exact advanced

end Ran

theorem Advanced.recut {b : Entries} (h : Advanced limits streams s b s') (hi : Intact streams s)
    (hfed : Fed limits streams s batch) (hcut : Recut b batch) :
    Advanced limits streams s batch s' := by
  have hfeeds := hfed.feeds hi
  have hsame : ∀ row ∈ s.db.runs, reach row.durableOutputBytes (b.chunksOf row.id) =
      reach row.durableOutputBytes (batch.chunksOf row.id) ∧ b.fresh row = batch.fresh row := by
    intro row hr
    obtain ⟨_,hextend,hfresh⟩ := hcut.extend (hfeeds.presents row hr)
    have hhead := congrArg RunRow.durableOutputBytes hextend
    rw [Entries.extend_head,Entries.extend_head] at hhead
    exact ⟨hhead,hfresh⟩
  have hgrowth : b.growth s.db.runs = batch.growth s.db.runs :=
    congrArg List.sum (List.map_congr_left fun row hr => (hsame row hr).2)
  refine ⟨⟨h.intact,h.file,hgrowth ▸ h.length⟩,?_,?_,hgrowth ▸ h.still⟩
  · refine List.forall₂_iff_get.mpr ?_
    obtain ⟨hlength,hrows⟩ := List.forall₂_iff_get.mp h.rows
    refine ⟨hlength,fun i hi₁ hi₂ => ?_⟩
    have hrow := hrows i hi₁ hi₂
    have hr := List.get_mem s.db.runs ⟨i,hi₁⟩
    refine ⟨hrow.same,hrow.stateKind,hrow.head.trans (hsame _ hr).1,hrow.floor,fun hne => ?_⟩
    apply hrow.cut
    intro hnil
    obtain ⟨first,last,ht,_⟩ := hfed.tiles _ hr
    have ht' := hcut.tiles _ first last ht (hfed.lengths hr)
    have hempty := (ht'.eq_nil_iff.mp hnil)
    exact hne (ht.eq_nil_iff.mpr hempty)
  · rcases h.capped with hcapped | ⟨hnil,hle⟩
    · exact .inl hcapped
    · subst hnil
      refine .inr ⟨?_,hle⟩
      by_contra hne
      obtain ⟨item,hitem⟩ := List.exists_mem_of_ne_nil _ hne
      have hnamed := hcut.truncated item.1
      exact Entries.truncatedOf_eq_none.mp hnamed.symm item hitem rfl

theorem Ran.recut {b : Entries} {result : Except PersistenceError Bool}
    (h : Ran f streams s b s' result) (hi : Intact streams s) (hfed : Fed f.limits streams s batch)
    (hcut : Recut b batch) (hsame : b.positions = batch.positions) :
    Ran f streams s batch s' result := by
  cases h with
  | whole advanced => exact .whole (advanced.recut hi hfed hcut)
  | stopped front advanced evicts => exact .stopped (front.congr hsame) advanced evicts
  | failed front advanced sound => exact .failed (front.congr hsame) advanced sound

section Reclaim

theorem foldlM_error {α β : Type} {P : PersistenceError → Prop} {step : β → α → Except PersistenceError β}
    (hstep : ∀ b x e, step b x = .error e → P e) {l : List α} {b : β}
    (h : l.foldlM step b = .error error) : P error := by
  induction l generalizing b with
  | nil => cases h
  | cons x l ih =>
    rw [List.foldlM_cons] at h
    cases hx : step b x with
    | error e =>
      rw [hx] at h
      obtain rfl := Except.error.inj h
      exact hstep b x _ hx
    | ok b' =>
      rw [ok_bind hx] at h
      exact ih h

/-- Retiring rows fails on a constraint of the tables only. -/
theorem applyRetirement_error {db : Database} {candidates : List (ChunkRow × ℕ)}
    (h : applyRetirement db candidates = .error error) : error = constraintFailed := by
  unfold applyRetirement at h
  cases hchunks : candidates.foldlM
      (fun db c => shedChunk db c.1.ordinal c.1.dataBytes c.2) db with
  | error e =>
    rw [hchunks] at h
    obtain rfl := Except.error.inj h
    refine foldlM_error (P := (· = constraintFailed)) (fun db c e hc => ?_) hchunks
    unfold shedChunk Database.trimChunk at hc
    split at hc
    · cases hc
    · split at hc
      · cases hc
      · exact (Except.error.inj hc).symm
  | ok db' =>
    rw [ok_bind hchunks] at h
    refine foldlM_error (P := (· = constraintFailed)) (fun db id e hc => ?_) h
    unfold shedRunBytes at hc
    split at hc
    · cases hc
    · split at hc
      · exact (Except.error.inj hc).symm
      · cases hc

theorem reclaimConfirmedPrefix_error {db : Database} {needed rows : ℕ} {target : Option RunId}
    (h : reclaimConfirmedPrefix db needed target rows = .error error) : error = constraintFailed := by
  unfold reclaimConfirmedPrefix at h
  dsimp only at h
  split at h
  · cases h
  · generalize happly : applyRetirement db _ = retired at h
    cases retired with
    | error e =>
      obtain rfl := Except.error.inj h
      exact applyRetirement_error happly
    | ok db' => cases h

theorem reclaimRows_error {page : ℕ → Verdict}
    {retire : ℕ → Except PersistenceError (Bool × Database)} {exceeds : PersistenceError} {rows : ℕ}
    (h : reclaimRows page retire exceeds rows = .error error) :
    (∃ rows, retire rows = .error error) ∨ (∃ rows, page rows = .fails error) ∨
      error = exceeds := by
  induction rows using Nat.strong_induction_on with
  | _ rows ih =>
    unfold reclaimRows at h
    split at h
    · next hretire =>
      obtain rfl := Except.error.inj h
      exact .inl ⟨rows,hretire⟩
    · cases h
    · split at h
      · cases h
      · next hpage =>
        obtain rfl := Except.error.inj h
        exact .inr (.inl ⟨rows,hpage⟩)
      · split at h
        · exact .inr (.inr (Except.error.inj h).symm)
        · next hrows => exact ih (rows/2) (by omega) h

theorem reclaimOutputPrefix_error {id : RunId} {replay : OutputReplay} (hf : Succeeds f)
    (hfound : ∃ row, a.store.db.run? id = some row)
    (h : reclaimOutputPrefix f a id replay = .error error) : error.isMutation = false := by
  obtain ⟨row,hrow⟩ := hfound
  unfold reclaimOutputPrefix at h
  rw [ok_bind (Database.selectRun_eq_ok.mpr hrow)] at h
  dsimp only at h
  split at h
  · cases h
  · rcases reclaimRows_error h with ⟨rows,hretire⟩ | ⟨rows,hpage⟩ | rfl
    · rw [reclaimConfirmedPrefix_error hretire]
      rfl
    · exact absurd hpage (hf.page _ _ _)
    · rfl

end Reclaim

/-- A committed transaction advanced every Run, and one that failed found the storage failing. -/
theorem once_ran (hi : Intact streams a.store) (hfed : Fed f.limits streams a.store batch)
    (hsmall : batch.payload ≤ maxTransactionPayloadBytes) :
    ((a.appendTransactionOnce f batch none).2 = .ok true → Advanced f.limits streams a.store batch
      (a.appendTransactionOnce f batch none).1.store) ∧
    ∀ error, (a.appendTransactionOnce f batch none).2 = .error error → ¬Succeeds f := by
  obtain ⟨fits,s₁,hstage,hadvanced⟩ := hfed.stageOutput hi f.codec
  unfold Appender.appendTransactionOnce
  rw [if_neg (not_lt.mpr hsmall),hstage]
  cases hverdict : f.output a.attempts.length batch with
  | fails error => exact ⟨fun h => (by cases h),fun _ _ hf => hf.output _ _ _ hverdict⟩
  | overBudget => exact ⟨fun h => (by cases h),fun error h => (by cases h)⟩
  | fits =>
    cases fits with
    | true => exact ⟨fun _ => hadvanced rfl,fun error h => (by cases h)⟩
    | false => exact ⟨fun h => (by cases h),fun error h => (by cases h)⟩

theorem reducedOutput_refused (h : reducedOutput batch = .error error) :
    error.isMutation = false := by
  unfold reducedOutput at h
  split at h
  · cases h
  · split at h
    · obtain rfl := Except.error.inj h
      rfl
    · dsimp only at h
      split at h
      · cases h
      · split at h
        · cases h
        · obtain rfl := Except.error.inj h
          rfl

/-- What a small transaction that is fed knows, and why an error of it is one of the storage. -/
structure Small (f : Funding) (streams : RunId → ℕ → Byte) (a : Appender) (batch : Entries)
    (terminal : Option TerminalSettlement) : Prop where
  intact : Intact streams a.store
  fed : Fed f.limits streams a.store batch
  payload : batch.payload ≤ maxTransactionPayloadBytes
  unsettled : terminal = none

theorem Small.refused {terminal : Option TerminalSettlement}
    (h : Small f streams a batch terminal) (hrefused : AppendFailed f a batch terminal error)
    (hf : Succeeds f) : error.isMutation = false := by
  obtain rfl := h.unsettled
  cases hrefused with
  | reclaim single refused =>
    refine reclaimOutputPrefix_error hf ?_ refused
    have hcut := (h.fed.feeds h.intact).recut (coalesceBatch_recut batch)
    rw [single] at hcut
    exact hcut.found _ (List.mem_singleton_self _)
  | failed once => exact absurd hf ((once_ran h.intact h.fed h.payload).2 _ once)
  | undivided refused => exact reducedOutput_refused refused

/-- Whatever the verdicts and the limits are, a front of the batch is durable after the call,
and only a call that stopped on a retired page leaves a reclamation under way. -/
theorem ran_transactions (f : Funding) (streams : RunId → ℕ → Byte) :
    TransactionRule f (Small f streams)
      fun a batch _ result => Ran f streams a.store batch result.1.store result.2 ∧
        (a.reclaimingOutput = [] → result.2 ≠ .ok false → result.1.reclaimingOutput = []) where
  sound h := ⟨h.intact.sound,h.intact.windows⟩
  goes h hstore hcalm :=
    ⟨⟨hstore ▸ h.intact,hstore ▸ h.fed,h.payload,h.unsettled⟩,
      fun _ ht => ⟨hstore ▸ ht.1,fun hidle => ht.2 (hcalm hidle)⟩⟩
  stops h hstore hevicts := by
    dsimp only
    rw [hstore]
    exact ⟨.stopped_at h.intact hevicts,fun _ hne => absurd rfl hne⟩
  refused h hstore hcalm hrefused := by
    dsimp only
    rw [hstore]
    exact ⟨.failed_at h.intact (h.refused hrefused),fun hidle _ => hcalm hidle⟩
  done h hdone := by
    obtain ⟨hi,hfed,hsmall,rfl⟩ := h
    rw [hdone]
    exact ⟨.whole ((once_ran hi hfed hsmall).1 hdone),fun hidle _ => (once_calm f _ _ none).trans hidle⟩
  divide h hpieces := by
    have hdivided := reducedOutput_divided hpieces
    have hpositions := (Entries.positions_append _ _).trans (reducedOutput_positions hpieces)
    have hpayload := hdivided.payload
    refine ⟨⟨h.intact,h.fed.recut h.intact hdivided.recut hpositions,?_,h.unsettled⟩,
      fun _ ht => ⟨ht.1.recut h.intact h.fed hdivided.recut hpositions,ht.2⟩⟩
    rw [Entries.payload_append,hpayload]
    exact h.payload
  left h := ⟨h.intact,h.fed.left,by have := h.payload; rw [Entries.payload_append] at this; omega,rfl⟩
  after h ht := ⟨ht.1.advanced.intact,h.fed.after h.intact ht.1.advanced,
    by have := h.payload; rw [Entries.payload_append] at this; omega,h.unsettled⟩
  seq h ht hnext := ⟨hnext.1.after h.fed.left.shaped ht.1.advanced,
    fun hidle => hnext.2 (ht.2 hidle fun heq => (by cases heq))⟩
  ends _ ht hne := ⟨ht.1.left hne _,ht.2⟩

end Durable
end Ctxmux
