import Ctxmux.BatchReduced

/-!
# When the pieces fit

Within the limits no confirmed bytes have to be given up, so a transaction that is over
budget is divided. If a unit of at most a byte always fits, every piece is committed in the
end: within twice as many transactions as the batch has units, and with the terminal
settlement in the last.
-/

namespace Ctxmux
namespace Durable

open Tiling

variable {f : Funding} {streams : RunId → ℕ → Byte} {s s' : Store} {a : Appender} {batch : Entries}
  {terminal : Option TerminalSettlement} {row : RunRow} {limits : OutputLimits}

/-- Verdicts without failures, and without a unit of at most a byte that is over budget. -/
structure Admits (f : Funding) : Prop where
  sound : ∀ n batch error, f.output n batch ≠ .fails error
  unit : ∀ n id replay, replayPayload replay ≤ 1 → f.output n [(id,replay)] ≠ .overBudget

/-- The batch leaves the Runs that it names inside their limit. -/
def Within (limits : OutputLimits) (s : Store) (batch : Entries) : Prop :=
  ∀ row ∈ s.db.runs, batch.truncatedOf row.id ≠ none →
    row.replayBytes+batch.fresh row ≤ limits.durableRunOutputBytes

theorem Within.left {xs ys : Entries} (h : Within limits s (xs ++ ys)) :
    Within limits s xs := by
  intro row hr hnamed
  have hwhole := h row hr fun hnone => hnamed (((Part.refl s xs).left ys row hr).1 hnone)
  have hle := Entries.fresh_le xs ys row
  omega

theorem Within.after {xs ys : Entries} (h : Within limits s (xs ++ ys))
    (hw : ∀ r ∈ s.db.runs, Window s.db r) (ht : Taken limits streams s xs s') :
    Within limits s' ys := by
  intro row' hr' hnamed
  rw [ht.runs] at hr'
  obtain ⟨row,hr,rfl⟩ := List.mem_map.mp hr'
  rw [Entries.extend_id] at hnamed
  have hwhole := h row hr fun hnone => hnamed (by
    rw [Entries.truncatedOf_append] at hnone
    exact (Option.or_eq_none_iff.mp hnone).1)
  rw [Entries.fresh_append limits.durableRunOutputBytes] at hwhole
  have hmem : xs.extend limits.durableRunOutputBytes row ∈ s'.db.runs := by
    rw [ht.runs]
    exact List.mem_map_of_mem hr
  have hbytes := (hw row hr).bytes
  have hbytes' := (ht.intact.windows _ hmem).bytes
  have hle := (hw row hr).tiles.le
  obtain ⟨hfloor,_⟩ := Entries.extend_floor limits.durableRunOutputBytes xs row
  have hhead := Entries.extend_head limits.durableRunOutputBytes xs row
  have hreach := le_reach row.durableOutputBytes (xs.chunksOf row.id)
  have hfresh : xs.fresh row = reach row.durableOutputBytes (xs.chunksOf row.id)-
    row.durableOutputBytes := rfl
  omega

theorem Within.recut {b : Entries} (h : Within limits s batch) (hcut : Recut b batch)
    (hfeeds : Feeds limits streams s batch) : Within limits s b := by
  intro row hr hnamed
  rw [(hcut.extend (hfeeds.presents row hr)).2.2]
  exact h row hr (hcut.truncated row.id ▸ hnamed)

theorem freshBytes_tiles {head first last : ℕ} {replay : OutputReplay}
    (ht : Tiles OutputChunk.startByte OutputChunk.endByte first replay.chunks last)
    (hfirst : first ≤ head) :
    freshBytes head replay = reach head replay.chunks-head := by
  rw [reach_tiles ht hfirst]
  unfold freshBytes
  generalize replay.chunks = chunks at ht
  have hsum : ∀ {first : ℕ}, Tiles OutputChunk.startByte OutputChunk.endByte first chunks last →
      (chunks.map fun chunk => chunk.endByte-max chunk.startByte head).sum =
        last-max first head := by
    clear ht hfirst
    induction chunks with
    | nil =>
      intro first ht
      have hend : first = last := ht
      simp only [List.map_nil,List.sum_nil]
      omega
    | cons chunk chunks ih =>
      intro first ht
      obtain ⟨hstart,hlt,hrest⟩ := ht
      have hle := hrest.le
      rw [List.map_cons,List.sum_cons,ih hrest]
      omega
  rw [hsum ht]
  omega

/-- Inside the limits the reclaimer finds nothing to give up. -/
theorem reclaimOutputPrefix_within {id : RunId} {replay : OutputReplay} (hi : Intact streams a.store)
    (hfeeds : Feeds f.limits streams a.store [(id,replay)])
    (hwithin : Within f.limits a.store [(id,replay)]) :
    reclaimOutputPrefix f a id replay = .ok (false,a.store.db) := by
  obtain ⟨row,hrow⟩ := hfeeds.found (id,replay) (by simp)
  obtain ⟨hmem,hid⟩ := Database.run?_mem hrow
  subst hid
  have hrun := hwithin row hmem (by rw [Entries.truncatedOf_single,if_pos rfl]; simp)
  have hpresents := hfeeds.presents row hmem
  rw [Entries.chunksOf_single,if_pos rfl] at hpresents
  obtain ⟨first,last,ht,_,hhead,_⟩ := hpresents.tiles
  have hfresh : Entries.fresh [(row.id,replay)] row = freshBytes row.durableOutputBytes replay := by
    rw [freshBytes_tiles ht hhead]
    unfold Entries.fresh
    rw [Entries.chunksOf_single,if_pos rfl]
  have hgrowth : Entries.fresh [(row.id,replay)] row ≤
      Entries.growth [(row.id,replay)] a.store.db.runs :=
    List.single_le_sum (fun _ _ => Nat.zero_le _) _ (List.mem_map_of_mem hmem)
  have htotal := hfeeds.total
  have hown : ownNeeded f.limits row replay = 0 := by
    have hfirst := hfeeds.rendered (row.id,replay) (by simp)
    dsimp only at hfirst
    unfold ownNeeded
    rw [if_neg (by omega)]
    omega
  have hglobal : globalNeeded f.limits a.store.db row replay = 0 := by
    unfold globalNeeded
    rw [hi.sound.accounting]
    simp only [Accounting.ofRuns]
    omega
  unfold reclaimOutputPrefix
  rw [ok_bind (Database.selectRun_eq_ok.mpr hrow)]
  dsimp only
  rw [hown,hglobal]
  rfl

theorem reclaim_goes (hi : Intact streams a.store) (hfeeds : Feeds f.limits streams a.store batch)
    (hwithin : Within f.limits a.store batch) :
    (a.reclaimBefore f batch).2 = .ok true ∧ (a.reclaimAfter f batch).2 = .ok true := by
  have hcut := coalesceBatch_recut batch
  have hfeeds' := hfeeds.recut hcut
  have hwithin' := hwithin.recut hcut hfeeds
  unfold Appender.reclaimBefore Appender.reclaimAfter
  split
  · rename_i id replay hsingle
    rw [hsingle] at hfeeds' hwithin'
    rw [reclaimOutputPrefix_within hi hfeeds' hwithin']
    exact ⟨by split <;> rfl,rfl⟩
  · exact ⟨rfl,rfl⟩

/-- The transactions of one call: none above the ceiling, no more than twice the units, and
the settlement in the last that was committed. -/
structure Concluded (batch : Entries) (terminal : Option TerminalSettlement) (new : List Attempt) :
    Prop where
  small : ∀ attempt ∈ new, attempt.batch.payload ≤ maxTransactionPayloadBytes
  bounded : new.length+1 ≤ 2*batch.units
  settled : ∃ earlier last, new.filter (·.committed) = earlier ++ [last] ∧
    (∀ attempt ∈ earlier, attempt.terminal = none) ∧ last.terminal = terminal

theorem Concluded.one (hne : batch ≠ []) (hsmall : batch.payload ≤ maxTransactionPayloadBytes) :
    Concluded batch terminal [⟨batch,terminal,true⟩] where
  small attempt h := by
    rw [List.mem_singleton.mp h]
    exact hsmall
  bounded := by
    have := Entries.units_pos hne
    simp only [List.length_singleton]
    omega
  settled := ⟨[],⟨batch,terminal,true⟩,rfl,by simp,rfl⟩

theorem Concluded.divided {front tail : Entries} {xs ys : List Attempt}
    (hunits : front.units+tail.units = batch.units)
    (hsmall : batch.payload ≤ maxTransactionPayloadBytes) (h : Concluded front none xs)
    (h' : Concluded tail terminal ys) :
    Concluded batch terminal (⟨batch,terminal,false⟩::(xs ++ ys)) where
  small attempt hmem := by
    rcases List.mem_cons.mp hmem with rfl | hmem
    · exact hsmall
    · rcases List.mem_append.mp hmem with hmem | hmem
      · exact h.small attempt hmem
      · exact h'.small attempt hmem
  bounded := by
    have h₁ := h.bounded
    have h₂ := h'.bounded
    simp only [List.length_cons,List.length_append]
    omega
  settled := by
    obtain ⟨earlier,last,hx,hnone,hlast⟩ := h.settled
    obtain ⟨earlier',last',hy,hnone',hlast'⟩ := h'.settled
    refine ⟨earlier ++ [last] ++ earlier',last',?_,fun attempt hmem => ?_,hlast'⟩
    · rw [List.filter_cons_of_neg (by simp),List.filter_append,hx,hy,List.append_assoc,
        List.append_assoc,List.append_assoc]
    · rcases List.mem_append.mp hmem with hmem | hmem
      · rcases List.mem_append.mp hmem with hmem | hmem
        · exact hnone attempt hmem
        · rw [List.mem_singleton.mp hmem]
          exact hlast
      · exact hnone' attempt hmem

theorem Feeds.filled (h : Feeds limits streams s batch) :
    ∀ item ∈ batch, ∀ chunk ∈ item.2.chunks, chunk.data ≠ [] := by
  intro item hitem chunk hchunk
  obtain ⟨row,hrow⟩ := h.found item hitem
  obtain ⟨hmem,hid⟩ := Database.run?_mem hrow
  have hp := h.presents row hmem
  have hin : chunk ∈ batch.chunksOf row.id := Entries.mem_chunksOf.mpr ⟨item,hitem,hid.symm,hchunk⟩
  obtain ⟨_,_,ht,_⟩ := hp.tiles
  have hlt := (ht.mem_bounds hin).2.1
  refine List.length_pos_iff.mp ?_
  rw [hp.data chunk hin,length_slice]
  omega

/-- The Run that is settled is running. -/
def Settles (s : Store) (terminal : Option TerminalSettlement) : Prop :=
  ∀ t, terminal = some t → ∃ row, s.db.run? t.id = some row ∧ row.stateKind = .running

theorem Settles.after (h : Settles s terminal) (ht : Taken limits streams s batch s') :
    Settles s' terminal := by
  intro t hterminal
  obtain ⟨row,hrow,hrunning⟩ := h t hterminal
  refine ⟨batch.extend limits.durableRunOutputBytes row,?_,?_⟩
  · rw [ht.run?,hrow]
    rfl
  · rw [Entries.extend_stateKind]
    exact hrunning

theorem Settles.stageTerminal (h : Settles s terminal) (codec : Codec) :
    ∃ db, Durable.stageTerminal codec s.db terminal = .ok db := by
  cases terminal with
  | none => exact ⟨s.db,rfl⟩
  | some t =>
    obtain ⟨row,hrow,hrunning⟩ := h t rfl
    exact stageTerminal_ok hrow hrunning fun t' ht' => by rw [Option.some.inj ht']

/-- A transaction that feeds the store is committed, or rolled back as over budget. -/
theorem once_admitted (hadmits : Admits f) (hi : Intact streams a.store)
    (hfeeds : Feeds f.limits streams a.store batch)
    (hsmall : batch.payload ≤ maxTransactionPayloadBytes) (hterminal : Settles a.store terminal) :
    ((a.appendTransactionOnce f batch terminal).2 = .ok true ∧
      (a.appendTransactionOnce f batch terminal).1.attempts =
        a.attempts ++ [⟨batch,terminal,true⟩]) ∨
    (f.output a.attempts.length batch = .overBudget ∧
      a.appendTransactionOnce f batch terminal =
        ({ a with attempts := a.attempts ++ [⟨batch,terminal,false⟩] },.ok false)) := by
  obtain ⟨s₁,htaken,hstage⟩ := hfeeds.stageOutput hi f.codec terminal
  obtain ⟨db,hsettled⟩ := (hterminal.after htaken).stageTerminal f.codec
  unfold Appender.appendTransactionOnce
  rw [if_neg (not_lt.mpr hsmall),hstage,hsettled]
  cases hverdict : f.output a.attempts.length batch with
  | fits => exact .inl ⟨rfl,rfl⟩
  | overBudget => exact .inr ⟨rfl,rfl⟩
  | fails error => exact absurd hverdict (hadmits.sound _ _ error)

/-- Inside the limits the call goes through, in pieces that are as small as the window asks. -/
theorem appendTransaction_succeeds (hadmits : Admits f) (hi : Intact streams a.store)
    (hfeeds : Feeds f.limits streams a.store batch) (hwithin : Within f.limits a.store batch)
    (hne : batch ≠ []) (hsmall : batch.payload ≤ maxTransactionPayloadBytes)
    (hterminal : Settles a.store terminal) :
    (appendTransactionWithShutdown f a batch terminal).2 = .ok true ∧
      ∃ new, (appendTransactionWithShutdown f a batch terminal).1.attempts = a.attempts ++ new ∧
        Concluded batch terminal new := by
  induction hweight : batch.weight using Nat.strong_induction_on generalizing a batch terminal with
  | _ weight ih =>
    subst hweight
    unfold appendTransactionWithShutdown
    have hgoes := (reclaim_goes hi hfeeds hwithin).1
    rw [andThen_of_true hgoes]
    obtain ⟨hstore,hattempts⟩ := (reclaimed_before f batch hi.sound hi.windows).same hgoes
    generalize (a.reclaimBefore f batch).1 = b at hstore hattempts
    rw [← hstore] at hi hfeeds hwithin hterminal
    rw [← hattempts]
    dsimp only
    rcases once_admitted hadmits hi hfeeds hsmall hterminal with ⟨hdone,hlog⟩ | ⟨hover,honce⟩
    · rw [hdone]
      exact ⟨rfl,_,hlog,Concluded.one hne hsmall⟩
    · rw [honce]
      dsimp only
      generalize hc : ({ b with attempts := b.attempts ++ [⟨batch,terminal,false⟩] } : Appender) = c
      have hcstore : c.store = b.store := by rw [← hc]
      have hclog : c.attempts = b.attempts ++ [⟨batch,terminal,false⟩] := by rw [← hc]
      rw [← hcstore] at hi hfeeds hwithin hterminal
      have hgoes := (reclaim_goes hi hfeeds hwithin).2
      rw [andThen_of_true hgoes]
      obtain ⟨hstore,hattempts⟩ := (reclaimed_after f batch hi.sound hi.windows).same hgoes
      generalize (c.reclaimAfter f batch).1 = d at hstore hattempts
      rw [← hstore] at hi hfeeds hwithin hterminal
      split
      · rename_i error hpieces
        obtain ⟨id,replay,rfl,hunit⟩ := reducedOutput_error hpieces hne
        exact absurd hover (hadmits.unit _ id replay hunit)
      · rename_i front tail hpieces
        obtain ⟨hfront,htail⟩ := reducedOutput_weight hpieces
        have hdivided := reducedOutput_divided hpieces
        have hcut := hfeeds.recut hdivided.recut
        have hwcut := hwithin.recut hdivided.recut hfeeds
        have hpayload := hdivided.payload
        have hnone : Settles d.store none := fun t ht => (by cases ht)
        obtain ⟨hfirst,xs,hxs,hconcluded⟩ := ih _ hfront hi hcut.left hwcut.left hdivided.front_ne
          (by omega) hnone rfl
        have houtcome := appendTransaction_outcome none hi hcut.left
        rw [andThen_of_true hfirst]
        rw [hfirst] at houtcome
        have taken := houtcome.taken
        generalize (appendTransactionWithShutdown f d front none).1 = e at hxs taken
        obtain ⟨hlast,ys,hys,hconcluded'⟩ := ih _ htail taken.intact
          (hcut.after hi.windows taken) (hwcut.after hi.windows taken) hdivided.tail_ne (by omega)
          (hterminal.after taken) rfl
        refine ⟨hlast,_,?_,Concluded.divided (hdivided.units hfeeds.filled) hsmall hconcluded
          hconcluded'⟩
        rw [hys,hxs,hattempts,hclog]
        simp

end Durable
end Ctxmux
