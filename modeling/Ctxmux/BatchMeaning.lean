import Ctxmux.BatchGathered

/-!
# What a batch means

Inside the limits a batch of appends leaves of every Run what its entries leave when each is
applied whole and alone, in whatever transactions it was run; a call that stops early leaves
the stream's bytes up to some point of the batch.
-/

namespace Ctxmux
namespace Durable

variable {f : Funding} {streams : RunId → ℕ → Byte} {s s' : Store} {a : Appender}
  {batch xs ys : Entries}

/-- What the loop knows of the store and of what it has gathered. -/
structure Passing (f : Funding) (streams : RunId → ℕ → Byte) (s : Store) (batch : Entries) :
    Prop extends Feeding f streams s batch where
  within : Within f.limits s batch

theorem Passing.after (h : Passing f streams s (xs ++ ys))
    (ht : Taken f.limits streams s xs s') : Passing f streams s' ys :=
  ⟨h.toFeeding.after ht,h.within.after h.intact.windows ht⟩

theorem Passing.left (h : Passing f streams s (xs ++ ys)) : Passing f streams s xs :=
  ⟨h.toFeeding.left,h.within.left⟩

theorem Passing.recut {b : Entries} (h : Passing f streams s batch) (hcut : Recut b batch) :
    Passing f streams s b :=
  ⟨h.toFeeding.recut hcut,h.within.recut hcut h.feeds⟩

/-- A call that went through, in small transactions whose number the units bound. -/
structure Passed (f : Funding) (streams : RunId → ℕ → Byte) (a : Appender) (total : Entries)
    (result : AppendStep) : Prop where
  outcome : Outcome f streams a.store total none result.1.store result.2
  done : result.2 = .ok true
  log : ∃ new, result.1.attempts = a.attempts ++ new ∧
    (∀ attempt ∈ new, attempt.batch.payload ≤ maxTransactionPayloadBytes) ∧
    new.length ≤ 2*total.units

theorem Passed.seq {b : Appender} {result : AppendStep} (h : Passed f streams a xs (b,.ok true))
    (hnext : Passed f streams b ys result) : Passed f streams a (xs ++ ys) result where
  outcome := Outcome.after h.outcome.taken hnext.outcome
  done := hnext.done
  log := by
    obtain ⟨new,hlog,hsmall,hbound⟩ := h.log
    obtain ⟨more,hlog',hsmall',hbound'⟩ := hnext.log
    refine ⟨new ++ more,by rw [hlog',hlog,List.append_assoc],fun attempt hmem => ?_,?_⟩
    · rcases List.mem_append.mp hmem with hmem | hmem
      · exact hsmall attempt hmem
      · exact hsmall' attempt hmem
    · rw [List.length_append,Entries.units_append]
      omega

theorem passed_transaction (hadmits : Admits f) (h : Passing f streams a.store batch)
    (hne : batch ≠ []) (hsmall : batch.payload ≤ maxTransactionPayloadBytes) :
    Passed f streams a batch (appendTransactionWithShutdown f a batch none) := by
  have hnone : Settles a.store none := fun t ht => (by cases ht)
  obtain ⟨hdone,new,hlog,hconcluded⟩ := appendTransaction_succeeds hadmits h.intact h.feeds
    h.within hne hsmall hnone
  have hbound := hconcluded.bounded
  exact ⟨appendTransaction_outcome none h.intact h.feeds,hdone,new,hlog,hconcluded.small,by omega⟩

theorem passed_rule (streams : RunId → ℕ → Byte) (hadmits : Admits f) :
    BatchRule f
      (fun replay => ∀ chunk ∈ replay.chunks, chunk.data.length ≤ maxTransactionPayloadBytes)
      (fun a total => Passing f streams a.store total) (Passed f streams) where
  left h := h.left
  after h hpassed := h.after hpassed.outcome.taken
  live _ hpassed := hpassed.outcome.taken.live
  empty h := ⟨.whole (Taken.refl h.intact) rfl,rfl,[],by simp,by simp,by simp⟩
  seq _ hpassed hnext := hpassed.seq hnext
  ends _ hpassed hne := absurd hpassed.done hne
  run h hne hsmall := passed_transaction hadmits h hne hsmall
  fails _ hfine herror := by
    obtain ⟨groups,hgroups⟩ := splitChunks_ok hfine
    rw [hgroups] at herror
    cases herror
  forget _ h := ⟨h,fun _ hpassed => ⟨hpassed.outcome,hpassed.done,hpassed.log⟩⟩

theorem appendBatch_succeeds (hadmits : Admits f)
    (hpassing : Passing f streams a.store (batch.live a.store.db)) (hblocks : Blocks batch) :
    (appendBatchWithShutdown f a batch).2 = .ok true ∧
      ∃ new, (appendBatchWithShutdown f a batch).1.attempts = a.attempts ++ new ∧
        (∀ attempt ∈ new, attempt.batch.payload ≤ maxTransactionPayloadBytes) ∧
        new.length ≤ 2*Entries.units (batch.live a.store.db).pieces := by
  have hpassed := (passed_rule streams hadmits).appendBatch hblocks
    (hpassing.recut (Entries.pieces_recut _))
  exact ⟨hpassed.done,hpassed.log⟩

end Durable
end Ctxmux
