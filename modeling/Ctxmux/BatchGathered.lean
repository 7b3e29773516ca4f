import Ctxmux.BatchLoop

/-!
# What a call leaves durable

Inside the daemon-wide limit a call of `append_batch_with_shutdown` makes a front of the batch
durable, wherever it stops.
-/

namespace Ctxmux
namespace Durable

variable {f : Funding} {streams : RunId → ℕ → Byte} {s s' : Store} {a : Appender}

theorem Taken.live {done : Entries} (h : Taken f.limits streams s done s') (batch : Entries) :
    batch.live s'.db = batch.live s.db := by
  refine List.filter_congr fun item _ => ?_
  rw [h.run?,Option.isSome_map]

/-- What the loop knows of the store and of what it has still to present. -/
structure Feeding (f : Funding) (streams : RunId → ℕ → Byte) (s : Store) (batch : Entries) :
    Prop where
  intact : Intact streams s
  feeds : Feeds f.limits streams s batch

theorem Feeding.left {xs ys : Entries} (h : Feeding f streams s (xs ++ ys)) :
    Feeding f streams s xs :=
  ⟨h.intact,h.feeds.left⟩

theorem Feeding.after {xs ys : Entries} (h : Feeding f streams s (xs ++ ys))
    (ht : Taken f.limits streams s xs s') : Feeding f streams s' ys :=
  ⟨ht.intact,h.feeds.after h.intact.windows ht⟩

theorem Feeding.recut {batch b : Entries} (h : Feeding f streams s batch) (hcut : Recut b batch) :
    Feeding f streams s b :=
  ⟨h.intact,h.feeds.recut hcut⟩

theorem outcome_rule (f : Funding) (streams : RunId → ℕ → Byte) :
    BatchRule f (fun _ => True) (fun a total => Feeding f streams a.store total)
      fun a total result => Outcome f streams a.store total none result.1.store result.2 where
  left h := h.left
  after h houtcome := h.after houtcome.taken
  live _ houtcome := houtcome.taken.live
  empty h := .whole (Taken.refl h.intact) rfl
  seq _ houtcome hnext := Outcome.after houtcome.taken hnext
  ends _ h hne := h.left hne _
  run h _ _ := appendTransaction_outcome none h.intact h.feeds
  fails h _ _ := Outcome.failed_at h.intact _
  forget _ h := ⟨h,fun _ houtcome => houtcome⟩

/-- Whatever the verdicts are, a front of the batch is durable after the call. -/
theorem appendBatch_outcome {batch : Entries} (hi : Intact streams a.store)
    (hfeeds : Feeds f.limits streams a.store (batch.live a.store.db)) :
    Outcome f streams a.store (batch.live a.store.db) none
      (appendBatchWithShutdown f a batch).1.store (appendBatchWithShutdown f a batch).2 := by
  have hcut := (batch.live a.store.db).pieces_recut
  have hpieces : Feeding f streams a.store (batch.live a.store.db).pieces := ⟨hi,hfeeds.recut hcut⟩
  exact ((outcome_rule f streams).appendBatch (fun _ _ => trivial) hpieces).recut hcut hfeeds

end Durable
end Ctxmux
