import Ctxmux.StaleAppend

/-!
# No way past a stale chunk

A stale chunk is passed on by the gathering loop until a transaction carries it; no verdict
of the WAL window lets such a call return `true`.
-/

namespace Ctxmux
namespace Durable

variable {f : Funding} {s s' : Store} {a : Appender} {batch : Entries}

/-- A transaction that is committed moves on and carries nothing stale. -/
theorem once_moved (h : Tidy a.store) (hfirst : Rendered batch)
    (hdone : (a.appendTransactionOnce f batch none).2 = .ok true) :
    Moved a.store (a.appendTransactionOnce f batch none).1.store ∧ ¬Stale a.store.db batch := by
  unfold Appender.appendTransactionOnce at hdone ⊢
  split at hdone
  · cases hdone
  · next hsmall =>
    rw [if_neg hsmall]
    split at hdone
    · cases hdone
    · cases hdone
    · next staged hverdict hstage =>
      exact ⟨moved_stageOutput h hfirst hstage,
        fun hstale => stageOutput_stale h hfirst hstale hstage⟩
    · cases hdone

theorem mem_take_or_drop {α : Type} {x : α} {l : List α} (n : ℕ) (h : x ∈ l) :
    x ∈ l.take n ∨ x ∈ l.drop n :=
  List.mem_append.mp ((List.take_append_drop n l).symm ▸ h)

/-- One of the two pieces begins where the stale chunk begins. -/
theorem Stale.reduced {db : Database} {front tail : Entries} (h : Stale db batch)
    (hpieces : reducedOutput batch = .ok (front,tail)) : Stale db front ∨ Stale db tail := by
  obtain ⟨id,chunk,row,⟨item,hitem,hid,hchunk⟩,hrow,hhead,hfloor⟩ := h
  cases reducedOutput_halved hpieces with
  | entries many =>
    refine (mem_take_or_drop (batch.length/2) hitem).imp ?_ ?_
    · exact fun hin => ⟨id,chunk,row,⟨item,hin,hid,hchunk⟩,hrow,hhead,hfloor⟩
    · exact fun hin => ⟨id,chunk,row,⟨item,hin,hid,hchunk⟩,hrow,hhead,hfloor⟩
  | @chunks owner replay many =>
    obtain rfl := List.mem_singleton.mp hitem
    refine (mem_take_or_drop (replay.chunks.length/2) hchunk).imp ?_ ?_
    · exact fun hin => ⟨id,chunk,row,⟨_,List.mem_singleton_self _,hid,hin⟩,hrow,hhead,hfloor⟩
    · exact fun hin => ⟨id,chunk,row,⟨_,List.mem_singleton_self _,hid,hin⟩,hrow,hhead,hfloor⟩
  | bytes only long =>
    obtain rfl := List.mem_singleton.mp hitem
    rw [only,List.mem_singleton] at hchunk
    subst hchunk
    exact .inl ⟨id,_,row,⟨_,List.mem_singleton_self _,hid,List.mem_singleton_self _⟩,hrow,
      hhead,hfloor⟩

/-- What is stale of two pieces is stale of one of them, before the first or after it. -/
theorem Moved.seq {xs ys : Entries} {outcome : Except PersistenceError Bool} {s'' : Store}
    (h : Moved s s') (hclean : ¬Stale s.db xs)
    (hnext : Moved s' s'' ∧ (outcome = .ok true → ¬Stale s'.db ys)) :
    Moved s s'' ∧ (outcome = .ok true → ¬Stale s.db (xs ++ ys)) := by
  refine ⟨h.trans hnext.1,fun hdone hstale => ?_⟩
  rcases stale_append.mp hstale with hstale | hstale
  · exact hclean hstale
  · exact hnext.2 hdone (hstale.later h.later)

/-- Whatever the verdicts are, a call moves nothing back, and one that returns `true` was
given nothing stale. -/
theorem moved_transactions (f : Funding) :
    TransactionRule f (fun a batch terminal => Tidy a.store ∧ Rendered batch ∧ terminal = none)
      fun a batch _ result => Moved a.store result.1.store ∧
        (result.2 = .ok true → ¬Stale a.store.db batch) where
  sound h := ⟨h.1.sound,h.1.windows⟩
  goes h hstore _ := by
    rw [hstore]
    exact ⟨h,fun _ ht => ht⟩
  stops h hstore hevicts := by
    dsimp only
    rw [hstore]
    exact ⟨moved_evicts h.1 hevicts,fun heq => (by cases heq)⟩
  refused h hstore _ _ := by
    dsimp only
    rw [hstore]
    exact ⟨Moved.refl h.1,fun heq => (by cases heq)⟩
  done h hdone := by
    obtain ⟨htidy,hfirst,rfl⟩ := h
    obtain ⟨hmoved,hclean⟩ := once_moved htidy hfirst hdone
    exact ⟨hmoved,fun _ => hclean⟩
  divide h hpieces := by
    refine ⟨⟨h.1,(reducedOutput_divided hpieces).recut.rendered h.2.1,h.2.2⟩,fun result ht => ?_⟩
    refine ⟨ht.1,fun hdone hstale => ht.2 hdone (stale_append.mpr (hstale.reduced hpieces))⟩
  left h := ⟨h.1,h.2.1.left,rfl⟩
  after h ht := ⟨ht.1.tidy,h.2.1.right,h.2.2⟩
  seq _ ht hnext := ht.1.seq (ht.2 rfl) hnext
  ends _ ht hne := ⟨ht.1,fun hdone => absurd hdone hne⟩

/-- The chunks of the entries begin the chunks of their pieces. -/
theorem Stale.pieces {db : Database} (h : Stale db batch) : Stale db batch.pieces := by
  obtain ⟨id,chunk,row,⟨item,hitem,hid,hchunk⟩,hrest⟩ := h
  have hin : ∃ piece ∈ piecesOf item.2, chunk ∈ piece.chunks := by
    unfold piecesOf
    split
    · rename_i group groups hsplit
      have hflat := (partials_spec item.2 (group::groups)).1
      rw [(splitChunks_spec hsplit).1] at hflat
      exact List.mem_flatMap.mp (hflat ▸ hchunk)
    · exact ⟨item.2,List.mem_singleton_self _,hchunk⟩
  obtain ⟨piece,hpiece,hchunk⟩ := hin
  exact ⟨id,chunk,row,⟨(item.1,piece),List.mem_flatMap.mpr ⟨item,hitem,
    List.mem_map_of_mem hpiece⟩,hid,hchunk⟩,hrest⟩

theorem moved_rule (f : Funding) :
    BatchRule f (fun _ => True) (fun a total => Tidy a.store ∧ Rendered total)
      fun a total result => Moved a.store result.1.store ∧
        (result.2 = .ok true → ¬Stale a.store.db total) where
  left h := ⟨h.1,h.2.left⟩
  after h ht := ⟨ht.1.tidy,h.2.right⟩
  live _ ht := ht.1.live
  empty h := ⟨Moved.refl h.1,fun _ => not_stale_nil _⟩
  seq _ ht hnext := ht.1.seq (ht.2 rfl) hnext
  ends _ ht hne := ⟨ht.1,fun hdone => absurd hdone hne⟩
  run h _ _ := (moved_transactions f).run ⟨h.1,h.2,rfl⟩
  fails h _ _ := ⟨Moved.refl h.1,fun heq => (by cases heq)⟩
  forget _ h := ⟨h,fun _ ht => ht⟩

/-- Whatever the verdicts are, a call moves nothing back; given a stale chunk it does not
return `true`. -/
theorem appendBatch_moved (h : Tidy a.store) (hfirst : Rendered batch) :
    Moved a.store (appendBatchWithShutdown f a batch).1.store ∧
      ((appendBatchWithShutdown f a batch).2 = .ok true → ¬Stale a.store.db batch) := by
  have hpieces := (batch.live a.store.db).pieces_recut.rendered (hfirst.live _)
  obtain ⟨hmoved,hclean⟩ := (moved_rule f).appendBatch (fun _ _ => trivial) ⟨h,hpieces⟩
  exact ⟨hmoved,fun hdone hstale => hclean hdone hstale.live.pieces⟩

end Durable
end Ctxmux
