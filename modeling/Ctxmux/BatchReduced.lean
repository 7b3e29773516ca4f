import Ctxmux.BatchPieces

/-!
# Running a transaction in pieces

Whatever the verdicts are, `append_transaction_with_shutdown` commits a front of what its
batch says: all of it when it returns `true`, and otherwise a part after which the next call
goes on. Where the limits are not exceeded nothing is reclaimed, and then only a unit of at
most a byte that is over budget keeps it from returning `true`.
-/

namespace Ctxmux
namespace Durable

open Tiling

variable {f : Funding} {streams : RunId → ℕ → Byte} {s s' : Store} {a a' : Appender}
  {batch xs : Entries} {terminal : Option TerminalSettlement} {db : Database} {result : AppendStep}

/-- Of every Run a front of what the batch presents. -/
def Part (s : Store) (done batch : Entries) : Prop :=
  ∀ row ∈ s.db.runs, (batch.truncatedOf row.id = none → done.truncatedOf row.id = none) ∧
    reach row.durableOutputBytes (done.chunksOf row.id) ≤
      reach row.durableOutputBytes (batch.chunksOf row.id)

theorem Part.nil (s : Store) (batch : Entries) : Part s [] batch := fun _ _ =>
  ⟨fun _ => rfl,le_reach _ _⟩

theorem Part.refl (s : Store) (batch : Entries) : Part s batch batch := fun _ _ => ⟨id,le_rfl⟩

theorem Part.left {done : Entries} (h : Part s done xs) (ys : Entries) :
    Part s done (xs ++ ys) := by
  intro row hr
  obtain ⟨hnone,hle⟩ := h row hr
  rw [Entries.truncatedOf_append,Entries.chunksOf_append,reach_append]
  refine ⟨fun h => hnone ?_,hle.trans (le_reach _ _)⟩
  cases hy : ys.truncatedOf row.id with
  | none => simpa [hy] using h
  | some truncated => simp [hy] at h

theorem Part.right {limits : OutputLimits} {done ys : Entries} (ht : Taken limits streams s xs s')
    (h : Part s' done ys) : Part s (xs ++ done) (xs ++ ys) := by
  intro row hr
  have hmem : xs.extend limits.durableRunOutputBytes row ∈ s'.db.runs := by
    rw [ht.runs]
    exact List.mem_map_of_mem hr
  obtain ⟨hnone,hle⟩ := h _ hmem
  rw [Entries.extend_id] at hnone hle
  rw [Entries.extend_head] at hle
  simp only [Entries.truncatedOf_append,Entries.chunksOf_append,reach_append]
  refine ⟨fun h => ?_,hle⟩
  cases hy : ys.truncatedOf row.id with
  | none => rw [hnone hy]; simpa [hy] using h
  | some truncated => simp [hy] at h

theorem Part.recut {limits : OutputLimits} {done batch' : Entries} (h : Part s done batch')
    (hcut : Recut batch' batch) (hfeeds : Feeds limits streams s batch) : Part s done batch := by
  intro row hr
  obtain ⟨hnone,hle⟩ := h row hr
  obtain ⟨first,last,ht,_,hhead,_⟩ := (hfeeds.presents row hr).tiles
  have hcutrow := hcut.extend (hfeeds.presents row hr)
  have hfresh := hcutrow.2.2
  have h₁ := le_reach row.durableOutputBytes (batch.chunksOf row.id)
  have h₂ := le_reach row.durableOutputBytes (batch'.chunksOf row.id)
  unfold Entries.fresh at hfresh
  exact ⟨fun h => hnone (hcut.truncated row.id ▸ h),by omega⟩

/-- How a call leaves the store. -/
inductive Outcome (f : Funding) (streams : RunId → ℕ → Byte) (s : Store) (batch : Entries)
    (terminal : Option TerminalSettlement) : Store → Except PersistenceError Bool → Prop
  | whole {s₁ : Store} {db : Database} (taken : Taken f.limits streams s batch s₁)
      (settled : stageTerminal f.codec s₁.db terminal = .ok db) :
      Outcome f streams s batch terminal ⟨db,s₁.files⟩ (.ok true)
  | stopped {done : Entries} {s₁ : Store} {db : Database} (part : Part s done batch)
      (taken : Taken f.limits streams s done s₁) (evicts : Evicts s₁.files s₁.db db) :
      Outcome f streams s batch terminal ⟨db,s₁.files⟩ (.ok false)
  | failed {done : Entries} {s₁ : Store} {error : PersistenceError} (part : Part s done batch)
      (taken : Taken f.limits streams s done s₁) :
      Outcome f streams s batch terminal s₁ (.error error)

theorem Outcome.failed_at (h : Intact streams s) (error : PersistenceError) :
    Outcome f streams s batch terminal s (.error error) :=
  .failed (Part.nil s batch) (Taken.refl h)

theorem Outcome.stopped_at (h : Intact streams s) (he : Evicts s.files s.db db) :
    Outcome f streams s batch terminal ⟨db,s.files⟩ (.ok false) :=
  .stopped (Part.nil s batch) (Taken.refl h) he

/-- The second of two pieces, after the first was committed whole. -/
theorem Outcome.after {ys : Entries} {result : Except PersistenceError Bool} {s'' : Store}
    (ht : Taken f.limits streams s xs s') (h : Outcome f streams s' ys terminal s'' result) :
    Outcome f streams s (xs ++ ys) terminal s'' result := by
  cases h with
  | whole taken settled => exact .whole (ht.trans taken) settled
  | stopped part taken evicts => exact .stopped (part.right ht) (ht.trans taken) evicts
  | failed part taken => exact .failed (part.right ht) (ht.trans taken)

theorem Outcome.left {terminal' : Option TerminalSettlement}
    {outcome : Except PersistenceError Bool} (h : Outcome f streams s xs terminal s' outcome)
    (hne : outcome ≠ .ok true) (ys : Entries) :
    Outcome f streams s (xs ++ ys) terminal' s' outcome := by
  cases h with
  | whole taken settled => exact absurd rfl hne
  | stopped part taken evicts => exact .stopped (part.left ys) taken evicts
  | failed part taken => exact .failed (part.left ys) taken

theorem Outcome.taken (h : Outcome f streams s batch none s' (.ok true)) :
    Taken f.limits streams s batch s' := by
  cases h with
  | whole taken settled =>
    obtain rfl := Except.ok.inj settled
    exact taken

theorem Outcome.recut {batch' : Entries} {result : Except PersistenceError Bool}
    (h : Outcome f streams s batch' terminal s' result) (hcut : Recut batch' batch)
    (hfeeds : Feeds f.limits streams s batch) : Outcome f streams s batch terminal s' result := by
  cases h with
  | whole taken settled => exact .whole (taken.recut hcut hfeeds) settled
  | stopped part taken evicts => exact .stopped (part.recut hcut hfeeds) taken evicts
  | failed part taken => exact .failed (part.recut hcut hfeeds) taken

/-- What a reclaimer returns was retired by one page of it. -/
theorem reclaimRows_eq_ok {page : ℕ → Verdict}
    {retire : ℕ → Except PersistenceError (Bool × Database)} {exceeds : PersistenceError} {rows : ℕ}
    {flag : Bool} (h : reclaimRows page retire exceeds rows = .ok (flag,db)) :
    ∃ rows, retire rows = .ok (flag,db) := by
  induction rows using Nat.strong_induction_on with
  | _ rows ih =>
    unfold reclaimRows at h
    cases hretire : retire rows with
    | error error => simp [hretire] at h
    | ok result =>
      obtain ⟨found,db'⟩ := result
      rw [hretire] at h
      cases found with
      | false => exact ⟨rows,hretire.trans h⟩
      | true =>
        dsimp only at h
        split at h
        · exact ⟨rows,hretire.trans h⟩
        · cases h
        · split at h
          · cases h
          · rename_i hrows
            exact ih (rows/2) (by omega) h

theorem reclaimOutputPrefix_evicts {id : RunId} {replay : OutputReplay} {flag : Bool}
    (hs : Sound a.store.db a.store.files) (hw : ∀ r ∈ a.store.db.runs, Window a.store.db r)
    (h : reclaimOutputPrefix f a id replay = .ok (flag,db)) :
    Evicts a.store.files a.store.db db := by
  obtain ⟨row,_,h⟩ := bind_eq_ok.mp h
  dsimp only at h
  split at h
  · obtain ⟨_,rfl⟩ := Prod.mk.inj (Except.ok.inj h)
    exact Evicts.refl hs hw
  · obtain ⟨rows,hretire⟩ := reclaimRows_eq_ok h
    exact evicts_reclaimConfirmedPrefix hs hw hretire

theorem reclaimDatabaseRows_evicts {capacity : PersistenceError} {flag : Bool}
    (hs : Sound a.store.db a.store.files) (hw : ∀ r ∈ a.store.db.runs, Window a.store.db r)
    (h : reclaimDatabaseRows f a capacity = .ok (flag,db)) :
    Evicts a.store.files a.store.db db := by
  obtain ⟨rows,hretire⟩ := reclaimRows_eq_ok h
  cases hpages : reclaimDatabasePages a.store.db capacity rows with
  | error error => simp [hpages,Except.map] at hretire
  | ok db' =>
    simp only [hpages,Except.map,Except.ok.injEq,Prod.mk.injEq] at hretire
    exact hretire.2 ▸ evicts_reclaimDatabasePages hs hw hpages

/-- What a reclaimer makes of an appender. -/
inductive Reclaimed (f : Funding) (a : Appender) (batch : Entries) : AppendStep → Prop
  | goes {b : Appender} (store : b.store = a.store) (attempts : b.attempts = a.attempts)
      (calm : a.reclaimingOutput = [] → b.reclaimingOutput = []) :
      Reclaimed f a batch (b,.ok true)
  | stops {b : Appender} {db : Database} (store : b.store = ⟨db,a.store.files⟩)
      (evicts : Evicts a.store.files a.store.db db) : Reclaimed f a batch (b,.ok false)
  | fails {id : RunId} {replay : OutputReplay} {error : PersistenceError}
      (single : coalesceBatch batch = [(id,replay)])
      (refused : reclaimOutputPrefix f a id replay = .error error) :
      Reclaimed f a batch (a,.error error)

section Reclaim

variable (f) (batch) (hs : Sound a.store.db a.store.files)
  (hw : ∀ r ∈ a.store.db.runs, Window a.store.db r)
include hs hw

theorem reclaimed_before : Reclaimed f a batch (a.reclaimBefore f batch) := by
  unfold Appender.reclaimBefore
  split
  · rename_i id replay hsingle
    split
    · cases hreclaim : reclaimOutputPrefix f a id replay with
      | error error => exact .fails hsingle hreclaim
      | ok result =>
        obtain ⟨flag,db⟩ := result
        cases flag with
        | true => exact .stops rfl (reclaimOutputPrefix_evicts hs hw hreclaim)
        | false => exact .goes rfl rfl fun h => by simp [h]
    · exact .goes rfl rfl fun h => h
  · exact .goes rfl rfl id

theorem reclaimed_after : Reclaimed f a batch (a.reclaimAfter f batch) := by
  unfold Appender.reclaimAfter
  split
  · rename_i id replay hsingle
    cases hreclaim : reclaimOutputPrefix f a id replay with
    | error error => exact .fails hsingle hreclaim
    | ok result =>
      obtain ⟨flag,db⟩ := result
      cases flag with
      | true => exact .stops rfl (reclaimOutputPrefix_evicts hs hw hreclaim)
      | false => exact .goes rfl rfl fun h => h
  · exact .goes rfl rfl id

theorem reclaimFull_cases (error : PersistenceError) :
    (∃ e, a.reclaimFull f error = (a,.error e)) ∨ ∃ b db, a.reclaimFull f error = (b,.ok false) ∧
      b.store = ⟨db,a.store.files⟩ ∧ Evicts a.store.files a.store.db db := by
  unfold Appender.reclaimFull
  split
  · exact .inl ⟨_,rfl⟩
  · rename_i capacity _
    cases hreclaim : reclaimDatabaseRows f a capacity with
    | error error => exact .inl ⟨_,rfl⟩
    | ok result => exact .inr ⟨_,_,rfl,rfl,reclaimDatabaseRows_evicts hs hw hreclaim⟩

end Reclaim

theorem Reclaimed.same (h : Reclaimed f a batch result) (hgoes : result.2 = .ok true) :
    result.1.store = a.store ∧ result.1.attempts = a.attempts := by
  cases h with
  | goes store attempts calm => exact ⟨store,attempts⟩
  | stops store evicts => cases hgoes
  | fails single refused => cases hgoes

/-- A transaction that is not committed leaves the store as it was. -/
theorem once_kept (hnot : (a.appendTransactionOnce f batch terminal).2 ≠ .ok true) :
    (a.appendTransactionOnce f batch terminal).1.store = a.store := by
  unfold Appender.appendTransactionOnce at hnot ⊢
  split
  · rfl
  · next hsmall =>
    rw [if_neg hsmall] at hnot
    split at hnot
    · rfl
    · rfl
    · exact absurd rfl hnot
    · rfl

theorem once_calm (f : Funding) (a : Appender) (batch : Entries)
    (terminal : Option TerminalSettlement) :
    (a.appendTransactionOnce f batch terminal).1.reclaimingOutput = a.reclaimingOutput := by
  unfold Appender.appendTransactionOnce
  split
  · rfl
  · split <;> rfl

/-- Why a call ends with an error: of a reclaimer, of the transaction, or of its division. -/
inductive AppendFailed (f : Funding) (a : Appender) (batch : Entries)
    (terminal : Option TerminalSettlement) (error : PersistenceError) : Prop
  | reclaim {id : RunId} {replay : OutputReplay} (single : coalesceBatch batch = [(id,replay)])
      (refused : reclaimOutputPrefix f a id replay = .error error)
  | failed {cause : PersistenceError}
      (once : (a.appendTransactionOnce f batch terminal).2 = .error cause)
  | undivided (refused : reducedOutput batch = .error error)

theorem andThen_of_true (h : result.2 = .ok true) (next : Appender → AppendStep) :
    result.andThen next = next result.1 := by
  unfold AppendStep.andThen
  rw [h]

theorem andThen_of_ne (h : result.2 ≠ .ok true) (next : Appender → AppendStep) :
    result.andThen next = result := by
  obtain ⟨a,outcome⟩ := result
  cases outcome with
  | error error => rfl
  | ok flag =>
    cases flag with
    | true => exact absurd rfl h
    | false => rfl

/-- What carries a fact `T` about the steps of a transaction over to the whole of it. `I` is
what is known of an actor and the batch that it has still to commit. -/
structure TransactionRule (f : Funding)
    (I : Appender → Entries → Option TerminalSettlement → Prop)
    (T : Appender → Entries → Option TerminalSettlement → AppendStep → Prop) : Prop where
  sound : ∀ {a batch terminal}, I a batch terminal →
    Sound a.store.db a.store.files ∧ ∀ r ∈ a.store.db.runs, Window a.store.db r
  goes : ∀ {a b batch terminal}, I a batch terminal → b.store = a.store →
    (a.reclaimingOutput = [] → b.reclaimingOutput = []) →
    I b batch terminal ∧ ∀ result, T b batch terminal result → T a batch terminal result
  stops : ∀ {a b batch terminal db}, I a batch terminal → b.store = ⟨db,a.store.files⟩ →
    Evicts a.store.files a.store.db db → T a batch terminal (b,.ok false)
  refused : ∀ {a b batch terminal error}, I a batch terminal → b.store = a.store →
    (a.reclaimingOutput = [] → b.reclaimingOutput = []) → AppendFailed f a batch terminal error →
    T a batch terminal (b,.error error)
  done : ∀ {a batch terminal}, I a batch terminal →
    (a.appendTransactionOnce f batch terminal).2 = .ok true →
    T a batch terminal (a.appendTransactionOnce f batch terminal)
  divide : ∀ {a batch front tail terminal}, I a batch terminal →
    reducedOutput batch = .ok (front,tail) → I a (front ++ tail) terminal ∧
      ∀ result, T a (front ++ tail) terminal result → T a batch terminal result
  left : ∀ {a xs ys terminal}, I a (xs ++ ys) terminal → I a xs none
  after : ∀ {a b xs ys terminal}, I a (xs ++ ys) terminal → T a xs none (b,.ok true) →
    I b ys terminal
  seq : ∀ {a b xs ys terminal result}, I a (xs ++ ys) terminal → T a xs none (b,.ok true) →
    T b ys terminal result → T a (xs ++ ys) terminal result
  ends : ∀ {a xs ys terminal result}, I a (xs ++ ys) terminal → T a xs none result →
    result.2 ≠ .ok true → T a (xs ++ ys) terminal result

namespace TransactionRule

variable {I : Appender → Entries → Option TerminalSettlement → Prop}
  {T : Appender → Entries → Option TerminalSettlement → AppendStep → Prop}

theorem reclaimed (rule : TransactionRule f I T) {next : Appender → AppendStep}
    (h : I a batch terminal) (hresult : Reclaimed f a batch result)
    (hnext : ∀ b, I b batch terminal → T b batch terminal (next b)) :
    T a batch terminal (result.andThen next) := by
  cases hresult with
  | goes store attempts calm =>
    obtain ⟨h',hback⟩ := rule.goes h store calm
    exact hback _ (hnext _ h')
  | stops store evicts => exact rule.stops h store evicts
  | fails single refused => exact rule.refused h rfl id (.reclaim single refused)

theorem run (rule : TransactionRule f I T) (h : I a batch terminal) :
    T a batch terminal (appendTransactionWithShutdown f a batch terminal) := by
  induction hweight : batch.weight using Nat.strong_induction_on generalizing a batch terminal with
  | _ weight ih =>
    subst hweight
    unfold appendTransactionWithShutdown
    obtain ⟨hs,hw⟩ := rule.sound h
    refine rule.reclaimed h (reclaimed_before f batch hs hw) fun b h => ?_
    dsimp only
    by_cases hdone : (b.appendTransactionOnce f batch terminal).2 = .ok true
    · have hcommitted := rule.done h hdone
      rw [hdone]
      exact (show (b.appendTransactionOnce f batch terminal) = (_,.ok true) from
        Prod.ext rfl hdone) ▸ hcommitted
    · have hstore := once_kept hdone
      have hcalm : b.reclaimingOutput = [] →
          (b.appendTransactionOnce f batch terminal).1.reclaimingOutput = [] :=
        (once_calm f b batch terminal).trans
      obtain ⟨hc,hback⟩ := rule.goes h hstore hcalm
      obtain ⟨hs,hw⟩ := rule.sound hc
      cases houtcome : (b.appendTransactionOnce f batch terminal).2 with
      | error error =>
        dsimp only
        rcases reclaimFull_cases f hs hw error with ⟨e,hfull⟩ | ⟨d,db,hfull,hdb,hevicts⟩
        · rw [hfull]
          exact rule.refused h hstore hcalm (.failed houtcome)
        · rw [hfull]
          exact hback _ (rule.stops hc hdb hevicts)
      | ok flag =>
        cases flag with
        | true => exact absurd houtcome hdone
        | false =>
          dsimp only
          refine hback _ (rule.reclaimed hc (reclaimed_after f batch hs hw) fun d h => ?_)
          split
          · next error hrefused => exact rule.refused h rfl id (.undivided hrefused)
          · next front tail hpieces =>
            obtain ⟨hfront,htail⟩ := reducedOutput_weight hpieces
            obtain ⟨hcut,hback⟩ := rule.divide h hpieces
            refine hback _ ?_
            have hfirst := ih _ hfront (rule.left hcut) rfl
            generalize appendTransactionWithShutdown f d front none = first at hfirst
            obtain ⟨e,outcome⟩ := first
            by_cases hgoes : outcome = .ok true
            · subst hgoes
              exact rule.seq hcut hfirst (ih _ htail (rule.after hcut hfirst) rfl)
            · rw [andThen_of_ne hgoes]
              exact rule.ends hcut hfirst hgoes

end TransactionRule

theorem once_outcome (hi : Intact streams a.store) (hfeeds : Feeds f.limits streams a.store batch)
    (hdone : (a.appendTransactionOnce f batch terminal).2 = .ok true) :
    Outcome f streams a.store batch terminal (a.appendTransactionOnce f batch terminal).1.store
      (.ok true) := by
  obtain ⟨s₁,htaken,hstage⟩ := hfeeds.stageOutput hi f.codec terminal
  unfold Appender.appendTransactionOnce at hdone ⊢
  split at hdone
  · cases hdone
  · next hsmall =>
    rw [if_neg hsmall]
    split at hdone
    · cases hdone
    · cases hdone
    · next staged hverdict hstaged =>
      rw [hstage] at hstaged
      cases hterminal : stageTerminal f.codec s₁.db terminal with
      | error error => simp [hterminal,Except.map] at hstaged
      | ok db =>
        rw [hterminal] at hstaged
        obtain rfl := (Prod.mk.inj (Except.ok.inj hstaged)).2
        exact .whole htaken hterminal
    · cases hdone

theorem outcome_transactions (f : Funding) (streams : RunId → ℕ → Byte) :
    TransactionRule f (fun a batch _ => Intact streams a.store ∧ Feeds f.limits streams a.store batch)
      fun a batch terminal result =>
        Outcome f streams a.store batch terminal result.1.store result.2 where
  sound h := ⟨h.1.sound,h.1.windows⟩
  goes h hstore _ := by
    rw [hstore]
    exact ⟨h,fun _ houtcome => houtcome⟩
  stops h hstore hevicts := by
    dsimp only
    rw [hstore]
    exact .stopped_at h.1 hevicts
  refused h hstore _ _ := by
    dsimp only
    rw [hstore]
    exact .failed_at h.1 _
  done h hdone := by
    rw [hdone]
    exact once_outcome h.1 h.2 hdone
  divide h hpieces :=
    have hcut := (reducedOutput_divided hpieces).recut
    ⟨⟨h.1,h.2.recut hcut⟩,fun _ houtcome => houtcome.recut hcut h.2⟩
  left h := ⟨h.1,h.2.left⟩
  after h houtcome := ⟨houtcome.taken.intact,h.2.after h.1.windows houtcome.taken⟩
  seq _ houtcome hnext := Outcome.after houtcome.taken hnext
  ends _ houtcome hne := houtcome.left hne _

/-- Whatever the verdicts are, a front of the batch is durable after the call. -/
theorem appendTransaction_outcome (terminal : Option TerminalSettlement) (hi : Intact streams a.store)
    (hfeeds : Feeds f.limits streams a.store batch) :
    Outcome f streams a.store batch terminal
      (appendTransactionWithShutdown f a batch terminal).1.store
      (appendTransactionWithShutdown f a batch terminal).2 :=
  (outcome_transactions f streams).run ⟨hi,hfeeds⟩

end Durable
end Ctxmux
