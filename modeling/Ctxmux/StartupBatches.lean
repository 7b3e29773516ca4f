import Ctxmux.ReplayPaging

/-!
# Startup batches

Opening a store marks the Runs of a daemon that is gone as interrupted and publishes the
new epoch. The rows go in batches that commit on their own: the daemon may die at any
commit, and a batch that is too large for one write-ahead log is halved.
-/

namespace Ctxmux
namespace Durable
namespace Startup

/-- The time columns of a row of `runs`. -/
structure RowTimes where
  createdAtMs : ℤ
  updatedAtMs : ℤ
  terminalAtMs : Option ℤ
deriving DecidableEq,Repr

/-- The store with the columns, and the row of `runtime_meta`, that an opening reads. -/
structure StartupStore where
  store : Store
  times : RunId → RowTimes
  runtimeId : String
  currentEpoch : String

def startupBatchMaxRows : ℕ := 128

structure StartupRunningRow where
  id : RunId
  metadataBytes : ℕ
  terminalAtMs : ℤ
deriving DecidableEq,Repr

inductive StartupBatch where
  | reconcile (rows : List StartupRunningRow)
  | publishEpoch
deriving DecidableEq,Repr

inductive StartupBatchDisposition where
  | committed | overBudget
deriving DecidableEq,Repr

namespace StartupBatch

def len : StartupBatch → ℕ
  | reconcile rows => rows.length
  | publishEpoch => 1

/-- The source's `prefix`. -/
def prefixOf (len : ℕ) : StartupBatch → StartupBatch
  | reconcile rows => reconcile (rows.take len)
  | publishEpoch => publishEpoch

def label : StartupBatch → String
  | reconcile _ => "running reconciliation"
  | publishEpoch => "epoch publication"

end StartupBatch

/-- What becomes of one transaction: it commits, its pages exceed the budget, or it ends in
an error (the death of the daemon is one) before or after it is durable. -/
inductive Verdict where
  | fits
  | exceeds
  | failsBefore (error : PersistenceError)
  | failsAfter (error : PersistenceError)

/-- One opening of the store: its epoch, and the verdict on each transaction by its number
and its batch. -/
structure Opening where
  epoch : String
  walCheckpointBytes : ℕ
  verdict : ℕ → StartupBatch → Verdict

/-- The running Runs that no handoff keeps alive. -/
def abandoned (live : List RunId) (db : Database) : List RunRow :=
  db.runs.filter fun row => row.stateKind = .running ∧ row.id ∉ live

def interruptedText (codec : Codec) : String := codec.stateText (.interrupted .daemonRestart)

/-- The key of `ORDER BY created_at_ms, id`. -/
def createdKey (times : RunId → RowTimes) (row : RunRow) : ℤ ×ₗ String :=
  toLex ((times row.id).createdAtMs,row.id.text)

def startupRunningRow (codec : Codec) (terminalAtMs : ℤ) (row : RunRow) : StartupRunningRow where
  id := row.id
  metadataBytes := metadataSize row.id row.creationKey row.specJson row.lineageJson
    (interruptedText codec) row.sourceEpoch
  terminalAtMs := terminalAtMs

def loadStartupRunningPrefix (codec : Codec) (live : List RunId) (s : StartupStore) (limit : ℕ)
    (terminalAtMs : ℤ) : List StartupRunningRow :=
  (((abandoned live s.store.db).insertionSort
    fun x y => createdKey s.times x ≤ createdKey s.times y).take limit).map
      (startupRunningRow codec terminalAtMs)

/-- The addition saturates at the largest `i64`. -/
def startupTerminalAnchor (s : StartupStore) : ℤ :=
  min (((s.store.db.runs.map fun row => (s.times row.id).updatedAtMs).max?).getD 0+1) i64Max

/-- `UPDATE runs .. WHERE id = ? AND state_kind = 'running'`, which must change one row. -/
def applyStartupRow (codec : Codec) (s : StartupStore) (row : StartupRunningRow) :
    Except PersistenceError StartupStore :=
  match s.store.db.run? row.id with
  | some old =>
    if old.stateKind = .running then
      .ok { s with
        store := ⟨s.store.db.updateRun row.id fun old =>
          { old with
            stateKind := .interrupted
            stateJson := interruptedText codec
            pid := none
            metadataBytes := row.metadataBytes },s.store.files⟩
        times := fun id =>
          if id = row.id then { s.times id with terminalAtMs := some row.terminalAtMs }
          else s.times id }
    else .error (.mutation s!"startup running Run {row.id} changed before reconciliation")
  | none => .error (.mutation s!"startup running Run {row.id} changed before reconciliation")

def applyStartupBatch (codec : Codec) (epoch : String) (s : StartupStore) :
    StartupBatch → Except PersistenceError StartupStore
  | .reconcile rows => rows.foldlM (applyStartupRow codec) s
  | .publishEpoch => .ok { s with currentEpoch := epoch }

/-- The store under an opening, with the number of transactions it has tried. -/
structure Normalizing where
  attempts : ℕ
  current : StartupStore

def commitStartupBatch (codec : Codec) (o : Opening) (batch : StartupBatch) (w : Normalizing) :
    Except PersistenceError StartupBatchDisposition × Normalizing :=
  match applyStartupBatch codec o.epoch w.current batch with
  | .error error => (.error error,⟨w.attempts+1,w.current⟩)
  | .ok applied =>
    match o.verdict w.attempts batch with
    | .fits => (.ok .committed,⟨w.attempts+1,applied⟩)
    | .exceeds => (.ok .overBudget,⟨w.attempts+1,w.current⟩)
    | .failsBefore error => (.error error,⟨w.attempts+1,w.current⟩)
    | .failsAfter error => (.error error,⟨w.attempts+1,applied⟩)

/-- The loop of `commit_startup_with_reduction`, with `len` rows left of the batch. -/
def commitStartupWithReduction (codec : Codec) (o : Opening) (batch : StartupBatch) (len : ℕ)
    (w : Normalizing) : Except PersistenceError Unit × Normalizing :=
  match commitStartupBatch codec o (batch.prefixOf len) w with
  | (.error error,w') => (.error error,w')
  | (.ok .committed,w') => (.ok (),w')
  | (.ok .overBudget,w') =>
    if 1 < len then commitStartupWithReduction codec o batch (len/2) w'
    else (.error (.resourcePressure
      s!"one startup {batch.label} unit exceeds configured WAL page budget"),w')
termination_by len

variable {codec : Codec} {live : List RunId} {o : Opening} {s s' : StartupStore}
  {w w' : Normalizing}

variable {row : StartupRunningRow}

theorem applyStartupRow_eq_ok (h : applyStartupRow codec s row = .ok s') :
    (∃ old, s.store.db.run? row.id = some old ∧ old.stateKind = .running) ∧
      s' = { s with
        store := ⟨s.store.db.updateRun row.id fun old =>
          { old with
            stateKind := .interrupted
            stateJson := interruptedText codec
            pid := none
            metadataBytes := row.metadataBytes },s.store.files⟩
        times := fun id =>
          if id = row.id then { s.times id with terminalAtMs := some row.terminalAtMs }
          else s.times id } := by
  unfold applyStartupRow at h
  split at h
  · rename_i old hold
    split_ifs at h with hrunning
    exact ⟨⟨old,hold,hrunning⟩,(Except.ok.inj h).symm⟩
  · cases h

theorem applyStartupRow_abandoned (h : applyStartupRow codec s row = .ok s') :
    abandoned live s'.store.db = (abandoned live s.store.db).filter (·.id ≠ row.id) := by
  obtain ⟨-,rfl⟩ := applyStartupRow_eq_ok h
  simp only [abandoned,Database.updateRun_runs]
  induction s.store.db.runs with
  | nil => rfl
  | cons r rs ih =>
    by_cases hid : r.id = row.id <;>
      by_cases hrunning : r.stateKind = .running ∧ r.id ∉ live <;>
        simp_all

/-- The rows that a batch has written are abandoned no more, and no others. -/
theorem applyRows_abandoned (live : List RunId) {rows : List StartupRunningRow}
    (h : rows.foldlM (applyStartupRow codec) s = .ok s') :
    abandoned live s'.store.db =
      (abandoned live s.store.db).filter (·.id ∉ rows.map (·.id)) := by
  induction rows generalizing s with
  | nil =>
    obtain rfl := Except.ok.inj h
    simp
  | cons row rows ih =>
    rw [List.foldlM_cons] at h
    obtain ⟨mid,hrow,hrest⟩ := bind_eq_ok.mp h
    rw [ih hrest,applyStartupRow_abandoned hrow,List.filter_filter]
    refine List.filter_congr fun r _ => ?_
    simp only [List.map_cons,List.mem_cons,decide_not,Bool.decide_or,Bool.not_or,Bool.and_comm]

theorem mem_loadStartupRunningPrefix {limit : ℕ} {terminalAtMs : ℤ}
    (h : row ∈ loadStartupRunningPrefix codec live s limit terminalAtMs) :
    ∃ r ∈ abandoned live s.store.db, row = startupRunningRow codec terminalAtMs r := by
  obtain ⟨r,hr,rfl⟩ := List.mem_map.mp h
  exact ⟨r,(List.mem_insertionSort _).mp (List.mem_of_mem_take hr),rfl⟩

/-- The first `k` attempts on a batch of `len` rows, each on half of the rows of the one
before, are over budget. -/
def Exceeding (o : Opening) (batch : StartupBatch) (len attempts k : ℕ) : Prop :=
  ∀ j < k, o.verdict (attempts+j) (batch.prefixOf (len/2^j)) = .exceeds

/-- How a batch of `len` rows ends: an attempt on `len/2^k` of its rows commits, is a
single row that is over budget still, or fails before or after its commit. -/
inductive Reduced (codec : Codec) (o : Opening) (batch : StartupBatch) (len : ℕ)
    (w : Normalizing) : Except PersistenceError Unit × Normalizing → Prop
  | committed {k : ℕ} {s' : StartupStore} (hrows : 0 < len/2^k)
      (hexceeding : Exceeding o batch len w.attempts k)
      (happlied : applyStartupBatch codec o.epoch w.current (batch.prefixOf (len/2^k)) = .ok s') :
      Reduced codec o batch len w (.ok (),⟨w.attempts+k+1,s'⟩)
  | exhausted {k : ℕ} {error : PersistenceError} (hrow : len/2^k = 1)
      (hexceeding : Exceeding o batch len w.attempts (k+1)) :
      Reduced codec o batch len w (.error error,⟨w.attempts+k+1,w.current⟩)
  | refused {k : ℕ} {error : PersistenceError} (hrows : 0 < len/2^k)
      (hrefused : (∃ e, applyStartupBatch codec o.epoch w.current (batch.prefixOf (len/2^k)) =
        .error e) ∨ ∃ e, o.verdict (w.attempts+k) (batch.prefixOf (len/2^k)) = .failsBefore e) :
      Reduced codec o batch len w (.error error,⟨w.attempts+k+1,w.current⟩)
  | lost {k : ℕ} {error : PersistenceError} {s' : StartupStore} (hrows : 0 < len/2^k)
      (happlied : applyStartupBatch codec o.epoch w.current (batch.prefixOf (len/2^k)) = .ok s')
      (hlost : ∃ e, o.verdict (w.attempts+k) (batch.prefixOf (len/2^k)) = .failsAfter e) :
      Reduced codec o batch len w (.error error,⟨w.attempts+k+1,s'⟩)

theorem Exceeding.cons {batch : StartupBatch} {len n k : ℕ}
    (hfirst : o.verdict n (batch.prefixOf len) = .exceeds)
    (h : Exceeding o batch (len/2) (n+1) k) : Exceeding o batch len n (k+1) := by
  intro j hj
  cases j with
  | zero => simpa using hfirst
  | succ j =>
    have hnext := h j (by omega)
    rwa [Nat.div_div_eq_div_mul,← pow_succ',Nat.add_right_comm,Nat.add_assoc n] at hnext

theorem Reduced.halve {batch : StartupBatch} {len : ℕ}
    {r : Except PersistenceError Unit × Normalizing}
    (hfirst : o.verdict w.attempts (batch.prefixOf len) = .exceeds)
    (h : Reduced codec o batch (len/2) ⟨w.attempts+1,w.current⟩ r) :
    Reduced codec o batch len w r := by
  have hdiv : ∀ k, len/2/2^k = len/2^(k+1) := fun k => by
    rw [Nat.div_div_eq_div_mul,← pow_succ']
  have hcount : ∀ k, w.attempts+1+k = w.attempts+(k+1) := fun k => by omega
  cases h with
  | committed hrows hexceeding happlied =>
    rw [hdiv] at hrows happlied
    simp only [hcount]
    exact .committed hrows (hexceeding.cons hfirst) happlied
  | exhausted hrow hexceeding =>
    rw [hdiv] at hrow
    simp only [hcount]
    exact .exhausted hrow (hexceeding.cons hfirst)
  | refused hrows hrefused =>
    rw [hdiv] at hrows hrefused
    simp only [hcount] at hrefused ⊢
    exact .refused hrows hrefused
  | lost hrows happlied hlost =>
    rw [hdiv] at hrows happlied hlost
    simp only [hcount] at hlost ⊢
    exact .lost hrows happlied hlost

/-- A batch ends as `Reduced` says: this is all that its loop can do. -/
theorem commitStartupWithReduction_reduced (codec : Codec) (o : Opening) (w : Normalizing)
    (batch : StartupBatch) {len : ℕ} (hlen : 0 < len) :
    Reduced codec o batch len w (commitStartupWithReduction codec o batch len w) := by
  induction hn : len using Nat.strong_induction_on generalizing len w with
  | _ n ih =>
    subst hn
    have hone : len/2^0 = len := by simp
    rw [commitStartupWithReduction]
    unfold commitStartupBatch
    cases happlied : applyStartupBatch codec o.epoch w.current (batch.prefixOf len) with
    | error e =>
      exact .refused (k := 0) (by simpa using hlen) (.inl ⟨e,by rw [hone,happlied]⟩)
    | ok applied =>
      cases hverdict : o.verdict w.attempts (batch.prefixOf len) with
      | fits => exact .committed (k := 0) (by simpa using hlen) (fun j hj => by omega) (by rw [hone,happlied])
      | exceeds =>
        simp only
        split
        · exact (ih (len/2) (by omega) ⟨w.attempts+1,w.current⟩ (by omega) rfl).halve hverdict
        · refine .exhausted (k := 0) (by simp; omega) fun j hj => ?_
          obtain rfl : j = 0 := by omega
          simpa using hverdict
      | failsBefore e => exact .refused (k := 0) (by simpa using hlen) (.inr ⟨e,by simpa using hverdict⟩)
      | failsAfter e =>
        exact .lost (k := 0) (by simpa using hlen) (by rw [hone,happlied]) ⟨e,by simpa using hverdict⟩

theorem committed_abandoned_lt {rows : List StartupRunningRow} {limit : ℕ} {terminalAtMs : ℤ}
    (hrows : loadStartupRunningPrefix codec live w.current limit terminalAtMs = row::rows)
    (hcommit : commitStartupWithReduction codec o (.reconcile (row::rows)) (rows.length+1) w =
      (.ok (),w')) :
    (abandoned live w'.current.store.db).length < (abandoned live w.current.store.db).length := by
  have hreduced := commitStartupWithReduction_reduced codec o w
    (.reconcile (row::rows)) (Nat.succ_pos rows.length)
  rw [hcommit] at hreduced
  cases hreduced with
  | committed hpositive _ happlied =>
    have hfirst : row ∈ loadStartupRunningPrefix codec live w.current limit terminalAtMs := by
      simp [hrows]
    obtain ⟨r,hr,rfl⟩ := mem_loadStartupRunningPrefix hfirst
    rw [applyRows_abandoned live happlied]
    apply List.length_filter_lt_length_iff_exists.mpr
    refine ⟨r,hr,?_⟩
    obtain ⟨n,hn⟩ := Nat.exists_eq_succ_of_ne_zero hpositive.ne'
    simp [hn,startupRunningRow]

/-- The loop of `normalize_startup`. -/
def reconcileAll (codec : Codec) (live : List RunId) (o : Opening) (terminalAtMs : ℤ)
    (w : Normalizing) : Except PersistenceError Unit × Normalizing :=
  match _hrows : loadStartupRunningPrefix codec live w.current startupBatchMaxRows terminalAtMs with
  | [] => (.ok (),w)
  | row::rows =>
    match _hcommit : commitStartupWithReduction codec o (.reconcile (row::rows)) (rows.length+1) w with
    | (.error error,w') => (.error error,w')
    | (.ok (),w') => reconcileAll codec live o terminalAtMs w'
termination_by (abandoned live w.current.store.db).length
decreasing_by exact committed_abandoned_lt _hrows _hcommit

def normalizeStartup (codec : Codec) (live : List RunId) (o : Opening) (s : StartupStore) :
    Except PersistenceError Unit × Normalizing :=
  match reconcileAll codec live o (startupTerminalAnchor s) ⟨0,s⟩ with
  | (.error error,w) => (.error error,w)
  | (.ok (),w) =>
    match commitStartupBatch codec o .publishEpoch w with
    | (.error error,w') => (.error error,w')
    | (.ok .committed,w') => (.ok (),w')
    | (.ok .overBudget,w') => (.error (.resourcePressure
        s!"startup epoch publication exceeds configured wal_checkpoint_bytes {o.walCheckpointBytes}"),w')

end Startup
end Durable
end Ctxmux
