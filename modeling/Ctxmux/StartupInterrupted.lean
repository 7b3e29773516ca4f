import Ctxmux.StartupBatches

/-!
# What startup normalization does to the store

However often the daemon dies on the way, the store differs from the one of before in the
abandoned Runs alone, which it interrupts at one and the same time.
-/

namespace Ctxmux
namespace Durable
namespace Startup

variable {codec : Codec} {live : List RunId} {o : Opening} {s s' s'' : StartupStore}
  {w w' : Normalizing} {t : ℤ} {ids ids' : List RunId}

/-- The row of a Run that an opening found abandoned. -/
def interrupt (codec : Codec) (row : RunRow) : RunRow :=
  { row with
    stateKind := .interrupted
    stateJson := interruptedText codec
    pid := none
    metadataBytes := metadataSize row.id row.creationKey row.specJson row.lineageJson
      (interruptedText codec) row.sourceEpoch }

theorem interrupt_ite_id (p : Prop) [Decidable p] (row : RunRow) :
    (if p then interrupt codec row else row).id = row.id := by
  split <;> rfl

theorem interrupt_ite (p : Prop) [Decidable p] (row : RunRow) :
    interrupt codec (if p then interrupt codec row else row) = interrupt codec row := by
  split <;> rfl

/-- `s'` is `s` with the Runs of `ids` interrupted at time `t`. -/
structure Interrupted (codec : Codec) (t : ℤ) (ids : List RunId) (s s' : StartupStore) : Prop where
  runs : s'.store.db.runs = s.store.db.runs.map fun r => if r.id ∈ ids then interrupt codec r else r
  chunks : s'.store.db.chunks = s.store.db.chunks
  nextOrdinal : s'.store.db.nextOrdinal = s.store.db.nextOrdinal
  replayFile : s'.store.db.replayFile = s.store.db.replayFile
  files : s'.store.files = s.store.files
  times : ∀ id, s'.times id =
    if id ∈ ids then { s.times id with terminalAtMs := some t } else s.times id
  runtime : s'.runtimeId = s.runtimeId

namespace Interrupted

theorem refl (codec : Codec) (t : ℤ) (s : StartupStore) : Interrupted codec t [] s s where
  runs := by simp
  chunks := rfl
  nextOrdinal := rfl
  replayFile := rfl
  files := rfl
  times _ := by simp
  runtime := rfl

section

variable (h : Interrupted codec t ids s s')
include h

theorem trans (h' : Interrupted codec t ids' s' s'') :
    Interrupted codec t (ids ++ ids') s s'' where
  runs := by
    rw [h'.runs,h.runs,List.map_map]
    refine List.map_congr_left fun r _ => ?_
    by_cases hr : r.id ∈ ids <;> by_cases hr' : r.id ∈ ids' <;> simp [hr,hr',interrupt]
  chunks := h'.chunks.trans h.chunks
  nextOrdinal := h'.nextOrdinal.trans h.nextOrdinal
  replayFile := h'.replayFile.trans h.replayFile
  files := h'.files.trans h.files
  times id := by
    rw [h'.times,h.times]
    by_cases hr : id ∈ ids <;> by_cases hr' : id ∈ ids' <;> simp [hr,hr']
  runtime := h'.runtime.trans h.runtime

theorem congr (hids : ∀ id, id ∈ ids ↔ id ∈ ids') :
    Interrupted codec t ids' s s' where
  runs := by simpa only [hids] using h.runs
  chunks := h.chunks
  nextOrdinal := h.nextOrdinal
  replayFile := h.replayFile
  files := h.files
  times id := by simpa only [hids] using h.times id
  runtime := h.runtime

theorem publish (epoch : String) :
    Interrupted codec t ids s { s' with currentEpoch := epoch } :=
  ⟨h.runs,h.chunks,h.nextOrdinal,h.replayFile,h.files,h.times,h.runtime⟩

/-- The batches do not write the column that the anchor is made of. -/
theorem anchor :
    startupTerminalAnchor s' = startupTerminalAnchor s := by
  have hmax : (s'.store.db.runs.map fun row => (s'.times row.id).updatedAtMs) =
      s.store.db.runs.map fun row => (s.times row.id).updatedAtMs := by
    rw [h.runs,List.map_map]
    refine List.map_congr_left fun r _ => ?_
    simp only [Function.comp_apply,interrupt_ite_id,h.times]
    split <;> rfl
  simp only [startupTerminalAnchor,hmax]

theorem mem_runs {r' : RunRow} (hr : r' ∈ s'.store.db.runs) :
    ∃ r ∈ s.store.db.runs, r' = if r.id ∈ ids then interrupt codec r else r := by
  rw [h.runs] at hr
  obtain ⟨r,hmem,heq⟩ := List.mem_map.mp hr
  exact ⟨r,hmem,heq.symm⟩

theorem abandoned_eq :
    abandoned live s'.store.db = (abandoned live s.store.db).filter (·.id ∉ ids) := by
  simp only [abandoned,h.runs]
  induction s.store.db.runs with
  | nil => rfl
  | cons r rs ih =>
    by_cases hid : r.id ∈ ids <;>
      by_cases hrunning : r.stateKind = .running ∧ r.id ∉ live <;>
        simp_all [interrupt]

end

theorem faithful {streams : RunId → ℕ → Byte} (h : Interrupted codec t ids s s')
    (hf : Faithful streams s.store.db s.store.files) :
    Faithful streams s'.store.db s'.store.files := by
  unfold Faithful
  rw [h.chunks,h.files]
  exact hf

end Interrupted

/-- A row of a batch carries the size of the Run's row as the batch will leave it. -/
def Measured (codec : Codec) (s : StartupStore) (row : StartupRunningRow) : Prop :=
  ∀ r ∈ s.store.db.runs, r.id = row.id → row.metadataBytes = (interrupt codec r).metadataBytes

theorem Measured.interrupted {row : StartupRunningRow} (hm : Measured codec s row)
    (h : Interrupted codec t ids s s') : Measured codec s' row := by
  intro r' hr' hid
  obtain ⟨r,hr,rfl⟩ := h.mem_runs hr'
  rw [interrupt_ite_id] at hid
  rw [interrupt_ite]
  exact hm r hr hid

theorem updateRun_congr {db : Database} {id : RunId} {f g : RunRow → RunRow}
    (h : ∀ r ∈ db.runs, r.id = id → f r = g r) : db.updateRun id f = db.updateRun id g := by
  unfold Database.updateRun
  cases hrun : db.run? id with
  | none => rfl
  | some old =>
    obtain ⟨hold,hid⟩ := Database.run?_mem hrun
    have hmap : (db.runs.map fun row => if row.id = id then f row else row) =
        db.runs.map fun row => if row.id = id then g row else row :=
      List.map_congr_left fun r hr => by
        by_cases hrid : r.id = id
        · rw [if_pos hrid,if_pos hrid,h r hr hrid]
        · rw [if_neg hrid,if_neg hrid]
    simp only [hmap,h old hold hid]

/-- A row of the batch is the single-row reconciliation of the store machine. -/
theorem applyStartupRow_reconciles {row : StartupRunningRow} (hm : Measured codec s row)
    (h : applyStartupRow codec s row = .ok s') :
    reconcileStartupRow codec s.store.db row.id = .ok s'.store.db ∧
      Interrupted codec row.terminalAtMs [row.id] s s' ∧ s'.currentEpoch = s.currentEpoch := by
  obtain ⟨⟨old,hold,hrunning⟩,rfl⟩ := applyStartupRow_eq_ok h
  have hsame : s.store.db.updateRun row.id (fun old => { old with
      stateKind := .interrupted, stateJson := interruptedText codec, pid := none,
      metadataBytes := row.metadataBytes }) = s.store.db.updateRun row.id (interrupt codec) :=
    updateRun_congr fun r hr hid => by simp [interrupt,hm r hr hid]
  refine ⟨?_,?_,rfl⟩
  · unfold reconcileStartupRow
    rw [hold]
    simp only [hrunning,if_true]
    rw [hsame]
    rfl
  · refine ⟨?_,by simp,by simp,by simp,rfl,fun id => by simp,rfl⟩
    simp only [hsame,Database.updateRun_runs,List.mem_singleton]

theorem applyRows_interrupted {rows : List StartupRunningRow}
    (hm : ∀ row ∈ rows, Measured codec s row ∧ row.terminalAtMs = t)
    (hwf : WellFormed codec s.store) (h : rows.foldlM (applyStartupRow codec) s = .ok s') :
    Interrupted codec t (rows.map (·.id)) s s' ∧ WellFormed codec s'.store ∧
      s'.currentEpoch = s.currentEpoch := by
  induction rows generalizing s with
  | nil =>
    obtain rfl := Except.ok.inj h
    exact ⟨.refl codec t s,hwf,rfl⟩
  | cons row rows ih =>
    rw [List.foldlM_cons] at h
    obtain ⟨mid,hrow,hrest⟩ := bind_eq_ok.mp h
    obtain ⟨hmeasured,hterminal⟩ := hm row (by simp)
    obtain ⟨hreconcile,hfirst,hepoch⟩ := applyStartupRow_reconciles hmeasured hrow
    rw [hterminal] at hfirst
    have hmid : WellFormed codec mid.store := by
      have hkept := hwf.reconcileStartupRow hreconcile
      rwa [← hfirst.files] at hkept
    obtain ⟨hothers,hkept,hsame⟩ := ih (fun r hr =>
      ⟨(hm r (by simp [hr])).1.interrupted hfirst,(hm r (by simp [hr])).2⟩) hmid hrest
    exact ⟨by simpa using hfirst.trans hothers,hkept,hsame.trans hepoch⟩

theorem applyRows_ok {rows : List StartupRunningRow} (hids : (s.store.db.runs.map (·.id)).Nodup)
    (hm : ∀ row ∈ rows, Measured codec s row) (hnodup : (rows.map (·.id)).Nodup)
    (hrunning : ∀ row ∈ rows, ∃ r ∈ s.store.db.runs, r.id = row.id ∧ r.stateKind = .running) :
    ∃ s', rows.foldlM (applyStartupRow codec) s = .ok s' := by
  induction rows generalizing s with
  | nil => exact ⟨s,rfl⟩
  | cons row rows ih =>
    obtain ⟨r,hr,hid,hkind⟩ := hrunning row (by simp)
    obtain ⟨hfresh,hrest⟩ := List.nodup_cons.mp hnodup
    have hrun : s.store.db.run? row.id = some r := hid ▸ Database.run?_of_mem hids hr
    obtain ⟨mid,hmid⟩ : ∃ mid, applyStartupRow codec s row = .ok mid := by
      unfold applyStartupRow
      simp only [hrun,hkind,if_true]
      exact ⟨_,rfl⟩
    obtain ⟨-,hfirst,-⟩ := applyStartupRow_reconciles (hm row (by simp)) hmid
    have hkept : (mid.store.db.runs.map (·.id)).Nodup := by
      rw [hfirst.runs,List.map_map]
      simpa [Function.comp_def,interrupt_ite_id] using hids
    have hothers : ∀ other ∈ rows,
        ∃ r ∈ mid.store.db.runs, r.id = other.id ∧ r.stateKind = .running := by
      intro other ho
      obtain ⟨r',hr',hid',hkind'⟩ := hrunning other (by simp [ho])
      have hne : r'.id ≠ row.id := fun heq =>
        hfresh (List.mem_map.mpr ⟨other,ho,hid'.symm.trans heq⟩)
      rw [hfirst.runs]
      exact ⟨r',List.mem_map.mpr ⟨r',hr',if_neg (by simpa using hne)⟩,hid',hkind'⟩
    obtain ⟨s',hs'⟩ := ih hkept
      (fun other ho => (hm other (by simp [ho])).interrupted hfirst) hrest hothers
    exact ⟨s',by rw [List.foldlM_cons,hmid]; exact hs'⟩

section Loaded

variable {limit : ℕ}

theorem startupRows_measured (hwf : WellFormed codec s.store) :
    ∀ row ∈ loadStartupRunningPrefix codec live s limit t,
      Measured codec s row ∧ row.terminalAtMs = t := by
  intro row hrow
  obtain ⟨r,hr,rfl⟩ := mem_loadStartupRunningPrefix hrow
  refine ⟨fun r' hr' hid => ?_,rfl⟩
  obtain rfl := List.inj_on_of_nodup_map hwf.sound.ids hr' (List.mem_filter.mp hr).1 hid
  rfl

theorem startupRows_nodup (hwf : WellFormed codec s.store) :
    ((loadStartupRunningPrefix codec live s limit t).map (·.id)).Nodup := by
  have hids : ((abandoned live s.store.db).map (·.id)).Nodup :=
    hwf.sound.ids.sublist (List.filter_sublist.map _)
  have hsorted := (((List.perm_insertionSort (fun x y => createdKey s.times x ≤ createdKey s.times y)
    (abandoned live s.store.db)).map (·.id)).nodup_iff).mpr hids
  rw [loadStartupRunningPrefix,List.map_map]
  exact hsorted.sublist ((List.take_sublist _ _).map _)

theorem startupRows_running :
    ∀ row ∈ loadStartupRunningPrefix codec live s limit t,
      ∃ r ∈ s.store.db.runs, r.id = row.id ∧ r.stateKind = .running := by
  intro row hrow
  obtain ⟨r,hr,rfl⟩ := mem_loadStartupRunningPrefix hrow
  obtain ⟨hr,hkind⟩ := List.mem_filter.mp hr
  exact ⟨r,hr,rfl,(of_decide_eq_true hkind).1⟩

theorem startupRows_abandoned :
    (loadStartupRunningPrefix codec live s limit t).map (·.id) ⊆
      (abandoned live s.store.db).map (·.id) := by
  intro id hid
  obtain ⟨row,hrow,rfl⟩ := List.mem_map.mp hid
  obtain ⟨r,hr,rfl⟩ := mem_loadStartupRunningPrefix hrow
  exact List.mem_map.mpr ⟨r,hr,rfl⟩

theorem startupRows_length :
    (loadStartupRunningPrefix codec live s limit t).length ≤ limit := by
  simp [loadStartupRunningPrefix]

theorem startupRows_eq_nil (h : loadStartupRunningPrefix codec live s startupBatchMaxRows t = []) :
    abandoned live s.store.db = [] := by
  have htake := List.map_eq_nil_iff.mp h
  have hsorted := (List.take_eq_nil_iff.mp htake).resolve_left (by decide)
  exact (List.perm_nil.mp (hsorted ▸ (List.perm_insertionSort _ _).symm))

end Loaded

/-- The transactions of an opening all commit, but for batches of more rows than one that
are over budget. -/
def Opening.Steady (o : Opening) : Prop :=
  ∀ n batch, o.verdict n batch = .fits ∨ (o.verdict n batch = .exceeds ∧ 1 < batch.len)

namespace Opening.Steady

variable {n : ℕ} {batch : StartupBatch} {error : PersistenceError}

theorem not_failsBefore (h : o.Steady) : o.verdict n batch ≠ .failsBefore error := by
  rcases h n batch with hverdict | ⟨hverdict,-⟩ <;> simp [hverdict]

theorem not_failsAfter (h : o.Steady) : o.verdict n batch ≠ .failsAfter error := by
  rcases h n batch with hverdict | ⟨hverdict,-⟩ <;> simp [hverdict]

theorem not_exceeds (h : o.Steady) (hone : batch.len ≤ 1) : o.verdict n batch ≠ .exceeds := by
  rcases h n batch with hverdict | ⟨-,hmany⟩
  · simp [hverdict]
  · exact absurd hmany (not_lt.mpr hone)

end Opening.Steady

/-- What an opening has done to a store when it stops: some of the abandoned Runs are
interrupted at time `t`. -/
structure Reconciled (codec : Codec) (live : List RunId) (t : ℤ) (s s' : StartupStore) : Prop where
  interrupted : ∃ ids ⊆ (abandoned live s.store.db).map (·.id), Interrupted codec t ids s s'
  wellFormed : WellFormed codec s'.store
  epoch : s'.currentEpoch = s.currentEpoch

namespace Reconciled

theorem refl (live : List RunId) (t : ℤ) (h : WellFormed codec s.store) :
    Reconciled codec live t s s :=
  ⟨⟨[],List.nil_subset _,.refl codec t s⟩,h,rfl⟩

theorem trans (h : Reconciled codec live t s s') (h' : Reconciled codec live t s' s'') :
    Reconciled codec live t s s'' := by
  obtain ⟨ids,hids,hfirst⟩ := h.interrupted
  obtain ⟨ids',hids',hrest⟩ := h'.interrupted
  refine ⟨⟨ids ++ ids',List.append_subset.mpr ⟨hids,fun id hid => ?_⟩,hfirst.trans hrest⟩,
    h'.wellFormed,h'.epoch.trans h.epoch⟩
  have hlater := hids' hid
  rw [hfirst.abandoned_eq] at hlater
  exact (List.filter_sublist.map _).subset hlater

end Reconciled

/-- A batch that was written is a part of the reconciliation. -/
theorem applied_reconciled (hwf : WellFormed codec s.store) {limit len : ℕ} {epoch : String}
    (h : applyStartupBatch codec epoch s ((StartupBatch.reconcile
      (loadStartupRunningPrefix codec live s limit t)).prefixOf len) = .ok s') :
    Reconciled codec live t s s' := by
  obtain ⟨hinterrupted,hkept,hepoch⟩ := applyRows_interrupted
    (fun row hrow => startupRows_measured hwf row (List.mem_of_mem_take hrow)) hwf h
  refine ⟨⟨_,fun id hid => ?_,hinterrupted⟩,hkept,hepoch⟩
  exact startupRows_abandoned (((List.take_sublist _ _).map _).subset hid)

theorem applied_ok (live : List RunId) (t : ℤ) (hwf : WellFormed codec s.store) (limit len : ℕ) (epoch : String) :
    ∃ s', applyStartupBatch codec epoch s ((StartupBatch.reconcile
      (loadStartupRunningPrefix codec live s limit t)).prefixOf len) = .ok s' :=
  applyRows_ok hwf.sound.ids
    (fun row hrow => (startupRows_measured hwf row (List.mem_of_mem_take hrow)).1)
    ((startupRows_nodup hwf).sublist ((List.take_sublist _ _).map _))
    fun row hrow => startupRows_running row (List.mem_of_mem_take hrow)

theorem halvings_lt {len k : ℕ} (hlen : len ≤ startupBatchMaxRows) (hrows : 0 < len/2^k) : k < 8 := by
  by_contra hk
  have hpow : 2^8 ≤ 2^k := Nat.pow_le_pow_right (by omega) (by omega)
  have hzero : len/2^k = 0 := Nat.div_eq_of_lt (lt_of_le_of_lt hlen (lt_of_lt_of_le (by decide) hpow))
  omega

/-- Whatever way a batch ends, it is a part of the reconciliation after at most eight
attempts; under steady commits it ends well. -/
theorem Reduced.reconciled (hwf : WellFormed codec w.current.store) {len : ℕ}
    {r : Except PersistenceError Unit × Normalizing}
    (hlen : len ≤ startupBatchMaxRows)
    (h : Reduced codec o (.reconcile
      (loadStartupRunningPrefix codec live w.current startupBatchMaxRows t)) len w r) :
    Reconciled codec live t w.current r.2.current ∧ r.2.attempts ≤ w.attempts+8 ∧
      (o.Steady → r.1 = .ok ()) := by
  cases h with
  | committed hrows _ happlied =>
    have hk := halvings_lt hlen hrows
    exact ⟨applied_reconciled hwf happlied,by dsimp only; omega,fun _ => rfl⟩
  | @exhausted k _ hrow hexceeding =>
    have hk := halvings_lt hlen (hrow.symm ▸ Nat.one_pos : 0 < len/2^k)
    refine ⟨.refl live t hwf,by dsimp only; omega,fun hsteady => ?_⟩
    have hlast := hexceeding k (by omega)
    rw [hrow] at hlast
    exact absurd hlast (hsteady.not_exceeds (List.length_take_le 1 _))
  | @refused k _ hrows hrefused =>
    have hk := halvings_lt hlen hrows
    refine ⟨.refl live t hwf,by dsimp only; omega,fun hsteady => ?_⟩
    rcases hrefused with ⟨e,happlied⟩ | ⟨e,hverdict⟩
    · obtain ⟨s',hs'⟩ := applied_ok live t hwf startupBatchMaxRows (len/2^k) o.epoch
      rw [hs'] at happlied
      cases happlied
    · exact absurd hverdict hsteady.not_failsBefore
  | @lost k _ _ hrows happlied hlost =>
    have hk := halvings_lt hlen hrows
    refine ⟨applied_reconciled hwf happlied,by dsimp only; omega,fun hsteady => ?_⟩
    obtain ⟨e,hverdict⟩ := hlost
    exact absurd hverdict hsteady.not_failsAfter

/-- The loop interrupts abandoned Runs; when it ends well none is left. -/
theorem reconcileAll_spec (live : List RunId) (o : Opening) (t : ℤ) (hwf : WellFormed codec w.current.store) :
    Reconciled codec live t w.current (reconcileAll codec live o t w).2.current ∧
      (reconcileAll codec live o t w).2.attempts ≤
        w.attempts+8*(abandoned live w.current.store.db).length ∧
      ((reconcileAll codec live o t w).1 = .ok () →
        abandoned live (reconcileAll codec live o t w).2.current.store.db = []) ∧
      (o.Steady → (reconcileAll codec live o t w).1 = .ok ()) := by
  induction hn : (abandoned live w.current.store.db).length using Nat.strong_induction_on
    generalizing w with
  | _ n ih =>
    subst hn
    rw [reconcileAll]
    split
    · rename_i hrows
      exact ⟨.refl live t hwf,Nat.le_add_right _ _,fun _ => startupRows_eq_nil hrows,fun _ => rfl⟩
    · rename_i row rows hrows
      have hreduced := commitStartupWithReduction_reduced codec o w
        (.reconcile (row::rows)) (Nat.succ_pos rows.length)
      have hlength : rows.length+1 ≤ startupBatchMaxRows := by
        have hlimit : (loadStartupRunningPrefix codec live w.current startupBatchMaxRows t).length ≤
            startupBatchMaxRows := startupRows_length
        rwa [hrows] at hlimit
      rw [← hrows] at hreduced
      obtain ⟨hreconciled,hattempts,hsteady⟩ := hreduced.reconciled hwf hlength
      split
      · rename_i error w' hcommit
        rw [hrows,hcommit] at hreconciled hattempts hsteady
        have hsome : 0 < (abandoned live w.current.store.db).length := by
          obtain ⟨r,hr,-⟩ := mem_loadStartupRunningPrefix (hrows ▸ List.mem_cons_self :
            row ∈ loadStartupRunningPrefix codec live w.current startupBatchMaxRows t)
          exact List.length_pos_of_mem hr
        exact ⟨hreconciled,by dsimp only at hattempts ⊢; omega,fun h => (by cases h),fun h => (by cases hsteady h)⟩
      · rename_i w' hcommit
        rw [hrows,hcommit] at hreconciled hattempts
        have hfewer := committed_abandoned_lt hrows hcommit
        obtain ⟨hlater,hbound,hdone,hends⟩ := ih _ hfewer (w := w') hreconciled.wellFormed rfl
        dsimp only at hattempts
        exact ⟨hreconciled.trans hlater,by omega,hdone,hends⟩

/-- `s'` is `s` with every abandoned Run interrupted, one millisecond after the last update. -/
def Normalized (codec : Codec) (live : List RunId) (s s' : StartupStore) : Prop :=
  Interrupted codec (startupTerminalAnchor s) ((abandoned live s.store.db).map (·.id)) s s'

theorem Reconciled.normalized (h : Reconciled codec live (startupTerminalAnchor s) s s')
    (hdone : abandoned live s'.store.db = []) : Normalized codec live s s' := by
  obtain ⟨ids,hids,hinterrupted⟩ := h.interrupted
  refine hinterrupted.congr fun id => ⟨fun hid => hids hid,fun hid => ?_⟩
  obtain ⟨r,hr,rfl⟩ := List.mem_map.mp hid
  rw [hinterrupted.abandoned_eq] at hdone
  by_contra hnot
  have hleft := List.filter_eq_nil_iff.mp hdone r hr
  exact hleft (by simpa using hnot)

/-- One opening, with whatever verdicts: the store is partly or wholly normalized. -/
theorem normalizeStartup_spec (live : List RunId) (o : Opening) (hwf : WellFormed codec s.store) :
    let r := normalizeStartup codec live o s
    ((∃ ids ⊆ (abandoned live s.store.db).map (·.id),
        Interrupted codec (startupTerminalAnchor s) ids s r.2.current) ∧
      WellFormed codec r.2.current.store) ∧
    r.2.attempts ≤ 8*(abandoned live s.store.db).length+1 ∧
    (r.1 = .ok () → Normalized codec live s r.2.current ∧ r.2.current.currentEpoch = o.epoch) ∧
    (o.Steady → r.1 = .ok ()) := by
  obtain ⟨hreconciled,hattempts,hdone,hsteady⟩ :=
    reconcileAll_spec live o (startupTerminalAnchor s) (w := ⟨0,s⟩) hwf
  intro r
  have hr : r = normalizeStartup codec live o s := rfl
  clear_value r
  unfold normalizeStartup at hr
  generalize hall : reconcileAll codec live o (startupTerminalAnchor s) ⟨0,s⟩ = all at *
  obtain ⟨outcome,w⟩ := all
  dsimp only at hreconciled hattempts hdone hsteady
  obtain ⟨ids,hids,hinterrupted⟩ := hreconciled.interrupted
  cases outcome with
  | error error =>
    subst hr
    exact ⟨⟨⟨ids,hids,hinterrupted⟩,hreconciled.wellFormed⟩,by dsimp only; omega,
      fun h => (by cases h),fun h => (by cases hsteady h)⟩
  | ok _ =>
    have hnormalized := hreconciled.normalized (hdone rfl)
    simp only [commitStartupBatch,applyStartupBatch] at hr
    cases hverdict : o.verdict w.attempts .publishEpoch with
    | fits =>
      rw [hverdict] at hr
      subst hr
      exact ⟨⟨⟨ids,hids,hinterrupted.publish o.epoch⟩,hreconciled.wellFormed⟩,by dsimp only; omega,
        fun _ => ⟨hnormalized.publish o.epoch,rfl⟩,fun _ => rfl⟩
    | exceeds =>
      rw [hverdict] at hr
      subst hr
      exact ⟨⟨⟨ids,hids,hinterrupted⟩,hreconciled.wellFormed⟩,by dsimp only; omega,
        fun h => (by cases h),fun h => absurd hverdict (h.not_exceeds le_rfl)⟩
    | failsBefore e =>
      rw [hverdict] at hr
      subst hr
      exact ⟨⟨⟨ids,hids,hinterrupted⟩,hreconciled.wellFormed⟩,by dsimp only; omega,
        fun h => (by cases h),fun h => absurd hverdict h.not_failsBefore⟩
    | failsAfter e =>
      rw [hverdict] at hr
      subst hr
      exact ⟨⟨⟨ids,hids,hinterrupted.publish o.epoch⟩,hreconciled.wellFormed⟩,by dsimp only; omega,
        fun h => (by cases h),fun h => absurd hverdict h.not_failsAfter⟩

/-- The store after openings that each died or failed somewhere, or succeeded. -/
def reopened (codec : Codec) (live : List RunId) (s : StartupStore) (os : List Opening) :
    StartupStore :=
  os.foldl (fun s o => (normalizeStartup codec live o s).2.current) s

theorem reopened_spec (live : List RunId) (hwf : WellFormed codec s.store) (os : List Opening) :
    (∃ ids ⊆ (abandoned live s.store.db).map (·.id),
      Interrupted codec (startupTerminalAnchor s) ids s (reopened codec live s os)) ∧
    WellFormed codec (reopened codec live s os).store := by
  induction os using List.reverseRecOn with
  | nil => exact ⟨⟨[],List.nil_subset _,.refl codec _ s⟩,hwf⟩
  | append_singleton os o ih =>
    obtain ⟨⟨ids,hids,hinterrupted⟩,hkept⟩ := ih
    obtain ⟨⟨⟨ids',hids',hinterrupted'⟩,hkept'⟩,-⟩ :=
      normalizeStartup_spec live o hkept
    rw [hinterrupted.anchor] at hinterrupted'
    rw [reopened,List.foldl_append]
    refine ⟨⟨ids ++ ids',List.append_subset.mpr ⟨hids,fun id hid => ?_⟩,
      hinterrupted.trans hinterrupted'⟩,hkept'⟩
    have hlater := hids' hid
    rw [hinterrupted.abandoned_eq] at hlater
    exact (List.filter_sublist.map _).subset hlater

/-- What an opening finishes, the openings before it have begun. -/
theorem Interrupted.normalized (hids : ids ⊆ (abandoned live s.store.db).map (·.id))
    (h : Interrupted codec (startupTerminalAnchor s) ids s s') (hrest : Normalized codec live s' s'') :
    Normalized codec live s s'' := by
  unfold Normalized at hrest
  rw [h.anchor,h.abandoned_eq] at hrest
  refine (h.trans hrest).congr fun id => ?_
  rw [List.mem_append]
  constructor
  · rintro (hid | hid)
    · exact hids hid
    · exact (List.filter_sublist.map _).subset hid
  · intro hid
    by_cases hdone : id ∈ ids
    · exact .inl hdone
    · obtain ⟨r,hr,rfl⟩ := List.mem_map.mp hid
      exact .inr (List.mem_map.mpr ⟨r,List.mem_filter.mpr ⟨hr,by simpa using hdone⟩,rfl⟩)

end Startup
end Durable
end Ctxmux
