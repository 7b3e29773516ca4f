import Ctxmux.PayloadKept
import Ctxmux.StartupRecovery

/-!
# An opening after any number of interrupted ones

The last steps of `StateStore::open`: once the startup batches are through, the store passes
the checks of an operating daemon and every Run is recovered.
-/

namespace Ctxmux
namespace Durable
namespace Startup

/-- The limits on what the tables hold. -/
structure AdmissionLimits where
  runRecords : ℕ
  metadataBytes : ℕ
deriving DecidableEq,Repr

def validateOperationalState (limits : AdmissionLimits) (live : List RunId)
    (runtimeId epoch : String) (s : StartupStore) : Except PersistenceError Unit :=
  if limits.runRecords < s.store.db.runs.length ∨
      limits.metadataBytes < (s.store.db.runs.map (·.metadataBytes)).sum ∨
      (s.store.db.runs.countP fun r => r.stateKind = .running) ≠ live.length ∨
      s.runtimeId ≠ runtimeId ∨ s.currentEpoch ≠ epoch then
    .error (.corrupt "startup normalization did not reach the operational state")
  else .ok ()

variable {codec : Codec} {live : List RunId} {o : Opening} {s s' : StartupStore}

theorem mem_abandoned_ids (hids : (s.store.db.runs.map (·.id)).Nodup) {r : RunRow}
    (hr : r ∈ s.store.db.runs) :
    r.id ∈ (abandoned live s.store.db).map (·.id) ↔ r.stateKind = .running ∧ r.id ∉ live := by
  constructor
  · intro hid
    obtain ⟨r',hr',hsame⟩ := List.mem_map.mp hid
    obtain ⟨hr',hkind⟩ := List.mem_filter.mp hr'
    obtain rfl := List.inj_on_of_nodup_map hids hr' hr hsame
    exact of_decide_eq_true hkind
  · intro habandoned
    exact List.mem_map.mpr ⟨r,List.mem_filter.mpr ⟨hr,decide_eq_true habandoned⟩,rfl⟩

namespace Normalized

section

variable (h : Normalized codec live s s') (hwf : WellFormed codec s.store)
include h hwf

theorem runs :
    s'.store.db.runs = s.store.db.runs.map fun r =>
      if r.stateKind = .running ∧ r.id ∉ live then interrupt codec r else r := by
  rw [Interrupted.runs h]
  refine List.map_congr_left fun r hr => ?_
  simp only [mem_abandoned_ids hwf.sound.ids hr]

theorem times {r : RunRow} (hr : r ∈ s.store.db.runs) :
    s'.times r.id = if r.stateKind = .running ∧ r.id ∉ live then
      { s.times r.id with terminalAtMs := some (startupTerminalAnchor s) } else s.times r.id := by
  rw [Interrupted.times h]
  simp only [mem_abandoned_ids hwf.sound.ids hr]

/-- The Runs that are running still are those that were handed over alive. -/
theorem running (hnodup : live.Nodup)
    (hlive : ∀ id ∈ live, ∃ r ∈ s.store.db.runs, r.id = id ∧ r.stateKind = .running) :
    (s'.store.db.runs.countP fun r => r.stateKind = .running) = live.length := by
  have hcount : (s'.store.db.runs.countP fun r => r.stateKind = .running) =
      s.store.db.runs.countP fun r => r.stateKind = .running ∧ r.id ∈ live := by
    rw [h.runs hwf,List.countP_map]
    refine List.countP_congr fun r _ => ?_
    by_cases hkind : r.stateKind = .running <;> by_cases hid : r.id ∈ live <;>
      simp [hkind,hid,interrupt]
  have hperm : ((s.store.db.runs.filter fun r => r.stateKind = .running ∧ r.id ∈ live).map
      (·.id)).Perm live := by
    refine (List.perm_ext_iff_of_nodup (hwf.sound.ids.sublist (List.filter_sublist.map _))
      hnodup).mpr fun id => ⟨fun hid => ?_,fun hid => ?_⟩
    · obtain ⟨r,hr,rfl⟩ := List.mem_map.mp hid
      exact (of_decide_eq_true (List.mem_filter.mp hr).2).2
    · obtain ⟨r,hr,rfl,hkind⟩ := hlive id hid
      exact List.mem_map.mpr ⟨r,List.mem_filter.mpr ⟨hr,decide_eq_true ⟨hkind,hid⟩⟩,rfl⟩
  rw [hcount,List.countP_eq_length_filter,← hperm.length_eq,List.length_map]

/-- The document of an interruption fits the reserve that every row was charged. -/
theorem metadata_le (htext : (interruptedText codec).utf8ByteSize ≤ lifecycleMetadataReserveBytes) :
    (s'.store.db.runs.map (·.metadataBytes)).sum ≤ (s.store.db.runs.map (·.metadataBytes)).sum := by
  rw [h.runs hwf,List.map_map]
  refine List.sum_le_sum fun r hr => ?_
  simp only [Function.comp_apply]
  split
  · simp only [interrupt]
    rw [(hwf.described r hr).metadata]
    unfold metadataSize
    omega
  · exact le_rfl

theorem validateOperationalState_ok
    (htext : (interruptedText codec).utf8ByteSize ≤ lifecycleMetadataReserveBytes)
    (hnodup : live.Nodup)
    (hlive : ∀ id ∈ live, ∃ r ∈ s.store.db.runs, r.id = id ∧ r.stateKind = .running)
    {limits : AdmissionLimits} (hrecords : s.store.db.runs.length ≤ limits.runRecords)
    (hmetadata : (s.store.db.runs.map (·.metadataBytes)).sum ≤ limits.metadataBytes)
    {epoch : String} (hepoch : s'.currentEpoch = epoch) :
    validateOperationalState limits live s.runtimeId epoch s' = .ok () := by
  unfold validateOperationalState
  refine if_neg ?_
  have hlength : s'.store.db.runs.length = s.store.db.runs.length := by
    rw [h.runs hwf,List.length_map]
  rintro (hbad | hbad | hbad | hbad | hbad)
  · omega
  · have := h.metadata_le hwf htext
    omega
  · exact hbad (h.running hwf hnodup hlive)
  · exact hbad (Interrupted.runtime h)
  · exact hbad hepoch

end

end Normalized

/-- An opening that comes after any number of others with the same Runs handed over alive,
each dead or failed at any of its commits: it ends after a bounded number of transactions,
each batch as `Reduced` says, and ends well if no single row is over budget. Ended well, it
has interrupted every running Run that was not handed over, all at one time that the crashes
did not move, and touched nothing else; the store passes both validations, and every Run is
recovered with its share of the budget. -/
theorem startup_normalized (codec : Codec) (live : List RunId) (s₀ : StartupStore)
    (hvalid : WellFormed codec s₀.store) (hnodup : live.Nodup)
    (hlive : ∀ id ∈ live, ∃ r ∈ s₀.store.db.runs, r.id = id ∧ r.stateKind = .running)
    (htext : (interruptedText codec).utf8ByteSize ≤ lifecycleMetadataReserveBytes)
    (crashed : List Opening) (o : Opening) :
    let r := normalizeStartup codec live o (reopened codec live s₀ crashed)
    let s := r.2.current
    let terminal : ℤ :=
      min (((s₀.store.db.runs.map fun r => (s₀.times r.id).updatedAtMs).max?).getD 0+1) i64Max
    (o.Steady → r.1 = .ok ()) ∧
    r.2.attempts ≤ 8*(abandoned live s₀.store.db).length+1 ∧
    (∀ batch len w, 0 < len →
      Reduced codec o batch len w (commitStartupWithReduction codec o batch len w)) ∧
    (r.1 = .ok () →
      s.store.db.runs = s₀.store.db.runs.map (fun r =>
        if r.stateKind = .running ∧ r.id ∉ live then interrupt codec r else r) ∧
      (∀ r ∈ s₀.store.db.runs, s.times r.id =
        if r.stateKind = .running ∧ r.id ∉ live then
          { s₀.times r.id with terminalAtMs := some terminal } else s₀.times r.id) ∧
      s.store.db.chunks = s₀.store.db.chunks ∧
      s.store.db.nextOrdinal = s₀.store.db.nextOrdinal ∧
      s.store.db.replayFile = s₀.store.db.replayFile ∧ s.store.files = s₀.store.files ∧
      s.runtimeId = s₀.runtimeId ∧ s.currentEpoch = o.epoch ∧
      validateApplicationState codec s.store s.store.db.replayFile = .ok () ∧
      (∀ limits : AdmissionLimits, s₀.store.db.runs.length ≤ limits.runRecords →
        (s₀.store.db.runs.map (·.metadataBytes)).sum ≤ limits.metadataBytes →
        validateOperationalState limits live s₀.runtimeId o.epoch s = .ok ()) ∧
      ∀ (streams : RunId → ℕ → Byte) (resources : ResourceLimits),
        Faithful streams s₀.store.db s₀.store.files →
        ∃ recovered, loadRecoveredBounded codec s resources = .ok recovered ∧
          (recovered.map (·.id)).Perm (s₀.store.db.runs.map (·.id)) ∧
          (recovered.map fun run => recoveryKey s.times run.id).Pairwise (· ≤ ·) ∧
          (recovered.map (·.hot)).sum ≤ resources.hotOutputBytes ∧
          ∀ older run newer, recovered = older ++ run::newer →
            ∃ row ∈ s.store.db.runs, Recovered codec streams row
              (min (min (resources.hotOutputBytes-(newer.map (·.hot)).sum)
                resources.runOutputBytes) (retained row)) run) := by
  intro r s terminal
  obtain ⟨⟨ids,hids,hbegun⟩,hkept⟩ := reopened_spec live hvalid crashed
  obtain ⟨⟨-,hwf⟩,hattempts,hdone,hsteady⟩ := normalizeStartup_spec live o hkept
  refine ⟨hsteady,?_,fun batch len w hlen => commitStartupWithReduction_reduced codec o w batch hlen,
    fun hok => ?_⟩
  · refine hattempts.trans (Nat.add_le_add_right (Nat.mul_le_mul_left 8 ?_) 1)
    rw [hbegun.abandoned_eq]
    exact List.length_filter_le _ _
  · obtain ⟨hfinished,hepoch⟩ := hdone hok
    have hnormalized := hbegun.normalized hids hfinished
    refine ⟨hnormalized.runs hvalid,fun r hr => hnormalized.times hvalid hr,
      Interrupted.chunks hnormalized,Interrupted.nextOrdinal hnormalized,
      Interrupted.replayFile hnormalized,Interrupted.files hnormalized,
      Interrupted.runtime hnormalized,hepoch,validateApplicationState_ok hwf,
      fun limits hrecords hmetadata => hnormalized.validateOperationalState_ok hvalid htext hnodup
        hlive hrecords hmetadata hepoch,fun streams resources hf => ?_⟩
    obtain ⟨recovered,hload,hall,hsorted,hhot,hshare⟩ :=
      loadRecoveredBounded_ok hwf (hnormalized.faithful hf) resources
    refine ⟨recovered,hload,?_,hsorted,hhot,hshare⟩
    have hsame : s.store.db.runs.map (·.id) = s₀.store.db.runs.map (·.id) := by
      rw [Interrupted.runs hnormalized,List.map_map]
      simp [Function.comp_def,interrupt_ite_id]
    rwa [hsame] at hall

/-- A store with one Run that is running under a daemon that is gone. -/
def abandonedStartup : StartupStore where
  store := Machine.run (storeStep sampleCodec) (createdStore "a.bin") [sampleStart]
  times := fun _ => ⟨5,7,none⟩
  runtimeId := "5e0c1a52-3f3e-4d9e-9d66-1f6f1c1b2a10"
  currentEpoch := "5e0c1a52-3f3e-4d9e-9d66-1f6f1c1b2a10"

/-- A daemon that dies after its first commit, before it publishes its epoch. -/
def dyingOpening : Opening where
  epoch := "5e0c1a52-3f3e-4d9e-9d66-1f6f1c1b2a11"
  walCheckpointBytes := 4096
  verdict := fun _ _ => .failsAfter (.mutation "killed")

def lastOpening : Opening where
  epoch := "5e0c1a52-3f3e-4d9e-9d66-1f6f1c1b2a12"
  walCheckpointBytes := 4096
  verdict := fun _ _ => .fits

theorem startup_normalized_after_death :
    let r := normalizeStartup sampleCodec [] lastOpening
      (reopened sampleCodec [] abandonedStartup [dyingOpening])
    r.1 = .ok () ∧ r.2.current.currentEpoch = lastOpening.epoch ∧
      ∀ row ∈ abandonedStartup.store.db.runs, row.stateKind = .running →
        (r.2.current.times row.id).terminalAtMs = some 8 := by
  have h := startup_normalized sampleCodec [] abandonedStartup (wellFormed_run (by decide) _)
    List.nodup_nil (by simp) (by decide) [dyingOpening] lastOpening
  intro r
  have hok : r.1 = .ok () := h.1 fun _ _ => .inl rfl
  obtain ⟨-,htimes,-,-,-,-,-,hepoch,-⟩ := h.2.2.2 hok
  refine ⟨hok,hepoch,fun row hrow hkind => ?_⟩
  have hlatest : (abandonedStartup.store.db.runs.map fun r =>
      (abandonedStartup.times r.id).updatedAtMs).max? = some 7 := by
    decide
  rw [htimes row hrow,if_pos ⟨hkind,List.not_mem_nil⟩,hlatest]
  rfl

end Startup
end Durable
end Ctxmux
