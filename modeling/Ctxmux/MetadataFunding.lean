import Ctxmux.MetadataBudget

/-!
# What a creation reserves and what it is charged

The amount of a reservation is computed from a clone of the specification that the Run
will own; the charge of a persistent Run is computed again from the live Run and its
durable row. The capacity of a clone depends only on what it holds.
-/

namespace Ctxmux
namespace Registry

open Durable (RunId)
open MapTotals

def i64Max : ℕ := 2^63-1

/-- A heap string with its capacity. -/
structure Text where
  value : String
  capacity : ℕ
deriving DecidableEq,Repr

structure RunSpec where
  program : Text
  args : List Text
  argsCapacity : ℕ
  cwd : Option Text
  env : List (Text × Text)
  declaredInputs : List Text
  declaredInputsCapacity : ℕ
deriving DecidableEq,Repr

/-- What the host decides: the capacities of fresh allocations and the sizes of types. -/
structure Host where
  bytesCapacity : ℕ → ℕ
  slotsCapacity : ℕ → ℕ
  stringBytes : ℕ
  inputReferenceBytes : ℕ
  wordBytes : ℕ
  runBytes : ℕ
  residentRunOwnerBytes : ℕ

/-- Nodes of the environment map are charged at their minimum occupancy. -/
def residentSpecBytes (host : Host) (spec : RunSpec) : ℕ :=
  let strings := spec.program.capacity+spec.cwd.elim 0 (·.capacity)+
    (spec.args.map (·.capacity)).sum+(spec.env.map fun e => e.1.capacity+e.2.capacity).sum+
    (spec.declaredInputs.map (·.capacity)).sum
  let vectors := spec.argsCapacity*host.stringBytes+
    spec.declaredInputsCapacity*host.inputReferenceBytes
  let mapNodes := (spec.env.length+4)/5*(11*(2*host.stringBytes)+14*host.wordBytes)
  strings+vectors+mapNodes

def Text.clone (host : Host) (text : Text) : Text :=
  ⟨text.value,host.bytesCapacity text.value.utf8ByteSize⟩

def RunSpec.clone (host : Host) (spec : RunSpec) : RunSpec where
  program := spec.program.clone host
  args := spec.args.map (·.clone host)
  argsCapacity := host.slotsCapacity spec.args.length
  cwd := spec.cwd.map (·.clone host)
  env := spec.env.map fun e => (e.1.clone host,e.2.clone host)
  declaredInputs := spec.declaredInputs.map (·.clone host)
  declaredInputsCapacity := host.slotsCapacity spec.declaredInputs.length

/-- The lengths of the texts of a durable row. -/
structure RowSizes where
  id : ℕ
  creationKey : ℕ
  spec : ℕ
  lineage : Option ℕ
  state : ℕ
  epoch : ℕ
deriving DecidableEq,Repr

def lifecycleMetadataReserveBytes : ℕ := 128

/-- The longest lifecycle state is reserved from the start. -/
def RowSizes.metadataSize (row : RowSizes) : ℕ :=
  row.id+row.creationKey+row.spec+row.lineage.getD 0+max row.state lifecycleMetadataReserveBytes+
    row.epoch

def registryMetadataBytes (host : Host) (spec : RunSpec) (infoBytes keyBytes : ℕ) : ℕ :=
  residentSpecBytes host spec+(infoBytes+keyBytes+host.residentRunOwnerBytes+128)

/-- A creation as the registry accounts for it; `requested` is the specification of the
request or of the parent Run. -/
inductive Funding where
  | memory (requested : RunSpec) (infoBytes keyBytes : ℕ)
  | persistent (requested : RunSpec) (row : RowSizes)
  | tmuxImport (socketPathBytes paneIdBytes : ℕ)
deriving DecidableEq,Repr

/-- `materialize_creation`: the Run owns a clone of what was requested. -/
def materialized (host : Host) (requested : RunSpec) : RunSpec := requested.clone host

/-- `persistence_start_info` clones the specification once more. -/
def prospective (host : Host) (requested : RunSpec) : RunSpec :=
  (materialized host requested).clone host

namespace Funding

def reserved (host : Host) : Funding → ℕ
  | .memory requested infoBytes keyBytes =>
    registryMetadataBytes host (prospective host requested) infoBytes keyBytes
  | .persistent requested row =>
    saturatingAdd (saturatingAdd row.metadataSize (residentSpecBytes host (prospective host requested)))
      host.residentRunOwnerBytes
  | .tmuxImport socketPathBytes paneIdBytes => host.runBytes+socketPathBytes+paneIdBytes

/-- A persistent Run is charged for its durable row, its owners and its own specification;
any other entry for what its reservation holds. -/
def charge (host : Host) : Funding → ℕ
  | .persistent requested row =>
    row.metadataSize+host.residentRunOwnerBytes+
      residentSpecBytes host (materialized host requested)
  | funding => funding.reserved host

def keyed : Funding → Bool
  | .tmuxImport _ _ => false
  | .memory _ _ _ | .persistent _ _ => true

end Funding

theorem RunSpec.clone_clone (host : Host) (spec : RunSpec) :
    (spec.clone host).clone host = spec.clone host := by
  simp only [RunSpec.clone,List.map_map,List.length_map,Option.map_map]
  rfl

/-- A persistent Run is charged what its reservation has funded, unless that amount is
saturated. -/
theorem Funding.charge_eq {host : Host} {funding : Funding}
    (h : funding.reserved host < u64Max) : funding.charge host = funding.reserved host := by
  cases funding with
  | memory requested infoBytes keyBytes => rfl
  | tmuxImport socketPathBytes paneIdBytes => rfl
  | persistent requested row =>
    simp only [Funding.charge,Funding.reserved,prospective,materialized,RunSpec.clone_clone,
      saturatingAdd,u64Max] at h ⊢
    omega

section Selection

variable {s s' : RegistryState} {view : View}

theorem takeCandidates_funded (needsRecord : Bool) (toFund : ℕ) (charge : RunId → ℕ)
    (ids taken : List RunId) {funded : ℕ} (h : funded ≤ (taken.map charge).sum) :
    (takeCandidates needsRecord toFund charge ids taken funded).2 ≤
      ((takeCandidates needsRecord toFund charge ids taken funded).1.map charge).sum := by
  induction ids generalizing taken funded with
  | nil => exact h
  | cons id ids ih =>
    rw [takeCandidates]
    split
    · exact h
    · apply ih
      simp only [List.map_append,List.map_cons,List.map_nil,List.sum_append,List.sum_cons,
        List.sum_nil,saturatingAdd]
      omega

theorem funded_of_result {newMetadataBytes : Option ℕ} {candidates : List RunId}
    (h : (s.selectPublicationCandidates view newMetadataBytes).result = .ok candidates) :
    s.metadataToFund newMetadataBytes ≤ (candidates.map s.metadataCharge).sum := by
  rw [selectPublicationCandidates_result] at h
  simp only [RegistryState.scanCandidates] at h
  split at h
  · cases h
  · rename_i hfunded
    split at h
    · cases h
    · have hle := takeCandidates_funded s.needsRecord (s.metadataToFund newMetadataBytes)
        s.metadataCharge (s.orderedCandidates view newMetadataBytes) [] (Nat.zero_le _)
      rw [Except.ok.inj h] at hle
      rw [not_or] at hfunded
      exact (not_lt.mp hfunded.2).trans hle

theorem sum_filterMap_eq {α : Type} (f : α → Option ℕ) (xs : List α) :
    (xs.filterMap f).sum = (xs.map fun x => (f x).elim 0 id).sum := by
  induction xs with
  | nil => rfl
  | cons x xs ih =>
    cases hx : f x with
    | none => simp [hx,ih]
    | some n => simp [hx,ih]

theorem projectedMetadataBytes_eq (s : RegistryState) :
    s.projectedMetadataBytes =
      saturatingAdd s.retainedMetadataBytes s.outstandingMetadataBytes := by
  simp only [RegistryState.projectedMetadataBytes,RegistryState.outstandingMetadataBytes,
    MapTotals.total,sum_filterMap_eq]
  congr 3
  funext entry
  cases hnew : entry.2.newMetadataBytes with
  | none => simp [RegistryState.addedBy,hnew]
  | some new => simp [RegistryState.addedBy,hnew]

theorem Metered.candidates_le (h : Metered s) {ids : List RunId} (hids : ids.Nodup) :
    (ids.map s.metadataCharge).sum ≤ s.retainedMetadataBytes := by
  rw [h.charged]
  exact sum_measureAt_le (fun entry : RegistryEntry => entry.metadataCharge) hids

/-- A funded reservation fits beside all the others; a saturated amount is not funded. -/
theorem Metered.fits (h : Metered s) (hcapacity : s.metadataCapacity ≤ i64Max) {new : ℕ}
    {r : RegistryReservation} (hr : r.newMetadataBytes = some new) (hids : r.candidates.Nodup)
    (hfunded : s.metadataToFund (some new) ≤ (r.candidates.map s.metadataCharge).sum) :
    s.retainedMetadataBytes+s.outstandingMetadataBytes+s.addedBy r ≤ s.metadataCapacity := by
  have hwithin := h.funded
  have hle := h.candidates_le hids
  simp only [RegistryState.metadataToFund,Option.elim_some,projectedMetadataBytes_eq,
    saturatingAdd,u64Max] at hfunded
  simp only [RegistryState.addedBy,hr,Option.elim_some]
  simp only [i64Max] at hcapacity
  omega

/-- Moving residencies leaves the scalars of the account. -/
theorem foldlM_moveResidency_scalars {missing wrong : String} {old new : RegistryResidency}
    {ids : List RunId} (h : ids.foldlM (moveResidency missing wrong old new) s = .ok s') :
    s'.retainedMetadataBytes = s.retainedMetadataBytes ∧
      s'.metadataCapacity = s.metadataCapacity := by
  induction ids generalizing s with
  | nil =>
    cases h
    exact ⟨rfl,rfl⟩
  | cons id ids ih =>
    rw [List.foldlM_cons] at h
    cases hmove : moveResidency missing wrong old new s id with
    | error message =>
      rw [hmove] at h
      cases h
    | ok t =>
      rw [ok_then hmove] at h
      have hmoved : t.retainedMetadataBytes = s.retainedMetadataBytes ∧
          t.metadataCapacity = s.metadataCapacity := by
        unfold moveResidency at hmove
        cases hentry : s.runs.lookup id with
        | none =>
          simp only [hentry] at hmove
          cases hmove
        | some entry =>
          simp only [hentry] at hmove
          by_cases hold : entry.residency = old
          · rw [ok_then (panicUnless_of hold _)] at hmove
            cases hmove
            exact ⟨rfl,rfl⟩
          · simp only [panicUnless,if_neg hold] at hmove
            cases hmove
      obtain ⟨hretained,hcapacity⟩ := ih h
      exact ⟨hretained.trans hmoved.1,hcapacity.trans hmoved.2⟩

theorem restoreReservation_scalars {ticket : PublicationTicket}
    (h : restoreReservation s ticket = .ok s') :
    s'.retainedMetadataBytes = s.retainedMetadataBytes ∧
      s'.metadataCapacity = s.metadataCapacity := by
  unfold restoreReservation at h
  cases hr : s.reservations.lookup ticket with
  | none =>
    simp only [hr] at h
    cases h
  | some r =>
    simp only [hr] at h
    obtain ⟨hretained,hcapacity⟩ := foldlM_moveResidency_scalars h
    exact ⟨hretained,hcapacity⟩

end Selection
end Registry
end Ctxmux
