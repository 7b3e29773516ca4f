import Ctxmux.Machine
import Ctxmux.RunRegistry

/-!
# The registry and its owners

The callers of the registry hold what its operations hand out: reservations that are
published, dropped or left unresolved, fences of durable removals, and Stop settlements
that pin their Run. The events follow the callers' discipline: a creation key is
reserved only while its stripe is held and it is neither bound nor reserved, a new Run
has a fresh id, and an owner uses only what it holds.
-/

namespace Ctxmux
namespace Registry

open Durable (RunId)

structure System where
  registry : RegistryState
  reservations : List PublicationTicket
  unresolved : List PublicationTicket
  removals : List RunId
  settlements : List StopSettlement
  nextCell : ℕ
  results : AList fun _ : ℕ => StopResult

/-- Every outstanding Stop settlement owns its Run. -/
def System.pinned (s : System) (view : View) : View := fun id =>
  { view id with owners := (view id).owners+s.settlements.countP fun st => st.id = id }

/-- A fresh id and an unbound key, as the creation stripe promises. -/
def System.MayReserve (s : System) (newRunId : RunId) (operationKey : Option CreateOperationKey) :
    Prop :=
  s.registry.runs.lookup newRunId = none ∧
    (∀ r ∈ s.registry.reservations.entries, r.2.newRunId ≠ newRunId) ∧
    ∀ key ∈ operationKey, s.registry.creationRuns.lookup key = none ∧
      ∀ r ∈ s.registry.reservations.entries, r.2.operationKey ≠ some key

instance (s : System) (newRunId : RunId) (operationKey : Option CreateOperationKey) :
    Decidable (s.MayReserve newRunId operationKey) :=
  inferInstanceAs (Decidable (_ ∧ _ ∧ ∀ key ∈ operationKey, _ ∧ _))

inductive Event where
  | reserve (view : View) (conditions : ReserveConditions) (newRunId : RunId)
      (operationKey : Option CreateOperationKey) (newMetadataBytes : ℕ)
  | publishCreation (ticket : PublicationTicket) (charge : ℕ)
  | publishUnkeyed (ticket : PublicationTicket) (charge : ℕ)
  | dropReservation (ticket : PublicationTicket)
  | intoUnresolved (ticket : PublicationTicket)
  | persistentCandidates (ticket : PublicationTicket) (load : RunId → ℕ)
  | beginStop (view : View) (conditions : StopConditions) (id : RunId) (key : StopOperationKey)
  | settleStop (settlement : StopSettlement) (result : StopResult)
  | removeMemory (view : View) (id : RunId)
  | beginRemoval (view : View) (load : RunId → ℕ) (id : RunId)
  | commitRemoval (id : RunId)
  | dropRemoval (id : RunId)

namespace System

/-- The registry after an operation that its caller does not expect to fail. -/
def attempt (s : System) (result : Except String RegistryState)
    (next : RegistryState → System) : System × Option String :=
  match result with
  | .ok registry => (next registry,none)
  | .error message => (s,some message)

/-- The message of a panic, if the operation panicked. -/
def panicOf {α : Type} : Outcome α → Option String
  | .panicked message => some message
  | _ => none

/-- The Stop settlement that an owner admission hands out. -/
def admitted (id : RunId) (key : StopOperationKey) : Outcome StopAdmission → List StopSettlement
  | .done (.owner cell) => [⟨id,key,cell⟩]
  | _ => []

/-- The system after an event, and the message if the operation panicked. -/
def act (s : System) : Event → System × Option String
  | .reserve view conditions newRunId operationKey newMetadataBytes =>
    if s.MayReserve newRunId operationKey then
      let (registry,outcome) := reservePublication s.registry (s.pinned view) conditions newRunId
        operationKey (some newMetadataBytes)
      match outcome with
      | .done ticket =>
        ({ s with registry := registry, reservations := ticket::s.reservations },none)
      | outcome => ({ s with registry := registry },panicOf outcome)
    else (s,none)
  | .publishCreation ticket charge =>
    match s.registry.reservations.lookup ticket with
    | some ⟨newRunId,some key,_,_⟩ =>
      if ticket ∈ s.reservations then
        s.attempt (publishCreation s.registry ticket newRunId key charge) fun registry =>
          { s with registry := registry, reservations := s.reservations.erase ticket }
      else (s,none)
    | _ => (s,none)
  | .publishUnkeyed ticket charge =>
    match s.registry.reservations.lookup ticket with
    | some ⟨newRunId,none,_,_⟩ =>
      if ticket ∈ s.reservations then
        s.attempt (publishUnkeyed s.registry ticket newRunId charge) fun registry =>
          { s with registry := registry, reservations := s.reservations.erase ticket }
      else (s,none)
    | _ => (s,none)
  | .dropReservation ticket =>
    if ticket ∈ s.reservations then
      s.attempt (restoreReservation s.registry ticket) fun registry =>
        { s with registry := registry, reservations := s.reservations.erase ticket }
    else (s,none)
  | .intoUnresolved ticket =>
    if ticket ∈ s.reservations then
      ({ s with
        reservations := s.reservations.erase ticket
        unresolved := ticket::s.unresolved },none)
    else (s,none)
  | .persistentCandidates ticket load =>
    if ticket ∈ s.reservations then
      match persistentCandidates s.registry load ticket with
      | .ok _ => (s,none)
      | .error message => (s,some message)
    else (s,none)
  | .beginStop view conditions id key =>
    let (registry,outcome) :=
      beginRecoverableStop s.registry (s.pinned view) conditions id key s.nextCell
    ({ s with
      registry := registry
      settlements := admitted id key outcome ++ s.settlements
      nextCell := s.nextCell+1 },panicOf outcome)
  | .settleStop settlement result =>
    if settlement ∈ s.settlements then
      if s.results.lookup settlement.cell = none then
        s.attempt (settleRecoverableStop s.registry settlement result) fun registry =>
          { s with
            registry := registry
            settlements := s.settlements.erase settlement
            results := s.results.insert settlement.cell result }
      else (s,some "one Stop operation settles once")
    else (s,none)
  | .removeMemory view id =>
    let (registry,outcome) := removeMemory s.registry (s.pinned view) id
    ({ s with registry := registry },panicOf outcome)
  | .beginRemoval view load id =>
    let (registry,outcome) := beginPersistentRemoval s.registry (s.pinned view) load id
    match outcome with
    | .done _ => ({ s with registry := registry, removals := id::s.removals },none)
    | outcome => ({ s with registry := registry },panicOf outcome)
  | .commitRemoval id =>
    if id ∈ s.removals then
      s.attempt (commitRemoval s.registry id) fun registry =>
        { s with registry := registry, removals := s.removals.erase id }
    else (s,none)
  | .dropRemoval id =>
    if id ∈ s.removals then
      s.attempt (dropRemoval s.registry id) fun registry =>
        { s with registry := registry, removals := s.removals.erase id }
    else (s,none)

def step (s : System) (e : Event) : System := (s.act e).1

/-- The message with which the event would panic. -/
def panics (s : System) (e : Event) : Option String := (s.act e).2

end System

/-- The limits of a registry. -/
structure Limits where
  recordCapacity : ℕ
  liveCapacity : ℕ
  metadataCapacity : ℕ
  controlLimit : ℕ

/-- One Run of a recovered registry: its creation key, its charge and the Stop that a
handoff carried over, with its settled result. -/
structure RecoveredRun where
  id : RunId
  key : CreateOperationKey
  charge : ℕ
  stop : Option (StopOperationKey × ℕ × StopResult)

/-- The saved rows and a handoff name every Run, every creation key and every Stop key
once, and a carried Stop has a valid key and is settled as applied or unknown. -/
structure RecoveredRuns where
  runs : List RecoveredRun
  ids : (runs.map (·.id)).Nodup
  keys : (runs.map (·.key)).Nodup
  stops : (runs.filterMap fun r => r.stop.map (·.1)).Nodup
  settled : ∀ r ∈ runs, ∀ stop ∈ r.stop, stopKeyError stop.1 = none ∧ stop.2.2.removes = false

/-- Insert one recovered Run; the cells of carried Stops are named in their order. -/
def recoverRun (s : System) (r : RecoveredRun) : System :=
  match r.stop with
  | none => { s with
      registry := { s.registry with
        runs := s.registry.runs.insert r.id ⟨some r.key,none,true,r.charge,.retained⟩
        creationRuns := s.registry.creationRuns.insert r.key r.id
        retainedMetadataBytes := s.registry.retainedMetadataBytes+r.charge } }
  | some (key,memory,result) => { s with
      registry := { s.registry with
        runs := s.registry.runs.insert r.id
          ⟨some r.key,some ⟨key,s.nextCell,memory⟩,true,r.charge,.retained⟩
        creationRuns := s.registry.creationRuns.insert r.key r.id
        stopRuns := s.registry.stopRuns.insert key r.id
        retainedMetadataBytes := s.registry.retainedMetadataBytes+r.charge
        stopBytes := s.registry.stopBytes+memory }
      results := s.results.insert s.nextCell result
      nextCell := s.nextCell+1 }

def System.empty (limits : Limits) : System where
  registry := ⟨∅,∅,∅,∅,0,limits.recordCapacity,limits.liveCapacity,limits.metadataCapacity,0,
    limits.controlLimit,0⟩
  reservations := []
  unresolved := []
  removals := []
  settlements := []
  nextCell := 0
  results := ∅

/-- An empty registry is the one recovered from no rows. -/
def System.recovered (limits : Limits) (runs : RecoveredRuns) : System :=
  runs.runs.foldl recoverRun (System.empty limits)

end Registry
end Ctxmux
