import Ctxmux.DurableTables
import Ctxmux.Machine

/-!
# Overlap slots of unpublished Runs

A creation takes one slot before anything starts. The slot moves from a reservation to
a pending publication and from there back to a reservation, when the Run is published,
or to the cleanup owners of its key, which hold it until the Run is proven cleaned up.
Imports take slots of the same budget without a key. A failed `expect` is a panic with
its message.
-/

namespace Ctxmux
namespace Overlap

open Durable (RunId)

abbrev CreateOperationKey := String

variable {ρ : Type} [DecidableEq ρ]

inductive ErrorCode where
  | backendUnavailable | creationConflict
deriving DecidableEq,Repr

structure ProtocolError where
  code : ErrorCode
  message : String
deriving DecidableEq,Repr

structure CleanupEntry where
  run : RunId
  transferReason : String
deriving DecidableEq,Repr

/-- The unpublished Runs of one key, under the request that fenced it. -/
structure PendingCleanupOwners (ρ : Type) where
  key : CreateOperationKey
  request : ρ
  owners : List CleanupEntry
deriving DecidableEq,Repr

structure CleanupState (ρ : Type) where
  maxOwned : ℕ
  owned : ℕ
  entries : List (PendingCleanupOwners ρ)
  tmuxEntries : List CleanupEntry
deriving DecidableEq,Repr

/-- What the cleanup of a Run has proved so far. -/
structure CleanupView where
  native : RunId → Except String Unit
  tmux : RunId → Except String Unit

def proven (result : Except String Unit) : Bool := result matches .ok _

def reapable (view : RunId → Except String Unit) (entries : List CleanupEntry) : List CleanupEntry :=
  entries.filter fun entry => proven (view entry.run)

def unreaped (view : RunId → Except String Unit) (entries : List CleanupEntry) : List CleanupEntry :=
  entries.filter fun entry => !proven (view entry.run)

/-- A slot is given back. -/
def releaseSlots (count : ℕ) (message : String) (state : CleanupState ρ) :
    Except String (CleanupState ρ) :=
  if count ≤ state.owned then .ok { state with owned := state.owned-count } else .error message

namespace CleanupState

variable (state : CleanupState ρ)

def fence (key : CreateOperationKey) : Option (PendingCleanupOwners ρ) :=
  state.entries.find? (·.key = key)

/-- The native owners that a prune takes out. -/
def reaped (view : CleanupView) : List CleanupEntry :=
  state.entries.flatMap fun fence => reapable view.native fence.owners

/-- The fences that a prune leaves, each with its other owners. -/
def retained (view : CleanupView) : List (PendingCleanupOwners ρ) :=
  (state.entries.map fun fence => { fence with owners := unreaped view.native fence.owners }).filter
    (·.owners ≠ [])

/-- `prune_reaped`. -/
def pruneReaped (view : CleanupView) : Except String (CleanupState ρ) :=
  releaseSlots ((state.reaped view).length+(reapable view.tmux state.tmuxEntries).length)
    "proven cleanups release only owned slots"
    { state with
      entries := state.retained view
      tmuxEntries := unreaped view.tmux state.tmuxEntries }

/-- The message of an owner that is still pending. -/
def reportOf (what between : String) (view : RunId → Except String Unit) (entry : CleanupEntry) :
    Option String :=
  match view entry.run with
  | .ok _ => none
  | .error current => some s!"{what} {entry.run} {between}: {entry.transferReason}; {current}"

def pruneAndReport (view : CleanupView) : Except String (CleanupState ρ × List String) := do
  let pruned ← state.pruneReaped view
  .ok (pruned,((state.entries.flatMap fun fence =>
      fence.owners.filterMap (reportOf "unpublished Run" "exact-key fence" view.native)) ++
    state.tmuxEntries.filterMap (reportOf "unpublished tmux Run" "cleanup" view.tmux)).insertionSort
      (· ≤ ·))

def resolveFence (view : CleanupView) (key : CreateOperationKey) (request : ρ) :
    Except String (CleanupState ρ × Except ProtocolError Unit) := do
  let state ← state.pruneReaped view
  .ok (state,match state.fence key with
    | none => .ok ()
    | some fence =>
      if fence.request = request then .error ⟨.backendUnavailable,
        "Run creation is fenced while unpublished native owners remain active"⟩
      else .error ⟨.creationConflict,
        "Run creation operation key is fenced for a different request"⟩)

/-- `reserve` and `reserve_tmux` take a slot of the same budget. -/
def reserve (view : CleanupView) :
    Except String (CleanupState ρ × Except ProtocolError Unit) := do
  let state ← state.pruneReaped view
  if state.maxOwned ≤ state.owned then
    .ok (state,.error ⟨.backendUnavailable,"Run publication cleanup capacity is exhausted"⟩)
  else .ok ({ state with owned := state.owned+1 },.ok ())

/-- Both owners are kept if a key is fenced twice. -/
def transfer (key : CreateOperationKey) (request : ρ) (owner : CleanupEntry) : CleanupState ρ :=
  match state.fence key with
  | none => { state with entries := state.entries ++ [⟨key,request,[owner]⟩] }
  | some _ => { state with entries := state.entries.map fun fence =>
      if fence.key = key then { fence with owners := fence.owners ++ [owner] } else fence }

def transferTmux (owner : CleanupEntry) : CleanupState ρ :=
  { state with tmuxEntries := state.tmuxEntries ++ [owner] }

def dropReservation : Except String (CleanupState ρ) :=
  releaseSlots 1 "cleanup reservation releases exactly one owner slot" state

def dropTmuxReservation : Except String (CleanupState ρ) :=
  releaseSlots 1 "tmux cleanup reservation releases exactly one owner slot" state

end CleanupState

/-- A started Run that is not published. -/
structure PendingPublication (ρ : Type) where
  key : CreateOperationKey
  request : ρ
  run : RunId
deriving DecidableEq,Repr

/-- The slots and who holds them. The last three fields are history, kept apart from the
cleanup state: the native Runs that were ever armed, those that were published or that a
view proved cleaned up, and the publications that were transferred since their key was
last open. -/
structure Creations (ρ : Type) where
  cleanups : CleanupState ρ
  reservations : List CreateOperationKey
  pendings : List (PendingPublication ρ)
  tmuxReservations : ℕ
  tmuxPendings : List RunId
  started : List (PendingPublication ρ)
  settled : List RunId
  fencedBy : List (PendingPublication ρ)

inductive CreationEvent (ρ : Type) where
  | resolveFence (view : CleanupView) (key : CreateOperationKey) (request : ρ)
  | reserve (view : CleanupView) (key : CreateOperationKey)
  | dropReservation (key : CreateOperationKey)
  | arm (key : CreateOperationKey) (request : ρ) (run : RunId)
  | publish (pending : PendingPublication ρ)
  | cleanupUnpublished (pending : PendingPublication ρ) (result : Except String Unit)
  | unwind (pending : PendingPublication ρ) (cleanupRequest : Except String Unit)
  | reserveTmux (view : CleanupView)
  | dropTmuxReservation
  | armTmux (run : RunId)
  | publishTmux (run : RunId)
  | transferTmux (run : RunId) (reason : String)
  | pruneAndReport (view : CleanupView)

/-- The reason under which an unwound creation is transferred. -/
def unwindReason : Except String Unit → String
  | .ok _ => "creation owner unwound after requesting unpublished child cleanup"
  | .error error => s!"creation owner unwound; cleanup request failed: {error}"

namespace Creations

def new (maxOwned : ℕ) : Creations ρ where
  cleanups := ⟨maxOwned,0,[],[]⟩
  reservations := []
  pendings := []
  tmuxReservations := 0
  tmuxPendings := []
  started := []
  settled := []
  fencedBy := []

/-- The state after an operation that its caller does not expect to fail. -/
def attempt {α : Type} (s : Creations ρ) (result : Except String α) (next : α → Creations ρ) :
    Creations ρ × Option String :=
  match result with
  | .ok value => (next value,none)
  | .error message => (s,some message)

/-- The pending publication hands its slot and its Run to the cleanup owners. -/
def transferred (s : Creations ρ) (pending : PendingPublication ρ) (reason : String) :
    Creations ρ :=
  { s with
    cleanups := s.cleanups.transfer pending.key pending.request ⟨pending.run,reason⟩
    pendings := s.pendings.erase pending
    fencedBy := s.fencedBy ++ [pending] }

/-- The Runs that have left their creation and that the view proves cleaned up. -/
def settledBy (s : Creations ρ) (view : CleanupView) : List RunId :=
  (s.started.filter fun pending =>
    pending ∉ s.pendings && proven (view.native pending.run)).map (·.run)

/-- A prune settles what the view proves, and a key is open again when all its transferred
Runs are settled. -/
def pruned (s : Creations ρ) (view : CleanupView) (cleanups : CleanupState ρ) : Creations ρ :=
  { s with
    cleanups := cleanups
    settled := s.settledBy view ++ s.settled
    fencedBy := s.fencedBy.filter fun pending => s.fencedBy.any fun other =>
      other.key = pending.key && other.run ∉ s.settledBy view ++ s.settled }

/-- A slot was taken, if the answer says so. -/
def granted (s : Creations ρ) (answer : Except ProtocolError Unit)
    (grant : Creations ρ → Creations ρ) : Creations ρ :=
  match answer with
  | .ok _ => grant s
  | .error _ => s

/-- The state after an event, and the message if it panicked. An owner uses only what it
holds, and every native Run has a new id. -/
def act (s : Creations ρ) : CreationEvent ρ → Creations ρ × Option String
  | .resolveFence view key request =>
    s.attempt (s.cleanups.resolveFence view key request) fun out => s.pruned view out.1
  | .reserve view key =>
    s.attempt (s.cleanups.reserve view) fun out => (s.pruned view out.1).granted out.2 fun s =>
      { s with reservations := key::s.reservations }
  | .dropReservation key =>
    if key ∈ s.reservations then
      s.attempt s.cleanups.dropReservation fun cleanups =>
        { s with cleanups := cleanups, reservations := s.reservations.erase key }
    else (s,none)
  | .arm key request run =>
    if key ∈ s.reservations ∧ ∀ pending ∈ s.started, pending.run ≠ run then
      ({ s with
        reservations := s.reservations.erase key
        pendings := ⟨key,request,run⟩::s.pendings
        started := ⟨key,request,run⟩::s.started },none)
    else (s,none)
  | .publish pending =>
    if pending ∈ s.pendings then
      ({ s with
        reservations := pending.key::s.reservations
        pendings := s.pendings.erase pending
        settled := pending.run::s.settled },none)
    else (s,none)
  | .cleanupUnpublished pending result =>
    if pending ∈ s.pendings then
      match result with
      | .ok _ => s.attempt s.cleanups.dropReservation fun cleanups =>
          { s with
            cleanups := cleanups
            pendings := s.pendings.erase pending
            settled := pending.run::s.settled }
      | .error error => (s.transferred pending error,none)
    else (s,none)
  | .unwind pending cleanupRequest =>
    if pending ∈ s.pendings then (s.transferred pending (unwindReason cleanupRequest),none)
    else (s,none)
  | .reserveTmux view =>
    s.attempt (s.cleanups.reserve view) fun out => (s.pruned view out.1).granted out.2 fun s =>
      { s with tmuxReservations := s.tmuxReservations+1 }
  | .dropTmuxReservation =>
    if 0 < s.tmuxReservations then
      s.attempt s.cleanups.dropTmuxReservation fun cleanups =>
        { s with cleanups := cleanups, tmuxReservations := s.tmuxReservations-1 }
    else (s,none)
  | .armTmux run =>
    if 0 < s.tmuxReservations then
      ({ s with
        tmuxReservations := s.tmuxReservations-1
        tmuxPendings := run::s.tmuxPendings },none)
    else (s,none)
  | .publishTmux run =>
    if run ∈ s.tmuxPendings then
      ({ s with
        tmuxReservations := s.tmuxReservations+1
        tmuxPendings := s.tmuxPendings.erase run },none)
    else (s,none)
  | .transferTmux run reason =>
    if run ∈ s.tmuxPendings then
      ({ s with
        cleanups := s.cleanups.transferTmux ⟨run,reason⟩
        tmuxPendings := s.tmuxPendings.erase run },none)
    else (s,none)
  | .pruneAndReport view =>
    s.attempt (s.cleanups.pruneAndReport view) fun out => s.pruned view out.1

def step (s : Creations ρ) (e : CreationEvent ρ) : Creations ρ := (s.act e).1

def panics (s : Creations ρ) (e : CreationEvent ρ) : Option String := (s.act e).2

/-- The retained native cleanup owners over all keys. -/
def nativeOwners (s : Creations ρ) : List CleanupEntry := s.cleanups.entries.flatMap (·.owners)

end Creations
end Overlap
end Ctxmux
