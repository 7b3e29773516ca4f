import Ctxmux.CommandMultiplex

/-!
# The account of the commands on an attachment

Every command id that passed its check is answered, waits for admission or waits for its
result. The account is kept by each branch of the loop; a branch that sends a frame may
also lose the connection there.
-/

namespace Ctxmux
namespace Mux

open Attachment (RunEvent)
open Client (ControlOutcome ControlFailure)

def ServerFrame.answers : ServerFrame → Option CommandId
  | .commandResult commandId _ => some commandId
  | _ => none

/-- The command ids that have their result, in the order of the results. -/
def answered (sent : List ServerFrame) : List CommandId := sent.filterMap ServerFrame.answers

def ServerFrame.isTerminal : ServerFrame → Bool
  | .event shown => shown.isTerminal
  | _ => false

theorem answered_append (x y : List ServerFrame) : answered (x ++ y) = answered x ++ answered y :=
  List.filterMap_append

def resultIds (results : List PendingResult) : List CommandId := results.map (·.commandId)
def admissionIds (admissions : List PendingAdmission) : List CommandId :=
  admissions.map (·.commandId)

/-- No result says not-applied of a command that had an effect. -/
def Honest (sent : List ServerFrame) (applied : List CommandId) : Prop :=
  ∀ commandId failure, ServerFrame.commandResult commandId (.rejected failure) ∈ sent →
    failure.disposition = .notApplied → commandId ∉ applied

/-- A terminal event is the last frame, and comes after every result. -/
def Final (sent : List ServerFrame) (passed : List CommandId) : Prop :=
  ∀ before frame after, sent = before ++ frame::after → frame.isTerminal = true →
    after = [] ∧ ∀ commandId ∈ passed, commandId ∈ answered before

/-- What holds whether or not the connection still lives. -/
structure Facts (a : Connection) : Prop where
  once : (answered a.sent).Nodup
  known : ∀ commandId ∈ answered a.sent, commandId ∈ a.passed
  order : a.admitted.Pairwise (· < ·)
  effects : ∀ commandId ∈ a.applied, commandId ∈ a.admitted
  honest : Honest a.sent a.applied
  final : Final a.sent a.passed
  genuine : ∀ event, ServerFrame.event event ∈ a.sent → event.isTerminal = true →
    a.observed = some event
  sound : a.underflow = false

/-- The connection has ended: a terminal event that was seen is the last frame, unless the
client or the upgrade gate ended the connection. -/
structure Over (a : Connection) : Prop extends Facts a where
  ended : a.ended.isSome = true
  observed : ∀ event, a.observed = some event →
    (a.ended = some .terminal ∧ a.sent.getLast? = some (.event event)) ∨
      ∃ reason, a.ended = some reason ∧ reason.isExternal = true

/-- The account while `owed` are taken from their queue and not answered yet, and `due`
Stops are answered and not counted down yet. -/
structure Core (a : Connection) (owed : List CommandId) (due : ℕ) : Prop where
  alive : a.ended = none
  account : (answered a.sent ++ resultIds a.results ++ admissionIds a.admissions ++ owed).Perm
    a.passed
  increasing : a.passed.Pairwise (· < ·)
  fence : ∀ commandId ∈ a.passed, ∃ last, a.controls.lastCommandId = some last ∧ commandId ≤ last
  order : (a.admitted ++ admissionIds a.admissions).Pairwise (· < ·)
  entered : ∀ commandId ∈ a.admitted, commandId ∈ a.passed
  stops : a.controls.pendingStops =
    a.results.countP (·.isStop)+a.admissions.countP (·.isStop)+due
  silent : ∀ frame ∈ a.sent, frame.isTerminal = false
  held : ∀ event, a.controls.heldTerminal = some event →
    event.isTerminal = true ∧ a.observationClosed = false
  honest : Honest a.sent a.applied
  effects : ∀ commandId ∈ a.applied, commandId ∈ a.admitted
  admittedNodes : ∀ node ∈ a.results, node.commandId ∈ a.admitted
  appliedNodes : ∀ node ∈ a.results, node.commandId ∈ a.applied → node.applied = true
  ready : ∀ node ∈ a.results, ∀ result, node.source = .ready result → Truthful node.applied result
  sound : a.underflow = false

/-- The state between two branches: the terminal event that was seen is held and waits for
a command, and a failed view has no waiting admission. -/
structure Live (a : Connection) : Prop extends Core a [] 0 where
  observed : a.observed = a.controls.heldTerminal
  waiting : a.controls.heldTerminal.isSome = true → a.results ≠ [] ∨ a.admissions ≠ []
  closed : a.observationClosed = true → a.admissions = []

def Kept (a : Connection) : Prop := Live a ∨ Over a

/-- A branch ends in a kept state, or loses the connection. -/
def Turn.Kept : Turn → Prop
  | .ok a => Mux.Kept a
  | .error a => Over a

variable {a : Connection} {owed : List CommandId} {due : ℕ}

theorem Final.of_silent {sent : List ServerFrame} (h : ∀ frame ∈ sent, frame.isTerminal = false)
    (passed : List CommandId) : Final sent passed := by
  intro before frame after heq hterminal
  have hmem : frame ∈ sent := by simp [heq]
  rw [h frame hmem] at hterminal
  cases hterminal

namespace Core

theorem nodup (h : Core a owed due) :
    (answered a.sent ++ resultIds a.results ++ admissionIds a.admissions ++ owed).Nodup := by
  rw [h.account.nodup_iff]
  exact h.increasing.imp fun hlt => ne_of_lt hlt

theorem facts (h : Core a owed due) : Facts a where
  once := by
    have hnodup := h.nodup
    rw [List.append_assoc,List.append_assoc] at hnodup
    exact (List.nodup_append.mp hnodup).1
  known := by
    intro commandId hmem
    apply h.account.mem_iff.mp
    simp [hmem]
  order := (List.pairwise_append.mp h.order).1
  effects := h.effects
  honest := h.honest
  final := Final.of_silent h.silent a.passed
  genuine := by
    intro event hsent hterminal
    rw [show event.isTerminal = false from h.silent _ hsent] at hterminal
    cases hterminal
  sound := h.sound

end Core

theorem Facts.lost (h : Facts a) : Over (a.finish .disconnected) where
  toFacts := { h with }
  ended := rfl
  observed := fun _ _ => Or.inr ⟨_,rfl,rfl⟩

theorem Facts.external (h : Facts a) {reason : End} (hreason : reason.isExternal = true) :
    Over (a.finish reason) where
  toFacts := { h with }
  ended := rfl
  observed := fun _ _ => Or.inr ⟨_,rfl,hreason⟩

/-- Either the frame is sent, or the connection is lost before it. -/
theorem send_bind {a : Connection} {frame : ServerFrame} {k : Connection → Turn} (h : Facts a)
    (hk : ∀ room, Turn.Kept (k { a with room := room, sent := a.sent ++ [frame] })) :
    Turn.Kept (a.send frame >>= k) := by
  unfold Connection.send
  split
  · exact h.lost
  · exact hk _
  · next hroom =>
    have hsent := hk none
    rwa [← hroom] at hsent

namespace Core

/-- The frame answers a command that is owed its result. -/
theorem answer {commandId : CommandId} {result : ControlOutcome}
    (h : Core a (commandId::owed) due)
    (htruth : ∀ failure, result = .rejected failure → failure.disposition = .notApplied →
      commandId ∉ a.applied) (room : Option ℕ) :
    Core { a with room := room, sent := a.sent ++ [.commandResult commandId result] } owed due := by
  have hanswered : answered (a.sent ++ [.commandResult commandId result]) =
      answered a.sent ++ [commandId] := answered_append _ _
  refine { h with account := ?_, silent := ?_, honest := ?_ }
  · refine List.Perm.trans ?_ h.account
    dsimp only
    rw [hanswered,List.perm_iff_count]
    intro x
    simp only [List.count_append,List.count_cons,List.count_nil]
    omega
  · intro frame hframe
    rcases List.mem_append.mp hframe with hframe | hframe
    · exact h.silent frame hframe
    · rw [List.mem_singleton.mp hframe]
      rfl
  · intro other failure hmem hd
    rcases List.mem_append.mp hmem with hmem | hmem
    · exact h.honest other failure hmem hd
    · have heq := List.mem_singleton.mp hmem
      injection heq with hid hresult
      rw [hid]
      exact htruth failure hresult.symm hd

theorem plain {frame : ServerFrame} (h : Core a owed due) (hanswers : frame.answers = none)
    (hterminal : frame.isTerminal = false) (room : Option ℕ) :
    Core { a with room := room, sent := a.sent ++ [frame] } owed due := by
  have hanswered : answered (a.sent ++ [frame]) = answered a.sent := by
    have hnone : answered [frame] = [] := by
      unfold answered
      rw [List.filterMap_cons_none hanswers]
      rfl
    rw [answered_append,hnone,List.append_nil]
  refine { h with account := ?_, silent := ?_, honest := ?_ }
  · dsimp only
    rw [hanswered]
    exact h.account
  · intro other hother
    rcases List.mem_append.mp hother with hother | hother
    · exact h.silent other hother
    · rw [List.mem_singleton.mp hother]
      exact hterminal
  · intro other failure hmem hd
    rcases List.mem_append.mp hmem with hmem | hmem
    · exact h.honest other failure hmem hd
    · rw [← List.mem_singleton.mp hmem] at hanswers
      cases hanswers

theorem release (h : Core a owed (due+1)) : Core (a.releaseStop true) owed due := by
  have hstops := h.stops
  unfold Connection.releaseStop
  rw [if_pos rfl]
  split
  · next hzero => omega
  · next n hsucc =>
    refine { h with stops := ?_ }
    dsimp only
    omega

theorem release_if (isStop : Bool) (h : Core a owed (due+if isStop then 1 else 0)) :
    Core (a.releaseStop isStop) owed due := by
  cases isStop with
  | true => exact h.release
  | false => exact h

theorem all_answered (h : Core a [] 0) (hquiet : a.quiet = true) :
    ∀ commandId ∈ a.passed, commandId ∈ answered a.sent := by
  intro commandId hpassed
  have hmem := h.account.mem_iff.mpr hpassed
  unfold Connection.quiet at hquiet
  simp only [Bool.and_eq_true,List.isEmpty_iff] at hquiet
  rw [hquiet.1.2,hquiet.2] at hmem
  simpa [resultIds,admissionIds] using hmem

theorem not_quiet (h : Core a [] 0) (hquiet : ¬a.quiet = true) :
    a.results ≠ [] ∨ a.admissions ≠ [] := by
  by_contra hnone
  simp only [not_or,not_not] at hnone
  apply hquiet
  have hstops := h.stops
  rw [hnone.1,hnone.2] at hstops
  unfold Connection.quiet
  simp [hnone.1,hnone.2]
  simpa using hstops

theorem sendTerminal (h : Core a [] 0) (hquiet : a.quiet = true) {event : RunEvent} {b : Connection}
    (hsent : b.sent = a.sent) (hpassed : b.passed = a.passed) (hadmitted : b.admitted = a.admitted)
    (happlied : b.applied = a.applied) (hunderflow : b.underflow = a.underflow)
    (hobserved : b.observed = some event) :
    Turn.Kept (b.send (.event event) >>= fun c => pure (c.finish .terminal)) := by
  have hsilent : ∀ frame ∈ b.sent, frame.isTerminal = false := by
    rw [hsent]
    exact h.silent
  have hgenuine : ∀ other, ServerFrame.event other ∈ b.sent → other.isTerminal = true →
      b.observed = some other := by
    intro other hmem hterminal
    rw [show other.isTerminal = false from hsilent _ hmem] at hterminal
    cases hterminal
  have hfacts : Facts b := by
    obtain ⟨honce,hknown,horder,heffects,hhonest,hfinal,-,hsound⟩ := h.facts
    rw [← hsent] at honce hknown hhonest hfinal
    rw [← hpassed] at hknown hfinal
    rw [← hadmitted] at horder heffects
    rw [← happlied] at heffects hhonest
    exact ⟨honce,hknown,horder,heffects,hhonest,hfinal,hgenuine,hunderflow.trans hsound⟩
  have hall : ∀ commandId ∈ b.passed, commandId ∈ answered b.sent := by
    rw [hpassed,hsent]
    exact h.all_answered hquiet
  apply send_bind hfacts
  intro room
  right
  have hanswered : answered (b.sent ++ [.event event]) = answered b.sent := by
    rw [answered_append]
    exact List.append_nil _
  refine ⟨⟨?_,?_,hfacts.order,hfacts.effects,?_,?_,?_,hfacts.sound⟩,rfl,?_⟩
  · show (answered (b.sent ++ [.event event])).Nodup
    rw [hanswered]
    exact hfacts.once
  · show ∀ commandId ∈ answered (b.sent ++ [.event event]), commandId ∈ b.passed
    rw [hanswered]
    exact hfacts.known
  · intro other failure hmem hd
    rcases List.mem_append.mp hmem with hmem | hmem
    · exact hfacts.honest other failure hmem hd
    · cases List.mem_singleton.mp hmem
  · intro before frame after heq hterminal
    rcases List.eq_nil_or_concat after with rfl | ⟨rest,last,rfl⟩
    · obtain ⟨hbefore,-⟩ := List.append_inj' heq rfl
      rw [← hbefore]
      exact ⟨rfl,hall⟩
    · have hassoc : before ++ frame::(rest.concat last) = before ++ frame::rest ++ [last] := by
        simp
      rw [hassoc] at heq
      have hbefore : b.sent = before ++ frame::rest := (List.append_inj' heq rfl).1
      rw [hsilent frame (by rw [hbefore]; simp)] at hterminal
      cases hterminal
  · intro other hmem hterminal
    rcases List.mem_append.mp hmem with hmem | hmem
    · exact hgenuine other hmem hterminal
    · cases List.mem_singleton.mp hmem
      exact hobserved
  · intro other hother
    left
    have hsame : some event = some other := hobserved.symm.trans hother
    refine ⟨rfl,?_⟩
    show (b.sent ++ [ServerFrame.event event]).getLast? = _
    rw [List.getLast?_concat,Option.some.inj hsame]

end Core

/-- What the result branch does after the answer: the held event follows the last result. -/
theorem Core.sendHeld (h : Core a [] 0) (hobserved : a.observed = a.controls.heldTerminal)
    (hclosed : a.observationClosed = true → a.admissions = []) : Turn.Kept a.sendHeld := by
  unfold Connection.sendHeld
  split
  · next hquiet =>
    split
    · next event hheld =>
      exact h.sendTerminal hquiet rfl rfl rfl rfl rfl (hobserved.trans hheld)
    · next hnone =>
      left
      refine ⟨h,hobserved,?_,hclosed⟩
      rw [hnone]
      exact fun hsome => (nomatch hsome)
  · next hquiet => exact Or.inl ⟨h,hobserved,fun _ => h.not_quiet hquiet,hclosed⟩

end Mux
end Ctxmux
