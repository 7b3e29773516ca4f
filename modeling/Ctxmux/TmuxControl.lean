import Ctxmux.ClientControl
import Ctxmux.EventInbox
import Ctxmux.Machine
import Ctxmux.TmuxParser

/-!
# The Control Mode client of an imported pane

A reader takes the items of the client's output one by one, a waiter probes the target from
time to time, and both write commands to the same client. A result names no command; the
tracker gives it to the oldest command that was written and has none.
-/

namespace Ctxmux
namespace Tmux

open Client (ErrorCode ProtocolError InterruptionReason)

structure TmuxPaneInfo where
  serverPid : ℕ
  serverStartedAt : ℕ
  sessionId : String
  windowId : String
  paneId : String
  panePid : ℕ
deriving DecidableEq,Repr

inductive TmuxCommandKind where
  | targetProbe | continueCommand
deriving DecidableEq,Repr

inductive TmuxCommandResultKind where
  | bootstrap
  | pending (kind : TmuxCommandKind)
deriving DecidableEq,Repr

structure TmuxCommandTracker where
  sessionEstablished : Bool
  bootstrapResultSeen : Bool
  lastResultNumber : Option ℕ
  pending : List TmuxCommandKind
deriving DecidableEq,Repr

namespace TmuxCommandTracker

def maxPending : ℕ := 2

def observeSession (t : TmuxCommandTracker) : Bool × TmuxCommandTracker :=
  if t.sessionEstablished then (false,t) else (true,{ t with sessionEstablished := true })

def exceededBound : String := "tmux adapter command queue exceeded its bound"

def prepareEnqueue (t : TmuxCommandTracker) (kind : TmuxCommandKind) : Except String Bool :=
  if t.sessionEstablished = false then
    .error "tmux adapter command arrived before session establishment"
  else if kind ∈ t.pending then .ok false
  else if maxPending ≤ t.pending.length then .error exceededBound
  else .ok true

def commitEnqueue (t : TmuxCommandTracker) (kind : TmuxCommandKind) : TmuxCommandTracker :=
  { t with pending := t.pending ++ [kind] }

def correlateResult (t : TmuxCommandTracker) (number : ℕ) :
    Except String TmuxCommandResultKind × TmuxCommandTracker :=
  if t.lastResultNumber.any (number ≤ ·) then
    (.error "tmux command result number did not advance",t)
  else
    let t := { t with lastResultNumber := some number }
    match t.pending with
    | kind::pending => (.ok (.pending kind),{ t with pending := pending })
    | [] =>
      if t.sessionEstablished = false ∧ t.bootstrapResultSeen = false then
        (.ok .bootstrap,{ t with bootstrapResultSeen := true })
      else (.error "tmux returned a command result without a pending adapter command",t)

end TmuxCommandTracker

structure TmuxTermination where
  error : ProtocolError
  reason : InterruptionReason
deriving DecidableEq,Repr

/-- What a Run publishes of its pane. -/
inductive Published where
  | output (startByte : ℕ) (data : List Byte)
  | sessionRenamed (name : List Byte)
  | paused
  | gap (latestOutputBytes : ℕ)
  | continued
deriving DecidableEq,Repr

/-- A result with what the tracker gave it to. -/
structure Answered where
  kind : TmuxCommandResultKind
  number : ℕ
  success : Bool
  output : List (List Byte)
deriving DecidableEq,Repr

/-- The state of a Run on an imported pane. The last three fields record the commands that
were written completely, the results that the tracker accepted, and the items that the
reader has taken. -/
structure TmuxControl where
  writer : Option TmuxCommandTracker
  ready : Bool
  output : List Byte
  sourceGapAfterByte : Option ℕ
  published : List Published
  failure : Option TmuxTermination
  probeFailure : Option String
  written : List TmuxCommandKind
  answered : List Answered
  taken : List ControlItem

inductive TmuxControlEvent where
  | item (item : ControlItem) (writeError : Option String)
  | probe (writeError : Option String)
  | closeWriter

def tabulator : Byte := byte '\t'

/-- `str::parse` of an unsigned integer below `bound`. -/
def parseControlNumber (bound : ℕ) (value : List Byte) (label : String) : Except String ℕ :=
  orElse ((Version.parseU64 (value.map charOf)).filter (· < bound))
    ("tmux target probe returned an invalid " ++ label)

def targetIdentityMatches (target : TmuxPaneInfo) (line : List Byte) : Except String Bool :=
  match split tabulator line with
  | [serverPid,serverStartedAt,session,window,pane,panePid] => do
    let serverPid ← parseControlNumber (2^32) serverPid "server PID"
    let serverStartedAt ← parseControlNumber (2^64) serverStartedAt "server start time"
    let session ← controlId session (byte '$') "session"
    let window ← controlId window (byte '@') "window"
    let pane ← controlId pane (byte '%') "pane"
    let panePid ← parseControlNumber (2^32) panePid "pane PID"
    return (⟨serverPid,serverStartedAt,session,window,pane,panePid⟩ : TmuxPaneInfo) = target
  | _ => .error "tmux target probe returned an unexpected field count"

def tmuxControlFailure (code : ErrorCode) (message : String) (reason : InterruptionReason) :
    TmuxTermination := ⟨⟨code,message⟩,reason⟩

def backendProtocolError (action error : String) (reason : InterruptionReason) :
    TmuxTermination :=
  tmuxControlFailure .backendUnavailable ("failed to " ++ action ++ ": " ++ error) reason

namespace TmuxControl

def start : TmuxControl where
  writer := some ⟨false,false,none,[]⟩
  ready := false
  output := []
  sourceGapAfterByte := none
  published := []
  failure := none
  probeFailure := none
  written := []
  answered := []
  taken := []

def clientClosed : String := "tmux control client is closed"

/-- `write_command`: a command of a kind that still waits for its result is not repeated. -/
def writeCommand (s : TmuxControl) (kind : TmuxCommandKind) (writeError : Option String) :
    TmuxControl × Except String Unit :=
  match s.writer with
  | none => (s,.error clientClosed)
  | some t =>
    match t.prepareEnqueue kind with
    | .error message => (s,.error message)
    | .ok false => (s,.ok ())
    | .ok true =>
      match writeError with
      | some message => (s,.error message)
      | none => ({ s with
          writer := some (t.commitEnqueue kind)
          written := s.written ++ [kind] },.ok ())

def establishSession (s : TmuxControl) (writeError : Option String) :
    TmuxControl × Except String Unit :=
  match s.writer with
  | none => (s,.error clientClosed)
  | some t =>
    let (fresh,t) := t.observeSession
    if fresh then { s with writer := some t }.writeCommand .targetProbe writeError
    else (s,.ok ())

/-- The waiter's probe; before the session is established it writes nothing. -/
def writePeriodicProbe (s : TmuxControl) (writeError : Option String) :
    TmuxControl × Except String Unit :=
  match s.writer with
  | none => (s,.error clientClosed)
  | some t =>
    if t.sessionEstablished then s.writeCommand .targetProbe writeError else (s,.ok ())

def publish (s : TmuxControl) (event : Published) : TmuxControl :=
  { s with published := s.published ++ [event] }

def recordOutput (s : TmuxControl) (data : List Byte) : TmuxControl :=
  if data = [] then s
  else { s with output := s.output ++ data }.publish (.output s.output.length data)

def markOutputSourceGap (s : TmuxControl) : TmuxControl :=
  { s with sourceGapAfterByte := some s.output.length }

def unlessReady (s : TmuxControl) : InterruptionReason :=
  if s.ready then .tmuxProtocolError else .tmuxServerUnavailable

def correlateResult (s : TmuxControl) (number : ℕ) (success : Bool)
    (output : List (List Byte)) : TmuxControl × Except String TmuxCommandResultKind :=
  match s.writer with
  | none => (s,.error clientClosed)
  | some t =>
    let (result,t) := t.correlateResult number
    let s := { s with writer := some t }
    match result with
    | .ok kind => ({ s with answered := s.answered ++ [⟨kind,number,success,output⟩] },result)
    | .error _ => (s,result)

def handleProbeResult (target : TmuxPaneInfo) (s : TmuxControl) (output : List (List Byte)) :
    TmuxControl × Except TmuxTermination Unit :=
  match output with
  | [line] =>
    match targetIdentityMatches target line with
    | .ok true => ({ s with ready := true },.ok ())
    | .ok false => (s,.error (tmuxControlFailure .targetChanged
        "tmux target identity changed after import" .tmuxTargetChanged))
    | .error message =>
      (s,.error (backendProtocolError "parse tmux target probe" message .tmuxProtocolError))
  | _ => (s,.error (tmuxControlFailure .backendUnavailable
      "tmux target probe returned an unexpected output shape" .tmuxProtocolError))

def handleCommandResult (target : TmuxPaneInfo) (s : TmuxControl) (number : ℕ) (success : Bool)
    (output : List (List Byte)) : TmuxControl × Except TmuxTermination Unit :=
  match s.correlateResult number success output with
  | (s,.error message) =>
    (s,.error (backendProtocolError "correlate tmux command result" message s.unlessReady))
  | (s,.ok .bootstrap) =>
    if success = true ∧ output = [] then (s,.ok ())
    else (s,.error (tmuxControlFailure .backendUnavailable
      "tmux Control Mode bootstrap returned an unexpected result" .tmuxServerUnavailable))
  | (s,.ok (.pending kind)) =>
    if success = false then (s,.error (tmuxControlFailure .targetChanged
      ("tmux pane " ++ target.paneId ++ " no longer accepts adapter commands")
      .tmuxTargetChanged))
    else match kind with
      | .targetProbe => s.handleProbeResult target output
      | .continueCommand =>
        if output = [] then (s,.ok ())
        else (s,.error (tmuxControlFailure .backendUnavailable
          "tmux continue command returned unexpected output" .tmuxProtocolError))

def orFail (action : String) (r : TmuxControl × Except String Unit) :
    TmuxControl × Except TmuxTermination Unit :=
  match r with
  | (s,.ok ()) => (s,.ok ())
  | (s,.error message) => (s,.error (backendProtocolError action message .tmuxServerUnavailable))

/-- `handle_tmux_control_item`; what concerns another pane or window is passed over. -/
def handleItem (target : TmuxPaneInfo) (s : TmuxControl) (item : ControlItem)
    (writeError : Option String) : TmuxControl × Except TmuxTermination Unit :=
  match item with
  | .output paneId data _ =>
    if paneId = target.paneId then (s.recordOutput data,.ok ()) else (s,.ok ())
  | .sessionChanged sessionId =>
    if sessionId = target.sessionId then
      orFail "write initial tmux target probe" (s.establishSession writeError)
    else (s,.error (tmuxControlFailure .targetChanged
      "tmux Control Mode client attached to a different session" .tmuxTargetChanged))
  | .commandResult number success output => s.handleCommandResult target number success output
  | .sessionRenamed sessionId name =>
    if sessionId = target.sessionId then (s.publish (.sessionRenamed name),.ok ()) else (s,.ok ())
  | .windowClosed windowId =>
    if windowId = target.windowId then (s,.error (tmuxControlFailure .targetChanged
      ("tmux target window " ++ windowId ++ " closed") .tmuxTargetChanged))
    else (s,.ok ())
  | .paused paneId =>
    if paneId = target.paneId then
      orFail "write tmux continue command"
        (((s.markOutputSourceGap.publish .paused).publish (.gap s.output.length)).writeCommand
          .continueCommand writeError)
    else (s,.ok ())
  | .continued paneId =>
    if paneId = target.paneId then (s.publish .continued,.ok ()) else (s,.ok ())
  | .exit => (s,.error (tmuxControlFailure .backendUnavailable
      "tmux Control Mode client reported exit" .tmuxServerUnavailable))
  | .notification => (s,.ok ())

/-- The reader ends with its first failure, and so does the waiter. -/
def step (target : TmuxPaneInfo) (s : TmuxControl) (e : TmuxControlEvent) : TmuxControl :=
  match e with
  | .item item writeError =>
    if s.failure.isSome then s
    else match { s with taken := s.taken ++ [item] }.handleItem target item writeError with
      | (s,.ok ()) => s
      | (s,.error failure) => { s with failure := some failure }
  | .probe writeError =>
    if s.probeFailure.isSome then s
    else match s.writePeriodicProbe writeError with
      | (s,.ok ()) => s
      | (s,.error message) => { s with probeFailure := some message }
  | .closeWriter => { s with writer := none }

/-- The bytes that an item carries of the pane. -/
def itemBytes (target : TmuxPaneInfo) : ControlItem → List Byte
  | .output paneId data _ => if paneId = target.paneId then data else []
  | _ => []

/-- The command results among the items, with their numbers, verdicts and lines. -/
def results (items : List ControlItem) : List (ℕ × Bool × List (List Byte)) :=
  items.filterMap fun
    | .commandResult number success output => some (number,success,output)
    | _ => none

end TmuxControl

namespace Answered

def command (a : Answered) : Option TmuxCommandKind :=
  match a.kind with
  | .pending kind => some kind
  | .bootstrap => none

def result (a : Answered) : ℕ × Bool × List (List Byte) := (a.number,a.success,a.output)

/-- What a client of the right target answers: a probe names the target, anything else is
answered with nothing. -/
def Expected (target : TmuxPaneInfo) (a : Answered) : Prop :=
  a.success = true ∧
    if a.kind = .pending .targetProbe then
      ∃ line, a.output = [line] ∧ targetIdentityMatches target line = .ok true
    else a.output = []

theorem Expected.of_empty {target : TmuxPaneInfo} {a : Answered}
    (hkind : a.kind ≠ .pending .targetProbe) (hsuccess : a.success = true)
    (hempty : a.output = []) : a.Expected target := by
  refine ⟨hsuccess,?_⟩
  rw [if_neg hkind]
  exact hempty

end Answered

namespace Published

def bytes : Published → List Byte
  | .output _ data => data
  | _ => []

/-- Where in the output an event says that it stands. -/
def position? : Published → Option ℕ
  | .output startByte _ => some startByte
  | .gap latestOutputBytes => some latestOutputBytes
  | _ => none

end Published

namespace TmuxControl

/-- Every result that was taken was accepted, and was what its command asks for. -/
structure Clean (target : TmuxPaneInfo) (s : TmuxControl) : Prop where
  results : results s.taken = s.answered.map Answered.result
  expected : ∀ a ∈ s.answered, a.Expected target

/-- The account of the commands: which were written, which have their answer, and what the
tracker still waits for. -/
structure Books (s : TmuxControl) : Prop where
  books : ∀ t, s.writer = some t →
    s.written = s.answered.filterMap Answered.command ++ t.pending ∧ t.pending.Nodup
  early : ∀ t, s.writer = some t → t.sessionEstablished = false → s.written = []
  seen : ∀ t, s.writer = some t → t.sessionEstablished = false →
    t.bootstrapResultSeen = false → s.answered = []
  ordered : s.answered.filterMap Answered.command <+: s.written
  first : ∀ before a after, s.answered = before ++ a::after → a.kind = .bootstrap → before = []
  increasing : (s.answered.map Answered.number).Pairwise (· < ·)
  last : ∀ t, s.writer = some t → ∀ a ∈ s.answered,
    ∃ l, t.lastResultNumber = some l ∧ a.number ≤ l

structure Inv (target : TmuxPaneInfo) (s : TmuxControl) : Prop extends Books s where
  refused : ∃ tail, results s.taken = s.answered.map Answered.result ++ tail ∧ tail.length ≤ 1
  output : s.output = s.taken.flatMap (itemBytes target)
  published : s.published.flatMap Published.bytes = s.output
  placed : ∀ before event after, s.published = before ++ event::after →
    ∀ n, event.position? = some n → n = (before.flatMap Published.bytes).length
  ready : s.ready = true ↔ ∃ a ∈ s.answered, a.kind = .pending .targetProbe ∧ a.Expected target

theorem Inv.start (target : TmuxPaneInfo) : Inv target start where
  books t ht := by
    cases ht
    exact ⟨rfl,List.nodup_nil⟩
  early t ht _ := rfl
  seen t ht _ _ := rfl
  ordered := List.prefix_refl _
  first before a after h := (by cases before <;> cases h)
  increasing := List.Pairwise.nil
  last t ht a ha := absurd ha List.not_mem_nil
  refused := ⟨[],rfl,Nat.zero_le _⟩
  output := rfl
  published := rfl
  placed before event after h := (by cases before <;> cases h)
  ready := by simp [TmuxControl.start]

variable {target : TmuxPaneInfo} {s : TmuxControl} {item : ControlItem}

theorem results_snoc (items : List ControlItem) (item : ControlItem) :
    results (items ++ [item]) = results items ++ results [item] := List.filterMap_append

variable {t : TmuxCommandTracker}

theorem prepareEnqueue_ok {kind : TmuxCommandKind} (h : t.prepareEnqueue kind = .ok true) :
    kind ∉ t.pending ∧ t.sessionEstablished = true := by
  unfold TmuxCommandTracker.prepareEnqueue at h
  split at h
  · cases h
  · rename_i hestablished
    split at h
    · cases h
    · rename_i hkind
      exact ⟨hkind,by simpa using hestablished⟩

theorem Inv.writeCommand (h : Inv target s) (kind : TmuxCommandKind)
    (writeError : Option String) : Inv target (s.writeCommand kind writeError).1 := by
  unfold TmuxControl.writeCommand
  cases hwriter : s.writer with
  | none => exact h
  | some t =>
    obtain ⟨hbooks,hnodup⟩ := h.books t hwriter
    cases hprepare : t.prepareEnqueue kind with
    | error message => simpa [hprepare] using h
    | ok room =>
      cases room with
      | false => simpa [hprepare] using h
      | true =>
        cases writeError with
        | some message => simpa [hprepare] using h
        | none =>
          simp only [hprepare]
          obtain ⟨hnew,hestablished⟩ := prepareEnqueue_ok hprepare
          exact { h with
            books := fun u hu => by
              cases hu
              refine ⟨by simp [TmuxCommandTracker.commitEnqueue,hbooks],?_⟩
              simp only [TmuxCommandTracker.commitEnqueue,List.nodup_append]
              exact ⟨hnodup,by simp,fun a ha b hb heq =>
                hnew (by rw [← List.mem_singleton.mp hb,← heq]; exact ha)⟩
            early := fun u hu hunestablished => by
              cases hu
              rw [show t.sessionEstablished = false from hunestablished] at hestablished
              cases hestablished
            seen := fun u hu hunestablished => by
              cases hu
              rw [show t.sessionEstablished = false from hunestablished] at hestablished
              cases hestablished
            ordered := h.ordered.trans (List.prefix_append _ _)
            last := fun u hu => by
              cases hu
              exact h.last t hwriter }

/-- A tracker that only notes that the session is established. -/
theorem Inv.establish (h : Inv target s) (ht : s.writer = some t) :
    Inv target { s with writer := some { t with sessionEstablished := true } } :=
  { h with
    books := fun v hv => by
      cases hv
      exact h.books t ht
    early := fun v hv hnever => by
      cases hv
      cases hnever
    seen := fun v hv hnever => by
      cases hv
      cases hnever
    last := fun v hv => by
      cases hv
      exact h.last t ht }

theorem Inv.establishSession (h : Inv target s) (writeError : Option String) :
    Inv target (s.establishSession writeError).1 := by
  unfold TmuxControl.establishSession
  cases hwriter : s.writer with
  | none => exact h
  | some t =>
    cases hestablished : t.sessionEstablished with
    | true => simpa [TmuxCommandTracker.observeSession,hestablished] using h
    | false =>
      simp only [TmuxCommandTracker.observeSession,hestablished,Bool.false_eq_true,if_false,
        if_true]
      exact (h.establish hwriter).writeCommand _ _

theorem Inv.writePeriodicProbe (h : Inv target s) (writeError : Option String) :
    Inv target (s.writePeriodicProbe writeError).1 := by
  unfold TmuxControl.writePeriodicProbe
  split
  · exact h
  · split
    · exact h.writeCommand _ _
    · exact h

/-- A place in a list with one more element is the last one or was there before. -/
theorem snoc_split {α : Type} {xs before after : List α} {x e : α}
    (h : xs ++ [x] = before ++ e::after) :
    before = xs ∧ e = x ∨ ∃ rest, xs = before ++ e::rest := by
  rcases List.eq_nil_or_concat after with rfl | ⟨rest,y,rfl⟩
  · obtain ⟨hxs,hx⟩ := List.append_inj' h rfl
    exact .inl ⟨hxs.symm,(List.singleton_inj.mp hx).symm⟩
  · have hassoc : xs ++ [x] = (before ++ e::rest) ++ [y] := by simpa using h
    exact .inr ⟨rest,(List.append_inj' hassoc rfl).1⟩

/-- An event without bytes that stands where the output ends. -/
theorem Inv.publish (h : Inv target s) {event : Published} (hbytes : event.bytes = [])
    (hposition : ∀ n, event.position? = some n → n = s.output.length) :
    Inv target (s.publish event) :=
  { h with
    published := by
      simp only [TmuxControl.publish,List.flatMap_append,List.flatMap_singleton,hbytes,
        List.append_nil]
      exact h.published
    placed := fun before e after hsplit n hn => by
      rcases snoc_split hsplit with ⟨rfl,rfl⟩ | ⟨rest,hold⟩
      · rw [h.published]
        exact hposition n hn
      · exact h.placed before e rest hold n hn }

theorem Inv.take (h : Inv target s) (hbytes : itemBytes target item = [])
    (hresult : results [item] = []) : Inv target { s with taken := s.taken ++ [item] } :=
  { h with
    refused := by
      obtain ⟨tail,htail,hlength⟩ := h.refused
      refine ⟨tail,?_,hlength⟩
      rw [results_snoc,hresult,List.append_nil]
      exact htail
    output := by
      simp only [List.flatMap_append,List.flatMap_singleton,hbytes,List.append_nil]
      exact h.output }

/-- Output of the pane is recorded once, in one chunk that stands where the log ended. -/
theorem Inv.recordOutput (h : Inv target s) {data : List Byte}
    (hbytes : itemBytes target item = data) (hresult : results [item] = []) :
    Inv target ({ s with taken := s.taken ++ [item] }.recordOutput data) := by
  unfold TmuxControl.recordOutput
  split
  · rename_i hempty
    exact h.take (hbytes.trans hempty) hresult
  · exact { h with
      refused := by
        obtain ⟨tail,htail,hlength⟩ := h.refused
        refine ⟨tail,?_,hlength⟩
        simp only [TmuxControl.publish]
        rw [results_snoc,hresult,List.append_nil]
        exact htail
      output := by
        simp only [TmuxControl.publish,List.flatMap_append,List.flatMap_singleton,hbytes,h.output]
      published := by
        simp only [TmuxControl.publish,List.flatMap_append,List.flatMap_singleton,h.published]
        rfl
      placed := fun before e after hsplit n hn => by
        rcases snoc_split hsplit with ⟨rfl,rfl⟩ | ⟨rest,hold⟩
        · cases hn
          rw [h.published]
        · exact h.placed before e rest hold n hn }

/-- What a result can be given to, and what is kept of it. -/
inductive Correlated (t : TmuxCommandTracker) (number : ℕ) :
    Except String TmuxCommandResultKind × TmuxCommandTracker → Prop where
  | stale (hstale : t.lastResultNumber.any (number ≤ ·) = true) :
    Correlated t number (.error "tmux command result number did not advance",t)
  | pending (kind : TmuxCommandKind) (rest : List TmuxCommandKind)
    (hfresh : t.lastResultNumber.any (number ≤ ·) = false) (hpending : t.pending = kind::rest) :
    Correlated t number (.ok (.pending kind),
      { t with lastResultNumber := some number, pending := rest })
  | bootstrap (hfresh : t.lastResultNumber.any (number ≤ ·) = false) (hpending : t.pending = [])
    (hearly : t.sessionEstablished = false ∧ t.bootstrapResultSeen = false) :
    Correlated t number (.ok .bootstrap,
      { t with lastResultNumber := some number, bootstrapResultSeen := true })
  | unexpected (hfresh : t.lastResultNumber.any (number ≤ ·) = false) (hpending : t.pending = [])
    (hlate : ¬ (t.sessionEstablished = false ∧ t.bootstrapResultSeen = false)) :
    Correlated t number
      (.error "tmux returned a command result without a pending adapter command",
        { t with lastResultNumber := some number })

theorem correlateResult_spec (t : TmuxCommandTracker) (number : ℕ) :
    Correlated t number (t.correlateResult number) := by
  unfold TmuxCommandTracker.correlateResult
  cases hstale : t.lastResultNumber.any (number ≤ ·) with
  | true => exact .stale hstale
  | false =>
    cases hpending : t.pending with
    | cons kind rest => exact .pending kind rest hstale hpending
    | nil =>
      by_cases hearly : t.sessionEstablished = false ∧ t.bootstrapResultSeen = false
      · have h := Correlated.bootstrap hstale hpending hearly
        simpa [hpending,hearly] using h
      · have h := Correlated.unexpected hstale hpending hearly
        simpa [hpending,hearly] using h

theorem lt_of_fresh {number n l : ℕ} (hfresh : t.lastResultNumber.any (number ≤ ·) = false)
    (hl : t.lastResultNumber = some l) (hn : n ≤ l) : n < number := by
  have hlate : ¬ number ≤ l := by simpa [hl] using hfresh
  omega

section

variable {given : Answered} {kind : TmuxCommandKind} {rest : List TmuxCommandKind}
  (h : Books s) (hwriter : s.writer = some t)
  (hfresh : t.lastResultNumber.any (given.number ≤ ·) = false)
include h hwriter hfresh

/-- A result that is not stale has a higher number than every one before it. -/
theorem Books.below : ∀ a ∈ s.answered, a.number < given.number := fun a ha => by
  obtain ⟨l,hl,hle⟩ := h.last t hwriter a ha
  exact lt_of_fresh hfresh hl hle

theorem Books.increasing_snoc :
    ((s.answered ++ [given]).map Answered.number).Pairwise (· < ·) := by
  rw [List.map_append,List.pairwise_append]
  refine ⟨h.increasing,List.pairwise_singleton _ _,?_⟩
  intro n hn m hm
  obtain ⟨a,ha,rfl⟩ := List.mem_map.mp hn
  rw [List.mem_singleton.mp hm]
  exact h.below hwriter hfresh a ha

theorem Books.last_snoc : ∀ a ∈ s.answered ++ [given],
    ∃ l, some given.number = some l ∧ a.number ≤ l := fun a ha => by
  rcases List.mem_append.mp ha with hold | hnew
  · exact ⟨given.number,rfl,(h.below hwriter hfresh a hold).le⟩
  · rw [List.mem_singleton.mp hnew]
    exact ⟨given.number,rfl,le_rfl⟩

theorem Books.bootstrap (hkind : given.kind = .bootstrap)
    (hearly : t.sessionEstablished = false ∧ t.bootstrapResultSeen = false) :
    Books { s with
      writer := some
        { t with lastResultNumber := some given.number, bootstrapResultSeen := true }
      answered := s.answered ++ [given] } := by
  obtain ⟨hbooks,hnodup⟩ := h.books t hwriter
  have hnone := h.seen t hwriter hearly.1 hearly.2
  have hcommands : (s.answered ++ [given]).filterMap Answered.command =
      s.answered.filterMap Answered.command := by
    simp [Answered.command,hkind]
  exact { h with
    books := fun u hu => by
      cases hu
      dsimp only
      rw [hcommands]
      exact ⟨hbooks,hnodup⟩
    early := fun u hu => by
      cases hu
      exact h.early t hwriter
    seen := fun u hu _ hnever => by
      cases hu
      cases hnever
    ordered := by
      dsimp only
      rw [hcommands]
      exact h.ordered
    first := fun before a after hsplit _ => by
      dsimp only at hsplit
      rw [hnone] at hsplit
      rcases snoc_split hsplit with ⟨hbefore,-⟩ | ⟨rest,hold⟩
      · exact hbefore
      · cases before <;> cases hold
    increasing := h.increasing_snoc hwriter hfresh
    last := fun u hu => by
      cases hu
      exact h.last_snoc hwriter hfresh }

/-- Otherwise the command that has waited longest is answered. -/
theorem Books.pending (hkind : given.kind = .pending kind) (hpending : t.pending = kind::rest) :
    Books { s with
      writer := some { t with lastResultNumber := some given.number, pending := rest }
      answered := s.answered ++ [given] } := by
  obtain ⟨hbooks,hnodup⟩ := h.books t hwriter
  rw [hpending] at hbooks hnodup
  have hcommands : s.written = (s.answered ++ [given]).filterMap Answered.command ++ rest := by
    simpa [Answered.command,hkind] using hbooks
  have hestablished : t.sessionEstablished = true := by
    by_contra hnever
    have hempty := h.early t hwriter (by simpa using hnever)
    rw [hbooks] at hempty
    simp at hempty
  exact { h with
    books := fun u hu => by
      cases hu
      exact ⟨hcommands,(List.nodup_cons.mp hnodup).2⟩
    early := fun u hu hnever => by
      cases hu
      rw [show t.sessionEstablished = false from hnever] at hestablished
      cases hestablished
    seen := fun u hu hnever => by
      cases hu
      rw [show t.sessionEstablished = false from hnever] at hestablished
      cases hestablished
    ordered := ⟨rest,hcommands.symm⟩
    first := fun before a after hsplit hbootstrap => by
      rcases snoc_split hsplit with ⟨-,rfl⟩ | ⟨more,hold⟩
      · rw [hkind] at hbootstrap
        cases hbootstrap
      · exact h.first before a more hold hbootstrap
    increasing := h.increasing_snoc hwriter hfresh
    last := fun u hu => by
      cases hu
      exact h.last_snoc hwriter hfresh }

end

/-- A result keeps the account, whatever it is given to. -/
theorem Books.correlateResult (h : Books s) (number : ℕ) (success : Bool)
    (output : List (List Byte)) : Books (s.correlateResult number success output).1 := by
  unfold TmuxControl.correlateResult
  cases hwriter : s.writer with
  | none => exact h
  | some t =>
    have hspec := correlateResult_spec t number
    dsimp only
    generalize t.correlateResult number = r at hspec
    cases hspec with
    | stale hstale =>
      show Books { s with writer := some t }
      rw [← hwriter]
      exact h
    | unexpected hfresh hpending hlate =>
      exact { h with
        books := fun u hu => by
          cases hu
          exact h.books t hwriter
        early := fun u hu => by
          cases hu
          exact h.early t hwriter
        seen := fun u hu => by
          cases hu
          exact h.seen t hwriter
        last := fun u hu a ha => by
          cases hu
          obtain ⟨l,hl,hle⟩ := h.last t hwriter a ha
          exact ⟨number,rfl,(lt_of_fresh hfresh hl hle).le⟩ }
    | bootstrap hfresh hpending hearly =>
      exact @Books.bootstrap s t ⟨.bootstrap,number,success,output⟩ h hwriter hfresh rfl hearly
    | pending kind rest hfresh hpending =>
      exact @Books.pending s t ⟨.pending kind,number,success,output⟩ kind rest h hwriter hfresh rfl
        hpending

/-- Only the tracker and the accepted results change, and these by the one result. -/
theorem correlateResult_frame (s : TmuxControl) (number : ℕ) (success : Bool)
    (output : List (List Byte)) :
    ∃ writer answered, (s.correlateResult number success output).1 =
        { s with writer := writer, answered := answered } ∧
      match (s.correlateResult number success output).2 with
      | .ok kind => answered = s.answered ++ [⟨kind,number,success,output⟩]
      | .error _ => answered = s.answered := by
  unfold TmuxControl.correlateResult
  cases hwriter : s.writer with
  | none => exact ⟨s.writer,s.answered,rfl,rfl⟩
  | some t =>
    dsimp only
    generalize t.correlateResult number = r
    obtain ⟨result,u⟩ := r
    cases result with
    | ok kind => exact ⟨_,_,rfl,rfl⟩
    | error message => exact ⟨_,_,rfl,rfl⟩

/-- A result that the tracker refuses leaves one result behind the accepted ones. -/
theorem Inv.refuse (h : Inv target s) (hclean : Clean target s) {r : ℕ × Bool × List (List Byte)}
    (hitem : results [item] = [r]) (hbytes : itemBytes target item = [])
    {writer : Option TmuxCommandTracker}
    (hbooks : Books { s with taken := s.taken ++ [item], writer := writer }) :
    Inv target { s with taken := s.taken ++ [item], writer := writer } where
  toBooks := hbooks
  refused := ⟨[r],by rw [results_snoc,hclean.results,hitem],le_rfl⟩
  output := by
    simp only [List.flatMap_append,List.flatMap_singleton,hbytes,List.append_nil]
    exact h.output
  published := h.published
  placed := h.placed
  ready := h.ready

/-- A result that the tracker accepts is the answer of its command. -/
theorem Inv.answer (h : Inv target s) (hclean : Clean target s) {a : Answered}
    (hitem : results [item] = [a.result]) (hbytes : itemBytes target item = [])
    {writer : Option TmuxCommandTracker}
    (hbooks : Books { s with
      taken := s.taken ++ [item], writer := writer, answered := s.answered ++ [a] }) {ready : Bool}
    (hready : ready = true ↔ s.ready = true ∨ a.kind = .pending .targetProbe ∧ a.Expected target) :
    Inv target { s with
      taken := s.taken ++ [item], writer := writer, answered := s.answered ++ [a]
      ready := ready } where
  toBooks := { hbooks with }
  refused := by
    refine ⟨[],?_,Nat.zero_le _⟩
    rw [results_snoc,hclean.results,hitem,List.map_append,List.append_nil]
    rfl
  output := by
    simp only [List.flatMap_append,List.flatMap_singleton,hbytes,List.append_nil]
    exact h.output
  published := h.published
  placed := h.placed
  ready := by
    rw [hready,h.ready]
    constructor
    · rintro (⟨b,hb,hprobe⟩ | hprobe)
      · exact ⟨b,List.mem_append_left _ hb,hprobe⟩
      · exact ⟨a,List.mem_append_right _ (List.mem_singleton_self a),hprobe⟩
    · rintro ⟨b,hb,hprobe⟩
      rcases List.mem_append.mp hb with hold | hnew
      · exact Or.inl ⟨b,hold,hprobe⟩
      · rw [List.mem_singleton.mp hnew] at hprobe
        exact Or.inr hprobe

theorem Clean.answer (h : Clean target s) {a : Answered}
    (hitem : TmuxControl.results [item] = [a.result]) (ha : a.Expected target)
    (writer : Option TmuxCommandTracker) (ready : Bool) :
    Clean target { s with
      taken := s.taken ++ [item], writer := writer, answered := s.answered ++ [a]
      ready := ready } where
  results := by
    rw [results_snoc,h.results,hitem,List.map_append]
    rfl
  expected := fun b hb => by
    rcases List.mem_append.mp hb with hold | hnew
    · exact h.expected b hold
    · rwa [List.mem_singleton.mp hnew]

/-- What a step of the reader keeps: the invariant, and, where it goes on, that nothing
unexpected was taken. -/
def Goes (target : TmuxPaneInfo) (r : TmuxControl × Except TmuxTermination Unit) : Prop :=
  Inv target r.1 ∧ (r.2 = .ok () → Clean target r.1)

theorem Inv.handleCommandResult (h : Inv target s) (hclean : Clean target s) (number : ℕ)
    (success : Bool) (output : List (List Byte)) :
    Goes target (({ s with
      taken := s.taken ++ [.commandResult number success output] } : TmuxControl).handleCommandResult
        target number success output) := by
  have hbooks : Books { s with taken := s.taken ++ [.commandResult number success output] } :=
    { h.toBooks with }
  have hcorrelated := hbooks.correlateResult number success output
  obtain ⟨writer,answered,hstate,hanswered⟩ := correlateResult_frame
    { s with taken := s.taken ++ [.commandResult number success output] } number success output
  unfold TmuxControl.handleCommandResult
  generalize TmuxControl.correlateResult _ number success output = r at hcorrelated hstate hanswered
  obtain ⟨after,result⟩ := r
  dsimp only at hcorrelated hstate hanswered
  subst hstate
  have hfails : ∀ failure : TmuxTermination, (.error failure : Except TmuxTermination Unit) =
      .ok () → Clean target { s with
        taken := s.taken ++ [.commandResult number success output]
        writer := writer, answered := answered } := fun failure hnever => (by cases hnever)
  cases result with
  | error message =>
    subst hanswered
    exact ⟨h.refuse hclean rfl rfl hcorrelated,hfails _⟩
  | ok kind =>
    dsimp only at hanswered
    subst hanswered
    have hsame : ¬(kind = .pending .targetProbe ∧
        Answered.Expected target ⟨kind,number,success,output⟩) → Inv target { s with
          taken := s.taken ++ [.commandResult number success output]
          writer := writer, answered := s.answered ++ [⟨kind,number,success,output⟩] } :=
      fun hnot => h.answer hclean rfl rfl hcorrelated (by simp only [hnot,or_false])
    cases kind with
    | bootstrap =>
      dsimp only
      split
      · rename_i hexpected
        exact ⟨hsame fun hprobe => (by cases hprobe.1),
          fun _ => hclean.answer rfl (.of_empty (fun hprobe => (by cases hprobe)) hexpected.1
            hexpected.2) _ _⟩
      · exact ⟨hsame fun hprobe => (by cases hprobe.1),hfails _⟩
    | pending kind =>
      dsimp only
      split
      · rename_i hfailed
        refine ⟨hsame fun hprobe => ?_,hfails _⟩
        rw [show success = true from hprobe.2.1] at hfailed
        cases hfailed
      · rename_i hsuccess
        rw [Bool.not_eq_false] at hsuccess
        cases kind with
        | continueCommand =>
          dsimp only
          split
          · rename_i hempty
            exact ⟨hsame fun hprobe => (by cases hprobe.1),
              fun _ => hclean.answer rfl (.of_empty (fun hprobe => (by cases hprobe)) hsuccess
                hempty) _ _⟩
          · exact ⟨hsame fun hprobe => (by cases hprobe.1),hfails _⟩
        | targetProbe =>
          have hwrong : (∀ line, output = [line] → targetIdentityMatches target line ≠ .ok true) →
              ¬(TmuxCommandResultKind.pending .targetProbe = .pending .targetProbe ∧
                Answered.Expected target ⟨.pending .targetProbe,number,success,output⟩) := by
            rintro hnot ⟨-,-,line,hline,hidentity⟩
            exact hnot line hline hidentity
          dsimp only
          unfold TmuxControl.handleProbeResult
          split
          · rename_i line
            split
            · rename_i hidentity
              have hexpected : Answered.Expected target
                ⟨.pending .targetProbe,number,success,[line]⟩ := ⟨hsuccess,line,rfl,hidentity⟩
              exact ⟨h.answer hclean rfl rfl hcorrelated
                (by simp [hexpected]),fun _ => hclean.answer rfl hexpected _ _⟩
            · rename_i hidentity
              refine ⟨hsame (hwrong fun other hline hother => ?_),hfails _⟩
              cases hline
              rw [hidentity] at hother
              cases hother
            · rename_i hidentity
              refine ⟨hsame (hwrong fun other hline hother => ?_),hfails _⟩
              cases hline
              rw [hidentity] at hother
              cases hother
          · rename_i hshape
            exact ⟨hsame (hwrong fun line hline => absurd hline (hshape line)),hfails _⟩

theorem Goes.of_quiet {r : TmuxControl × Except TmuxTermination Unit} (h : Inv target r.1)
    (hclean : Clean target s) (hresult : results [item] = [])
    (htaken : r.1.taken = s.taken ++ [item]) (hanswered : r.1.answered = s.answered) :
    Goes target r := by
  refine ⟨h,fun _ => ⟨?_,?_⟩⟩
  · rw [htaken,hanswered,results_snoc,hresult,List.append_nil]
    exact hclean.results
  · rw [hanswered]
    exact hclean.expected

theorem orFail_fst (action : String) (r : TmuxControl × Except String Unit) :
    (orFail action r).1 = r.1 := by
  obtain ⟨s,result⟩ := r
  cases result <;> rfl

theorem writeCommand_frame (s : TmuxControl) (kind : TmuxCommandKind)
    (writeError : Option String) :
    (s.writeCommand kind writeError).1.taken = s.taken ∧
      (s.writeCommand kind writeError).1.answered = s.answered ∧
      (s.writeCommand kind writeError).1.failure = s.failure := by
  unfold TmuxControl.writeCommand
  split
  · exact ⟨rfl,rfl,rfl⟩
  · split
    · exact ⟨rfl,rfl,rfl⟩
    · exact ⟨rfl,rfl,rfl⟩
    · split <;> exact ⟨rfl,rfl,rfl⟩

theorem establishSession_frame (s : TmuxControl) (writeError : Option String) :
    (s.establishSession writeError).1.taken = s.taken ∧
      (s.establishSession writeError).1.answered = s.answered := by
  unfold TmuxControl.establishSession
  split
  · exact ⟨rfl,rfl⟩
  · dsimp only
    split
    · obtain ⟨htaken,hanswered,-⟩ := writeCommand_frame _ .targetProbe writeError
      exact ⟨htaken,hanswered⟩
    · exact ⟨rfl,rfl⟩

theorem recordOutput_frame (s : TmuxControl) (data : List Byte) :
    (s.recordOutput data).taken = s.taken ∧ (s.recordOutput data).answered = s.answered := by
  unfold TmuxControl.recordOutput
  split <;> exact ⟨rfl,rfl⟩

theorem Inv.handleItem (h : Inv target s) (hclean : Clean target s) (item : ControlItem)
    (writeError : Option String) :
    Goes target ({ s with taken := s.taken ++ [item] }.handleItem target item writeError) := by
  unfold TmuxControl.handleItem
  cases item with
  | output paneId data age =>
    dsimp only
    split
    · rename_i hpane
      obtain ⟨htaken,hanswered⟩ := recordOutput_frame
        { s with taken := s.taken ++ [.output paneId data age] } data
      exact .of_quiet (h.recordOutput (by simp [itemBytes,hpane]) rfl) hclean rfl htaken hanswered
    · rename_i hpane
      exact .of_quiet (h.take (by simp [itemBytes,hpane]) rfl) hclean rfl rfl rfl
  | sessionChanged sessionId =>
    dsimp only
    split
    · obtain ⟨htaken,hanswered⟩ := establishSession_frame
        { s with taken := s.taken ++ [.sessionChanged sessionId] } writeError
      have htake : Inv target { s with taken := s.taken ++ [.sessionChanged sessionId] } :=
        h.take rfl rfl
      have hinv := htake.establishSession writeError
      rw [← orFail_fst "write initial tmux target probe"] at hinv htaken hanswered
      exact .of_quiet hinv hclean rfl htaken hanswered
    · exact .of_quiet (h.take rfl rfl) hclean rfl rfl rfl
  | commandResult number success output => exact h.handleCommandResult hclean number success output
  | sessionRenamed sessionId name =>
    dsimp only
    split
    · exact .of_quiet ((h.take rfl rfl).publish rfl fun n hn => (by cases hn)) hclean rfl rfl rfl
    · exact .of_quiet (h.take rfl rfl) hclean rfl rfl rfl
  | windowClosed windowId =>
    dsimp only
    split <;> exact .of_quiet (h.take rfl rfl) hclean rfl rfl rfl
  | paused paneId =>
    dsimp only
    split
    · have htake : Inv target { s with taken := s.taken ++ [.paused paneId] } := h.take rfl rfl
      have hgap : Inv target
          ((({ s with taken := s.taken ++ [.paused paneId] } : TmuxControl).markOutputSourceGap.publish
            .paused).publish (.gap s.output.length)) := by
        refine Inv.publish (Inv.publish ?_ rfl ?_) rfl ?_
        · exact { htake with toBooks := { htake.toBooks with } }
        · exact fun n hn => (by cases hn)
        · exact fun n hn => (Option.some.inj hn).symm
      obtain ⟨htaken,hanswered,-⟩ := writeCommand_frame
        ((({ s with taken := s.taken ++ [.paused paneId] } : TmuxControl).markOutputSourceGap.publish
          .paused).publish (.gap s.output.length)) .continueCommand writeError
      have hinv := hgap.writeCommand .continueCommand writeError
      rw [← orFail_fst "write tmux continue command"] at hinv htaken hanswered
      exact .of_quiet hinv hclean rfl htaken hanswered
    · exact .of_quiet (h.take rfl rfl) hclean rfl rfl rfl
  | continued paneId =>
    dsimp only
    split
    · exact .of_quiet ((h.take rfl rfl).publish rfl fun n hn => (by cases hn)) hclean rfl rfl rfl
    · exact .of_quiet (h.take rfl rfl) hclean rfl rfl rfl
  | exit => exact .of_quiet (h.take rfl rfl) hclean rfl rfl rfl
  | notification => exact .of_quiet (h.take rfl rfl) hclean rfl rfl rfl

/-- The account of the reader and, until its first failure, that all is as expected. -/
def Sound (target : TmuxPaneInfo) (s : TmuxControl) : Prop :=
  Inv target s ∧ (s.failure = none → Clean target s)

theorem Sound.step (h : Sound target s) (e : TmuxControlEvent) : Sound target (s.step target e) := by
  obtain ⟨hinv,hgoing⟩ := h
  cases e with
  | item item writeError =>
    dsimp only [TmuxControl.step]
    split
    · exact ⟨hinv,hgoing⟩
    · rename_i hfailure
      have hgoes := hinv.handleItem (hgoing (by simpa using hfailure)) item writeError
      generalize { s with taken := s.taken ++ [item] }.handleItem target item writeError = r at hgoes
      obtain ⟨s,result⟩ := r
      cases result with
      | ok _ => exact ⟨hgoes.1,fun _ => hgoes.2 rfl⟩
      | error failure =>
        exact ⟨{ hgoes.1 with toBooks := { hgoes.1.toBooks with } },fun hnever => (by cases hnever)⟩
  | probe writeError =>
    dsimp only [TmuxControl.step]
    split
    · exact ⟨hinv,hgoing⟩
    · have hprobe := hinv.writePeriodicProbe writeError
      have hframe : (s.writePeriodicProbe writeError).1.taken = s.taken ∧
          (s.writePeriodicProbe writeError).1.answered = s.answered ∧
          (s.writePeriodicProbe writeError).1.failure = s.failure := by
        unfold TmuxControl.writePeriodicProbe
        split
        · exact ⟨rfl,rfl,rfl⟩
        · split
          · exact writeCommand_frame s .targetProbe writeError
          · exact ⟨rfl,rfl,rfl⟩
      generalize s.writePeriodicProbe writeError = r at hprobe hframe
      obtain ⟨after,result⟩ := r
      obtain ⟨htaken,hanswered,hfailure⟩ := hframe
      have hclean : after.failure = none → Clean target after := fun hnone => by
        have hbefore := hgoing (hfailure.symm.trans hnone)
        exact ⟨by rw [htaken,hanswered]; exact hbefore.results,
          by rw [hanswered]; exact hbefore.expected⟩
      cases result with
      | ok _ => exact ⟨hprobe,hclean⟩
      | error message =>
        exact ⟨{ hprobe with toBooks := { hprobe.toBooks with } },
          fun hnone => ⟨(hclean hnone).results,(hclean hnone).expected⟩⟩
  | closeWriter =>
    refine ⟨{ hinv with toBooks := { hinv.toBooks with
        books := fun t ht => (by cases ht)
        early := fun t ht => (by cases ht)
        seen := fun t ht => (by cases ht)
        last := fun t ht => (by cases ht) } },fun hnone => ?_⟩
    exact ⟨(hgoing hnone).results,(hgoing hnone).expected⟩

end TmuxControl

open TmuxControl

end Tmux
end Ctxmux
