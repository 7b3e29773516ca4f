import Ctxmux.Machine

/-!
# What becomes of the bytes typed at an interactive view

A thread reads the terminal, takes the detach sequence out of what is typed, and hands the
rest over a bounded channel to the loop of the view, which sends one input request at a
time. A view that ends says what it knows of the bytes that no answer has confirmed.
-/

namespace Ctxmux
namespace Cli

abbrev Byte := UInt8

/-- The prefix key, `Ctrl-B`. -/
def prefixKey : Byte := 0x02

/-- The key that detaches behind the prefix, `d`. -/
def detachKey : Byte := 0x64

/-- Whether the prefix was the last byte that was read. -/
structure PrefixRouter where
  prefixed : Bool
deriving DecidableEq,Repr

namespace PrefixRouter

/-- The bytes to forward, and whether the detach sequence has ended them. -/
def route : PrefixRouter → List Byte → (List Byte × Bool) × PrefixRouter
  | router, [] => (([],false),router)
  | ⟨true⟩, byte::input =>
    if byte = detachKey then (([],true),⟨false⟩)
    else
      let r := route ⟨false⟩ input
      ((prefixKey::byte::r.1.1,r.1.2),r.2)
  | ⟨false⟩, byte::input =>
    if byte = prefixKey then route ⟨true⟩ input
    else
      let r := route ⟨false⟩ input
      ((byte::r.1.1,r.1.2),r.2)

/-- The prefix that a router has read and not passed on. -/
def held (router : PrefixRouter) : List Byte := if router.prefixed then [prefixKey] else []

def finish (router : PrefixRouter) : Option (List Byte) × PrefixRouter :=
  if router.prefixed then (some [prefixKey],⟨false⟩) else (none,router)

/-- What is forwarded, and what is held, is what was read; only the detach sequence and
what stands behind it is left out. -/
theorem route_spec (router : PrefixRouter) (input : List Byte) :
    ((router.route input).1.2 = false →
      router.held ++ input = (router.route input).1.1 ++ (router.route input).2.held) ∧
    ((router.route input).1.2 = true → (router.route input).2.held = [] ∧
      ∃ rest, router.held ++ input = (router.route input).1.1 ++ prefixKey::detachKey::rest) := by
  induction input generalizing router with
  | nil =>
    cases router with
    | mk prefixed => cases prefixed <;> simp [route]
  | cons byte input ih =>
    obtain ⟨prefixed⟩ := router
    obtain ⟨hgoes,hends⟩ := ih ⟨false⟩
    cases prefixed with
    | true =>
      by_cases hdetach : byte = detachKey
      · simp [route,hdetach,held]
      · simp only [route,if_neg hdetach]
        constructor
        · intro h
          simpa [held] using hgoes h
        · intro h
          obtain ⟨hnone,rest,hrest⟩ := hends h
          exact ⟨hnone,rest,by simpa [held] using hrest⟩
    | false =>
      by_cases hkey : byte = prefixKey
      · simp only [route,if_pos hkey]
        simpa [held,hkey] using ih ⟨true⟩
      · simp only [route,if_neg hkey]
        constructor
        · intro h
          simpa [held] using hgoes h
        · intro h
          obtain ⟨hnone,rest,hrest⟩ := hends h
          exact ⟨hnone,rest,by simpa [held] using hrest⟩

/-- Where reads are cut does not matter, up to the detach sequence. -/
theorem route_append (router : PrefixRouter) (xs ys : List Byte)
    (h : (router.route xs).1.2 = false) :
    router.route (xs ++ ys) = (((router.route xs).1.1 ++ ((router.route xs).2.route ys).1.1,
      ((router.route xs).2.route ys).1.2),((router.route xs).2.route ys).2) := by
  induction xs generalizing router with
  | nil => simp [route]
  | cons byte xs ih =>
    obtain ⟨prefixed⟩ := router
    cases prefixed with
    | true =>
      by_cases hdetach : byte = detachKey
      · simp [route,hdetach] at h
      · simp only [route,if_neg hdetach,List.cons_append] at h ⊢
        simp [ih ⟨false⟩ h]
    | false =>
      by_cases hkey : byte = prefixKey
      · simp only [route,if_pos hkey,List.cons_append] at h ⊢
        simp [ih ⟨true⟩ h]
      · simp only [route,if_neg hkey,List.cons_append] at h ⊢
        simp [ih ⟨false⟩ h]

end PrefixRouter

inductive TerminalInput where
  | detach | closed
  | error (message : String)
deriving DecidableEq,Repr

/-- The thread reads, or waits for room in the channel; then it sends what ends the input,
or reads on. -/
inductive ReaderPhase where
  | reading
  | sending (data : List Byte) (last : Option TerminalInput)
  | stopped
deriving DecidableEq,Repr

/-- The bytes in the hands of the thread. -/
def ReaderPhase.unsent : ReaderPhase → List Byte
  | .sending data _ => data
  | _ => []

structure PendingTerminalInput where
  bytes : List Byte
  attempted : Bool
deriving DecidableEq,Repr

inductive TerminalExit where
  | detach | ended
  | inputUnsettled (mayHaveBeenSent : Bool) (notSentBytes : ℕ)
deriving DecidableEq,Repr

/-- Both sides of an interactive view. The last six fields record what was read, whether
the input has ended, which bytes were answered and which a read-only view ignored, whether
the request that is out has been polled, and what the channel held when the view ended. -/
structure Session where
  inputEnabled : Bool
  router : PrefixRouter
  reader : ReaderPhase
  channel : List (List Byte)
  terminal : Option TerminalInput
  pending : Option PendingTerminalInput
  exit : Option (Except String TerminalExit)
  stdin : List Byte
  eof : Bool
  settled : List Byte
  ignored : List Byte
  polled : Bool
  left : List (List Byte)

def channelCapacity : ℕ := 16

inductive SessionEvent where
  | read (input : List Byte)
  | readFailed (message : String)
  | send
  | poll
  | settle (result : Except String Unit)
  | recv
  | terminal
  | ended
  | failed (message : String)

namespace Session

def start (inputEnabled : Bool) : Session where
  inputEnabled := inputEnabled
  router := ⟨false⟩
  reader := .reading
  channel := []
  terminal := none
  pending := none
  exit := none
  stdin := []
  eof := false
  settled := []
  ignored := []
  polled := false
  left := []

/-- The thread goes on once its data is in the channel. -/
def conclude (s : Session) : Option TerminalInput → Session
  | none => { s with reader := .reading }
  | some last => { s with reader := .stopped, terminal := some last }

def handOver (s : Session) (data : List Byte) (last : Option TerminalInput) : Session :=
  if data = [] then s.conclude last else { s with reader := .sending data last }

/-- One turn of `read_terminal_input`; a read of no bytes is the end of the input, and an
interrupted read changes nothing. -/
def read (s : Session) (input : List Byte) : Session :=
  if s.reader = .reading then
    if input = [] then
      let r := s.router.finish
      { s with router := r.2, eof := true }.handOver (r.1.getD []) (some .closed)
    else
      let r := s.router.route input
      { s with router := r.2, stdin := s.stdin ++ input }.handOver r.1.1
        (if r.1.2 then some .detach else none)
  else s

/-- `blocking_send`, which waits while the channel is full. -/
def send (s : Session) : Session :=
  match s.reader with
  | .sending data last =>
    if s.channel.length < channelCapacity then
      { s with channel := s.channel ++ [data] }.conclude last
    else s
  | _ => s

/-- The bytes of the request that is out. -/
def requested (s : Session) : List Byte := (s.pending.map (·.bytes)).getD []

/-- `finish_terminal_input`. -/
def finishTerminalInput (s : Session) (empty : TerminalExit) : Session :=
  let mayHaveBeenSent := s.pending.any (·.attempted)
  let waiting := if mayHaveBeenSent then 0 else s.requested.length
  let notSentBytes := s.channel.foldl (fun n data => n+data.length) waiting
  { s with
    channel := []
    exit := some (.ok (if mayHaveBeenSent ∨ 0 < notSentBytes then
      .inputUnsettled mayHaveBeenSent notSentBytes else empty)) }

def recv (s : Session) : Session :=
  if s.pending.isSome then s
  else match s.channel with
    | data::channel =>
      if s.inputEnabled then { s with channel := channel, pending := some ⟨data,false⟩ }
      else { s with channel := channel, ignored := s.ignored ++ data }
    | [] => if s.reader = .stopped then { s with exit := some (.ok .detach) } else s

/-- A turn of either side. -/
def act (s : Session) : SessionEvent → Session
  | .read input => s.read input
  | .readFailed message =>
    if s.reader = .reading then
      { s with reader := .stopped, terminal := some (.error message) }
    else s
  | .send => s.send
  | .poll => { s with pending := s.pending.map fun p => { p with attempted := true } }
  | .settle (.ok ()) => { s with pending := none, settled := s.settled ++ s.requested }
  | .settle (.error message) =>
    if s.pending.isSome then { s with pending := none, exit := some (.error message) } else s
  | .recv => s.recv
  | .terminal =>
    match s.terminal with
    | none => s
    | some (.error message) => { s with exit := some (.error message) }
    | some _ => s.finishTerminalInput .detach
  | .ended => s.finishTerminalInput .ended
  | .failed message => { s with exit := some (.error message) }

/-- Whether the request that is out has been polled once the event is over. -/
def asked (s : Session) : SessionEvent → Bool
  | .poll => s.pending.isSome
  | .settle _ => false
  | _ => s.polled

/-- One step with its record; the step that ends the view is its last. -/
def step (s : Session) (e : SessionEvent) : Session :=
  if s.exit.isSome then s
  else { s.act e with
    polled := s.asked e
    left := if (s.act e).exit.isSome then s.channel else [] }

/-- The bytes of a request that may have been sent and has no answer. -/
def unconfirmed (s : Session) : List Byte := if s.polled then s.requested else []

/-- The bytes that never left the loop: a request that was not polled, and what the channel
held at the end. -/
def unsent (s : Session) : List Byte := (if s.polled then [] else s.requested) ++ s.left.flatten

/-- The bytes that went into the channel, in order. -/
def sent (s : Session) : List Byte :=
  s.settled ++ s.ignored ++ s.requested ++ s.left.flatten ++ s.channel.flatten

/-- All bytes that left the router, in order. -/
def forwarded (s : Session) : List Byte := s.sent ++ s.reader.unsent

/-- What the whole text that was read gives a router. -/
def routed (s : Session) : (List Byte × Bool) × PrefixRouter := PrefixRouter.route ⟨false⟩ s.stdin

/-- The bytes to forward of what was read; a prefix goes with them when the input is over. -/
def typed (s : Session) : List Byte := s.routed.1.1 ++ if s.eof then s.routed.2.held else []

/-- The input goes on. -/
def Flowing (s : Session) : Prop :=
  s.terminal = none ∧ s.eof = false ∧ s.routed.1.2 = false ∧ s.router = s.routed.2

/-- The input is over for the reason `last`. -/
def Over (s : Session) : TerminalInput → Prop
  | .detach => s.routed.1.2 = true ∧ s.eof = false
  | .closed => s.routed.1.2 = false ∧ s.eof = true
  | .error _ => s.routed.1.2 = false ∧ s.eof = false

def ReaderHolds (s : Session) : Prop :=
  match s.reader with
  | .reading => s.Flowing
  | .sending data none => data ≠ [] ∧ s.Flowing
  | .sending data (some last) => data ≠ [] ∧ s.terminal = none ∧ s.Over last
  | .stopped => ∃ last, s.terminal = some last ∧ s.Over last

/-- What a view that ended well has said of the bytes it has left. -/
def Reported (s : Session) (e : TerminalExit) : Prop :=
  match e with
  | .inputUnsettled mayHaveBeenSent notSentBytes =>
    notSentBytes = s.unsent.length ∧ (mayHaveBeenSent = true ↔ s.unconfirmed ≠ []) ∧
      (mayHaveBeenSent = true ∨ 0 < notSentBytes)
  | .ended => s.unconfirmed = [] ∧ s.unsent = []
  | .detach => s.unconfirmed = [] ∧ s.unsent = [] ∧ s.reader = .stopped

structure Inv (s : Session) : Prop where
  text : (∀ message, s.exit ≠ some (.error message)) → s.forwarded = s.typed
  reader : s.ReaderHolds
  enabled : s.inputEnabled = true → s.ignored = []
  disabled : s.inputEnabled = false → s.settled = [] ∧ s.pending = none
  filled : ∀ data ∈ s.channel, data ≠ []
  asked : ∀ p, s.pending = some p → p.bytes ≠ []
  polled : s.polled = s.pending.any (·.attempted)
  bound : s.channel.length ≤ channelCapacity
  running : s.exit = none → s.left = []
  reported : ∀ e, s.exit = some (.ok e) → s.channel = [] ∧ s.Reported e

theorem Inv.start (inputEnabled : Bool) : Inv (start inputEnabled) where
  text _ := rfl
  reader := ⟨rfl,rfl,rfl,rfl⟩
  enabled _ := rfl
  disabled _ := ⟨rfl,rfl⟩
  filled data hd := (List.not_mem_nil hd).elim
  asked p hp := by cases hp
  polled := rfl
  bound := Nat.zero_le _
  running _ := rfl
  reported e he := by cases he

variable {s : Session}

theorem Inv.forwarded_eq (h : Inv s) (hrunning : s.exit = none) : s.forwarded = s.typed :=
  h.text fun message hexit => by simp [hrunning] at hexit

theorem Inv.flowing (h : Inv s) (hreading : s.reader = .reading) : s.Flowing := by
  have hreader := h.reader
  rwa [ReaderHolds,hreading] at hreader

section

variable (h : Inv s) (hrunning : s.exit = none)
include h hrunning

/-- A turn of the thread that takes bytes from the terminal into its hands. -/
theorem Inv.handOver (hreading : s.reader = .reading) {router : PrefixRouter}
    {stdin data : List Byte} {eof : Bool} {last : Option TerminalInput}
    (htext : ({ s with router := router, stdin := stdin, eof := eof } : Session).typed =
      s.typed ++ data)
    (hholds : match last with
      | none => ({ s with router := router, stdin := stdin, eof := eof } : Session).Flowing
      | some last => s.terminal = none ∧
        ({ s with router := router, stdin := stdin, eof := eof } : Session).Over last) :
    Inv ({ s with router := router, stdin := stdin, eof := eof }.handOver data last) := by
  have hsent : s.sent = s.typed := by
    have heq := h.forwarded_eq hrunning
    rw [forwarded,hreading] at heq
    exact (List.append_nil _).symm.trans heq
  have hidle : ∀ e, s.exit ≠ some (.ok e) := fun e he => by simp [hrunning] at he
  unfold Session.handOver
  split
  · rename_i hdata
    subst hdata
    rw [List.append_nil] at htext
    have hall : s.sent ++ [] =
        ({ s with router := router, stdin := stdin, eof := eof } : Session).typed := by
      rw [List.append_nil,hsent,htext]
    cases last with
    | none =>
      exact { h with
        text := fun _ => hall
        reader := hholds
        reported := fun e he => absurd he (hidle e) }
    | some last =>
      exact { h with
        text := fun _ => hall
        reader := ⟨last,rfl,hholds.2⟩
        reported := fun e he => absurd he (hidle e) }
  · rename_i hdata
    have hall : s.sent ++ data =
        ({ s with router := router, stdin := stdin, eof := eof } : Session).typed := by
      rw [hsent,htext]
    exact { h with
      text := fun _ => hall
      reader := by
        cases last with
        | none => exact ⟨hdata,hholds⟩
        | some last => exact ⟨hdata,hholds⟩
      reported := fun e he => absurd he (hidle e) }

theorem Inv.read (input : List Byte) : Inv (s.read input) := by
  unfold Session.read
  split
  · rename_i hreading
    obtain ⟨hterminal,heof,hdetach,hrouter⟩ := h.flowing hreading
    have htyped : s.typed = s.routed.1.1 := by
      rw [typed,heof]
      exact List.append_nil _
    split
    · apply h.handOver hrunning hreading
      · rw [htyped,hrouter]
        show s.routed.1.1 ++ s.routed.2.held = _
        unfold PrefixRouter.finish PrefixRouter.held
        split <;> rfl
      · exact ⟨hterminal,hdetach,rfl⟩
    · have happend := PrefixRouter.route_append ⟨false⟩ s.stdin input hdetach
      apply h.handOver hrunning hreading
      · rw [htyped,hrouter]
        show ((PrefixRouter.route ⟨false⟩ (s.stdin ++ input)).1.1 ++ if s.eof then _ else []) = _
        rw [heof,happend]
        exact List.append_nil _
      · rw [hrouter]
        cases hcut : (s.routed.2.route input).1.2 with
        | false =>
          refine ⟨hterminal,heof,?_,?_⟩
          · show (PrefixRouter.route ⟨false⟩ (s.stdin ++ input)).1.2 = false
            rw [happend]
            exact hcut
          · show _ = (PrefixRouter.route ⟨false⟩ (s.stdin ++ input)).2
            rw [happend]
            rfl
        | true =>
          refine ⟨hterminal,?_,heof⟩
          show (PrefixRouter.route ⟨false⟩ (s.stdin ++ input)).1.2 = true
          rw [happend]
          exact hcut
  · exact h

theorem Inv.readFailed (hreading : s.reader = .reading) (message : String) :
    Inv { s with reader := .stopped, terminal := some (.error message) } := by
  obtain ⟨-,heof,hdetach,-⟩ := h.flowing hreading
  have heq := h.forwarded_eq hrunning
  rw [forwarded,hreading] at heq
  exact { h with
    text := fun _ => heq
    reader := ⟨_,rfl,hdetach,heof⟩
    reported := fun e he => by simp [hrunning] at he }

theorem Inv.send : Inv s.send := by
  unfold Session.send
  split
  · rename_i data last hsending
    have hreader := h.reader
    rw [ReaderHolds,hsending] at hreader
    split
    · rename_i hroom
      have heq := h.forwarded_eq hrunning
      have hdata : data ≠ [] := by
        cases last with
        | none => exact hreader.1
        | some last => exact hreader.1
      have hall : ({ s with channel := s.channel ++ [data] } : Session).sent ++ [] = s.typed := by
        rw [← heq,forwarded,hsending]
        simp [sent,requested,ReaderPhase.unsent]
      have hfilled : ∀ d ∈ s.channel ++ [data], d ≠ [] := by
        intro d hd
        rcases List.mem_append.mp hd with hold | hnew
        · exact h.filled d hold
        · rwa [List.mem_singleton.mp hnew]
      have hbound : (s.channel ++ [data]).length ≤ channelCapacity := by
        rw [List.length_append,List.length_singleton]
        exact hroom
      cases last with
      | none =>
        exact { h with
          text := fun _ => hall
          reader := hreader.2
          filled := hfilled
          bound := hbound
          reported := fun e he => by simp [conclude,hrunning] at he }
      | some last =>
        exact { h with
          text := fun _ => hall
          reader := ⟨last,rfl,hreader.2.2⟩
          filled := hfilled
          bound := hbound
          reported := fun e he => by simp [conclude,hrunning] at he }
    · exact h
  · exact h

theorem Inv.recv : Inv s.recv := by
  have hleft := h.running hrunning
  have hidle : ∀ e, s.exit ≠ some (.ok e) := fun e he => by simp [hrunning] at he
  have heq := h.forwarded_eq hrunning
  unfold Session.recv
  split
  · exact h
  · rename_i hpending
    have hnone : s.pending = none := by simpa using hpending
    have hunpolled : s.polled = false := by rw [h.polled,hnone]; rfl
    split
    · rename_i data channel hchannel
      have hdata : data ≠ [] := h.filled data (by simp [hchannel])
      have hfilled : ∀ d ∈ channel, d ≠ [] := fun d hd => h.filled d (by simp [hchannel,hd])
      have hbound : channel.length ≤ channelCapacity := by
        have hlength := h.bound
        rw [hchannel,List.length_cons] at hlength
        omega
      split
      · rename_i henabled
        have hall : ({ s with channel := channel, pending := some ⟨data,false⟩ } : Session).forwarded =
            s.typed := by
          rw [← heq]
          simp [forwarded,sent,requested,hchannel,hnone,hleft]
        exact { h with
          text := fun _ => hall
          reader := h.reader
          disabled := fun hdisabled => by simp [henabled] at hdisabled
          filled := hfilled
          asked := fun p hp => by
            obtain rfl := Option.some.inj hp
            exact hdata
          polled := hunpolled
          bound := hbound
          reported := fun e he => absurd he (hidle e) }
      · rename_i henabled
        have hall : ({ s with channel := channel, ignored := s.ignored ++ data } : Session).forwarded =
            s.typed := by
          rw [← heq]
          simp [forwarded,sent,requested,hchannel,hnone,hleft]
        exact { h with
          text := fun _ => hall
          reader := h.reader
          enabled := fun henabled' => absurd henabled' henabled
          filled := hfilled
          bound := hbound
          reported := fun e he => absurd he (hidle e) }
    · rename_i hchannel
      split
      · rename_i hstopped
        exact { h with
          text := fun _ => heq
          reader := h.reader
          running := fun hnever => (by cases hnever)
          reported := fun e he => by
            cases he
            refine ⟨hchannel,?_,?_,hstopped⟩
            · simp [unconfirmed,hunpolled]
            · simp [unsent,requested,hnone,hleft] }
      · exact h

end

theorem foldl_length (channel : List (List Byte)) (n : ℕ) :
    channel.foldl (fun n data => n+data.length) n = n+channel.flatten.length := by
  induction channel generalizing n with
  | nil => rfl
  | cons data channel ih =>
    rw [List.foldl_cons,ih,List.flatten_cons,List.length_append]
    omega

/-- A view that ends drops its request and its channel, and says what it drops. -/
theorem Inv.finishTerminalInput (h : Inv s) (hrunning : s.exit = none) {empty : TerminalExit}
    (hempty : empty = .ended ∨ empty = .detach ∧ s.reader = .stopped) :
    Inv { s.finishTerminalInput empty with left := s.channel } := by
  have hleft := h.running hrunning
  have heq := h.forwarded_eq hrunning
  have hall : ({ s.finishTerminalInput empty with left := s.channel } : Session).forwarded =
      s.typed := by
    rw [← heq]
    simp [Session.finishTerminalInput,forwarded,sent,requested,hleft]
  have hnotSent : s.channel.foldl (fun n data => n+data.length)
      (if s.pending.any (·.attempted) then 0 else s.requested.length) =
      ({ s.finishTerminalInput empty with left := s.channel } : Session).unsent.length := by
    rw [foldl_length]
    show _ = ((if s.polled then [] else s.requested) ++ s.channel.flatten).length
    rw [h.polled,List.length_append]
    split <;> rfl
  have hunconfirmed : s.pending.any (·.attempted) = true ↔
      ({ s.finishTerminalInput empty with left := s.channel } : Session).unconfirmed ≠ [] := by
    show _ ↔ (if s.polled then s.requested else []) ≠ []
    rw [h.polled]
    cases hpending : s.pending with
    | none => simp
    | some p =>
      have hbytes := h.asked p hpending
      cases hattempted : p.attempted <;> simp [requested,hpending,hattempted,hbytes]
  have hexit : (s.finishTerminalInput empty).exit = some (.ok
      (if s.pending.any (·.attempted) ∨ 0 <
          ({ s.finishTerminalInput empty with left := s.channel } : Session).unsent.length then
        .inputUnsettled (s.pending.any (·.attempted))
          ({ s.finishTerminalInput empty with left := s.channel } : Session).unsent.length
        else empty)) := by
    rw [← hnotSent]
    rfl
  have hreported : ∀ e, (s.finishTerminalInput empty).exit = some (.ok e) →
      ({ s.finishTerminalInput empty with left := s.channel } : Session).Reported e := by
    intro e he
    rw [hexit] at he
    cases he
    split
    · rename_i hunsettled
      exact ⟨rfl,hunconfirmed,hunsettled⟩
    · rename_i hquiet
      obtain ⟨hattempted,hlength⟩ := not_or.mp hquiet
      have hconfirmed := not_ne_iff.mp fun hne => hattempted (hunconfirmed.mpr hne)
      have hnothing := List.length_eq_zero_iff.mp (Nat.eq_zero_of_not_pos hlength)
      rcases hempty with rfl | ⟨rfl,hstopped⟩
      · exact ⟨hconfirmed,hnothing⟩
      · exact ⟨hconfirmed,hnothing,hstopped⟩
  exact { h with
    text := fun _ => hall
    reader := h.reader
    filled := fun d hd => (List.not_mem_nil hd).elim
    bound := Nat.zero_le _
    running := fun hnever => (by cases hnever)
    reported := fun e he => ⟨rfl,hreported e he⟩ }

theorem Inv.fails (h : Inv s) (message : String) (left : List (List Byte)) :
    Inv { s with exit := some (.error message), left := left } :=
  { h with
    text := fun hnever => absurd rfl (hnever message)
    reader := h.reader
    running := fun hnever => (by cases hnever)
    reported := fun e he => (by cases he) }

theorem Inv.poll (h : Inv s) (hrunning : s.exit = none) :
    Inv { s with
      pending := s.pending.map fun p => { p with attempted := true }
      polled := s.pending.isSome } := by
  have hsame : (s.pending.map fun p => { p with attempted := true }).map (·.bytes) =
      s.pending.map (·.bytes) := by
    cases s.pending <;> rfl
  have hall : ({ s with
      pending := s.pending.map fun p => { p with attempted := true }
      polled := s.pending.isSome } : Session).forwarded = s.typed := by
    rw [← h.forwarded_eq hrunning]
    simp only [forwarded,sent,requested,hsame]
  exact { h with
    text := fun _ => hall
    reader := h.reader
    disabled := fun hdisabled => ⟨(h.disabled hdisabled).1,by simp [(h.disabled hdisabled).2]⟩
    asked := fun p hp => by
      obtain ⟨q,hq,rfl⟩ := Option.map_eq_some_iff.mp hp
      exact h.asked q hq
    polled := by cases s.pending <;> rfl
    reported := fun e he => by simp [hrunning] at he }

theorem Inv.settled (h : Inv s) (hrunning : s.exit = none) :
    Inv { s with
      pending := none, settled := s.settled ++ s.requested, polled := false } := by
  have hall : ({ s with
      pending := none, settled := s.settled ++ s.requested, polled := false } : Session).forwarded =
      s.typed := by
    rw [← h.forwarded_eq hrunning]
    cases hpending : s.pending with
    | none => simp [forwarded,sent,requested,hpending]
    | some p =>
      have henabled : s.inputEnabled = true := by
        by_contra hdisabled
        have hnone := (h.disabled (by simpa using hdisabled)).2
        rw [hpending] at hnone
        cases hnone
      simp [forwarded,sent,requested,hpending,h.enabled henabled]
  exact { h with
    text := fun _ => hall
    reader := h.reader
    disabled := fun hdisabled => by
      simp [requested,(h.disabled hdisabled).1,(h.disabled hdisabled).2]
    asked := fun p hp => (by cases hp)
    polled := rfl
    reported := fun e he => by simp [hrunning] at he }

@[simp] theorem handOver_frame (s : Session) (data : List Byte) (last : Option TerminalInput) :
    (s.handOver data last).inputEnabled = s.inputEnabled ∧ (s.handOver data last).exit = s.exit ∧
      (s.handOver data last).polled = s.polled ∧ (s.handOver data last).left = s.left := by
  unfold Session.handOver
  cases last <;> split <;> exact ⟨rfl,rfl,rfl,rfl⟩

theorem read_frame (s : Session) (input : List Byte) :
    (s.read input).inputEnabled = s.inputEnabled ∧ (s.read input).exit = s.exit ∧
      (s.read input).polled = s.polled ∧ (s.read input).left = s.left := by
  unfold Session.read
  split
  · split <;> exact handOver_frame _ _ _
  · exact ⟨rfl,rfl,rfl,rfl⟩

theorem send_frame (s : Session) : s.send.inputEnabled = s.inputEnabled ∧ s.send.exit = s.exit ∧
    s.send.polled = s.polled ∧ s.send.left = s.left := by
  unfold Session.send
  split
  · rename_i data last _
    split
    · cases last <;> exact ⟨rfl,rfl,rfl,rfl⟩
    · exact ⟨rfl,rfl,rfl,rfl⟩
  · exact ⟨rfl,rfl,rfl,rfl⟩

theorem recv_frame (s : Session) : s.recv.inputEnabled = s.inputEnabled ∧
    s.recv.polled = s.polled ∧ s.recv.left = s.left ∧ (s.recv.exit.isSome = true →
      s.exit.isSome = true ∨ s.channel = []) := by
  unfold Session.recv
  split
  · exact ⟨rfl,rfl,rfl,Or.inl⟩
  · split
    · split <;> exact ⟨rfl,rfl,rfl,Or.inl⟩
    · rename_i hchannel
      split <;> exact ⟨rfl,rfl,rfl,fun _ => Or.inr hchannel⟩

theorem step_inputEnabled (s : Session) (e : SessionEvent) :
    (s.step e).inputEnabled = s.inputEnabled := by
  unfold Session.step
  split
  · rfl
  · show (s.act e).inputEnabled = s.inputEnabled
    cases e with
    | read input => exact (read_frame s input).1
    | readFailed message => dsimp only [Session.act]; split <;> rfl
    | send => exact (send_frame s).1
    | settle result =>
      cases result with
      | error message => dsimp only [Session.act]; split <;> rfl
      | ok _ => rfl
    | recv => exact (recv_frame s).1
    | terminal => dsimp only [Session.act]; split <;> rfl
    | poll => rfl
    | ended => rfl
    | failed message => rfl

/-- A turn that neither asks nor answers leaves the record as it was. -/
theorem step_eq (hrunning : s.exit = none) (hleft : s.left = []) {e : SessionEvent}
    (hpolled : (s.act e).polled = s.asked e) (hkept : (s.act e).left = s.left)
    (hends : (s.act e).exit.isSome = true → s.channel = []) : s.step e = s.act e := by
  have hrecord : (if (s.act e).exit.isSome then s.channel else []) = (s.act e).left := by
    rw [hkept,hleft]
    split
    · rename_i hexit
      exact hends hexit
    · rfl
  rw [step,hrunning,if_neg (by simp),hrecord,← hpolled]

theorem Inv.unsent_of_terminal (h : Inv s) (hterminal : s.terminal.isSome = true) :
    s.reader = .stopped := by
  have hreader := h.reader
  rw [ReaderHolds] at hreader
  split at hreader
  · simp [hreader.1] at hterminal
  · simp [hreader.2.1] at hterminal
  · simp [hreader.2.1] at hterminal
  · assumption

/-- A turn that changes nothing but the record of what was asked. -/
theorem Inv.idle (h : Inv s) (hrunning : s.exit = none) {e : SessionEvent} (hact : s.act e = s)
    (hpolled : s.polled = s.asked e) : Inv (s.step e) := by
  have hstep : s.step e = s := by
    rw [step_eq hrunning (h.running hrunning) (by rw [hact,hpolled]) (by rw [hact])
      (by simp [hact,hrunning]),hact]
  rwa [hstep]

theorem Inv.step_readFailed (h : Inv s) (hrunning : s.exit = none) (message : String) :
    Inv (s.step (.readFailed message)) := by
  by_cases hreading : s.reader = .reading
  · have hact : s.act (.readFailed message) =
        { s with reader := .stopped, terminal := some (.error message) } := if_pos hreading
    rw [step_eq hrunning (h.running hrunning) (by rw [hact]; rfl) (by rw [hact])
      (by simp [hact,hrunning]),hact]
    exact h.readFailed hrunning hreading message
  · exact h.idle hrunning (if_neg hreading) rfl

theorem Inv.step_settle (h : Inv s) (hrunning : s.exit = none) (result : Except String Unit) :
    Inv (s.step (.settle result)) := by
  have hexit : ¬s.exit.isSome = true := by simp [hrunning]
  cases result with
  | error message =>
    by_cases hpending : s.pending.isSome = true
    · have hact : s.act (.settle (.error message)) =
          { s with pending := none, exit := some (.error message) } := if_pos hpending
      rw [Session.step,if_neg hexit,hact]
      exact { h with
        text := fun hnever => absurd rfl (hnever message)
        reader := h.reader
        disabled := fun hdisabled => ⟨(h.disabled hdisabled).1,rfl⟩
        asked := fun p hp => (by cases hp)
        polled := rfl
        running := fun hnever => (by cases hnever)
        reported := fun e he => (by cases he) }
    · have hnone : s.pending = none := by simpa using hpending
      exact h.idle hrunning (if_neg hpending) (by rw [h.polled,hnone]; rfl)
  | ok _ =>
    have hsettled := h.settled hrunning
    rw [Session.step,if_neg hexit]
    simpa only [Session.act,Session.asked,hrunning,Option.isSome_none,Bool.false_eq_true,
      if_false,h.running hrunning] using hsettled

theorem Inv.step_terminal (h : Inv s) (hrunning : s.exit = none) : Inv (s.step .terminal) := by
  cases hterminal : s.terminal with
  | none => exact h.idle hrunning (by rw [Session.act,hterminal]) rfl
  | some last =>
    rw [Session.step,if_neg (by simp [hrunning])]
    have hfinished : Inv { s.finishTerminalInput .detach with left := s.channel } :=
      h.finishTerminalInput hrunning (.inr ⟨rfl,h.unsent_of_terminal (by simp [hterminal])⟩)
    cases last with
    | error message =>
      have hact : s.act .terminal = { s with exit := some (.error message) } := by
        dsimp only [Session.act]
        split
        · rename_i hnone
          rw [hterminal] at hnone
          cases hnone
        · rename_i hfailed
          rw [hterminal] at hfailed
          cases hfailed
          rfl
        · rename_i hother hlast
          rw [hterminal] at hlast
          cases hlast
          exact absurd rfl (hother message)
      rw [hact]
      exact h.fails message _
    | detach =>
      simp only [Session.act,hterminal]
      exact hfinished
    | closed =>
      simp only [Session.act,hterminal]
      exact hfinished

theorem Inv.step (h : Inv s) (e : SessionEvent) : Inv (s.step e) := by
  by_cases hexit : s.exit.isSome = true
  · rwa [Session.step,if_pos hexit]
  · have hrunning : s.exit = none := by simpa using hexit
    have hleft := h.running hrunning
    have hquiet : s.exit.isSome = true → s.channel = [] := fun hsome => absurd hsome hexit
    cases e with
    | read input =>
      obtain ⟨-,hsame,hpolled,hkept⟩ := read_frame s input
      have hstep : s.step (.read input) = s.read input :=
        step_eq hrunning hleft hpolled hkept fun hsome => hquiet (hsame ▸ hsome)
      rw [hstep]
      exact h.read hrunning input
    | readFailed message => exact h.step_readFailed hrunning message
    | send =>
      obtain ⟨-,hsame,hpolled,hkept⟩ := send_frame s
      have hstep : s.step .send = s.send :=
        step_eq hrunning hleft hpolled hkept fun hsome => hquiet (hsame ▸ hsome)
      rw [hstep]
      exact h.send hrunning
    | poll =>
      have hpoll := h.poll hrunning
      rw [Session.step,if_neg hexit]
      simpa only [Session.act,Session.asked,hrunning,Option.isSome_none,Bool.false_eq_true,if_false,
        hleft] using hpoll
    | settle result => exact h.step_settle hrunning result
    | recv =>
      obtain ⟨-,hpolled,hkept,hends⟩ := recv_frame s
      have hstep : s.step .recv = s.recv :=
        step_eq hrunning hleft hpolled hkept fun hsome => (hends hsome).elim hquiet id
      rw [hstep]
      exact h.recv hrunning
    | terminal => exact h.step_terminal hrunning
    | ended =>
      rw [Session.step,if_neg hexit]
      exact h.finishTerminalInput hrunning (.inl rfl)
    | failed message =>
      rw [Session.step,if_neg hexit]
      exact h.fails message _

end Session

open Session in
/-- Whatever is typed, however the reads cut it and whichever side takes its turns: the
bytes before the detach sequence are forwarded once and in order, and each of them is in an
answered request, ignored by a read-only view, in the request that is out, in the channel or
with the thread. A view that ends counts the bytes it has not sent and says whether a
request that was polled is unconfirmed; what the thread still holds is in no report. When
the user detaches and the view says nothing, every byte has been answered or ignored. -/
theorem terminal_input_accounted (inputEnabled : Bool) (es : List SessionEvent) :
    let s := Machine.run Session.step (Session.start inputEnabled) es
    let cut := PrefixRouter.route ⟨false⟩ s.stdin
    let typed := cut.1.1 ++ if s.eof then cut.2.held else []
    (cut.1.2 = false ∧ s.stdin = cut.1.1 ++ cut.2.held ∨
      cut.1.2 = true ∧ ∃ rest, s.stdin = cut.1.1 ++ prefixKey::detachKey::rest) ∧
    (s.terminal = some .detach → cut.1.2 = true) ∧ (s.terminal = some .closed → s.eof = true) ∧
    s.channel.length ≤ channelCapacity ∧
    (if inputEnabled then s.ignored = [] else s.settled = [] ∧ s.pending = none) ∧
    (s.exit = none → s.settled ++ s.ignored ++ s.requested ++ s.channel.flatten ++
      s.reader.unsent = typed) ∧
    ∀ e, s.exit = some (.ok e) →
      s.settled ++ s.ignored ++ s.unconfirmed ++ s.unsent ++ s.reader.unsent = typed ∧
      (s.terminal.isSome = true → s.reader.unsent = []) ∧
      match e with
      | .detach => s.settled ++ s.ignored = typed
      | .ended => s.unconfirmed = [] ∧ s.unsent = []
      | .inputUnsettled mayHaveBeenSent notSentBytes =>
        notSentBytes = s.unsent.length ∧ (mayHaveBeenSent = true ↔ s.unconfirmed ≠ []) ∧
          (mayHaveBeenSent = true ∨ 0 < notSentBytes) := by
  intro s cut typed
  have h : Inv s := Machine.run_invariant (fun _ e h => h.step e) (Inv.start inputEnabled) es
  have henabled : s.inputEnabled = inputEnabled :=
    Machine.run_invariant (fun s e h => (step_inputEnabled s e).trans h) rfl es
  obtain ⟨hgoes,hends⟩ := PrefixRouter.route_spec ⟨false⟩ s.stdin
  have hstopped : s.terminal.isSome = true → ∃ last, s.terminal = some last ∧ s.Over last := by
    intro hterminal
    have hreader := h.reader
    rwa [ReaderHolds,h.unsent_of_terminal hterminal] at hreader
  refine ⟨?_,?_,?_,h.bound,?_,?_,?_⟩
  · cases hcut : cut.1.2 with
    | false => exact .inl ⟨rfl,hgoes hcut⟩
    | true =>
      obtain ⟨-,rest,hrest⟩ := hends hcut
      exact .inr ⟨rfl,rest,hrest⟩
  · intro hdetach
    obtain ⟨last,hlast,hover⟩ := hstopped (by simp [hdetach])
    obtain rfl : last = .detach := Option.some.inj (hlast.symm.trans hdetach)
    exact hover.1
  · intro hclosed
    obtain ⟨last,hlast,hover⟩ := hstopped (by simp [hclosed])
    obtain rfl : last = .closed := Option.some.inj (hlast.symm.trans hclosed)
    exact hover.2
  · cases inputEnabled with
    | true => exact h.enabled henabled
    | false => exact h.disabled henabled
  · intro hrunning
    have heq := h.forwarded_eq hrunning
    rw [forwarded,sent,h.running hrunning] at heq
    show _ = s.typed
    simpa using heq
  · intro e he
    obtain ⟨hchannel,hreported⟩ := h.reported e he
    have heq := h.text fun message hfailed => by simp [he] at hfailed
    have hrequest : s.unconfirmed ++ s.unsent = s.requested ++ s.left.flatten := by
      unfold Session.unconfirmed Session.unsent
      cases s.polled <;> simp
    have hall : s.settled ++ s.ignored ++ s.unconfirmed ++ s.unsent ++ s.reader.unsent = typed := by
      rw [List.append_assoc (s.settled ++ s.ignored),hrequest]
      rw [forwarded,sent,hchannel] at heq
      show _ = s.typed
      simpa using heq
    refine ⟨hall,fun hterminal => by rw [h.unsent_of_terminal hterminal]; rfl,?_⟩
    cases e with
    | detach =>
      obtain ⟨hconfirmed,hnothing,hreader⟩ := hreported
      rw [hconfirmed,hnothing,hreader] at hall
      simpa [ReaderPhase.unsent] using hall
    | ended => exact hreported
    | inputUnsettled mayHaveBeenSent notSentBytes => exact hreported

end Cli
end Ctxmux
