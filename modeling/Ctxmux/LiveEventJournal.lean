import Ctxmux.Machine

/-!
# The live event journal of a Run

One inline envelope and a growable deque hold the events that some receiver still
needs. Positions count all events ever sent; `base` is the position of the inline
envelope and `next` the one of the next event. Under byte pressure the publisher
retires events from the front, and a receiver behind `base` learns how many it lost.
-/

namespace Ctxmux
namespace Journal

/-- The largest `u64`, and the largest `usize` of a 64-bit host. -/
def u64Max : ℕ := 2^64-1

/-- What `try_recv` returns; `panicked` stands for a failed `expect` or index. -/
inductive Recv (ε : Type) where
  | event (e : ε)
  | lagged (n : ℕ)
  | empty
  | closed
  | panicked
deriving DecidableEq,Repr

/-- What became of an event in `send`. -/
inductive Sent where
  | ignored | accepted | overflow | assertFailed
deriving DecidableEq,Repr

structure State (ε : Type) where
  first : Option ε
  rest : List ε
  restCapacity : ℕ
  base : ℕ
  next : ℕ
  readers : List (Option ℕ)
  readersCapacity : ℕ
  receiverCount : ℕ
  closed : Bool
deriving DecidableEq,Repr

variable {ε : Type}

namespace State

def new : State ε where
  first := none
  rest := []
  restCapacity := 0
  base := 0
  next := 0
  readers := []
  readersCapacity := 0
  receiverCount := 0
  closed := false

/-- The events that the journal still holds, oldest first. -/
def held (s : State ε) : List ε := s.first.toList ++ s.rest

/-- Drop the oldest event; the flag says whether it was output or a gap. -/
def retire (output : ε → Bool) (s : State ε) : State ε × Bool :=
  match s.first with
  | none => (s,false)
  | some retired =>
    match s.rest with
    | [] => ({ s with first := none, rest := [], restCapacity := 0, base := s.base+1 },output retired)
    | e::rest => ({ s with first := some e, rest := rest, base := s.base+1 },output retired)

/-- The loop of `reclaim`, which runs while `base` is below `through`. -/
def retireTo (output : ε → Bool) (s : State ε) (through : ℕ) : State ε :=
  (fun s => (retire output s).1)^[through-s.base] s

def reclaim (output : ε → Bool) (s : State ε) : State ε :=
  s.retireTo output ((s.readers.filterMap id).min?.getD s.next)

/-- The slots that a container of this capacity asks for when it is full. -/
def doubled (capacity : ℕ) : Option ℕ :=
  if capacity*2 ≤ u64Max then some (max (capacity*2) 1) else none

/-- `grow` is the outcome of funding and allocating the larger registry: refused, or so
many slots beyond the request. -/
def subscribe (s : State ε) (grow : Option ℕ) : Option (ℕ × State ε) :=
  if s.closed then none
  else
    match s.readers.findIdx? Option.isNone with
    | some reader => some (reader,{ s with
        readers := s.readers.set reader (some s.next)
        receiverCount := s.receiverCount+1 })
    | none =>
      if s.readers.length = s.readersCapacity then do
        let requested ← doubled s.readersCapacity
        let extra ← grow
        some (s.readers.length,{ s with
          readers := s.readers ++ [some s.next]
          readersCapacity := requested+extra
          receiverCount := s.receiverCount+1 })
      else some (s.readers.length,{ s with
        readers := s.readers ++ [some s.next]
        receiverCount := s.receiverCount+1 })

/-- Fund one more slot of the deque, or retire the oldest event. -/
def fundSlot (output : ε → Bool) (s : State ε) (grow : Option ℕ) : State ε × Bool :=
  if s.first.isSome ∧ s.rest.length = s.restCapacity then
    match doubled s.restCapacity,grow with
    | some requested,some extra => ({ s with restCapacity := requested+extra },false)
    | _,_ => s.retire output
  else (s,false)

/-- The oldest events go while the budget refuses the allocation. -/
def retireRefused (output : ε → Bool) : ℕ → State ε → State ε × Bool
  | 0, s => (s,false)
  | n+1, s =>
    if s.first.isSome then
      let (s',lost) := s.retire output
      let (s'',more) := retireRefused output n s'
      (s'',lost || more)
    else (s,false)

/-- What `prepare` returns besides the journal. -/
structure Prepared where
  memory : Bool
  retiredOutput : Bool
deriving DecidableEq,Repr

/-- `grow` is the outcome of funding the larger deque and `refusals` says how often the
budget refuses the event's own allocation before it grants it; `none` is always. -/
def prepare (output : ε → Bool) (s : State ε) (grow : Option ℕ) (allocation : Bool)
    (refusals : Option ℕ) : State ε × Prepared :=
  let (s₁,lost) := (s.reclaim output).fundSlot output grow
  if allocation then
    let (s₂,more) := retireRefused output (refusals.getD s₁.held.length) s₁
    (s₂,⟨refusals.any fun n => n ≤ s₁.held.length,lost || more⟩)
  else (s₁,⟨false,lost⟩)

/-- The sequence number moves before the slot is asserted. -/
def send (s : State ε) (e : ε) : State ε × Sent :=
  if s.closed ∨ s.receiverCount = 0 then (s,.ignored)
  else if u64Max ≤ s.next then (s,.overflow)
  else if s.first.isNone then ({ s with first := some e, next := s.next+1 },.accepted)
  else if s.rest.length < s.restCapacity then
    ({ s with rest := s.rest ++ [e], next := s.next+1 },.accepted)
  else ({ s with next := s.next+1 },.assertFailed)

/-- The position of a registered receiver. -/
def position? (s : State ε) (reader : ℕ) : Option ℕ := s.readers[reader]?.join

def tryRecv (output : ε → Bool) (s : State ε) (reader position : ℕ) : State ε × Recv ε :=
  if position < s.base then
    ({ s with readers := s.readers.set reader (some s.base) },.lagged (s.base-position))
  else if position = s.next then (s,if s.closed then .closed else .empty)
  else
    let event := if position-s.base = 0 then s.first else s.rest[position-s.base-1]?
    match event with
    | none => (s,.panicked)
    | some e =>
      (reclaim output { s with readers := s.readers.set reader (some (position+1)) },.event e)

def dropReceiver (output : ε → Bool) (s : State ε) (reader : ℕ) : State ε :=
  let s := reclaim output { s with
    readers := s.readers.set reader none
    receiverCount := s.receiverCount-1 }
  if s.receiverCount = 0 then { s with readers := [], readersCapacity := 0 } else s

end State

/-- The journal with its serialized publisher: the publisher owns the sender until it
drops it, and it sends at most one event for each preparation. -/
structure Live (ε : Type) where
  journal : State ε
  prepared : Bool
deriving DecidableEq,Repr

def Live.start : Live ε := ⟨State.new,false⟩

inductive Event (ε : Type) where
  | subscribe (grow : Option ℕ)
  | prepare (grow : Option ℕ) (allocation : Bool) (refusals : Option ℕ)
  | send (e : ε)
  | tryRecv (reader : ℕ)
  | dropReceiver (reader : ℕ)
  | dropSender
deriving DecidableEq,Repr

def Event.sends : Event ε → Bool
  | .send _ => true
  | _ => false

namespace Live

/-- The publisher owns the sender and has prepared an event. -/
def MaySend (s : Live ε) : Prop := s.journal.closed = false ∧ s.prepared = true

instance (s : Live ε) : Decidable s.MaySend :=
  inferInstanceAs (Decidable (s.journal.closed = false ∧ s.prepared = true))

/-- What a send of the publisher does, if the publisher may send. -/
def sendOutcome (s : Live ε) (e : ε) : Option Sent :=
  if s.MaySend then some (s.journal.send e).2 else none

/-- An event that no owner can cause changes nothing: a dropped sender is used no more,
and only a registered receiver receives or is dropped. -/
def step (output : ε → Bool) (s : Live ε) : Event ε → Live ε
  | .subscribe grow => { s with journal := ((s.journal.subscribe grow).map (·.2)).getD s.journal }
  | .prepare grow allocation refusals =>
    if s.journal.closed then s
    else ⟨(s.journal.prepare output grow allocation refusals).1,true⟩
  | .send e =>
    if s.MaySend then ⟨(s.journal.send e).1,false⟩ else s
  | .tryRecv reader =>
    match s.journal.position? reader with
    | none => s
    | some position => { s with journal := (s.journal.tryRecv output reader position).1 }
  | .dropReceiver reader =>
    match s.journal.position? reader with
    | none => s
    | some _ => { s with journal := s.journal.dropReceiver output reader }
  | .dropSender => { s with journal := { s.journal with closed := true } }

end Live

/-- What one receiver may observe: an event is sent, the sender goes, a result arrives. -/
inductive Observation (ε : Type) where
  | sent (e : ε)
  | dropped
  | got (result : Recv ε)
deriving DecidableEq,Repr

/-- The observation that an event of the system makes for the receiver. An event counts as
sent when the publisher calls `send` with it, whatever `send` does; a call for which no
sequence number is left ends the publisher. -/
def observe (output : ε → Bool) (reader : ℕ) (s : Live ε) : Event ε → List (Observation ε)
  | .send e => if s.MaySend ∧ s.journal.next < u64Max then [.sent e] else []
  | .dropSender => if s.journal.closed then [] else [.dropped]
  | .tryRecv other =>
    if other = reader then
      match s.journal.position? reader with
      | none => []
      | some position => [.got (s.journal.tryRecv output reader position).2]
    else []
  | _ => []

def Event.drops (reader : ℕ) : Event ε → Bool
  | .dropReceiver other => other = reader
  | _ => false

/-- The observations of the receiver until it is dropped. -/
def trace (output : ε → Bool) (reader : ℕ) : Live ε → List (Event ε) → List (Observation ε)
  | _, [] => []
  | s, e::es =>
    if e.drops reader then []
    else observe output reader s e ++ trace output reader (s.step output e) es

/-- The observations of a receiver from its subscription on. -/
def subscriptionTrace (output : ε → Bool) (s : Live ε) (grow : Option ℕ) (es : List (Event ε)) :
    List (Observation ε) :=
  match s.journal.subscribe grow with
  | none => []
  | some (reader,journal) => trace output reader { s with journal := journal } es

/-- The events that are sent and neither delivered nor counted as lost. -/
structure Outbox (ε : Type) where
  pending : List ε
  closed : Bool

/-- What the receiver is promised: events in the order in which they were sent, each lag
for as many of them as it says, nothing else, and the end only when all are accounted for. -/
def Outbox.Accepts : Outbox ε → List (Observation ε) → Prop
  | _, [] => True
  | o, .sent e::os => o.closed = false ∧ Accepts ⟨o.pending ++ [e],o.closed⟩ os
  | o, .dropped::os => Accepts ⟨o.pending,true⟩ os
  | o, .got (.event e)::os => ∃ rest, o.pending = e::rest ∧ Accepts ⟨rest,o.closed⟩ os
  | o, .got (.lagged n)::os => 0 < n ∧ n ≤ o.pending.length ∧ Accepts ⟨o.pending.drop n,o.closed⟩ os
  | o, .got .empty::os => o.pending = [] ∧ o.closed = false ∧ Accepts o os
  | o, .got .closed::os => o.pending = [] ∧ o.closed = true ∧ Accepts o os
  | _, .got .panicked::_ => False

end Journal
end Ctxmux
