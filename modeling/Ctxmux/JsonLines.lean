import Ctxmux.Machine

/-!
# The JSON-lines connection of the SDK

A connection cuts the bytes of a socket into lines. A complete line goes to the oldest
waiting receiver, or into a bounded queue; when the queue is full the socket is paused
and the bytes stay in the raw buffer until a receive makes room. Decoding and parsing
are parameters: what a line means does not matter here, only whether it has a meaning.
-/

namespace Ctxmux
namespace Wire

def maxFrameBytes : ℕ := 1048576
def maxQueuedLines : ℕ := 256
def maxQueuedBytes : ℕ := maxFrameBytes

/-- The fatal UTF-8 decoder and the JSON frame parser. -/
structure Codec (α β : Type) where
  decode : List UInt8 → Option α
  parse : α → Option β

inductive WireError where
  | frameTooLarge
  | invalidUtf8
  | invalidJson
  | remote (message : String)
  deriving DecidableEq, Repr

structure QueuedLine (α : Type) where
  value : α
  bytes : ℕ
  deriving DecidableEq, Repr

inductive Received (β : Type) where
  | value (value : β)
  | error (error : WireError)
  deriving DecidableEq, Repr

inductive SocketState where
  | flowing | paused | destroyed
  deriving DecidableEq, Repr

/-- Receivers are numbered by their calls; `results` records how each one settled.
`stream` is what the socket delivered before its end. -/
structure JsonLinesConnection (α β : Type) where
  buffer : List UInt8
  lines : List (QueuedLine α)
  queuedBytes : ℕ
  waiting : List ℕ
  terminalError : Option WireError
  paused : Bool
  socket : SocketState
  calls : ℕ
  results : List (ℕ × Received β)
  stream : List UInt8
  ended : Bool
  deriving DecidableEq, Repr

inductive Event where
  | data (chunk : List UInt8)
  | receive
  | ended (message : String)
  deriving DecidableEq, Repr

namespace JsonLinesConnection

variable {α β : Type}

def initial : JsonLinesConnection α β where
  buffer := []
  lines := []
  queuedBytes := 0
  waiting := []
  terminalError := none
  paused := false
  socket := .flowing
  calls := 0
  results := []
  stream := []
  ended := false

def newline : UInt8 := 0x0a

def destroy (c : JsonLinesConnection α β) : JsonLinesConnection α β :=
  { c with socket := .destroyed }

def pause (c : JsonLinesConnection α β) : JsonLinesConnection α β :=
  if c.paused then c
  else { c with paused := true, socket := if c.socket = .destroyed then .destroyed else .paused }

def resume (c : JsonLinesConnection α β) : JsonLinesConnection α β :=
  { c with paused := false, socket := if c.socket = .destroyed then .destroyed else .flowing }

def terminate (c : JsonLinesConnection α β) (error : WireError) : JsonLinesConnection α β :=
  match c.terminalError with
  | some _ => c
  | none =>
    { c with
      terminalError := some error
      results := c.results ++ c.waiting.map fun call => (call,.error error)
      waiting := [] }

/-- A line that does not parse ends the connection and drops everything it holds. -/
def parseFailed (c : JsonLinesConnection α β) : JsonLinesConnection α β :=
  ({ c with buffer := [], lines := [], queuedBytes := 0 }.terminate .invalidJson).destroy

/-- The line of one receive call is parsed when it is handed over. -/
def settle (k : Codec α β) (c : JsonLinesConnection α β) (call : ℕ) (line : α) :
    JsonLinesConnection α β :=
  match k.parse line with
  | some value => { c with results := c.results ++ [(call,.value value)] }
  | none =>
    { c.parseFailed with results := c.parseFailed.results ++ [(call,.error .invalidJson)] }

/-- The queue has no room for one more line of this length. -/
def full (c : JsonLinesConnection α β) (bytes : ℕ) : Prop :=
  maxQueuedLines ≤ c.lines.length ∨ 0 < c.lines.length ∧ maxQueuedBytes < c.queuedBytes+bytes

instance (c : JsonLinesConnection α β) (bytes : ℕ) : Decidable (c.full bytes) :=
  inferInstanceAs (Decidable (_ ∨ _))

/-- What `pump` does when the buffer holds no complete line. -/
def drained (c : JsonLinesConnection α β) : JsonLinesConnection α β :=
  if c.buffer.length > maxFrameBytes then (c.terminate .frameTooLarge).destroy
  else if c.paused ∧ c.lines.length < maxQueuedLines ∧ c.queuedBytes < maxQueuedBytes then c.resume
  else c

/-- The loop of `pump`; each turn removes one line from the buffer. -/
def pumpLoop (k : Codec α β) : ℕ → JsonLinesConnection α β → JsonLinesConnection α β
  | 0, c => c
  | fuel+1, c =>
    match c.buffer.findIdx? (· == newline) with
    | none => c.drained
    | some index =>
      if index > maxFrameBytes then (c.terminate .frameTooLarge).destroy
      else if c.waiting = [] ∧ c.full index then c.pause
      else match k.decode (c.buffer.take index) with
      | none => (c.terminate .invalidUtf8).destroy
      | some line =>
        let c := { c with buffer := c.buffer.drop (index+1) }
        match c.waiting with
        | [] =>
          pumpLoop k fuel { c with
            lines := c.lines ++ [⟨line,index⟩]
            queuedBytes := c.queuedBytes+index }
        | call::waiting =>
          let c := { c with waiting := waiting }.settle k call line
          if c.terminalError.isSome then c else pumpLoop k fuel c

def pump (k : Codec α β) (c : JsonLinesConnection α β) : JsonLinesConnection α β :=
  if c.terminalError.isSome then c else pumpLoop k (c.buffer.length+1) c

def accept (k : Codec α β) (c : JsonLinesConnection α β) (chunk : List UInt8) :
    JsonLinesConnection α β :=
  if c.terminalError.isSome then c else { c with buffer := c.buffer ++ chunk }.pump k

def receive (k : Codec α β) (c : JsonLinesConnection α β) : JsonLinesConnection α β :=
  let call := c.calls
  let c := { c with calls := c.calls+1 }
  match c.lines with
  | queued::lines =>
    ({ c with lines := lines, queuedBytes := c.queuedBytes-queued.bytes }.pump k).settle k call
      queued.value
  | [] =>
    match c.terminalError with
    | some error => { c with results := c.results ++ [(call,.error error)] }
    | none => { c with waiting := c.waiting ++ [call] }

def step (k : Codec α β) (c : JsonLinesConnection α β) : Event → JsonLinesConnection α β
  | .data chunk =>
    { c with stream := if c.ended then c.stream else c.stream ++ chunk }.accept k chunk
  | .receive => c.receive k
  | .ended message => { c with ended := true }.terminate (.remote message)

def run (k : Codec α β) (c : JsonLinesConnection α β) (es : List Event) :
    JsonLinesConnection α β := Machine.run (step k) c es

end JsonLinesConnection

/-- The newline-terminated lines of a stream, and the bytes after the last of them. -/
def splitLines : List UInt8 → List (List UInt8) × List UInt8
  | [] => ([],[])
  | byte::bytes =>
    let (lines,tail) := splitLines bytes
    if byte = JsonLinesConnection.newline then ([]::lines,tail)
    else match lines with
    | [] => ([],byte::tail)
    | line::lines => ((byte::line)::lines,tail)

def completeLines (stream : List UInt8) : List (List UInt8) := (splitLines stream).1

section Good

variable {α β : Type} (k : Codec α β)

/-- What a line says, unless it is oversized, not UTF-8 or not JSON. -/
def readLine (line : List UInt8) : Option β :=
  if line.length > maxFrameBytes then none else (k.decode line).bind k.parse

/-- The meanings of the lines before the first one without a meaning. -/
def readLines : List (List UInt8) → List β
  | [] => []
  | line::lines =>
    match readLine k line with
    | none => []
    | some value => value::readLines lines

/-- The values that a stream of bytes carries. -/
def valuesOf (stream : List UInt8) : List β := readLines k (completeLines stream)

end Good

namespace JsonLinesConnection

variable {α β : Type}

/-- No line is lost, repeated or reordered so far: the receive calls settle once each,
in the order of the values, and with an error only past all of them; a receiver waits
only when no complete line is there, and a paused socket has lines in the queue. -/
structure Faithful (k : Codec α β) (c : JsonLinesConnection α β) : Prop where
  values : ∀ call value, (call,.value value) ∈ c.results →
    (valuesOf k c.stream)[call]? = some value
  errors : ∀ call error, (call,.error error) ∈ c.results → (valuesOf k c.stream).length ≤ call
  once : (c.results.map Prod.fst ++ c.waiting).Perm (List.range c.calls)
  waiting : c.waiting ≠ [] → c.lines = [] ∧ newline ∉ c.buffer
  paused : c.socket = .paused → c.lines ≠ []

/-- The end or the error of the socket finds it flowing, or finds a queued line that will
end the connection anyway. -/
def EndsClear (k : Codec α β) (c : JsonLinesConnection α β) : Event → Prop
  | .ended _ => c.terminalError = none → c.socket ≠ .paused ∨ ∃ q ∈ c.lines, k.parse q.value = none
  | .data _ | .receive => True

end JsonLinesConnection
end Wire
end Ctxmux
