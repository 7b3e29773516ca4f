import Ctxmux.DurableTables

/-!
# The hot output log of a Run

A Run keeps the newest bytes of its output in blocks of at most 64 KiB. The head of
the retained suffix may lie inside the first block, which then stays allocated until
all of it is consumed. Arithmetic and slices that would panic fail here.
-/

namespace Ctxmux
namespace Output

open Durable (Byte OutputChunk OutputReplay)
open Tiling

def replayCacheBlockBytes : ℕ := 64*1024

def u64Max : ℕ := 2^64-1

/-- A subtraction of unsigned integers. -/
def checkedSub (a b : ℕ) : Option ℕ := if b ≤ a then some (a-b) else none

/-- The slice `data[first..last]`. -/
def slicedRange (data : List Byte) (first last : ℕ) : Option (List Byte) :=
  if first ≤ last ∧ last ≤ data.length then some ((data.drop first).take (last-first)) else none

/-- The bytes of one Run. The derived terminal model and the published facts are kept
apart. -/
structure OutputLog where
  chunks : List OutputChunk
  frontSkip : ℕ
  retainedBytes : ℕ
  latestOutputBytes : ℕ
  sourceGapAfterByte : Option ℕ
deriving DecidableEq,Repr

namespace OutputLog

def new : OutputLog where
  chunks := []
  frontSkip := 0
  retainedBytes := 0
  latestOutputBytes := 0
  sourceGapAfterByte := none

def withInitialTruncation : OutputLog := { new with sourceGapAfterByte := some 0 }

def fromReplay (replay : OutputReplay) (sourceGap : Option ℕ) : OutputLog where
  chunks := replay.chunks
  frontSkip := 0
  retainedBytes := (replay.chunks.map (·.data.length)).sum
  latestOutputBytes := replay.latestOutputBytes
  sourceGapAfterByte := sourceGap.or
    (if replay.truncated = true ∧ replay.firstAvailableByte = 0 then
      some replay.latestOutputBytes else none)

def firstAvailableByte (log : OutputLog) : ℕ :=
  match log.chunks with
  | [] => log.latestOutputBytes
  | chunk::_ => chunk.startByte+log.frontSkip

end OutputLog

/-- Merge a block into the last one while both fit, else append it. -/
def pushBlock (chunks : List OutputChunk) (startByte : ℕ) (data : List Byte) : List OutputChunk :=
  match chunks.getLast? with
  | none => [⟨startByte,startByte+data.length,data⟩]
  | some tail =>
    if tail.endByte = startByte ∧ tail.data.length+data.length ≤ replayCacheBlockBytes then
      chunks.dropLast ++ [⟨tail.startByte,startByte+data.length,tail.data ++ data⟩]
    else chunks ++ [⟨startByte,startByte+data.length,data⟩]

/-- The blocks of `data.chunks(REPLAY_CACHE_BLOCK_BYTES)`, one after the other. -/
def pushBlocks (chunks : List OutputChunk) (startByte : ℕ) (data : List Byte) : List OutputChunk :=
  if data = [] then chunks
  else
    pushBlocks (pushBlock chunks startByte (data.take replayCacheBlockBytes))
      (startByte+replayCacheBlockBytes) (data.drop replayCacheBlockBytes)
termination_by data.length
decreasing_by
  rename_i h
  have := List.length_pos_of_ne_nil h
  simp only [List.length_drop,replayCacheBlockBytes]
  omega

/-- The blocks, the skipped head of the first, the retained bytes and the freed bytes. -/
structure Trim where
  chunks : List OutputChunk
  frontSkip : ℕ
  retainedBytes : ℕ
  freed : ℕ
deriving DecidableEq,Repr

/-- The loop of `trim_front_bounded`. A block that is not consumed whole is the last one
it touches, as `freed` has then reached one of its bounds. -/
def trimLoop (dropAtLeast maximum : ℕ) :
    List OutputChunk → (frontSkip retainedBytes freed : ℕ) → Option Trim
  | [], frontSkip, retainedBytes, freed => some ⟨[],frontSkip,retainedBytes,freed⟩
  | evicted::chunks, frontSkip, retainedBytes, freed =>
    if freed < dropAtLeast ∧ freed < maximum then do
      let available ← checkedSub evicted.data.length frontSkip
      let bytes := min (min available (dropAtLeast-freed)) (maximum-freed)
      let retainedBytes ← checkedSub retainedBytes bytes
      if bytes < available then some ⟨evicted::chunks,frontSkip+bytes,retainedBytes,freed+bytes⟩
      else trimLoop dropAtLeast maximum chunks 0 retainedBytes (freed+bytes)
    else some ⟨evicted::chunks,frontSkip,retainedBytes,freed⟩

/-- One block of a replay that begins at `afterByte`. -/
def retainedAfter (chunk : OutputChunk) (afterByte : ℕ) : Option OutputChunk :=
  if chunk.endByte ≤ afterByte then none
  else if afterByte ≤ chunk.startByte then some chunk
  else if afterByte-chunk.startByte ≤ chunk.data.length then
    some ⟨afterByte,chunk.endByte,chunk.data.drop (afterByte-chunk.startByte)⟩
  else none

/-- The part of one block inside a page, if it has one. -/
def pagePiece (first last : ℕ) (chunk : OutputChunk) : Option (Option OutputChunk) :=
  let startByte := max chunk.startByte first
  let endByte := min chunk.endByte last
  if startByte < endByte then do
    let lower ← checkedSub startByte chunk.startByte
    let upper ← checkedSub endByte chunk.startByte
    let data ← slicedRange chunk.data lower upper
    some (some ⟨startByte,endByte,data⟩)
  else some none

namespace OutputLog

/-- The freed bytes and the log without them. -/
def trimFrontBounded (log : OutputLog) (dropAtLeast maximum : ℕ) : Option (ℕ × OutputLog) := do
  let trim ← trimLoop dropAtLeast maximum log.chunks log.frontSkip log.retainedBytes 0
  some (trim.freed,{ log with
    chunks := trim.chunks
    frontSkip := trim.frontSkip
    retainedBytes := trim.retainedBytes })

/-- The log with `data` admitted, before its own retention. -/
def admitted (log : OutputLog) (data : List Byte) : OutputLog :=
  { log with
    chunks := pushBlocks log.chunks log.latestOutputBytes data
    retainedBytes := min (log.retainedBytes+data.length) u64Max
    latestOutputBytes := log.latestOutputBytes+data.length }

/-- An empty chunk and a head beyond `u64::MAX` panic before anything changes. -/
def pushProtected (perRunLimit : ℕ) (log : OutputLog) (data : List Byte) (protectedFrom : ℕ) :
    Option (OutputChunk × OutputLog) :=
  if data = [] ∨ u64Max < log.latestOutputBytes+data.length then none
  else do
    let next := log.admitted data
    let excess := next.retainedBytes-perRunLimit
    let reclaimable := protectedFrom-next.firstAvailableByte
    let (_,next) ← next.trimFrontBounded excess reclaimable
    some (⟨log.latestOutputBytes,log.latestOutputBytes+data.length,data⟩,next)

def markHistoryGap (log : OutputLog) : OutputLog :=
  { log with sourceGapAfterByte := some log.latestOutputBytes }

def replay (log : OutputLog) (afterByte : ℕ) : OutputReplay where
  chunks := log.chunks.filterMap fun chunk =>
    retainedAfter chunk (max afterByte log.firstAvailableByte)
  firstAvailableByte := log.firstAvailableByte
  latestOutputBytes := log.latestOutputBytes
  truncated := log.sourceGapAfterByte.any (afterByte ≤ ·) ||
    decide (afterByte < log.firstAvailableByte)

/-- A page ends at `through` or after 64 KiB; a cursor is a `u64`, so the saturation of
the sum is invisible. -/
def replayPage (log : OutputLog) (afterByte through : ℕ) : Option OutputReplay := do
  let first := max afterByte log.firstAvailableByte
  let last := min through (first+64*1024)
  let pieces ← log.chunks.mapM (pagePiece first last)
  some
    { chunks := pieces.filterMap id
      firstAvailableByte := log.firstAvailableByte
      latestOutputBytes := min through log.latestOutputBytes
      truncated := decide (afterByte < log.firstAvailableByte) ||
        log.sourceGapAfterByte.any (afterByte ≤ ·) }

def offerReplay (log : OutputLog) (afterByte : ℕ) : Option OutputReplay := do
  let replay ← log.replayPage afterByte log.latestOutputBytes
  some { replay with
    firstAvailableByte := 0
    truncated := log.sourceGapAfterByte.isSome
    latestOutputBytes := (replay.chunks.getLast?).elim afterByte (·.endByte) }

/-- A reader of pages resumes at the end of the last chunk and stops at a page without
one. -/
def replayPages (log : OutputLog) (cursor through : ℕ) : ℕ → Option (List OutputChunk)
  | 0 => some []
  | turns+1 => do
    let page ← log.replayPage cursor through
    match page.chunks.getLast? with
    | none => some []
    | some tail => do
      let rest ← log.replayPages tail.endByte through turns
      some (page.chunks ++ rest)

end OutputLog

/-- What the Run has output from byte `base` on, and where its source last lost bytes. -/
structure Stream where
  base : ℕ
  bytes : List Byte
  gap : Option ℕ
deriving DecidableEq,Repr

namespace Stream

def head (stream : Stream) : ℕ := stream.base+stream.bytes.length

/-- The byte at a position of the stream. -/
def byteAt (stream : Stream) (position : ℕ) : Byte :=
  stream.bytes.getD (position-stream.base) 0

end Stream

inductive LogEvent where
  | push (data : List Byte) (protectedFrom : ℕ)
  | trim (dropAtLeast maximum : ℕ)
  | markGap
deriving DecidableEq,Repr

/-- The effect of an operation; nothing when it panics. -/
def OutputLog.effect (perRunLimit : ℕ) (log : OutputLog) : LogEvent → Option OutputLog
  | .push data protectedFrom => (log.pushProtected perRunLimit data protectedFrom).map (·.2)
  | .trim dropAtLeast maximum => (log.trimFrontBounded dropAtLeast maximum).map (·.2)
  | .markGap => some log.markHistoryGap

def OutputLog.step (perRunLimit : ℕ) (log : OutputLog) (event : LogEvent) : OutputLog :=
  (log.effect perRunLimit event).getD log

/-- The operation is a push that the log cannot admit. -/
def Stream.Refuses (stream : Stream) : LogEvent → Prop
  | .push data _ => data = [] ∨ u64Max < stream.head+data.length
  | .trim _ _ | .markGap => False

instance (stream : Stream) : (event : LogEvent) → Decidable (stream.Refuses event)
  | .push data _ => inferInstanceAs (Decidable (data = [] ∨ u64Max < stream.head+data.length))
  | .trim _ _ | .markGap => inferInstanceAs (Decidable False)

/-- What an operation means for the output of the Run: trims do not touch it. -/
def Stream.step (stream : Stream) (event : LogEvent) : Stream :=
  if stream.Refuses event then stream
  else
    match event with
    | .push data _ => { stream with bytes := stream.bytes ++ data }
    | .trim _ _ => stream
    | .markGap => { stream with gap := some stream.head }

/-- A replay whose chunks follow one another up to its head. -/
structure ContiguousReplay where
  replay : OutputReplay
  base : ℕ
  tiles : Tiles OutputChunk.startByte OutputChunk.endByte base replay.chunks
    replay.latestOutputBytes
  lengths : ∀ chunk ∈ replay.chunks, chunk.data.length = chunk.endByte-chunk.startByte
  bounded : replay.latestOutputBytes ≤ u64Max

inductive LogOrigin where
  | new
  | withInitialTruncation
  | fromReplay (recovered : ContiguousReplay) (sourceGap : Option ℕ)

namespace LogOrigin

def log : LogOrigin → OutputLog
  | .new => .new
  | .withInitialTruncation => .withInitialTruncation
  | .fromReplay recovered sourceGap => .fromReplay recovered.replay sourceGap

def stream : LogOrigin → Stream
  | .new => ⟨0,[],none⟩
  | .withInitialTruncation => ⟨0,[],some 0⟩
  | .fromReplay recovered sourceGap =>
    { base := recovered.base
      bytes := recovered.replay.chunks.flatMap (·.data)
      gap := sourceGap.or
        (if recovered.replay.truncated = true ∧ recovered.replay.firstAvailableByte = 0 then
          some recovered.replay.latestOutputBytes else none) }

/-- The largest block that the log may hold. -/
def blockLimit : LogOrigin → ℕ
  | .new | .withInitialTruncation => replayCacheBlockBytes
  | .fromReplay recovered _ =>
    max replayCacheBlockBytes ((recovered.replay.chunks.map (·.data.length)).foldr max 0)

end LogOrigin
end Output
end Ctxmux
