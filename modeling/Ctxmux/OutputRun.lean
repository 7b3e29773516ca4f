import Ctxmux.OutputStream

/-!
# Runs of the output log

A log begins empty, with an initial truncation, or from a recovered replay. In every
state that pushes, trims and gap marks reach it holds a suffix of what the Run has
output, and its readers return that suffix.
-/

namespace Ctxmux
namespace Output

open Durable (Byte OutputChunk OutputReplay)
open Tiling Machine

variable {chunks : List OutputChunk} {stream : Stream} {limit : ℕ} {log : OutputLog}

theorem flatMap_length_of_lengths {a b : ℕ}
    (htiles : Tiles OutputChunk.startByte OutputChunk.endByte a chunks b)
    (hlengths : ∀ chunk ∈ chunks, chunk.data.length = chunk.endByte-chunk.startByte) :
    (chunks.map (·.data.length)).sum = b-a := by
  rw [← htiles.sum_length]
  congr 1
  exact List.map_congr_left hlengths

/-- A chunk holds the bytes of the concatenation that stand at its own position. -/
theorem data_eq_slice {a b : ℕ} {chunk : OutputChunk}
    (htiles : Tiles OutputChunk.startByte OutputChunk.endByte a chunks b)
    (hlengths : ∀ chunk ∈ chunks, chunk.data.length = chunk.endByte-chunk.startByte)
    (hc : chunk ∈ chunks) :
    chunk.data = slice (fun p => (chunks.flatMap (·.data)).getD (p-a) 0) chunk.startByte
      chunk.endByte := by
  obtain ⟨before,after,rfl⟩ := List.append_of_mem hc
  obtain ⟨m,hbefore,hstart,hlt,-⟩ := Tiles.append.mp htiles
  have hlen := hlengths chunk hc
  have hskip : (before.flatMap (·.data)).length = m-a := by
    rw [List.length_flatMap]
    exact flatMap_length_of_lengths hbefore fun c hc => hlengths c (by simp [hc])
  have ham := hbefore.le
  have hend : chunk.startByte+chunk.data.length = chunk.endByte := by omega
  have hself := slice_getD chunk.data 0 chunk.startByte
  rw [hend] at hself
  refine hself.symm.trans ?_
  apply slice_congr
  intro p hp hq
  rw [List.flatMap_append,List.flatMap_cons,List.getD_eq_getElem?_getD,
    List.getD_eq_getElem?_getD,List.getElem?_append_right (by omega),
    List.getElem?_append_left (by omega),hskip]
  congr 2
  omega

theorem le_foldr_max {xs : List ℕ} {x : ℕ} (hx : x ∈ xs) : x ≤ xs.foldr max 0 := by
  induction xs with
  | nil => cases hx
  | cons y ys ih =>
    rcases List.mem_cons.mp hx with rfl | hx
    · exact le_max_left _ _
    · exact (ih hx).trans (le_max_right _ _)

theorem LogOrigin.block_le (origin : LogOrigin) : replayCacheBlockBytes ≤ origin.blockLimit := by
  cases origin with
  | new => exact le_rfl
  | withInitialTruncation => exact le_rfl
  | fromReplay recovered sourceGap => exact le_max_left _ _

theorem ContiguousReplay.represents (recovered : ContiguousReplay) (sourceGap : Option ℕ) :
    Represents (LogOrigin.fromReplay recovered sourceGap).stream
      (LogOrigin.fromReplay recovered sourceGap).blockLimit
      (LogOrigin.fromReplay recovered sourceGap).log := by
  have hsum := flatMap_length_of_lengths recovered.tiles recovered.lengths
  have hle := recovered.tiles.le
  exact
    { suffix :=
        { tiles := ⟨recovered.base,recovered.tiles,by
            simp only [LogOrigin.log,OutputLog.fromReplay,hsum]
            omega⟩
          lengths := recovered.lengths
          skip := by
            have htiles := recovered.tiles
            have hlengths := recovered.lengths
            change SkipWithin 0 recovered.replay.chunks
            cases hc : recovered.replay.chunks with
            | nil => rfl
            | cons chunk chunks =>
              rw [hc] at htiles hlengths
              have hlt := htiles.2.1
              have hlen := hlengths chunk (by simp)
              simp only [SkipWithin]
              omega }
      blocks :=
        { data := fun chunk hc => data_eq_slice recovered.tiles recovered.lengths hc
          small := fun chunk hc => by
            apply le_max_of_le_right
            exact le_foldr_max (List.mem_map.mpr ⟨chunk,hc,rfl⟩) }
      base := fun chunk hc => (recovered.tiles.mem_bounds hc).1
      head := by
        simp only [LogOrigin.log,OutputLog.fromReplay,LogOrigin.stream,Stream.head,
          List.length_flatMap,hsum]
        omega
      gap := rfl
      bounded := recovered.bounded }

theorem LogOrigin.represents (origin : LogOrigin) :
    Represents origin.stream origin.blockLimit origin.log := by
  cases origin with
  | new => exact ⟨⟨⟨0,rfl,rfl⟩,nofun,rfl⟩,⟨nofun,nofun⟩,nofun,rfl,rfl,Nat.zero_le _⟩
  | withInitialTruncation =>
    exact ⟨⟨⟨0,rfl,rfl⟩,nofun,rfl⟩,⟨nofun,nofun⟩,nofun,rfl,rfl,Nat.zero_le _⟩
  | fromReplay recovered sourceGap => exact recovered.represents sourceGap

/-- A run of operations is a run of the stream beside it. -/
theorem Represents.run (perRunLimit : ℕ) (h : Represents stream limit log)
    (hlimit : replayCacheBlockBytes ≤ limit) (events : List LogEvent) :
    Represents (Machine.run Stream.step stream events) limit
      (Machine.run (OutputLog.step perRunLimit) log events) := by
  induction events generalizing stream log with
  | nil => exact h
  | cons event events ih => exact ih (h.step perRunLimit hlimit event)

/-- What a log promises about the stream of its Run. -/
structure StreamSuffix (perRunLimit limit : ℕ) (stream : Stream) (log : OutputLog) : Prop where
  admitted : log.latestOutputBytes = stream.head
  contiguous : ∃ a, Tiles OutputChunk.startByte OutputChunk.endByte a log.chunks
    log.latestOutputBytes
  lengths : ∀ chunk ∈ log.chunks, chunk.data.length = chunk.endByte-chunk.startByte
  small : ∀ chunk ∈ log.chunks, chunk.data.length ≤ limit
  skip : SkipWithin log.frontSkip log.chunks
  retained : log.firstAvailableByte+log.retainedBytes = log.latestOutputBytes
  physical : log.retainedBytes+log.frontSkip = (log.chunks.map (·.data.length)).sum
  replayed : ∀ afterByte, Covers stream.byteAt (max afterByte log.firstAvailableByte)
    (log.replay afterByte).chunks
    (max (max afterByte log.firstAvailableByte) log.latestOutputBytes)
  truncated : ∀ afterByte, (log.replay afterByte).truncated = true ↔
    afterByte < log.firstAvailableByte ∨ ∃ gap, stream.gap = some gap ∧ afterByte ≤ gap
  paged : ∀ afterByte through turns, through ≤ afterByte+turns →
    ∃ chunks, log.replayPages afterByte through turns = some chunks ∧
      Covers stream.byteAt (max afterByte log.firstAvailableByte) chunks
        (max (max afterByte log.firstAvailableByte) (min through log.latestOutputBytes)) ∧
      chunks.flatMap (·.data) = ((log.replay afterByte).chunks.flatMap (·.data)).take
        (through-max afterByte log.firstAvailableByte)
  page : ∀ afterByte through, ∃ page, log.replayPage afterByte through = some page ∧
    page.truncated = (log.replay afterByte).truncated
  offer : ∀ afterByte, (log.offerReplay afterByte).isSome = true
  refused : ∀ event, log.effect perRunLimit event = none ↔ stream.Refuses event

theorem Represents.truncated (h : Represents stream limit log) (afterByte : ℕ) :
    (log.replay afterByte).truncated = true ↔
      afterByte < log.firstAvailableByte ∨ ∃ gap, stream.gap = some gap ∧ afterByte ≤ gap := by
  simp only [OutputLog.replay,Bool.or_eq_true,decide_eq_true_eq,h.gap,Option.any_eq_true]
  exact or_comm

/-- The pages up to `through` are the replay cut off there. -/
theorem Represents.paged (h : Represents stream limit log) {afterByte through : ℕ}
    (hcovers : Covers stream.byteAt (max afterByte log.firstAvailableByte) chunks
      (max (max afterByte log.firstAvailableByte) (min through log.latestOutputBytes))) :
    chunks.flatMap (·.data) = ((log.replay afterByte).chunks.flatMap (·.data)).take
      (through-max afterByte log.firstAvailableByte) := by
  have hwhole := (h.replay afterByte).flatMap
  rw [hcovers.flatMap,hwhole]
  set first := max afterByte log.firstAvailableByte
  by_cases hfits : through ≤ log.latestOutputBytes
  · by_cases hempty : through ≤ first
    · have hzero : through-first = 0 := by omega
      rw [hzero,List.take_zero,slice_of_le (by omega)]
    · have hlast : max first log.latestOutputBytes = log.latestOutputBytes := by omega
      have hstop : max first (min through log.latestOutputBytes) = first+(through-first) := by omega
      rw [hlast,take_slice (by omega),hstop]
  · have hstop : max first (min through log.latestOutputBytes) =
        max first log.latestOutputBytes := by omega
    rw [hstop,List.take_of_length_le (by rw [length_slice]; omega)]

theorem Represents.streamSuffix (perRunLimit : ℕ) (h : Represents stream limit log)
    (hlimit : replayCacheBlockBytes ≤ limit) :
    StreamSuffix perRunLimit limit stream log := by
  obtain ⟨a,ha,hfirst,hretained⟩ := h.suffix.floor
  exact
    { admitted := h.head
      contiguous := ⟨a,ha⟩
      lengths := h.suffix.lengths
      small := h.blocks.small
      skip := h.suffix.skip
      retained := hretained
      physical := by
        have hsum := flatMap_length_of_lengths ha h.suffix.lengths
        omega
      replayed := h.replay
      truncated := h.truncated
      paged := fun afterByte through turns hturns => by
        obtain ⟨chunks,hpages,hcovers⟩ := h.replayPages through turns afterByte hturns
        exact ⟨chunks,hpages,hcovers,h.paged hcovers⟩
      page := fun afterByte through => by
        obtain ⟨page,hpage,-⟩ := h.replayPage afterByte through
        refine ⟨page,hpage,?_⟩
        obtain ⟨pieces,-,hpieces⟩ := Option.bind_eq_some_iff.mp hpage
        cases hpieces
        exact Bool.or_comm _ _
      offer := fun afterByte => by
        obtain ⟨page,hpage,-⟩ := h.replayPage afterByte log.latestOutputBytes
        simp [OutputLog.offerReplay,hpage]
      refused := fun event => by
        obtain ⟨hrefused,hok⟩ := h.effect perRunLimit hlimit event
        refine ⟨fun hnone => ?_,hrefused⟩
        by_contra hr
        obtain ⟨next,hnext,-⟩ := hok hr
        rw [hnone] at hnext
        cases hnext }

/-- Every log that pushes, trims and gap marks reach is a suffix of its Run's stream. A
push is refused only without bytes or beyond `u64::MAX`, and nothing else can fail. -/
theorem output_log_is_stream_suffix (perRunLimit : ℕ) (origin : LogOrigin)
    (events : List LogEvent) :
    StreamSuffix perRunLimit origin.blockLimit (Machine.run Stream.step origin.stream events)
      (Machine.run (OutputLog.step perRunLimit) origin.log events) :=
  (origin.represents.run perRunLimit origin.block_le events).streamSuffix perRunLimit origin.block_le

/-- Three bytes that were kept of six. -/
def keptReplay : ContiguousReplay where
  replay := ⟨[⟨3,5,[68,69]⟩,⟨5,6,[70]⟩],3,6,false⟩
  base := 3
  tiles := ⟨rfl,by decide,rfl,by decide,rfl⟩
  lengths := by decide
  bounded := by decide

theorem output_log_is_stream_suffix_kept :
    StreamSuffix 4 (LogOrigin.fromReplay keptReplay none).blockLimit
      (Machine.run Stream.step (LogOrigin.fromReplay keptReplay none).stream
        [.push [71,72] 6,.trim 1 4,.markGap])
      (Machine.run (OutputLog.step 4) (LogOrigin.fromReplay keptReplay none).log
        [.push [71,72] 6,.trim 1 4,.markGap]) ∧
    (Machine.run (OutputLog.step 4) (LogOrigin.fromReplay keptReplay none).log
      [.push [71,72] 6,.trim 1 4,.markGap]).replay 0 = ⟨[⟨5,8,[70,71,72]⟩],5,8,true⟩ :=
  ⟨output_log_is_stream_suffix 4 (.fromReplay keptReplay none) [.push [71,72] 6,.trim 1 4,.markGap],
    by decide +kernel⟩

end Output
end Ctxmux
