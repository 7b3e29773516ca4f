import Ctxmux.OutputLog
import Ctxmux.Machine

/-!
# The output log is a suffix of the stream

Every operation of the log keeps its blocks a tiling of the newest bytes of the Run's
output, with the head of the suffix inside the first block. What a replay or a
sequence of pages returns is read off that tiling.
-/

namespace Ctxmux
namespace Output

open Durable (Byte OutputChunk OutputReplay)
open Tiling Machine

/-- The skipped bytes lie inside the first block. -/
def SkipWithin (frontSkip : ℕ) : List OutputChunk → Prop
  | [] => frontSkip = 0
  | chunk::_ => frontSkip < chunk.data.length

/-- The blocks end at `latest`, and the head lies inside the first of them. -/
structure Suffix (chunks : List OutputChunk) (frontSkip retainedBytes latest : ℕ) : Prop where
  tiles : ∃ a, Tiles OutputChunk.startByte OutputChunk.endByte a chunks latest ∧
    a+frontSkip+retainedBytes = latest
  lengths : ∀ chunk ∈ chunks, chunk.data.length = chunk.endByte-chunk.startByte
  skip : SkipWithin frontSkip chunks

variable {a b latest : ℕ} {data : List Byte} {chunks xs ys : List OutputChunk} {f : ℕ → Byte}

theorem checkedSub_of_le (h : b ≤ a) : checkedSub a b = some (a-b) := if_pos h

theorem slicedRange_of_le {first last : ℕ} (h : first ≤ last) (hl : last ≤ data.length) :
    slicedRange data first last = some ((data.drop first).take (last-first)) := if_pos ⟨h,hl⟩

/-- Induction on the blocks: the loop frees what it is asked for, or its bound, or all. -/
theorem trimLoop_spec (dropAtLeast maximum : ℕ) {frontSkip retainedBytes : ℕ} (freed : ℕ)
    (h : Suffix chunks frontSkip retainedBytes latest) :
    ∃ trim, trimLoop dropAtLeast maximum chunks frontSkip retainedBytes freed = some trim ∧
      Suffix trim.chunks trim.frontSkip trim.retainedBytes latest ∧
      trim.chunks <:+ chunks ∧
      trim.freed = freed+min retainedBytes (min (dropAtLeast-freed) (maximum-freed)) ∧
      trim.retainedBytes+trim.freed = retainedBytes+freed := by
  induction chunks generalizing frontSkip retainedBytes freed with
  | nil =>
    obtain ⟨a,ha,hsum⟩ := h.tiles
    have hskip : frontSkip = 0 := h.skip
    have hlatest : a = latest := ha
    refine ⟨_,rfl,h,List.suffix_refl _,?_,rfl⟩
    simp only
    omega
  | cons evicted chunks ih =>
    obtain ⟨a,ha,hsum⟩ := h.tiles
    obtain ⟨hstart,hlt,hrest⟩ := ha
    have hlen := h.lengths evicted (by simp)
    have hskip : frontSkip < evicted.data.length := h.skip
    have hend := hrest.le
    rw [trimLoop]
    split
    · rename_i hmore
      rw [checkedSub_of_le hskip.le]
      simp only [Option.bind_eq_bind,Option.bind_some]
      rw [checkedSub_of_le (by omega)]
      simp only [Option.bind_some]
      split
      · rename_i hpart
        refine ⟨_,rfl,?_,List.suffix_refl _,?_,?_⟩
        · exact
            { tiles := ⟨a,⟨hstart,hlt,hrest⟩,by simp only; omega⟩
              lengths := h.lengths
              skip := by simp only [SkipWithin]; omega }
        · simp only
          omega
        · simp only
          omega
      · rename_i hwhole
        have hnext : Suffix chunks 0
            (retainedBytes-min (min (evicted.data.length-frontSkip) (dropAtLeast-freed))
              (maximum-freed)) latest :=
          { tiles := ⟨evicted.endByte,hrest,by omega⟩
            lengths := fun chunk hc => h.lengths chunk (by simp [hc])
            skip := by
              cases chunks with
              | nil => rfl
              | cons next rest =>
                obtain ⟨_,hnext,_⟩ := hrest
                have hl := h.lengths next (by simp)
                simp only [SkipWithin]
                omega }
        obtain ⟨trim,htrim,hsuffix,hsub,hfreed,hkept⟩ := ih
          (freed+min (min (evicted.data.length-frontSkip) (dropAtLeast-freed)) (maximum-freed)) hnext
        refine ⟨trim,htrim,hsuffix,hsub.trans (List.suffix_cons _ _),?_,?_⟩
        · rw [hfreed]
          omega
        · rw [hkept]
          omega
    · rename_i hdone
      refine ⟨_,rfl,h,List.suffix_refl _,?_,rfl⟩
      simp only
      omega

/-- What a block list keeps when more output is put behind it: the first block only grows
at its end. -/
def SameFront : List OutputChunk → List OutputChunk → Prop
  | [], _ => True
  | chunk::_, chunks => ∃ grown rest, chunks = grown::rest ∧ grown.startByte = chunk.startByte ∧
      chunk.data.length ≤ grown.data.length

theorem SameFront.trans {zs : List OutputChunk} (hxy : SameFront xs ys) (hyz : SameFront ys zs) :
    SameFront xs zs := by
  cases xs with
  | nil => trivial
  | cons x xs =>
    obtain ⟨y,rest,rfl,hstart,hlen⟩ := hxy
    obtain ⟨z,more,hz,hstart',hlen'⟩ := hyz
    exact ⟨z,more,hz,hstart'.trans hstart,hlen.trans hlen'⟩

/-- The blocks hold the values of `f` and none is larger than `limit`. -/
structure Blocks (f : ℕ → Byte) (limit : ℕ) (chunks : List OutputChunk) : Prop where
  data : ∀ chunk ∈ chunks, chunk.data = slice f chunk.startByte chunk.endByte
  small : ∀ chunk ∈ chunks, chunk.data.length ≤ limit

theorem Blocks.sublist {limit : ℕ} (h : Blocks f limit ys) (hsub : ∀ chunk ∈ xs, chunk ∈ ys) :
    Blocks f limit xs where
  data chunk hc := h.data chunk (hsub chunk hc)
  small chunk hc := h.small chunk (hsub chunk hc)

theorem Blocks.concat {limit : ℕ} {x : OutputChunk} (h : Blocks f limit xs)
    (hdata : x.data = slice f x.startByte x.endByte) (hsmall : x.data.length ≤ limit) :
    Blocks f limit (xs ++ [x]) where
  data chunk hc := by
    rcases List.mem_append.mp hc with hc | hc
    · exact h.data chunk hc
    · rw [List.mem_singleton.mp hc]
      exact hdata
  small chunk hc := by
    rcases List.mem_append.mp hc with hc | hc
    · exact h.small chunk hc
    · rw [List.mem_singleton.mp hc]
      exact hsmall

theorem sameFront_concat (xs : List OutputChunk) (x : OutputChunk) :
    SameFront xs (xs ++ [x]) := by
  cases xs with
  | nil => trivial
  | cons y ys => exact ⟨y,ys ++ [x],rfl,rfl,le_rfl⟩

theorem sameFront_grow (xs : List OutputChunk) {x y : OutputChunk}
    (hstart : y.startByte = x.startByte) (hlen : x.data.length ≤ y.data.length) :
    SameFront (xs ++ [x]) (xs ++ [y]) := by
  cases xs with
  | nil => exact ⟨y,[],rfl,hstart,hlen⟩
  | cons z zs => exact ⟨z,zs ++ [y],rfl,rfl,le_rfl⟩

/-- One block of at most 64 KiB is put behind the others. -/
theorem pushBlock_spec {limit : ℕ}
    (htiles : Tiles OutputChunk.startByte OutputChunk.endByte a chunks latest)
    (hblocks : Blocks f limit chunks) (hlimit : replayCacheBlockBytes ≤ limit)
    (hne : 0 < data.length) (hsmall : data.length ≤ replayCacheBlockBytes)
    (hdata : data = slice f latest (latest+data.length)) :
    Tiles OutputChunk.startByte OutputChunk.endByte a (pushBlock chunks latest data)
      (latest+data.length) ∧
    Blocks f limit (pushBlock chunks latest data) ∧ SameFront chunks (pushBlock chunks latest data) := by
  have hfresh : Tiles OutputChunk.startByte OutputChunk.endByte a
      (chunks ++ [⟨latest,latest+data.length,data⟩]) (latest+data.length) ∧
      Blocks f limit (chunks ++ [⟨latest,latest+data.length,data⟩]) ∧
      SameFront chunks (chunks ++ [⟨latest,latest+data.length,data⟩]) :=
    ⟨Tiles.concat htiles rfl (by simp only; omega),hblocks.concat hdata (hsmall.trans hlimit),
      sameFront_concat _ _⟩
  unfold pushBlock
  split
  · rename_i hnone
    rw [List.getLast?_eq_none_iff.mp hnone] at hfresh ⊢
    exact hfresh
  · rename_i tail htail
    split
    · rename_i hmerge
      obtain ⟨rest,rfl⟩ : ∃ rest, chunks = rest ++ [tail] := by
        obtain ⟨ys,hys⟩ := List.getLast?_eq_some_iff.mp htail
        exact ⟨ys,hys⟩
      rw [List.dropLast_concat]
      obtain ⟨m,hrest,hstart,hlt,-⟩ := Tiles.append.mp htiles
      have htaildata := hblocks.data tail (by simp)
      have hgrown : tail.data ++ data = slice f tail.startByte (latest+data.length) := by
        have hjoin : slice f tail.startByte latest ++ slice f latest (latest+data.length) =
            slice f tail.startByte (latest+data.length) :=
          slice_append (hmerge.1 ▸ hlt.le) (Nat.le_add_right _ _)
        rw [← hjoin,← hdata,htaildata,hmerge.1]
      refine ⟨?_,?_,sameFront_grow rest rfl (by simp)⟩
      · exact Tiles.concat hrest hstart (by simp only; omega)
      · have hrestblocks : Blocks f limit rest := hblocks.sublist fun chunk hc => by simp [hc]
        refine hrestblocks.concat hgrown ?_
        simp only [List.length_append]
        exact hmerge.2.trans hlimit
    · exact hfresh

theorem pushBlocks_spec {limit : ℕ}
    (htiles : Tiles OutputChunk.startByte OutputChunk.endByte a chunks latest)
    (hblocks : Blocks f limit chunks) (hlimit : replayCacheBlockBytes ≤ limit)
    (hdata : data = slice f latest (latest+data.length)) :
    Tiles OutputChunk.startByte OutputChunk.endByte a (pushBlocks chunks latest data)
      (latest+data.length) ∧
    Blocks f limit (pushBlocks chunks latest data) ∧
    SameFront chunks (pushBlocks chunks latest data) := by
  induction chunks, latest, data using pushBlocks.induct with
  | case1 chunks latest =>
    rw [pushBlocks,if_pos rfl]
    refine ⟨htiles,hblocks,?_⟩
    cases chunks with
    | nil => trivial
    | cons chunk rest => exact ⟨chunk,rest,rfl,rfl,le_rfl⟩
  | case2 chunks latest data hne ih =>
    have hpos := List.length_pos_of_ne_nil hne
    have hblock : 0 < replayCacheBlockBytes := by decide
    have htake : (data.take replayCacheBlockBytes).length = min replayCacheBlockBytes data.length :=
      List.length_take
    have htakedata : data.take replayCacheBlockBytes =
        slice f latest (latest+(data.take replayCacheBlockBytes).length) := by
      have hcut := take_slice (f := f) (a := latest) (b := latest+data.length)
        (k := min replayCacheBlockBytes data.length) (by omega)
      rw [← hdata] at hcut
      rw [htake,← hcut,List.take_eq_take_min]
    obtain ⟨htiles',hblocks',hfront⟩ := pushBlock_spec htiles hblocks hlimit (by omega) (by omega)
      htakedata
    rw [pushBlocks,if_neg hne]
    by_cases hlast : data.length ≤ replayCacheBlockBytes
    · have hdrop : data.drop replayCacheBlockBytes = [] := List.drop_eq_nil_of_le hlast
      rw [hdrop,pushBlocks,if_pos rfl]
      rw [htake,Nat.min_eq_right hlast] at htiles'
      exact ⟨htiles',hblocks',hfront⟩
    · rw [htake,Nat.min_eq_left (by omega)] at htiles'
      have hdroplen : (data.drop replayCacheBlockBytes).length = data.length-replayCacheBlockBytes :=
        List.length_drop
      have hdropdata : data.drop replayCacheBlockBytes = slice f (latest+replayCacheBlockBytes)
          (latest+replayCacheBlockBytes+(data.drop replayCacheBlockBytes).length) := by
        have hcut := drop_slice (f := f) latest (latest+data.length) replayCacheBlockBytes
        rw [← hdata] at hcut
        have hsum : latest+replayCacheBlockBytes+(data.length-replayCacheBlockBytes) =
            latest+data.length := by omega
        rw [hdroplen,hsum,hcut]
      obtain ⟨htiles'',hblocks'',hfront'⟩ := ih htiles' hblocks' hdropdata
      rw [hdroplen] at htiles''
      refine ⟨?_,hblocks'',hfront.trans hfront'⟩
      have hsum : latest+replayCacheBlockBytes+(data.length-replayCacheBlockBytes) =
          latest+data.length := by omega
      rwa [hsum] at htiles''

/-- The log holds a suffix of the stream. -/
structure Represents (stream : Stream) (limit : ℕ) (log : OutputLog) : Prop where
  suffix : Suffix log.chunks log.frontSkip log.retainedBytes log.latestOutputBytes
  blocks : Blocks stream.byteAt limit log.chunks
  base : ∀ chunk ∈ log.chunks, stream.base ≤ chunk.startByte
  head : log.latestOutputBytes = stream.head
  gap : log.sourceGapAfterByte = stream.gap
  bounded : log.latestOutputBytes ≤ u64Max

section Represents

variable {stream : Stream} {limit : ℕ} {log : OutputLog}

/-- The first retained byte is where the blocks begin, less the skipped head. -/
theorem Suffix.floor (h : Suffix log.chunks log.frontSkip log.retainedBytes log.latestOutputBytes) :
    ∃ a, Tiles OutputChunk.startByte OutputChunk.endByte a log.chunks log.latestOutputBytes ∧
      log.firstAvailableByte = a+log.frontSkip ∧
      log.firstAvailableByte+log.retainedBytes = log.latestOutputBytes := by
  obtain ⟨a,ha,hsum⟩ := h.tiles
  have hskip := h.skip
  unfold OutputLog.firstAvailableByte
  cases hc : log.chunks with
  | nil =>
    rw [hc] at ha hskip
    have hlatest : a = log.latestOutputBytes := ha
    have hzero : log.frontSkip = 0 := hskip
    exact ⟨a,ha,by simp only; omega,by simp only; omega⟩
  | cons chunk chunks =>
    rw [hc] at ha
    have hstart : chunk.startByte = a := ha.1
    exact ⟨a,ha,by simp only; omega,by simp only; omega⟩

theorem Represents.trim (h : Represents stream limit log) (dropAtLeast maximum : ℕ) :
    ∃ freed next, log.trimFrontBounded dropAtLeast maximum = some (freed,next) ∧
      Represents stream limit next ∧
      freed = min log.retainedBytes (min dropAtLeast maximum) ∧
      next.retainedBytes+freed = log.retainedBytes ∧
      next.latestOutputBytes = log.latestOutputBytes := by
  obtain ⟨trim,htrim,hsuffix,hsub,hfreed,hkept⟩ := trimLoop_spec dropAtLeast maximum 0 h.suffix
  refine ⟨trim.freed,{ log with
    chunks := trim.chunks
    frontSkip := trim.frontSkip
    retainedBytes := trim.retainedBytes },by rw [OutputLog.trimFrontBounded,htrim]; rfl,?_,by omega,
    by simpa using hkept,rfl⟩
  exact
    { suffix := hsuffix
      blocks := h.blocks.sublist fun chunk hc => hsub.subset hc
      base := fun chunk hc => h.base chunk (hsub.subset hc)
      head := h.head
      gap := h.gap
      bounded := h.bounded }

theorem byteAt_append {position : ℕ} (hbase : stream.base ≤ position) (h : position < stream.head) :
    ({ stream with bytes := stream.bytes ++ data } : Stream).byteAt position =
      stream.byteAt position := by
  have hlt : position-stream.base < stream.bytes.length := by
    simp only [Stream.head] at h
    omega
  simp [Stream.byteAt,List.getD_eq_getElem?_getD,List.getElem?_append_left hlt]

theorem slice_pushed (stream : Stream) (data : List Byte) :
    data = slice ({ stream with bytes := stream.bytes ++ data } : Stream).byteAt stream.head
      (stream.head+data.length) := by
  have hcongr := slice_congr (f := fun p => data.getD (p-stream.head) 0)
    (g := ({ stream with bytes := stream.bytes ++ data } : Stream).byteAt) (a := stream.head)
    (b := stream.head+data.length) fun p hp _ => by
      simp only [Stream.byteAt,Stream.head] at hp ⊢
      rw [List.getD_eq_getElem?_getD,List.getD_eq_getElem?_getD,
        List.getElem?_append_right (by omega),Nat.sub_sub]
  rw [← hcongr,slice_getD]

theorem Blocks.pushed (h : Blocks stream.byteAt limit chunks)
    (htiles : Tiles OutputChunk.startByte OutputChunk.endByte a chunks stream.head)
    (hbase : ∀ chunk ∈ chunks, stream.base ≤ chunk.startByte) (data : List Byte) :
    Blocks ({ stream with bytes := stream.bytes ++ data } : Stream).byteAt limit chunks where
  data chunk hc := by
    have hbounds := htiles.mem_bounds hc
    rw [h.data chunk hc]
    apply slice_congr
    intro p hp hq
    have hb := hbase chunk hc
    exact (byteAt_append (by omega) (by omega)).symm
  small := h.small

theorem Suffix.pushed {next : List OutputChunk} {frontSkip retainedBytes count : ℕ}
    (h : Suffix chunks frontSkip retainedBytes latest) (hcount : 0 < count)
    (htiles : ∀ a, Tiles OutputChunk.startByte OutputChunk.endByte a chunks latest →
      Tiles OutputChunk.startByte OutputChunk.endByte a next (latest+count))
    (hlengths : ∀ chunk ∈ next, chunk.data.length = chunk.endByte-chunk.startByte)
    (hfront : SameFront chunks next) :
    Suffix next frontSkip (retainedBytes+count) (latest+count) := by
  obtain ⟨a,ha,hsum⟩ := h.tiles
  have hnext := htiles a ha
  refine ⟨⟨a,hnext,by omega⟩,hlengths,?_⟩
  cases chunks with
  | cons chunk rest =>
    obtain ⟨grown,more,rfl,-,hlen⟩ := hfront
    have hskip : frontSkip < chunk.data.length := h.skip
    exact lt_of_lt_of_le hskip hlen
  | nil =>
    have hskip : frontSkip = 0 := h.skip
    have hlatest : a = latest := ha
    cases next with
    | nil =>
      have : a = latest+count := hnext
      omega
    | cons chunk rest =>
      obtain ⟨hstart,hlt,-⟩ := hnext
      have hl := hlengths chunk (by simp)
      simp only [SkipWithin]
      omega

theorem Represents.admitted (h : Represents stream limit log)
    (hlimit : replayCacheBlockBytes ≤ limit) (hne : data ≠ [])
    (hmax : stream.head+data.length ≤ u64Max) :
    Represents { stream with bytes := stream.bytes ++ data } limit (log.admitted data) := by
  have hpos := List.length_pos_of_ne_nil hne
  obtain ⟨a,ha,-,hretained⟩ := h.suffix.floor
  have hblocks := h.blocks.pushed (h.head ▸ ha) h.base data
  have hdata := slice_pushed stream data
  rw [← h.head] at hdata
  obtain ⟨htiles,hblocks',hfront⟩ := pushBlocks_spec ha hblocks hlimit hdata
  have hspec : ∀ b, Tiles OutputChunk.startByte OutputChunk.endByte b log.chunks
      log.latestOutputBytes → Tiles OutputChunk.startByte OutputChunk.endByte b
        (pushBlocks log.chunks log.latestOutputBytes data) (log.latestOutputBytes+data.length) :=
    fun b hb => (pushBlocks_spec hb hblocks hlimit hdata).1
  have hlengths : ∀ chunk ∈ pushBlocks log.chunks log.latestOutputBytes data,
      chunk.data.length = chunk.endByte-chunk.startByte := by
    intro chunk hc
    rw [hblocks'.data chunk hc,length_slice]
  have hsuffix := h.suffix.pushed hpos hspec hlengths hfront
  have hmin : min (log.retainedBytes+data.length) u64Max = log.retainedBytes+data.length := by
    have := h.head
    omega
  have hbase : stream.base ≤ a := by
    cases hc : log.chunks with
    | nil =>
      rw [hc] at ha
      have hlatest : a = log.latestOutputBytes := ha
      rw [hlatest,h.head,Stream.head]
      omega
    | cons chunk rest =>
      rw [hc] at ha
      rw [← ha.1]
      exact h.base chunk (by simp [hc])
  exact
    { suffix := by simpa [OutputLog.admitted,hmin] using hsuffix
      blocks := hblocks'
      base := fun chunk hc => hbase.trans (htiles.mem_bounds hc).1
      head := by simp [OutputLog.admitted,h.head,Stream.head,Nat.add_assoc]
      gap := h.gap
      bounded := by simp only [OutputLog.admitted,h.head]; exact hmax }

/-- A push that can be admitted succeeds and frees only its own excess below the fence. -/
theorem Represents.push (perRunLimit : ℕ) (h : Represents stream limit log)
    (hlimit : replayCacheBlockBytes ≤ limit) (hne : data ≠ [])
    (hmax : stream.head+data.length ≤ u64Max) (protectedFrom : ℕ) :
    ∃ freed next, log.pushProtected perRunLimit data protectedFrom =
        some (⟨log.latestOutputBytes,log.latestOutputBytes+data.length,data⟩,next) ∧
      Represents { stream with bytes := stream.bytes ++ data } limit next ∧
      freed = min (log.retainedBytes+data.length)
        (min (log.retainedBytes+data.length-perRunLimit)
          (protectedFrom-(log.admitted data).firstAvailableByte)) ∧
      next.retainedBytes+freed = log.retainedBytes+data.length ∧
      (log.admitted data).retainedBytes = log.retainedBytes+data.length := by
  have hadmitted := h.admitted hlimit hne hmax
  obtain ⟨a,-,-,hretained⟩ := h.suffix.floor
  have hmin : (log.admitted data).retainedBytes = log.retainedBytes+data.length := by
    have := h.head
    simp only [OutputLog.admitted]
    omega
  obtain ⟨freed,next,htrim,hnext,hfreed,hkept,-⟩ := hadmitted.trim
    ((log.admitted data).retainedBytes-perRunLimit)
    (protectedFrom-(log.admitted data).firstAvailableByte)
  refine ⟨freed,next,?_,hnext,by rw [hfreed,hmin],by rw [hkept,hmin],hmin⟩
  have hok : ¬(data = [] ∨ u64Max < log.latestOutputBytes+data.length) := by
    rintro (hd | hd)
    · exact hne hd
    · rw [h.head] at hd
      omega
  simp only [OutputLog.pushProtected,if_neg hok,htrim]
  rfl

theorem Represents.effect (perRunLimit : ℕ) (h : Represents stream limit log)
    (hlimit : replayCacheBlockBytes ≤ limit) (event : LogEvent) :
    (stream.Refuses event → log.effect perRunLimit event = none) ∧
    (¬stream.Refuses event → ∃ next, log.effect perRunLimit event = some next ∧
      Represents (stream.step event) limit next) := by
  cases event with
  | push data protectedFrom =>
    constructor
    · intro hrefused
      have hrefused' : data = [] ∨ u64Max < log.latestOutputBytes+data.length := by
        rw [h.head]
        exact hrefused
      simp [OutputLog.effect,OutputLog.pushProtected,hrefused']
    · intro hok
      have hne : data ≠ [] := fun hd => hok (.inl hd)
      have hmax : stream.head+data.length ≤ u64Max := not_lt.mp fun hd => hok (.inr hd)
      obtain ⟨freed,next,hpush,hnext,-⟩ := h.push perRunLimit hlimit hne hmax protectedFrom
      refine ⟨next,by simp [OutputLog.effect,hpush],?_⟩
      rw [Stream.step,if_neg hok]
      exact hnext
  | trim dropAtLeast maximum =>
    obtain ⟨freed,next,htrim,hnext,-⟩ := h.trim dropAtLeast maximum
    exact ⟨nofun,fun _ => ⟨next,by simp [OutputLog.effect,htrim],hnext⟩⟩
  | markGap =>
    refine ⟨nofun,fun _ => ⟨_,rfl,?_⟩⟩
    exact { h with gap := by simp [OutputLog.markHistoryGap,Stream.step,Stream.Refuses,h.head] }

theorem Represents.step (perRunLimit : ℕ) (h : Represents stream limit log)
    (hlimit : replayCacheBlockBytes ≤ limit) (event : LogEvent) :
    Represents (stream.step event) limit (log.step perRunLimit event) := by
  obtain ⟨hrefused,hok⟩ := h.effect perRunLimit hlimit event
  by_cases hr : stream.Refuses event
  · have hsame : stream.step event = stream := if_pos hr
    rw [OutputLog.step,hrefused hr,hsame]
    exact h
  · obtain ⟨next,hnext,hrep⟩ := hok hr
    rw [OutputLog.step,hnext]
    exact hrep

/-- Blocks that begin at or after `after` are replayed as they are. -/
theorem retainedAfter_later {after : ℕ}
    (h : Tiles OutputChunk.startByte OutputChunk.endByte a chunks b) (hafter : after ≤ a) :
    chunks.filterMap (fun chunk => retainedAfter chunk after) = chunks := by
  induction chunks generalizing a with
  | nil => rfl
  | cons chunk chunks ih =>
    obtain ⟨hstart,hlt,hrest⟩ := h
    have hkeep : retainedAfter chunk after = some chunk := by
      rw [retainedAfter,if_neg (by omega),if_pos (by omega)]
    simp only [List.filterMap_cons,hkeep,ih hrest (by omega)]

/-- A list of chunks holds the values of `f` on a range. -/
structure Covers (f : ℕ → Byte) (a : ℕ) (chunks : List OutputChunk) (b : ℕ) : Prop where
  tiles : Tiles OutputChunk.startByte OutputChunk.endByte a chunks b
  data : ∀ chunk ∈ chunks, chunk.data = slice f chunk.startByte chunk.endByte

theorem Covers.nil (a : ℕ) : Covers f a [] a := ⟨rfl,nofun⟩

theorem Covers.cons {chunk : OutputChunk} (h : Covers f chunk.endByte chunks b)
    (hlt : chunk.startByte < chunk.endByte)
    (hdata : chunk.data = slice f chunk.startByte chunk.endByte) :
    Covers f chunk.startByte (chunk::chunks) b where
  tiles := ⟨rfl,hlt,h.tiles⟩
  data c hc := by
    rcases List.mem_cons.mp hc with rfl | hc
    · exact hdata
    · exact h.data c hc

theorem Covers.piece {c : ℕ} (h : Covers f b chunks c) (hlt : a < b) :
    Covers f a (⟨a,b,slice f a b⟩::chunks) c where
  tiles := ⟨rfl,hlt,h.tiles⟩
  data chunk hc := by
    rcases List.mem_cons.mp hc with rfl | hc
    · rfl
    · exact h.data chunk hc

theorem Covers.append {c : ℕ} (hxs : Covers f a xs b) (hys : Covers f b ys c) :
    Covers f a (xs ++ ys) c where
  tiles := Tiles.append.mpr ⟨b,hxs.tiles,hys.tiles⟩
  data chunk hc := (List.mem_append.mp hc).elim (hxs.data chunk) (hys.data chunk)

theorem Covers.flatMap (h : Covers f a chunks b) : chunks.flatMap (·.data) = slice f a b :=
  h.tiles.flatMap_slice h.data

/-- The replay after a cursor covers what the blocks hold from there on. -/
theorem covers_retainedAfter {after : ℕ}
    (htiles : Tiles OutputChunk.startByte OutputChunk.endByte a chunks b)
    (hdata : ∀ chunk ∈ chunks, chunk.data = slice f chunk.startByte chunk.endByte)
    (hafter : a ≤ after) :
    Covers f after (chunks.filterMap fun chunk => retainedAfter chunk after) (max after b) := by
  induction chunks generalizing a with
  | nil =>
    have hb : a = b := htiles
    rw [List.filterMap_nil,max_eq_left (by omega)]
    exact Covers.nil after
  | cons chunk chunks ih =>
    obtain ⟨hstart,hlt,hrest⟩ := htiles
    have hb := hrest.le
    have hchunk := hdata chunk (by simp)
    have hothers : ∀ c ∈ chunks, c.data = slice f c.startByte c.endByte :=
      fun c hc => hdata c (by simp [hc])
    by_cases hgone : chunk.endByte ≤ after
    · have hnone : retainedAfter chunk after = none := if_pos hgone
      simp only [List.filterMap_cons,hnone]
      exact ih hrest hothers hgone
    · have hlater : chunks.filterMap (fun chunk => retainedAfter chunk after) = chunks :=
        retainedAfter_later hrest (by omega)
      have hmax : max after b = b := max_eq_right (by omega)
      by_cases hwhole : after ≤ chunk.startByte
      · have heq : after = chunk.startByte := by omega
        have hkeep : retainedAfter chunk after = some chunk := by
          rw [retainedAfter,if_neg hgone,if_pos hwhole]
        simp only [List.filterMap_cons,hkeep,hlater,hmax]
        rw [heq]
        exact Covers.cons ⟨hrest,hothers⟩ hlt hchunk
      · have hlen : chunk.data.length = chunk.endByte-chunk.startByte := by
          rw [hchunk,length_slice]
        have hcut : retainedAfter chunk after =
            some ⟨after,chunk.endByte,chunk.data.drop (after-chunk.startByte)⟩ := by
          rw [retainedAfter,if_neg hgone,if_neg hwhole,if_pos (by omega)]
        simp only [List.filterMap_cons,hcut,hlater,hmax]
        have hcovers : Covers f chunk.endByte chunks b := ⟨hrest,hothers⟩
        have hpart : chunk.data.drop (after-chunk.startByte) = slice f after chunk.endByte := by
          rw [hchunk,drop_slice,Nat.add_sub_cancel' (by omega)]
        exact ⟨⟨rfl,by simp only; omega,hrest⟩,fun c hc => by
          rcases List.mem_cons.mp hc with rfl | hc
          · exact hpart
          · exact hothers c hc⟩

/-- The pieces of a page cover what the blocks hold inside it, and none of them fails. -/
theorem covers_pagePieces (first last : ℕ)
    (htiles : Tiles OutputChunk.startByte OutputChunk.endByte a chunks b)
    (hdata : ∀ chunk ∈ chunks, chunk.data = slice f chunk.startByte chunk.endByte) :
    ∃ pieces, chunks.mapM (pagePiece first last) = some pieces ∧
      Covers f (max a first) (pieces.filterMap id) (max (max a first) (min last b)) := by
  induction chunks generalizing a with
  | nil =>
    have hb : a = b := htiles
    have hempty : max (max a first) (min last b) = max a first := by omega
    refine ⟨[],rfl,?_⟩
    rw [List.filterMap_nil,hempty]
    exact Covers.nil _
  | cons chunk chunks ih =>
    obtain ⟨hstart,hlt,hrest⟩ := htiles
    have hb := hrest.le
    have hchunk := hdata chunk (by simp)
    have hlen : chunk.data.length = chunk.endByte-chunk.startByte := by
      rw [hchunk,length_slice]
    obtain ⟨pieces,hpieces,hcovers⟩ := ih hrest fun c hc => hdata c (by simp [hc])
    by_cases hmeets : max chunk.startByte first < min chunk.endByte last
    · have hpiece : pagePiece first last chunk = some (some
          ⟨max chunk.startByte first,min chunk.endByte last,
            slice f (max chunk.startByte first) (min chunk.endByte last)⟩) := by
        have hlow : chunk.startByte+(max chunk.startByte first-chunk.startByte) =
            max chunk.startByte first := by omega
        have hhigh : max chunk.startByte first+(min chunk.endByte last-chunk.startByte-
            (max chunk.startByte first-chunk.startByte)) = min chunk.endByte last := by omega
        simp only [pagePiece,if_pos hmeets]
        rw [checkedSub_of_le (by omega),checkedSub_of_le (by omega)]
        simp only [Option.bind_eq_bind,Option.bind_some]
        rw [slicedRange_of_le (by omega) (by omega),hchunk,drop_slice,hlow,
          take_slice (by omega),hhigh]
        rfl
      refine ⟨_,by rw [List.mapM_cons,hpiece,hpieces]; rfl,?_⟩
      have hlow : max a first = max chunk.startByte first := by rw [hstart]
      have hnext : max chunk.endByte first = chunk.endByte := by omega
      rw [hnext] at hcovers
      rw [hlow]
      change Covers f _ (⟨max chunk.startByte first,min chunk.endByte last,
        slice f (max chunk.startByte first) (min chunk.endByte last)⟩::pieces.filterMap id) _
      by_cases hends : last ≤ chunk.endByte
      · have hnone : pieces.filterMap id = [] :=
          (hcovers.tiles.eq_nil_iff).mpr (by omega)
        have hhigh : max (max chunk.startByte first) (min last b) = min chunk.endByte last := by omega
        rw [hnone,hhigh]
        exact (Covers.nil _).piece hmeets
      · have hhigh : max (max chunk.startByte first) (min last b) =
            max chunk.endByte (min last b) := by omega
        have hend : min chunk.endByte last = chunk.endByte := by omega
        have htail : Covers f (min chunk.endByte last) (pieces.filterMap id)
            (max chunk.endByte (min last b)) := by rwa [hend]
        rw [hhigh]
        exact htail.piece hmeets
    · have hpiece : pagePiece first last chunk = some none := if_neg hmeets
      refine ⟨_,by rw [List.mapM_cons,hpiece,hpieces]; rfl,?_⟩
      change Covers f _ (pieces.filterMap id) _
      by_cases hbefore : chunk.endByte ≤ first
      · have hsame : max a first = max chunk.endByte first := by omega
        rw [hsame]
        exact hcovers
      · have hnone : pieces.filterMap id = [] :=
          (hcovers.tiles.eq_nil_iff).mpr (by omega)
        have hdone : max (max a first) (min last b) = max a first := by omega
        rw [hnone,hdone]
        exact Covers.nil _

theorem Represents.replay (h : Represents stream limit log) (afterByte : ℕ) :
    Covers stream.byteAt (max afterByte log.firstAvailableByte) (log.replay afterByte).chunks
      (max (max afterByte log.firstAvailableByte) log.latestOutputBytes) := by
  obtain ⟨a,ha,hfirst,-⟩ := h.suffix.floor
  exact covers_retainedAfter ha h.blocks.data (by omega)

theorem Represents.replayPage (h : Represents stream limit log) (afterByte through : ℕ) :
    ∃ page, log.replayPage afterByte through = some page ∧
      Covers stream.byteAt (max afterByte log.firstAvailableByte) page.chunks
        (max (max afterByte log.firstAvailableByte) (min (min through
          (max afterByte log.firstAvailableByte+64*1024)) log.latestOutputBytes)) := by
  obtain ⟨a,ha,hfirst,-⟩ := h.suffix.floor
  obtain ⟨pieces,hpieces,hcovers⟩ := covers_pagePieces (max afterByte log.firstAvailableByte)
    (min through (max afterByte log.firstAvailableByte+64*1024)) ha h.blocks.data
  have hmax : max a (max afterByte log.firstAvailableByte) = max afterByte log.firstAvailableByte := by
    omega
  rw [hmax] at hcovers
  exact ⟨_,by simp only [OutputLog.replayPage,hpieces]; rfl,hcovers⟩

theorem Covers.last {tail : OutputChunk} (h : Covers f a chunks b)
    (htail : chunks.getLast? = some tail) : tail.endByte = b := by
  obtain ⟨rest,rfl⟩ := List.getLast?_eq_some_iff.mp htail
  obtain ⟨m,-,-,-,hend⟩ := Tiles.append.mp h.tiles
  exact hend

/-- Induction on the turns of the reader: a page with chunks moves the cursor. -/
theorem Represents.replayPages (h : Represents stream limit log) (through turns cursor : ℕ)
    (hturns : through ≤ cursor+turns) :
    ∃ chunks, log.replayPages cursor through turns = some chunks ∧
      Covers stream.byteAt (max cursor log.firstAvailableByte) chunks
        (max (max cursor log.firstAvailableByte) (min through log.latestOutputBytes)) := by
  induction turns generalizing cursor with
  | zero =>
    have hdone : max (max cursor log.firstAvailableByte) (min through log.latestOutputBytes) =
        max cursor log.firstAvailableByte := by omega
    refine ⟨[],rfl,?_⟩
    rw [hdone]
    exact Covers.nil _
  | succ turns ih =>
    obtain ⟨page,hpage,hcovers⟩ := h.replayPage cursor through
    simp only [OutputLog.replayPages,hpage,Option.bind_eq_bind,Option.bind_some]
    cases htail : page.chunks.getLast? with
    | none =>
      have hempty := List.getLast?_eq_none_iff.mp htail
      have hstop := hcovers.tiles.eq_nil_iff.mp hempty
      have hdone : max (max cursor log.firstAvailableByte) (min through log.latestOutputBytes) =
          max cursor log.firstAvailableByte := by omega
      refine ⟨[],rfl,?_⟩
      rw [hdone]
      exact Covers.nil _
    | some tail =>
      have hend := hcovers.last htail
      have hmoved : max cursor log.firstAvailableByte < tail.endByte := by
        have hne : page.chunks ≠ [] := fun hnil => by simp [hnil] at htail
        have hle := hcovers.tiles.le
        have hnot := mt hcovers.tiles.eq_nil_iff.mpr hne
        omega
      obtain ⟨rest,hrest,hcoversRest⟩ := ih tail.endByte (by omega)
      refine ⟨page.chunks ++ rest,by simp only [hrest]; rfl,?_⟩
      have hstart : max tail.endByte log.firstAvailableByte = tail.endByte := by omega
      have hstop : max tail.endByte (min through log.latestOutputBytes) =
          max (max cursor log.firstAvailableByte) (min through log.latestOutputBytes) := by omega
      rw [hstart,hstop] at hcoversRest
      rw [← hend] at hcovers
      exact hcovers.append hcoversRest

end Represents

end Output
end Ctxmux
