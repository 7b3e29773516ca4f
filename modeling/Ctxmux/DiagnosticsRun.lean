import Ctxmux.DiagnosticsAccount

/-!
# Diagnostics lose nothing silently

Every step of a record call, of the writer and of a shutdown keeps the account, so
every run keeps it; when nothing is in flight any more, the calls are exactly those that
the counters report.
-/

namespace Ctxmux
namespace Diagnostic
namespace State

open MapTotals

variable {l : DiagnosticLimits} {s : State} {call : ℕ} {phase : Phase} {record : Record}
  {channel : List Message}

theorem discardedBytes_ne (k : Class) : k.counter ≠ .discardedBytes := by
  cases k <;> exact fun h => (nomatch h)

theorem admitted_ne (k : Class) : k.counter ≠ .admitted := by
  cases k <;> exact fun h => (nomatch h)

theorem writtenBytes_ne (k : Class) : k.counter ≠ .writtenBytes := by
  cases k <;> exact fun h => (nomatch h)

theorem noticeBytes_ne (k : Class) : k.counter ≠ .noticeBytes := by
  cases k <;> exact fun h => (nomatch h)

theorem writeFailed_ne (k : Class) : k.counter ≠ .writeFailed := by
  cases k <;> exact fun h => (nomatch h)

theorem channel_front (hchannel : s.channel = .record record::channel) :
    channelBytes s.channel = record.funding+channelBytes channel ∧
      channelRecords s.channel = 1+channelRecords channel ∧
      channelCalls s.channel = [record.call] ++ channelCalls channel := by
  rw [hchannel]
  simp [channelBytes,channelRecords,channelCalls,Message.funding,Message.records,Message.calls]

section

variable (h : s.Accounted l) (hp : s.producers.lookup call = some phase)
include h hp

/-- The reservation of a call is part of what is funded. -/
theorem Accounted.held_le :
    phase.held l ≤ s.funded := by
  have := le_total (Phase.held l) hp
  have := h.funded
  omega

theorem Accounted.guarded_le :
    phase.guarded ≤ s.formatting := by
  rw [h.formatting]
  exact le_total _ hp

theorem Accounted.queuing_le :
    phase.queuing ≤ s.queued := by
  have := le_total Phase.queuing hp
  have := h.queued
  omega

theorem Accounted.refused (hheld : phase.held l = 0) (hguarded : phase.guarded = 0)
    (hqueuing : phase.queuing = 0) (hopen : phase.unsettled = 1) :
    ((s.settle call .droppedBeforeEncoding).finish call).Accounted l := by
  refine h.advance hp none ?_ h.limit ?_ ?_ (h.counted.settle call _) (Or.inr ⟨⟨_,rfl⟩,hopen⟩)
  · rw [hheld]
    rfl
  · rw [hguarded]
    rfl
  · rw [hqueuing]
    rfl

theorem Accounted.abandon (hheld : phase.held l = required l) (hguarded : phase.guarded = 1)
    (hqueuing : phase.queuing = 0) (hopen : phase.unsettled = 1) (k : Class) (length : ℕ) :
    (s.abandon call k length).Accounted l := by
  refine h.advance hp (some .abandoned) ?_ h.limit ?_ ?_
    ((h.counted.add discardedBytes_ne length).settle call k) (Or.inr ⟨⟨_,rfl⟩,hopen⟩)
  · rw [hheld]
    rfl
  · rw [hguarded]
    rfl
  · rw [hqueuing]
    rfl

end

section

variable (h : s.Accounted l)
include h

theorem Accounted.retainActual {length capacity : ℕ}
    (hp : s.producers.lookup call = some (.encoded length capacity)) :
    (State.retainActual l s call length capacity).Accounted l := by
  have hheld := h.held_le hp
  have hheld' : Phase.held l (.encoded length capacity) = required l := rfl
  have hlimit := h.limit
  unfold State.retainActual
  dsimp only
  split
  · next hfits =>
    refine h.advance hp (some (.retained length (capacity+l.envelopeBytes))) ?_ ?_ rfl rfl
      h.counted (Or.inl ⟨rfl,rfl⟩)
    · show s.funded-(required l-(capacity+l.envelopeBytes))+required l =
        s.funded+(capacity+l.envelopeBytes)
      omega
    · show s.funded-(required l-(capacity+l.envelopeBytes)) ≤ l.queueBytes
      omega
  split
  · next hover hroom =>
    refine h.advance hp (some (.retained length (capacity+l.envelopeBytes))) ?_ ?_ rfl rfl
      h.counted (Or.inl ⟨rfl,rfl⟩)
    · show s.funded+(capacity+l.envelopeBytes-required l)+required l =
        s.funded+(capacity+l.envelopeBytes)
      omega
    · exact hroom
  · exact h.abandon hp rfl rfl rfl rfl _ _

theorem Accounted.send {length funding : ℕ}
    (hp : s.producers.lookup call = some (.sending length funding)) :
    Accounted l ({ s with
      channel := s.channel ++ [Message.record ⟨call,length,funding⟩]
      enqueued := s.enqueued ++ [call] }.moveTo call .accepted) := by
  have hheld := total_place (Phase.held l) hp (some .accepted)
  have hguarded := total_place Phase.guarded hp (some .accepted)
  have hqueuing := total_place Phase.queuing hp (some .accepted)
  have hfunded := h.funded
  have hformatting := h.formatting
  have hqueued := h.queued
  constructor
  · show s.funded = total _ (s.producers.insert call .accepted)+
      channelBytes (s.channel ++ [.record ⟨call,length,funding⟩])+s.writer.held
    have hbytes : channelBytes (s.channel ++ [.record ⟨call,length,funding⟩]) =
        channelBytes s.channel+funding := by simp [channelBytes,Message.funding]
    change total _ (s.producers.insert call .accepted)+funding = _+0 at hheld
    omega
  · exact h.limit
  · show s.formatting = total _ (s.producers.insert call .accepted)
    change total _ (s.producers.insert call .accepted)+0 = _+0 at hguarded
    omega
  · show s.queued = total _ (s.producers.insert call .accepted)+
      channelRecords (s.channel ++ [.record ⟨call,length,funding⟩])
    have hrecords : channelRecords (s.channel ++ [.record ⟨call,length,funding⟩]) =
        channelRecords s.channel+1 := by simp [channelRecords,Message.records]
    change total _ (s.producers.insert call .accepted)+1 = _+0 at hqueuing
    omega
  · intro other phase hother
    by_cases hne : other = call
    · rw [hne]
      exact h.known call _ hp
    · apply h.known other phase
      rw [← hother]
      exact (AList.lookup_insert_ne hne).symm
  · intro other
    have hplace := h.place other
    show ((s.producers.insert call .accepted).lookup other).elim 0 Phase.unsettled+
      (channelCalls (s.channel ++ [.record ⟨call,length,funding⟩])).count other+
        s.writer.calls.count other+(s.settlements.map Prod.fst).count other =
          if other < s.calls then 1 else 0
    have hcalls : channelCalls (s.channel ++ [.record ⟨call,length,funding⟩]) =
        channelCalls s.channel ++ [call] := by simp [channelCalls,Message.calls]
    rw [hcalls,List.count_append]
    by_cases hne : other = call
    · subst hne
      rw [hp] at hplace
      rw [AList.lookup_insert]
      simp only [Option.elim_some,Phase.unsettled,List.count_singleton_self] at hplace ⊢
      omega
    · have hzero : [call].count other = 0 := List.count_eq_zero.mpr (by simpa using hne)
      rw [AList.lookup_insert_ne hne,hzero]
      exact hplace
  · exact h.counted
  · obtain ⟨done,henqueued,hwritten,hdone⟩ := h.order
    refine ⟨done,?_,hwritten,hdone⟩
    show s.enqueued ++ [call] = done ++ s.writer.calls ++
      channelCalls (s.channel ++ [.record ⟨call,length,funding⟩])
    rw [henqueued]
    simp [channelCalls,Message.calls]

theorem Accounted.producer (call : ℕ) (format : Format) :
    (s.producer l call format).Accounted l := by
  have hlimit := h.limit
  unfold State.producer
  split
  · exact h
  · next hp =>
    split
    · exact h.refused hp rfl rfl rfl rfl
    · exact h.advance hp (some .checkingSink) rfl hlimit rfl rfl h.counted (Or.inl ⟨rfl,rfl⟩)
  · next hp =>
    split
    · exact h.refused hp rfl rfl rfl rfl
    · exact h.advance hp (some .reserving) rfl hlimit rfl rfl h.counted (Or.inl ⟨rfl,rfl⟩)
  · next hp =>
    split
    · next hroom =>
      exact h.advance hp (some .reserved) rfl hroom rfl rfl h.counted (Or.inl ⟨rfl,rfl⟩)
    · exact h.refused hp rfl rfl rfl rfl
  · next hp =>
    exact h.advance hp (some .formatting) rfl hlimit rfl rfl h.counted (Or.inl ⟨rfl,rfl⟩)
  · next hp =>
    split
    · next length capacity =>
      exact h.advance hp (some (.encoded length capacity)) rfl hlimit rfl rfl h.counted
        (Or.inl ⟨rfl,rfl⟩)
    · exact h.abandon hp rfl rfl rfl rfl _ _
    · exact h.abandon hp rfl rfl rfl rfl _ _
    · exact h.abandon hp rfl rfl rfl rfl _ _
  · next hp => exact h.retainActual hp
  · next length funding hp =>
    have hguarded := h.guarded_le hp
    refine h.advance hp (some (.unguarded length funding)) rfl hlimit ?_ rfl h.counted
      (Or.inl ⟨rfl,rfl⟩)
    exact Nat.sub_add_cancel hguarded
  · next length funding hp =>
    exact h.advance hp (some (.sending length funding)) rfl hlimit rfl rfl h.counted
      (Or.inl ⟨rfl,rfl⟩)
  · next length funding hp =>
    split
    · exact h.send hp
    · exact h.advance hp (some (.returned length funding)) rfl hlimit rfl rfl h.counted
        (Or.inl ⟨rfl,rfl⟩)
  · next hp =>
    exact h.advance hp none rfl hlimit rfl rfl (h.counted.add admitted_ne 1) (Or.inl ⟨rfl,rfl⟩)
  · next length funding hp =>
    refine h.advance hp none ?_ ?_ rfl ?_
      ((h.counted.settle call .droppedEncoded).add discardedBytes_ne length)
      (Or.inr ⟨⟨_,rfl⟩,rfl⟩)
    · exact Nat.sub_add_cancel (h.held_le hp)
    · show s.funded-funding ≤ l.queueBytes
      omega
    · exact Nat.sub_add_cancel (h.queuing_le hp)
  · next hp =>
    refine h.advance hp (some .releasing) rfl hlimit ?_ rfl h.counted (Or.inl ⟨rfl,rfl⟩)
    exact Nat.sub_add_cancel (h.guarded_le hp)
  · next hp =>
    refine h.advance hp none ?_ ?_ rfl rfl h.counted (Or.inl ⟨rfl,rfl⟩)
    · exact Nat.sub_add_cancel (h.held_le hp)
    · show s.funded-required l ≤ l.queueBytes
      omega

theorem Accounted.called : (s.step l .call).Accounted l := by
  have hfresh : s.producers.lookup s.calls = none := by
    cases hp : s.producers.lookup s.calls with
    | none => rfl
    | some phase => exact absurd (h.known _ _ hp) (lt_irrefl _)
  have hinsert : ∀ f : Phase → ℕ, f .entered = 0 →
      total f (s.producers.insert s.calls .entered) = total f s.producers := by
    intro f hf
    rw [total_insert_new f hfresh,hf]
    rfl
  constructor
  · show s.funded = total _ (s.producers.insert s.calls .entered)+_+_
    rw [hinsert _ rfl]
    exact h.funded
  · exact h.limit
  · show s.formatting = total _ (s.producers.insert s.calls .entered)
    rw [hinsert _ rfl]
    exact h.formatting
  · show s.queued = total _ (s.producers.insert s.calls .entered)+_
    rw [hinsert _ rfl]
    exact h.queued
  · intro other phase hother
    show other < s.calls+1
    by_cases hne : other = s.calls
    · omega
    · have hold : s.producers.lookup other = some phase := by
        rw [← hother]
        exact (AList.lookup_insert_ne hne).symm
      have := h.known other phase hold
      omega
  · intro other
    have hplace := h.place other
    show ((s.producers.insert s.calls .entered).lookup other).elim 0 Phase.unsettled+
      (channelCalls s.channel).count other+s.writer.calls.count other+
        (s.settlements.map Prod.fst).count other = if other < s.calls+1 then 1 else 0
    by_cases hne : other = s.calls
    · subst hne
      rw [hfresh,if_neg (lt_irrefl _)] at hplace
      rw [AList.lookup_insert,if_pos (Nat.lt_succ_self _)]
      simp only [Option.elim_some,Option.elim_none,Phase.unsettled] at hplace ⊢
      omega
    · rw [AList.lookup_insert_ne hne]
      have hiff : (if other < s.calls+1 then 1 else 0) = if other < s.calls then 1 else 0 := by
        split <;> split <;> omega
      rw [hiff]
      exact hplace
  · exact h.counted
  · exact h.order

theorem Accounted.shutdownRequest : s.shutdownRequest.Accounted l := by
  unfold State.shutdownRequest
  split
  · exact h
  split
  · have hbytes : channelBytes (s.channel ++ [.shutdown]) = channelBytes s.channel := by
      simp [channelBytes,Message.funding]
    have hrecords : channelRecords (s.channel ++ [.shutdown]) = channelRecords s.channel := by
      simp [channelRecords,Message.records]
    have hcalls : channelCalls (s.channel ++ [.shutdown]) = channelCalls s.channel := by
      simp [channelCalls,Message.calls]
    refine ⟨?_,h.limit,h.formatting,?_,h.known,?_,h.counted,?_⟩
    · dsimp only
      rw [hbytes]
      exact h.funded
    · dsimp only
      rw [hrecords]
      exact h.queued
    · dsimp only
      rw [hcalls]
      exact h.place
    · dsimp only
      rw [hcalls]
      exact h.order
  · exact { h with }

/-- A record at the front of the channel is dropped: it is settled and its reservation
released. -/
theorem Accounted.dropFront (hchannel : s.channel = .record record::channel)
    (hwriter : s.writer.calls = []) :
    ({ s with channel := channel }.dropRecord record).Accounted l := by
  obtain ⟨hbytes,hrecords,hcalls⟩ := channel_front hchannel
  have hfunded := h.funded
  have hqueued := h.queued
  have hlimit := h.limit
  constructor
  · show s.funded-record.funding = total _ s.producers+channelBytes channel+s.writer.held
    omega
  · show s.funded-record.funding ≤ l.queueBytes
    omega
  · exact h.formatting
  · show s.queued-1 = total _ s.producers+channelRecords channel
    omega
  · exact h.known
  · intro other
    have hplace := h.place other
    show (s.producers.lookup other).elim 0 Phase.unsettled+(channelCalls channel).count other+
      s.writer.calls.count other+((s.settlements ++ [(record.call,_)]).map Prod.fst).count other =
        if other < s.calls then 1 else 0
    rw [hcalls,List.count_append] at hplace
    rw [List.map_append,List.count_append,List.map_singleton]
    dsimp only
    omega
  · exact (h.counted.settle record.call .droppedEncoded).add discardedBytes_ne record.length
  · obtain ⟨done,henqueued,hwritten,hdone⟩ := h.order
    refine ⟨done ++ [record.call],?_,hwritten.trans (List.sublist_append_left _ _),?_⟩
    · show s.enqueued = done ++ [record.call] ++ s.writer.calls ++ channelCalls channel
      rw [henqueued,hcalls,hwriter]
      simp
    · intro other
      have := hdone other
      show (done ++ [record.call]).count other ≤
        ((s.settlements ++ [(record.call,_)]).map Prod.fst).count other
      rw [List.count_append,List.map_append,List.count_append,List.map_singleton]
      dsimp only
      omega

theorem Accounted.dropShutdown (hchannel : s.channel = .shutdown::channel) :
    Accounted l { s with channel := channel } := by
  have hbytes : channelBytes s.channel = channelBytes channel := by
    rw [hchannel]
    simp [channelBytes,Message.funding]
  have hrecords : channelRecords s.channel = channelRecords channel := by
    rw [hchannel]
    simp [channelRecords,Message.records]
  have hcalls : channelCalls s.channel = channelCalls channel := by
    rw [hchannel]
    simp [channelCalls,Message.calls]
  refine ⟨?_,h.limit,h.formatting,?_,h.known,?_,h.counted,?_⟩
  · dsimp only
    rw [← hbytes]
    exact h.funded
  · dsimp only
    rw [← hrecords]
    exact h.queued
  · dsimp only
    rw [← hcalls]
    exact h.place
  · dsimp only
    rw [← hcalls]
    exact h.order

theorem Accounted.drainOne (hwriter : s.writer.calls = []) :
    s.drainOne.Accounted l ∧ s.drainOne.writer = s.writer := by
  unfold State.drainOne
  split
  · exact ⟨h,rfl⟩
  · next hchannel => exact ⟨h.dropFront hchannel hwriter,rfl⟩
  · next hchannel => exact ⟨h.dropShutdown hchannel,rfl⟩

end

theorem Accounted.drainAll (n : ℕ) {s : State} (h : s.Accounted l) (hwriter : s.writer.calls = []) :
    (drainAll n s).Accounted l ∧ (State.drainAll n s).writer = s.writer := by
  induction n generalizing s with
  | zero => exact ⟨h,rfl⟩
  | succ n ih =>
    obtain ⟨hone,hsame⟩ := h.drainOne hwriter
    obtain ⟨hall,hsame'⟩ := ih hone (by rw [hsame,hwriter])
    exact ⟨hall,hsame'.trans hsame⟩

section

variable (h : s.Accounted l)
include h

/-- The writer takes the record at the front of the channel. -/
theorem Accounted.take (hchannel : s.channel = .record record::channel)
    (hwriter : s.writer = .waiting) :
    Accounted l
      { s with channel := channel, queued := s.queued-1, writer := .received record } := by
  obtain ⟨hbytes,hrecords,hcalls⟩ := channel_front hchannel
  have hfunded := h.funded
  have hqueued := h.queued
  rw [hwriter] at hfunded
  have hnone : WriterPhase.held .waiting = 0 := rfl
  constructor
  · show s.funded = total _ s.producers+channelBytes channel+record.funding
    omega
  · exact h.limit
  · exact h.formatting
  · show s.queued-1 = total _ s.producers+channelRecords channel
    omega
  · exact h.known
  · intro other
    have hplace := h.place other
    show (s.producers.lookup other).elim 0 Phase.unsettled+(channelCalls channel).count other+
      [record.call].count other+(s.settlements.map Prod.fst).count other =
        if other < s.calls then 1 else 0
    rw [hcalls,hwriter,List.count_append] at hplace
    have hzero : (WriterPhase.calls .waiting).count other = 0 := rfl
    omega
  · exact h.counted
  · obtain ⟨done,henqueued,hwritten,hdone⟩ := h.order
    refine ⟨done,?_,hwritten,hdone⟩
    show s.enqueued = done ++ [record.call] ++ channelCalls channel
    rw [henqueued,hcalls,hwriter]
    simp [WriterPhase.calls]

theorem Accounted.writerMoves {writer : WriterPhase} (hheld : writer.held = s.writer.held)
    (hcalls : writer.calls = s.writer.calls) {counters : Counters}
    (hcounted : Counted counters s.settlements) (activeBytes : ℕ) (writerAlive : Bool)
    (sink : SinkState) (reported : Losses) :
    Accounted l { s with
      writer := writer, counters := counters, activeBytes := activeBytes
      writerAlive := writerAlive, sink := sink, reported := reported } := by
  refine ⟨?_,h.limit,h.formatting,h.queued,h.known,?_,hcounted,?_⟩
  · dsimp only
    rw [hheld]
    exact h.funded
  · dsimp only
    rw [hcalls]
    exact h.place
  · dsimp only
    rw [hcalls]
    exact h.order

theorem Accounted.writerSettles {k : Class} (hheld : s.writer.held = record.funding)
    (hcalls : s.writer.calls = [record.call]) {counters : Counters}
    (hcounted : Counted counters (s.settlements ++ [(record.call,k)])) {written : List ℕ}
    (hwritten : written = s.written ∨ written = s.written ++ [record.call]) (stop : Bool)
    (activeBytes lastErrno : ℕ) (sink : SinkState) :
    Accounted l { s with
      writer := .settled record stop, counters := counters, activeBytes := activeBytes
      lastErrno := lastErrno, sink := sink, written := written
      settlements := s.settlements ++ [(record.call,k)] } := by
  constructor
  · show s.funded = _+_+record.funding
    rw [← hheld]
    exact h.funded
  · exact h.limit
  · exact h.formatting
  · exact h.queued
  · exact h.known
  · intro other
    have hplace := h.place other
    show (s.producers.lookup other).elim 0 Phase.unsettled+(channelCalls s.channel).count other+
      ([] : List ℕ).count other+((s.settlements ++ [(record.call,k)]).map Prod.fst).count other =
        if other < s.calls then 1 else 0
    rw [hcalls] at hplace
    rw [List.map_append,List.count_append,List.map_singleton,List.count_nil]
    dsimp only
    omega
  · exact hcounted
  · obtain ⟨done,henqueued,hsublist,hdone⟩ := h.order
    refine ⟨done ++ [record.call],?_,?_,?_⟩
    · show s.enqueued = done ++ [record.call] ++ [] ++ channelCalls s.channel
      rw [henqueued,hcalls,List.append_nil]
    · show written.Sublist _
      rcases hwritten with rfl | rfl
      · exact hsublist.trans (List.sublist_append_left _ _)
      · exact hsublist.append (List.Sublist.refl _)
    · intro other
      have := hdone other
      show (done ++ [record.call]).count other ≤
        ((s.settlements ++ [(record.call,k)]).map Prod.fst).count other
      rw [List.count_append,List.map_append,List.count_append,List.map_singleton]
      dsimp only
      omega

/-- The record of a settled call is dropped with its reservation. -/
theorem Accounted.writerReleases {stop : Bool} (hwriter : s.writer = .settled record stop) :
    Accounted l { s with
      funded := s.funded-record.funding
      writer := if stop then .draining else .waiting } := by
  have hfunded := h.funded
  have hlimit := h.limit
  rw [hwriter] at hfunded
  have hsettled : WriterPhase.held (.settled record stop) = record.funding := rfl
  have hheld : (if stop then WriterPhase.draining else .waiting).held = 0 := by
    split <;> rfl
  have hcalls : (if stop then WriterPhase.draining else .waiting).calls = s.writer.calls := by
    rw [hwriter]
    split <;> rfl
  refine ⟨?_,?_,h.formatting,h.queued,h.known,?_,h.counted,?_⟩
  · dsimp only
    omega
  · dsimp only
    omega
  · dsimp only
    rw [hcalls]
    exact h.place
  · dsimp only
    rw [hcalls]
    exact h.order

theorem Accounted.retire (hwriter : s.writer = .draining) :
    s.retire.Accounted l := by
  obtain ⟨hall,hsame⟩ := h.drainAll s.channel.length (by rw [hwriter]; rfl)
  rw [hwriter] at hsame
  have hheld : WriterPhase.held .retired = (State.drainAll s.channel.length s).writer.held := by
    rw [hsame]
    rfl
  have hmoved := hall.writerMoves hheld (by rw [hsame]; rfl)
    hall.counted 0 false (if s.sink = .failed then .failed else .stopped)
    (State.drainAll s.channel.length s).reported
  exact { hmoved with }

/-- A write fails while the writer holds a record: what is left of it is discarded. -/
theorem Accounted.writerFails (hheld : s.writer.held = record.funding)
    (hcalls : s.writer.calls = [record.call]) (k : Class) (lost errno : ℕ) :
    Accounted l { ((s.settle record.call k).count .discardedBytes lost).sinkFailed errno with
      writer := .settled record true } := by
  have hsettled := h.counted.settle record.call k
  have hdiscarded := hsettled.add discardedBytes_ne lost
  have hfailed := hdiscarded.add writeFailed_ne 1
  unfold sinkFailed settle count
  exact h.writerSettles hheld hcalls hfailed (Or.inl rfl) true s.activeBytes errno .failed

theorem Accounted.writerTurn (turn : Turn) :
    (s.writerTurn turn).Accounted l := by
  unfold State.writerTurn
  split
  · next hwriter => exact h.writerMoves (by rw [hwriter]; rfl) (by rw [hwriter]; rfl) h.counted _ _ _ _
  · next hwriter =>
    split
    · exact h
    · next hchannel => exact h.take hchannel hwriter
    · next hchannel =>
      have hdropped := h.dropShutdown hchannel
      exact hdropped.writerMoves (by dsimp only; rw [hwriter]; rfl) (by dsimp only; rw [hwriter]; rfl)
        hdropped.counted _ _ _ _
  · next hwriter =>
    split
    · exact h.writerMoves (by rw [hwriter]; rfl) (by rw [hwriter]; rfl) h.counted _ _ _ _
    · exact h
  · next record hwriter =>
    split
    · exact h.writerSettles (by rw [hwriter]; rfl) (by rw [hwriter]; rfl)
        ((h.counted.settle record.call .droppedEncoded).add discardedBytes_ne record.length)
        (Or.inl rfl) _ _ _ _
    · exact h.writerMoves (by rw [hwriter]; rfl) (by rw [hwriter]; rfl) h.counted _ _ _ _
  · next record hwriter =>
    split
    · exact h.writerMoves (by rw [hwriter]; rfl) (by rw [hwriter]; rfl) h.counted _ _ _ _
    · exact h.writerMoves (by rw [hwriter]; rfl) (by rw [hwriter]; rfl) h.counted _ _ _ _
  · next count hwriter =>
    have hcounted := (h.counted.add writtenBytes_ne count).add noticeBytes_ne count
    exact h.writerMoves rfl rfl hcounted _ _ _ _
  · next record current errno hwriter =>
    exact h.writerFails (by rw [hwriter]; rfl) (by rw [hwriter]; rfl) _ _ errno
  · next record current hwriter =>
    exact h.writerMoves (by rw [hwriter]; rfl) (by rw [hwriter]; rfl) h.counted _ _ _ _
  · next record confirmed count hwriter =>
    split
    · exact h.writerMoves (by rw [hwriter]; rfl) (by rw [hwriter]; rfl)
        (h.counted.add writtenBytes_ne count) _ _ _ _
    · exact h
  · next record confirmed errno hwriter =>
    split
    · exact h.writerFails (by rw [hwriter]; rfl) (by rw [hwriter]; rfl) _ _ errno
    · exact h
  · next record confirmed hwriter =>
    split
    · exact h.writerSettles (by rw [hwriter]; rfl) (by rw [hwriter]; rfl)
        (h.counted.settle record.call .written) (Or.inr rfl) _ _ _ _
    · exact h
  · next record stop hwriter => exact h.writerReleases hwriter
  · next hwriter => exact (h.drainOne (by rw [hwriter]; rfl)).1
  · next hwriter => exact h.retire hwriter
  · exact h

theorem Accounted.step (e : Event) : (s.step l e).Accounted l := by
  cases e with
  | call => exact h.called
  | producer call format => exact h.producer call format
  | shutdown => exact h.shutdownRequest
  | writer turn => exact h.writerTurn turn

end

/-- Nothing is in flight: no record call, no queued record, no record at the writer. -/
def Quiescent (s : State) : Prop :=
  s.producers = ∅ ∧ channelRecords s.channel = 0 ∧ s.writer.held = 0 ∧ s.writer.calls = []

/-- What the diagnostics report about themselves in one state. -/
structure Truthful (l : DiagnosticLimits) (s : State) : Prop where
  funded : s.funded = total (Phase.held l) s.producers+channelBytes s.channel+s.writer.held
  limit : s.funded ≤ l.queueBytes
  settledOnce : (s.settlements.map Prod.fst).Nodup
  quiescent : s.Quiescent → s.queued = 0 ∧ s.formatting = 0 ∧ s.funded = 0 ∧
    (∀ call, call < s.calls → ∃! k, (call,k) ∈ s.settlements) ∧
    (s.counters.saturated = false →
      s.calls = s.counters.value .beforeEncoding+s.counters.value .oversized+
        s.counters.value .formatFailed+s.counters.value .encodedDrops+
          s.counters.value .written+s.counters.value .partialRecords)
  writtenOnce : s.written.Nodup
  writtenOrder : s.written.Sublist s.enqueued

theorem channelCalls_eq_nil (h : channelRecords channel = 0) :
    channelCalls channel = [] ∧ channelBytes channel = 0 := by
  induction channel with
  | nil => exact ⟨rfl,rfl⟩
  | cons message channel ih =>
    cases message with
    | record record =>
      simp [channelRecords,Message.records] at h
    | shutdown =>
      have htail : channelRecords channel = 0 := by
        simpa [channelRecords,Message.records] using h
      obtain ⟨hcalls,hbytes⟩ := ih htail
      constructor
      · simpa [channelCalls,Message.calls] using hcalls
      · simpa [channelBytes,Message.funding] using hbytes

theorem Accounted.settled_le_one (h : s.Accounted l) (call : ℕ) :
    (s.settlements.map Prod.fst).count call ≤ 1 := by
  have hplace := h.place call
  split at hplace <;> omega

theorem Accounted.settledOnce (h : s.Accounted l) : (s.settlements.map Prod.fst).Nodup :=
  List.nodup_iff_count_le_one.mpr h.settled_le_one

theorem Accounted.settled_of_quiescent (h : s.Accounted l) (hq : s.Quiescent) (call : ℕ) :
    (s.settlements.map Prod.fst).count call = if call < s.calls then 1 else 0 := by
  obtain ⟨hproducers,hrecords,-,hcalls⟩ := hq
  have hplace := h.place call
  rw [hproducers,(channelCalls_eq_nil hrecords).1,hcalls] at hplace
  simpa using hplace

theorem Accounted.settlements_perm (h : s.Accounted l) (hq : s.Quiescent) :
    (s.settlements.map Prod.fst).Perm (List.range s.calls) := by
  rw [List.perm_iff_count]
  intro call
  rw [h.settled_of_quiescent hq call]
  split
  · next hlt => exact (List.count_eq_one_of_mem List.nodup_range (List.mem_range.mpr hlt)).symm
  · next hge =>
    exact (List.count_eq_zero.mpr fun hmem => hge (List.mem_range.mp hmem)).symm

theorem sum_classes (classes : List Class) :
    classes.count .droppedBeforeEncoding+classes.count .oversized+classes.count .formatFailed+
      classes.count .droppedEncoded+classes.count .written+classes.count .partiallyWritten =
        classes.length := by
  induction classes with
  | nil => rfl
  | cons k classes ih =>
    rw [List.length_cons,← ih]
    cases k <;> simp <;> omega

theorem Accounted.unique_class (h : s.Accounted l) (hq : s.Quiescent) {call : ℕ}
    (hlt : call < s.calls) : ∃! k, (call,k) ∈ s.settlements := by
  have hmem : call ∈ s.settlements.map Prod.fst := by
    apply List.count_pos_iff.mp
    rw [h.settled_of_quiescent hq call,if_pos hlt]
    exact Nat.one_pos
  obtain ⟨⟨other,k⟩,hk,rfl⟩ := List.mem_map.mp hmem
  refine ⟨k,hk,?_⟩
  intro k' hk'
  have hsame := List.inj_on_of_nodup_map h.settledOnce hk' hk rfl
  exact congrArg Prod.snd hsame

theorem Accounted.calls_eq_sum (h : s.Accounted l) (hq : s.Quiescent)
    (hs : s.counters.saturated = false) :
    s.calls = s.counters.value .beforeEncoding+s.counters.value .oversized+
      s.counters.value .formatFailed+s.counters.value .encodedDrops+
        s.counters.value .written+s.counters.value .partialRecords := by
  have hlength : s.settlements.length = s.calls := by
    have hperm := (h.settlements_perm hq).length_eq
    rwa [List.length_map,List.length_range] at hperm
  have hsum := sum_classes (s.settlements.map Prod.snd)
  rw [List.length_map,hlength] at hsum
  have hvalue := h.counted hs
  rw [← hsum,← hvalue,← hvalue,← hvalue,← hvalue,← hvalue,← hvalue]
  rfl

theorem Accounted.idle_of_quiescent (h : s.Accounted l) (hq : s.Quiescent) :
    s.queued = 0 ∧ s.formatting = 0 ∧ s.funded = 0 := by
  obtain ⟨hproducers,hrecords,hheld,-⟩ := hq
  refine ⟨?_,?_,?_⟩
  · rw [h.queued,hproducers,hrecords]
    rfl
  · rw [h.formatting,hproducers]
    rfl
  · rw [h.funded,hproducers,hheld,(channelCalls_eq_nil hrecords).2]
    rfl

theorem Accounted.writtenOnce (h : s.Accounted l) : s.written.Nodup := by
  obtain ⟨done,-,hwritten,hdone⟩ := h.order
  apply hwritten.nodup
  rw [List.nodup_iff_count_le_one]
  intro call
  exact (hdone call).trans (h.settled_le_one call)

theorem Accounted.writtenOrder (h : s.Accounted l) : s.written.Sublist s.enqueued := by
  obtain ⟨done,henqueued,hwritten,-⟩ := h.order
  rw [henqueued,List.append_assoc]
  exact hwritten.trans (List.sublist_append_left _ _)

theorem Accounted.truthful (h : s.Accounted l) : s.Truthful l where
  funded := h.funded
  limit := h.limit
  settledOnce := h.settledOnce
  quiescent := fun hq => by
    obtain ⟨hqueued,hformatting,hfunded⟩ := h.idle_of_quiescent hq
    exact ⟨hqueued,hformatting,hfunded,fun call hlt => h.unique_class hq hlt,h.calls_eq_sum hq⟩
  writtenOnce := h.writtenOnce
  writtenOrder := h.writtenOrder

/-- After every interleaving of record calls, writer turns, shutdown and retirement the
diagnostics account for every byte and every call. -/
theorem diagnostics_truthful (l : DiagnosticLimits) (es : List Event) :
    (initial.run l es).Truthful l := by
  apply Accounted.truthful
  exact Machine.run_invariant (fun _ e h => h.step e) (accounted_initial l) es

end State
end Diagnostic
end Ctxmux
