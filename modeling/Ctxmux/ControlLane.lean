import Ctxmux.ControlMachine

/-!
# The input lane

What the queue, the ledger, the answers and the PTY bytes of one control say about
each other, and how one settlement of the front command keeps it. A settlement moves
a command from the queue to the answers, so the list of all commands of the history
stays as it is; only an admission and a write change that list.
-/

namespace Ctxmux
namespace NativeControl

def InputCommand.written (command : InputCommand) : List Byte :=
  command.data.take command.confirmed

def InputCommand.ticket (command : InputCommand) : List Byte × InputReply :=
  (command.data,command.reply)

def Admission.ticket (admission : Admission) : List Byte × InputReply :=
  (admission.data,admission.reply)

/-- The bytes that the PTY accepted for the command of one channel. -/
def acceptedOn (wire : List (ℕ × List Byte)) (channel : ℕ) : List Byte :=
  (wire.filter fun w => w.1 = channel).flatMap (·.2)

theorem acceptedOn_snoc_self (wire : List (ℕ × List Byte)) (channel : ℕ) (slice : List Byte) :
    acceptedOn (wire ++ [(channel,slice)]) channel = acceptedOn wire channel ++ slice := by
  simp [acceptedOn,List.filter_append]

theorem acceptedOn_snoc_ne (wire : List (ℕ × List Byte)) {channel other : ℕ} (slice : List Byte)
    (h : other ≠ channel) : acceptedOn (wire ++ [(other,slice)]) channel = acceptedOn wire channel := by
  simp [acceptedOn,List.filter_append,h]

theorem acceptedOn_fresh {wire : List (ℕ × List Byte)} {channel : ℕ}
    (h : ∀ w ∈ wire, w.1 < channel) : acceptedOn wire channel = [] := by
  have hf : wire.filter (fun w => decide (w.1 = channel)) = [] := by
    apply List.filter_eq_nil_iff.mpr
    intro w hw
    have hlt := h w hw
    simp only [decide_eq_true_eq]
    omega
  simp [acceptedOn,hf]

/-- The commands of the history are the admissions in order, and the PTY holds exactly
the confirmed part of each. -/
structure Recorded (commands : List InputCommand) (admitted : List Admission)
    (wire : List (ℕ × List Byte)) : Prop where
  tickets : commands.map (·.ticket) = admitted.map (·.ticket)
  numbered : admitted.map (·.reply.channel) = List.range admitted.length
  stream : wire.flatMap (·.2) = commands.flatMap (·.written)
  accepted : ∀ c ∈ commands, acceptedOn wire c.reply.channel = c.written
  fresh : ∀ w ∈ wire, w.1 < admitted.length
  bounded : ∀ c ∈ commands, c.confirmed ≤ c.data.length

namespace Recorded

variable {commands : List InputCommand} {admitted : List Admission}
  {wire : List (ℕ × List Byte)}

section

variable (h : Recorded commands admitted wire)
include h

theorem admitted_lt {a : Admission} (ha : a ∈ admitted) :
    a.reply.channel < admitted.length := by
  have hm : a.reply.channel ∈ admitted.map (·.reply.channel) := List.mem_map_of_mem ha
  rw [h.numbered] at hm
  exact List.mem_range.mp hm

theorem channels :
    commands.map (·.reply.channel) = List.range admitted.length := by
  have ht := congrArg (List.map fun t : List Byte × InputReply => t.2.channel) h.tickets
  rw [← h.numbered]
  simpa [List.map_map,Function.comp_def,InputCommand.ticket,Admission.ticket] using ht

theorem channels_nodup :
    (commands.map (·.reply.channel)).Nodup := by
  rw [h.channels]
  exact List.nodup_range

theorem channel_lt {c : InputCommand} (hc : c ∈ commands) :
    c.reply.channel < admitted.length := by
  have hm : c.reply.channel ∈ commands.map (·.reply.channel) := List.mem_map_of_mem hc
  rw [h.channels] at hm
  exact List.mem_range.mp hm

theorem enter (data : List Byte) (expected : Option ℕ) {reply : InputReply}
    (hr : reply.channel = admitted.length) :
    Recorded (commands ++ [⟨data,0,reply⟩]) (admitted ++ [⟨data,expected,reply⟩]) wire where
  tickets := by simpa [InputCommand.ticket,Admission.ticket] using h.tickets
  numbered := by simp [h.numbered,hr,List.range_succ]
  stream := by simp [h.stream,InputCommand.written]
  accepted := by
    intro c hc
    rcases List.mem_append.mp hc with hc | hc
    · exact h.accepted c hc
    · rw [List.mem_singleton.mp hc]
      simpa [InputCommand.written,hr] using acceptedOn_fresh h.fresh
  fresh := by
    intro w hw
    have hlt := h.fresh w hw
    simp only [List.length_append,List.length_singleton]
    omega
  bounded := by
    intro c hc
    rcases List.mem_append.mp hc with hc | hc
    · exact h.bounded c hc
    · simp [List.mem_singleton.mp hc]

end

theorem written_advance (c : InputCommand) (n : ℕ) :
    ({ c with confirmed := c.confirmed + n } : InputCommand).written =
      c.written ++ acceptedSlice c n := by
  simp [InputCommand.written,acceptedSlice,List.take_add]

/-- One accepted slice of a command behind which nothing has started. -/
theorem write {before rest : List InputCommand} {c : InputCommand}
    (h : Recorded (before ++ c::rest) admitted wire) (hrest : ∀ q ∈ rest, q.confirmed = 0)
    {n : ℕ} (hn : n ≤ c.data.length - c.confirmed) :
    Recorded (before ++ { c with confirmed := c.confirmed + n }::rest) admitted
      (wire ++ [(c.reply.channel,acceptedSlice c n)]) := by
  have hc : c ∈ before ++ c::rest := by simp
  have hnd := h.channels_nodup
  rw [List.map_append,List.map_cons,List.nodup_append] at hnd
  have hwritten : ∀ q ∈ rest, q.written = [] := by
    intro q hq
    simp [InputCommand.written,hrest q hq]
  have hrestWritten : rest.flatMap (·.written) = [] := by
    rw [List.flatMap_eq_nil_iff]
    exact hwritten
  constructor
  · simpa [InputCommand.ticket] using h.tickets
  · exact h.numbered
  · have hs := h.stream
    simp only [List.flatMap_append,List.flatMap_cons,hrestWritten,List.append_nil] at hs
    simp only [List.flatMap_append,List.flatMap_cons,hrestWritten,List.append_nil,hs,
      List.flatMap_nil,written_advance,List.append_assoc]
  · intro q hq
    rcases List.mem_append.mp hq with hq | hq
    · have hne : c.reply.channel ≠ q.reply.channel := by
        intro he
        exact hnd.2.2 _ (List.mem_map_of_mem hq) _ List.mem_cons_self he.symm
      rw [acceptedOn_snoc_ne wire _ hne]
      exact h.accepted q (List.mem_append_left _ hq)
    · rcases List.mem_cons.mp hq with rfl | hq
      · rw [acceptedOn_snoc_self,h.accepted c hc,written_advance]
      · have hne : c.reply.channel ≠ q.reply.channel := by
          intro he
          have hn := (List.nodup_cons.mp hnd.2.1).1
          rw [he] at hn
          exact hn (List.mem_map_of_mem hq)
        rw [acceptedOn_snoc_ne wire _ hne]
        exact h.accepted q (by simp [hq])
  · intro w hw
    rcases List.mem_append.mp hw with hw | hw
    · exact h.fresh w hw
    · rw [List.mem_singleton.mp hw]
      exact h.channel_lt hc
  · intro q hq
    have hb := h.bounded c hc
    rcases List.mem_append.mp hq with hq | hq
    · exact h.bounded q (List.mem_append_left _ hq)
    · rcases List.mem_cons.mp hq with rfl | hq
      · simp only
        omega
      · exact h.bounded q (by simp [hq])

end Recorded

def IsUnknown (s : Settlement) : Prop := ∃ f, s.2 = .error f ∧ f.disposition = .unknown

def IsNotApplied (s : Settlement) : Prop := ∃ f, s.2 = .error f ∧ f.disposition = .notApplied

/-- The answer says how much of the command was confirmed when it was settled. -/
def Honest (s : Settlement) : Prop :=
  match s.2 with
  | .ok _ => s.1.confirmed = s.1.data.length
  | .error failure =>
    match failure.disposition with
    | .notApplied => s.1.confirmed = 0 ∧ failure.confirmedInputBytes = none
    | .unknown => failure.confirmedInputBytes = some s.1.confirmed

/-- The completed ranges follow one another from the first cursor to the last. -/
def Ranges : ℕ → List Settlement → ℕ → Prop
  | start, [], stop => start = stop
  | start, s::settled, stop =>
    match s.2 with
    | .ok range => range.startByte = start ∧ range.endByte = start + s.1.data.length ∧
        Ranges range.endByte settled stop
    | .error _ => Ranges start settled stop

theorem ranges_append (xs ys : List Settlement) (start stop : ℕ) :
    Ranges start (xs ++ ys) stop ↔ ∃ mid, Ranges start xs mid ∧ Ranges mid ys stop := by
  induction xs generalizing start with
  | nil => simp [Ranges]
  | cons s xs ih =>
    rcases s with ⟨c,failure | range⟩
    · simp [Ranges,ih]
    · simp only [List.cons_append,Ranges,ih]
      constructor
      · rintro ⟨h₁,h₂,mid,h₃,h₄⟩
        exact ⟨mid,⟨h₁,h₂,h₃⟩,h₄⟩
      · rintro ⟨mid,⟨h₁,h₂,h₃⟩,h₄⟩
        exact ⟨h₁,h₂,mid,h₃,h₄⟩

/-- Every answer is honest, the completed ranges are consecutive, and after an Unknown
answer the lane is poisoned and nothing more is applied. -/
structure Answered (start : ℕ) (settled : List Settlement) (applied : ℕ)
    (failure : Option ProtocolError) : Prop where
  honest : ∀ s ∈ settled, Honest s
  ranges : Ranges start settled applied
  final : settled.Pairwise fun a b => IsUnknown a → IsNotApplied b
  poisoned : (∃ s ∈ settled, IsUnknown s) → failure.isSome

namespace Answered

variable {start applied : ℕ} {settled : List Settlement} {failure : Option ProtocolError}

section

variable (h : Answered start settled applied failure)
include h

theorem honest_snoc {s : Settlement} (hs : Honest s) : ∀ x ∈ settled ++ [s], Honest x := by
  intro x hx
  rcases List.mem_append.mp hx with hx | hx
  · exact h.honest x hx
  · rw [List.mem_singleton.mp hx]
    exact hs

theorem ranges_snoc_error (c : InputCommand) (f : ControlFailure) :
    Ranges start (settled ++ [(c,.error f)]) applied := by
  rw [ranges_append]
  exact ⟨applied,h.ranges,by simp [Ranges]⟩

theorem snoc_notApplied {c : InputCommand} (hc : c.confirmed = 0) (error : ProtocolError) :
    Answered start (settled ++ [(c,.error (notApplied error))]) applied failure where
  honest := h.honest_snoc (by simp [Honest,notApplied,hc])
  ranges := h.ranges_snoc_error _ _
  final := by
    rw [List.pairwise_append]
    refine ⟨h.final,List.pairwise_singleton _ _,?_⟩
    intro a _ b hb _
    rw [List.mem_singleton.mp hb]
    exact ⟨_,rfl,rfl⟩
  poisoned := by
    rintro ⟨s,hs,hu⟩
    rcases List.mem_append.mp hs with hs | hs
    · exact h.poisoned ⟨s,hs,hu⟩
    · obtain ⟨f,hf,hd⟩ := hu
      rw [List.mem_singleton.mp hs] at hf
      cases hf
      simp [notApplied] at hd

theorem final_snoc (hnone : ∀ s ∈ settled, ¬IsUnknown s) (s : Settlement) :
    (settled ++ [s]).Pairwise fun a b => IsUnknown a → IsNotApplied b := by
  rw [List.pairwise_append]
  refine ⟨h.final,List.pairwise_singleton _ _,?_⟩
  intro a ha b _ hu
  exact absurd hu (hnone a ha)

theorem snoc_unknown (hnone : ∀ s ∈ settled, ¬IsUnknown s) (c : InputCommand)
    (error poison : ProtocolError) :
    Answered start
      (settled ++ [(c,.error { unknownFailure error with confirmedInputBytes := some c.confirmed })])
      applied (some poison) where
  honest := h.honest_snoc (by simp [Honest,unknownFailure])
  ranges := h.ranges_snoc_error _ _
  final := h.final_snoc hnone _
  poisoned := by simp

end

theorem snoc_ok (h : Answered start settled applied none) {c : InputCommand}
    (hc : c.confirmed = c.data.length) :
    Answered start (settled ++ [(c,.ok ⟨applied,applied + c.data.length⟩)])
      (applied + c.data.length) none := by
  have hnone : ∀ s ∈ settled, ¬IsUnknown s := by
    intro s hs hu
    have hp := h.poisoned ⟨s,hs,hu⟩
    simp at hp
  refine ⟨h.honest_snoc (by simp [Honest,hc]),?_,h.final_snoc hnone _,?_⟩
  · rw [ranges_append]
    exact ⟨applied,h.ranges,by simp [Ranges]⟩
  · rintro ⟨s,hs,hu⟩
    rcases List.mem_append.mp hs with hs | hs
    · exact absurd hu (hnone s hs)
    · obtain ⟨f,hf,_⟩ := hu
      rw [List.mem_singleton.mp hs] at hf
      cases hf

end Answered

def InputOperationEntry.outcome : InputOperationEntry → Option InputResult
  | .pending _ _ => none
  | .completed _ range => some (.ok range)
  | .unknown _ failure => some (.error failure)

/-- The latest admission of a key, with the request it was admitted for. -/
def Origin (admitted : List Admission) (key : InputOperationKey) (request : InputOperationRequest)
    (channel : ℕ) : Prop :=
  ⟨request.data,some request.expectedByte,.recoverable key channel⟩ ∈ admitted ∧
    ∀ a ∈ admitted, ∀ channel', a.reply = .recoverable key channel' → channel' ≤ channel

theorem Origin.snoc {admitted : List Admission} {key : InputOperationKey}
    {request : InputOperationRequest} {channel : ℕ} (h : Origin admitted key request channel)
    {a : Admission} (ha : ∀ channel', a.reply ≠ .recoverable key channel') :
    Origin (admitted ++ [a]) key request channel := by
  refine ⟨List.mem_append_left _ h.1,?_⟩
  intro b hb channel' hr
  rcases List.mem_append.mp hb with hb | hb
  · exact h.2 b hb channel' hr
  · rw [List.mem_singleton.mp hb] at hr
    exact absurd hr (ha channel')

theorem Origin.fresh {admitted : List Admission} {key : InputOperationKey} {channel : ℕ}
    (h : ∀ a ∈ admitted, a.reply.channel < channel) (request : InputOperationRequest) :
    Origin (admitted ++ [⟨request.data,some request.expectedByte,.recoverable key channel⟩]) key
      request channel := by
  refine ⟨by simp,?_⟩
  intro b hb channel' hr
  rcases List.mem_append.mp hb with hb | hb
  · have hlt := h b hb
    rw [hr] at hlt
    exact hlt.le
  · rw [List.mem_singleton.mp hb] at hr
    cases hr
    exact le_refl _

/-- The pending entries are the queued recoverable commands; a settled entry is an
adopted one, or has the answer that the latest admission of its key got. -/
structure Ledger (base : InputOperations) (admitted : List Admission) (settled : List Settlement)
    (queued : List (List Byte × InputReply)) (ops : InputOperations) : Prop where
  queued_pending : ∀ t ∈ queued, ∀ key channel, t.2 = .recoverable key channel →
    ∃ expected, ops.lookup key = some (.pending ⟨expected,t.1⟩ channel) ∧
      Origin admitted key ⟨expected,t.1⟩ channel
  pending_queued : ∀ key request channel, ops.lookup key = some (.pending request channel) →
    (request.data,.recoverable key channel) ∈ queued
  outcome_answered : ∀ key entry result, ops.lookup key = some entry →
    entry.outcome = some result →
      (base.lookup key = some entry ∧ ∀ a ∈ admitted, ∀ channel, a.reply ≠ .recoverable key channel) ∨
      ∃ channel, Origin admitted key entry.request channel ∧
        ∃ s ∈ settled, s.1.ticket = (entry.request.data,.recoverable key channel) ∧ s.2 = result

namespace Ledger

variable {base ops ops' : InputOperations} {admitted : List Admission} {settled : List Settlement}
  {queued : List (List Byte × InputReply)}

/-- The front command leaves the queue: no other key is touched, and what stays of its
own key is the result that it was answered with. -/
theorem settle {t : List Byte × InputReply} (h : Ledger base admitted settled (t::queued) ops)
    (hnd : ((t::queued).map (·.2.channel)).Nodup) {c : InputCommand} (hc : c.ticket = t)
    {result : InputResult}
    (hother : ∀ key, (∀ channel, t.2 ≠ .recoverable key channel) →
      ops'.lookup key = ops.lookup key)
    (hself : ∀ key channel request, t.2 = .recoverable key channel →
      ops.lookup key = some (.pending request channel) → ∀ entry, ops'.lookup key = some entry →
        entry.request = request ∧ entry.outcome = some result) :
    Ledger base admitted (settled ++ [(c,result)]) queued ops' := by
  have hfront := h.queued_pending t List.mem_cons_self
  constructor
  · intro d hd key channel hkey
    obtain ⟨e,he,hadm⟩ := h.queued_pending d (List.mem_cons_of_mem _ hd) key channel hkey
    have hne : ∀ channel', t.2 ≠ .recoverable key channel' := by
      intro channel' ht
      obtain ⟨e₁,h₁,_⟩ := hfront key channel' ht
      rw [he] at h₁
      have hch : channel = channel' := by
        injection Option.some.inj h₁
      apply (List.nodup_cons.mp hnd).1
      have hmem : d.2.channel ∈ queued.map (·.2.channel) := List.mem_map_of_mem hd
      simpa [ht,hkey,InputReply.channel,hch] using hmem
    exact ⟨e,by rw [hother key hne,he],hadm⟩
  · intro key request channel hlook
    by_cases hkey : ∃ channel', t.2 = .recoverable key channel'
    · obtain ⟨channel',ht⟩ := hkey
      obtain ⟨e,he,_⟩ := hfront key channel' ht
      have hout := (hself key channel' _ ht he _ hlook).2
      simp [InputOperationEntry.outcome] at hout
    · push Not at hkey
      rw [hother key hkey] at hlook
      rcases List.mem_cons.mp (h.pending_queued key request channel hlook) with hd | hd
      · exact absurd (congrArg Prod.snd hd).symm (hkey channel)
      · exact hd
  · intro key entry result' hlook hout
    by_cases hkey : ∃ channel', t.2 = .recoverable key channel'
    · obtain ⟨channel,ht⟩ := hkey
      obtain ⟨e,he,hadm⟩ := hfront key channel ht
      obtain ⟨hreq,hres⟩ := hself key channel _ ht he _ hlook
      have hresult : result = result' := Option.some.inj (hres.symm.trans hout)
      right
      refine ⟨channel,?_,(c,result),by simp,?_,hresult⟩
      · rw [hreq]
        exact hadm
      · rw [hreq,← ht]
        exact hc
    · push Not at hkey
      rw [hother key hkey] at hlook
      rcases h.outcome_answered key entry result' hlook hout with hb | ⟨channel,hadm,s,hs,hst⟩
      · exact Or.inl hb
      · exact Or.inr ⟨channel,hadm,s,List.mem_append_left _ hs,hst⟩

theorem enter (h : Ledger base admitted settled queued ops) (data : List Byte)
    (expected : Option ℕ) (reply : InputReply)
    (hfresh : ∀ a ∈ admitted, a.reply.channel < reply.channel)
    (hother : ∀ key, (∀ channel, reply ≠ .recoverable key channel) →
      ops'.lookup key = ops.lookup key)
    (hself : ∀ key channel, reply = .recoverable key channel → ops.lookup key = none ∧
      ∃ e, expected = some e ∧ ops'.lookup key = some (.pending ⟨e,data⟩ channel)) :
    Ledger base (admitted ++ [⟨data,expected,reply⟩]) settled (queued ++ [(data,reply)]) ops' := by
  constructor
  · intro t ht key channel hkey
    rcases List.mem_append.mp ht with ht | ht
    · obtain ⟨e,he,hadm⟩ := h.queued_pending t ht key channel hkey
      have hne : ∀ channel', reply ≠ .recoverable key channel' := by
        intro channel' hr
        rw [(hself key channel' hr).1] at he
        cases he
      exact ⟨e,by rw [hother key hne,he],hadm.snoc hne⟩
    · rw [List.mem_singleton.mp ht] at hkey ⊢
      obtain ⟨_,e,he,hlook⟩ := hself key channel hkey
      dsimp only at hkey
      rw [hkey] at hfresh
      rw [hkey,he]
      exact ⟨e,hlook,Origin.fresh hfresh ⟨e,data⟩⟩
  · intro key request channel hlook
    by_cases hkey : ∃ channel', reply = .recoverable key channel'
    · obtain ⟨channel',hr⟩ := hkey
      obtain ⟨_,e,_,he⟩ := hself key channel' hr
      rw [he] at hlook
      cases hlook
      simp [hr]
    · push Not at hkey
      rw [hother key hkey] at hlook
      exact List.mem_append_left _ (h.pending_queued key request channel hlook)
  · intro key entry result hlook hout
    by_cases hkey : ∃ channel', reply = .recoverable key channel'
    · obtain ⟨channel',hr⟩ := hkey
      obtain ⟨_,e,_,he⟩ := hself key channel' hr
      rw [he] at hlook
      cases hlook
      simp [InputOperationEntry.outcome] at hout
    · push Not at hkey
      rw [hother key hkey] at hlook
      rcases h.outcome_answered key entry result hlook hout with ⟨hb,hnever⟩ | ⟨channel,hadm,hs⟩
      · refine Or.inl ⟨hb,?_⟩
        intro a ha
        rcases List.mem_append.mp ha with ha | ha
        · exact hnever a ha
        · rw [List.mem_singleton.mp ha]
          exact hkey
      · exact Or.inr ⟨channel,hadm.snoc hkey,hs⟩

theorem evict (h : Ledger base admitted settled queued ops)
    (hev : ∀ key, ops'.lookup key = ops.lookup key ∨ ops'.lookup key = none ∧
      ∃ request range, ops.lookup key = some (.completed request range)) :
    Ledger base admitted settled queued ops' := by
  have hsub : ∀ key entry, ops'.lookup key = some entry → ops.lookup key = some entry := by
    intro key entry hlook
    rcases hev key with he | ⟨he,_⟩
    · rw [← he,hlook]
    · rw [he] at hlook
      cases hlook
  constructor
  · intro t ht key channel hkey
    obtain ⟨e,he,hadm⟩ := h.queued_pending t ht key channel hkey
    rcases hev key with hk | ⟨_,request,range,hk⟩
    · exact ⟨e,by rw [hk,he],hadm⟩
    · rw [he] at hk
      cases hk
  · intro key request channel hlook
    exact h.pending_queued key request channel (hsub key _ hlook)
  · intro key entry result hlook hout
    exact h.outcome_answered key entry result (hsub key _ hlook) hout

end Ledger

theorem removeReplyOperation_spec (st : ControlState) (reply : InputReply) :
    ∃ ops retained, removeReplyOperation st reply =
        { st with inputOperations := ops, retainedInputRequestBytes := retained } ∧
      (∀ key, (∀ channel, reply ≠ .recoverable key channel) →
        ops.lookup key = st.inputOperations.lookup key) ∧
      ∀ key channel, reply = .recoverable key channel → ops.lookup key = none := by
  cases reply with
  | legacy channel =>
    refine ⟨st.inputOperations,st.retainedInputRequestBytes,rfl,fun _ _ => rfl,?_⟩
    intro key channel' h
    cases h
  | recoverable key channel =>
    unfold removeReplyOperation removeInputOperation
    cases hl : st.inputOperations.lookup key with
    | none =>
      refine ⟨st.inputOperations,st.retainedInputRequestBytes,by simp only [hl],fun _ _ => rfl,?_⟩
      intro key' channel' h
      cases h
      exact hl
    | some entry =>
      refine ⟨st.inputOperations.erase key,
        st.retainedInputRequestBytes - entry.request.data.length,by simp only [hl],?_,?_⟩
      · intro key' h
        have hne : key' ≠ key := by
          rintro rfl
          exact h channel rfl
        exact AList.lookup_erase_ne hne
      · intro key' channel' h
        cases h
        exact AList.lookup_erase _ _

theorem retainUnknownInputOperation_spec (st : ControlState) (reply : InputReply)
    (failure : ControlFailure) :
    ∃ ops, retainUnknownInputOperation st reply failure = { st with inputOperations := ops } ∧
      (∀ key, (∀ channel, reply ≠ .recoverable key channel) →
        ops.lookup key = st.inputOperations.lookup key) ∧
      ∀ key channel entry, reply = .recoverable key channel →
        st.inputOperations.lookup key = some entry →
          ops.lookup key = some (.unknown entry.request failure) := by
  cases reply with
  | legacy channel =>
    refine ⟨st.inputOperations,rfl,fun _ _ => rfl,?_⟩
    intro key channel' entry h
    cases h
  | recoverable key channel =>
    unfold retainUnknownInputOperation
    cases hl : st.inputOperations.lookup key with
    | none =>
      refine ⟨st.inputOperations,by simp only [hl],fun _ _ => rfl,?_⟩
      intro key' channel' entry h hl'
      cases h
      rw [hl] at hl'
      cases hl'
    | some entry =>
      refine ⟨st.inputOperations.insert key (.unknown entry.request failure),by simp only [hl],?_,?_⟩
      · intro key' h
        have hne : key' ≠ key := by
          rintro rfl
          exact h channel rfl
        exact AList.lookup_insert_ne hne
      · intro key' channel' entry' h hl'
        cases h
        rw [hl] at hl'
        cases hl'
        exact AList.lookup_insert _

theorem retainCompletedInputOperation_spec (st : ControlState) (reply : InputReply)
    (range : AppliedInputRange) :
    ∃ ops completed, retainCompletedInputOperation st reply range =
        { st with inputOperations := ops, completedInputOperations := completed } ∧
      (∀ key, (∀ channel, reply ≠ .recoverable key channel) →
        ops.lookup key = st.inputOperations.lookup key) ∧
      ∀ key channel entry, reply = .recoverable key channel →
        st.inputOperations.lookup key = some entry →
          ops.lookup key = some (.completed entry.request range) := by
  cases reply with
  | legacy channel =>
    refine ⟨st.inputOperations,st.completedInputOperations,rfl,fun _ _ => rfl,?_⟩
    intro key channel' entry h
    cases h
  | recoverable key channel =>
    unfold retainCompletedInputOperation
    cases hl : st.inputOperations.lookup key with
    | none =>
      refine ⟨st.inputOperations,st.completedInputOperations,by simp only [hl],fun _ _ => rfl,?_⟩
      intro key' channel' entry h hl'
      cases h
      rw [hl] at hl'
      cases hl'
    | some entry =>
      refine ⟨st.inputOperations.insert key (.completed entry.request range),
        st.completedInputOperations ++ [key],by simp only [hl],?_,?_⟩
      · intro key' h
        have hne : key' ≠ key := by
          rintro rfl
          exact h channel rfl
        exact AList.lookup_insert_ne hne
      · intro key' channel' entry' h hl'
        cases h
        rw [hl] at hl'
        cases hl'
        exact AList.lookup_insert _

/-- The lane invariant. The queue is a parameter of its own because a fenced lane is
emptied before its commands are settled one by one. -/
structure Lane (base : HandoffInputState) (admitted : List Admission) (settled : List Settlement)
    (wire : List (ℕ × List Byte)) (st : ControlState) (queue : List InputCommand) : Prop where
  recorded : Recorded (settled.map (·.1) ++ queue) admitted wire
  answered : Answered base.appliedInputBytes settled st.appliedInputBytes st.inputFailure
  ledger : Ledger base.ledger admitted settled (queue.map (·.ticket)) st.inputOperations
  commands : st.inputCommands = queue.length
  bytes : st.inputBytes = (queue.map (·.data.length)).sum
  waiting : ∀ c ∈ queue.tail, c.confirmed = 0
  unfinished : ∀ c ∈ queue, c.confirmed = 0 ∨ c.confirmed < c.data.length
  cursor : ∀ c ∈ queue, c.confirmed ≠ 0 → cursorRefused st c = false
  clean : (∃ c ∈ queue, c.confirmed ≠ 0) → ∀ s ∈ settled, ¬IsUnknown s

namespace Lane

variable {base : HandoffInputState} {admitted : List Admission} {settled : List Settlement}
  {wire wire' : List (ℕ × List Byte)} {st st' : ControlState} {c c' : InputCommand}
  {queue : List InputCommand}

theorem queue_channels_nodup (h : Lane base admitted settled wire st queue) :
    ((queue.map (·.ticket)).map (·.2.channel)).Nodup := by
  have hnd := h.recorded.channels_nodup
  rw [List.map_append,List.nodup_append] at hnd
  simpa [List.map_map,Function.comp_def,InputCommand.ticket] using hnd.2.1

section

variable (h : Lane base admitted settled wire st (c::queue))
include h

theorem of_settled {result : InputResult}
    (hrec : Recorded (settled.map (·.1) ++ c'::queue) admitted wire')
    (hans : Answered base.appliedInputBytes (settled ++ [(c',result)]) st'.appliedInputBytes
      st'.inputFailure)
    (hled : Ledger base.ledger admitted (settled ++ [(c',result)]) (queue.map (·.ticket))
      st'.inputOperations) (hcommands : st'.inputCommands = st.inputCommands - 1)
    (hbytes : st'.inputBytes = st.inputBytes - c.data.length) :
    Lane base admitted (settled ++ [(c',result)]) wire' st' queue := by
  have hzero : ∀ d ∈ queue, d.confirmed = 0 := h.waiting
  refine ⟨by simpa using hrec,hans,hled,?_,?_,?_,?_,?_,?_⟩
  · rw [hcommands,h.commands]
    simp
  · rw [hbytes,h.bytes]
    simp
  · intro d hd
    exact hzero d (List.mem_of_mem_tail hd)
  · intro d hd
    exact Or.inl (hzero d hd)
  · intro d hd hd'
    exact absurd (hzero d hd) hd'
  · rintro ⟨d,hd,hd'⟩
    exact absurd (hzero d hd) hd'

theorem settle_notApplied (hc : c.confirmed = 0) (error : ProtocolError) :
    Lane base admitted (settled ++ [(c,.error (notApplied error))]) wire
      (removeReplyOperation (releaseInputCapacity st c.data.length) c.reply) queue := by
  obtain ⟨ops,retained,heq,hother,hself⟩ :=
    removeReplyOperation_spec (releaseInputCapacity st c.data.length) c.reply
  rw [heq]
  refine h.of_settled h.recorded ?_ ?_ rfl rfl
  · exact h.answered.snoc_notApplied hc error
  apply h.ledger.settle h.queue_channels_nodup rfl hother
  intro key channel request ht _ entry hl
  rw [hself key channel ht] at hl
  cases hl

theorem settle_unknown (hnone : ∀ s ∈ settled, ¬IsUnknown s) (error poison : ProtocolError) :
    Lane base admitted
      (settled ++ [(c,.error { unknownFailure error with confirmedInputBytes := some c.confirmed })])
      wire
      (retainUnknownInputOperation
        { releaseInputCapacity st c.data.length with inputFailure := some poison } c.reply
        { unknownFailure error with confirmedInputBytes := some c.confirmed }) queue := by
  obtain ⟨ops,heq,hother,hself⟩ := retainUnknownInputOperation_spec
    { releaseInputCapacity st c.data.length with inputFailure := some poison } c.reply
    { unknownFailure error with confirmedInputBytes := some c.confirmed }
  rw [heq]
  refine h.of_settled h.recorded ?_ ?_ rfl rfl
  · exact h.answered.snoc_unknown hnone c error poison
  apply h.ledger.settle h.queue_channels_nodup rfl hother
  intro key channel request ht hpending entry hl
  rw [hself key channel _ ht hpending] at hl
  cases hl
  exact ⟨rfl,rfl⟩

/-- The front command completes with the write of its last bytes. -/
theorem settle_ok (hfail : st.inputFailure = none) {n : ℕ} (hn : c.confirmed + n = c.data.length)
    (scheduled blocked : Bool) :
    Lane base admitted
      (settled ++ [({ c with confirmed := c.confirmed + n },
        .ok ⟨st.appliedInputBytes,st.appliedInputBytes + c.data.length⟩)])
      (wire ++ [(c.reply.channel,acceptedSlice c n)])
      (retainCompletedInputOperation
        (releaseInputCapacity
          { st with
            inputBlocked := blocked
            inputQueue := queue
            appliedInputBytes := st.appliedInputBytes + c.data.length
            inputScheduled := scheduled } c.data.length) c.reply
        ⟨st.appliedInputBytes,st.appliedInputBytes + c.data.length⟩) queue := by
  obtain ⟨ops,completed,heq,hother,hself⟩ := retainCompletedInputOperation_spec
    (releaseInputCapacity
      { st with
        inputBlocked := blocked
        inputQueue := queue
        appliedInputBytes := st.appliedInputBytes + c.data.length
        inputScheduled := scheduled } c.data.length) c.reply
    ⟨st.appliedInputBytes,st.appliedInputBytes + c.data.length⟩
  rw [heq]
  have hrec := h.recorded.write h.waiting (n := n) (by omega)
  have hans := h.answered
  rw [hfail] at hans
  refine h.of_settled hrec ?_ ?_ rfl rfl
  · simpa [releaseInputCapacity,hfail] using hans.snoc_ok (c := { c with confirmed := c.confirmed + n }) hn
  · refine h.ledger.settle h.queue_channels_nodup (c := { c with confirmed := c.confirmed + n }) rfl hother ?_
    intro key channel request ht hpending entry hl
    rw [hself key channel _ ht hpending] at hl
    cases hl
    exact ⟨rfl,rfl⟩

theorem rejectCommand (error : ProtocolError) :
    Lane base admitted (settled ++ [(c,.error (NativeControl.rejectCommand st error c).2)]) wire
      (NativeControl.rejectCommand st error c).1 queue := by
  unfold NativeControl.rejectCommand
  split
  · rename_i hc
    exact h.settle_notApplied hc error
  · rename_i hc
    exact h.settle_unknown (h.clean ⟨c,by simp,hc⟩) error error

end

theorem rejectLoop (error : ProtocolError) (h : Lane base admitted settled wire st queue) :
    Lane base admitted (settled ++ (NativeControl.rejectLoop error st queue).2) wire
      (NativeControl.rejectLoop error st queue).1 [] := by
  induction queue generalizing st settled with
  | nil => simpa [NativeControl.rejectLoop] using h
  | cons c queue ih =>
    have hh := ih (h.rejectCommand error)
    simpa [NativeControl.rejectLoop] using hh

theorem rejectQueuedInputs (h : Lane base admitted settled wire st st.inputQueue)
    (error : ProtocolError) :
    Lane base admitted (settled ++ (NativeControl.rejectQueuedInputs st error).2) wire
      (NativeControl.rejectQueuedInputs st error).1 [] :=
  Lane.rejectLoop error ⟨h.recorded,h.answered,h.ledger,h.commands,h.bytes,h.waiting,h.unfinished,
    h.cursor,h.clean⟩

/-- The front command accepts a part of its bytes and stays in front. -/
theorem advance (h : Lane base admitted settled wire st (c::queue))
    (hfail : st.inputFailure = none) (hcursor : cursorRefused st c = false) {n : ℕ}
    (hn : c.confirmed + n < c.data.length) (blocked : Bool) :
    Lane base admitted settled (wire ++ [(c.reply.channel,acceptedSlice c n)])
      { st with
        inputBlocked := blocked
        inputQueue := { c with confirmed := c.confirmed + n }::queue }
      ({ c with confirmed := c.confirmed + n }::queue) := by
  have hzero : ∀ d ∈ queue, d.confirmed = 0 := h.waiting
  refine ⟨h.recorded.write hzero (by omega),h.answered,h.ledger,?_,?_,hzero,?_,?_,?_⟩
  · simpa using h.commands
  · simpa using h.bytes
  · intro d hd
    rcases List.mem_cons.mp hd with rfl | hd
    · exact Or.inr hn
    · exact Or.inl (hzero d hd)
  · intro d hd hd'
    rcases List.mem_cons.mp hd with rfl | hd
    · exact hcursor
    · exact absurd (hzero d hd) hd'
  · intro _ s hs hu
    have hp := h.answered.poisoned ⟨s,hs,hu⟩
    rw [hfail] at hp
    cases hp

/-- An operation that neither moves the cursor nor touches a queued key keeps the check
of the front command. -/
theorem cursor_of_lookup (h : Lane base admitted settled wire st queue)
    (happlied : st'.appliedInputBytes = st.appliedInputBytes)
    (hlookup : ∀ c ∈ queue, ∀ key channel, c.reply = .recoverable key channel →
      st'.inputOperations.lookup key = st.inputOperations.lookup key) :
    ∀ c ∈ queue, c.confirmed ≠ 0 → cursorRefused st' c = false := by
  intro c hc hne
  have hh := h.cursor c hc hne
  have hexp : expectedCursor st' c.reply = expectedCursor st c.reply := by
    cases hr : c.reply with
    | legacy channel => simp [expectedCursor,happlied]
    | recoverable key channel => simp [expectedCursor,hlookup c hc key channel hr,happlied]
  simpa [cursorRefused,hexp,happlied] using hh

theorem evict (h : Lane base admitted settled wire st queue) {ops : InputOperations}
    (hev : ∀ key, ops.lookup key = st.inputOperations.lookup key ∨ ops.lookup key = none ∧
      ∃ request range, st.inputOperations.lookup key = some (.completed request range))
    (completed : List InputOperationKey) (retained : ℕ) :
    Lane base admitted settled wire
      { st with
        inputOperations := ops
        completedInputOperations := completed
        retainedInputRequestBytes := retained } queue := by
  refine ⟨h.recorded,h.answered,h.ledger.evict hev,h.commands,h.bytes,h.waiting,h.unfinished,?_,
    h.clean⟩
  refine h.cursor_of_lookup ?_ ?_
  · rfl
  intro c hc key channel hr
  obtain ⟨e,he,_⟩ := h.ledger.queued_pending c.ticket (List.mem_map_of_mem hc) key channel hr
  rcases hev key with hk | ⟨_,request,range,hk⟩
  · exact hk
  · rw [he] at hk
    cases hk

theorem enter (h : Lane base admitted settled wire st queue) (data : List Byte)
    (expected : Option ℕ) {reply : InputReply} (hr : reply.channel = admitted.length)
    (hcommands : st'.inputCommands = st.inputCommands + 1)
    (hbytes : st'.inputBytes = st.inputBytes + data.length)
    (happlied : st'.appliedInputBytes = st.appliedInputBytes)
    (hfail : st'.inputFailure = st.inputFailure)
    (hother : ∀ key, (∀ channel, reply ≠ .recoverable key channel) →
      st'.inputOperations.lookup key = st.inputOperations.lookup key)
    (hself : ∀ key channel, reply = .recoverable key channel →
      st.inputOperations.lookup key = none ∧
      ∃ e, expected = some e ∧ st'.inputOperations.lookup key = some (.pending ⟨e,data⟩ channel)) :
    Lane base (admitted ++ [⟨data,expected,reply⟩]) settled wire st'
      (queue ++ [⟨data,0,reply⟩]) := by
  have hrec : Recorded ((settled.map (·.1) ++ queue) ++ [⟨data,0,reply⟩])
      (admitted ++ [⟨data,expected,reply⟩]) wire := h.recorded.enter data expected hr
  have hcursor : ∀ c ∈ queue, c.confirmed ≠ 0 → cursorRefused st' c = false := by
    apply h.cursor_of_lookup happlied
    intro c hc key channel hkey
    apply hother
    intro channel' hr'
    obtain ⟨e,he,_⟩ := h.ledger.queued_pending c.ticket (List.mem_map_of_mem hc) key channel hkey
    rw [(hself key channel' hr').1] at he
    cases he
  refine ⟨by simpa [List.append_assoc] using hrec,?_,?_,?_,?_,?_,?_,?_,?_⟩
  · rw [happlied,hfail]
    exact h.answered
  · have hfresh : ∀ a ∈ admitted, a.reply.channel < reply.channel := by
      intro a ha
      rw [hr]
      exact h.recorded.admitted_lt ha
    simpa [InputCommand.ticket] using h.ledger.enter data expected reply hfresh hother hself
  · simp [hcommands,h.commands]
  · simp [hbytes,h.bytes]
  · intro c hc
    cases queue with
    | nil => simp at hc
    | cons q queue =>
      rcases List.mem_append.mp hc with hc | hc
      · exact h.waiting c hc
      · rw [List.mem_singleton.mp hc]
  · intro c hc
    rcases List.mem_append.mp hc with hc | hc
    · exact h.unfinished c hc
    · rw [List.mem_singleton.mp hc]
      exact Or.inl rfl
  · intro c hc hne
    rcases List.mem_append.mp hc with hc | hc
    · exact hcursor c hc hne
    · rw [List.mem_singleton.mp hc] at hne
      exact absurd rfl hne
  · rintro ⟨c,hc,hne⟩
    rcases List.mem_append.mp hc with hc | hc
    · exact h.clean ⟨c,hc,hne⟩
    · rw [List.mem_singleton.mp hc] at hne
      exact absurd rfl hne

end Lane

end NativeControl
end Ctxmux
