import Ctxmux.Diagnostics

/-!
# The diagnostic account

Every byte of funding belongs to one live reservation, every call is in one place (in
flight, in the channel, with the writer, or settled), and each counter is the number of
calls settled in its class.
-/

namespace Ctxmux
namespace Diagnostic

open MapTotals

namespace Phase

/-- The bytes that the reservation of the call holds. -/
def held (l : DiagnosticLimits) : Phase → ℕ
  | .entered | .checkingSink | .reserving | .accepted => 0
  | .reserved | .formatting | .encoded _ _ | .abandoned | .releasing => State.required l
  | .retained _ funding | .unguarded _ funding | .sending _ funding | .returned _ funding => funding

def guarded : Phase → ℕ
  | .formatting | .encoded _ _ | .retained _ _ | .abandoned => 1
  | _ => 0

def queuing : Phase → ℕ
  | .sending _ _ | .returned _ _ => 1
  | _ => 0

/-- The call is not settled and its record is not in the channel. -/
def unsettled : Phase → ℕ
  | .accepted | .abandoned | .releasing => 0
  | _ => 1

end Phase

namespace WriterPhase

def held : WriterPhase → ℕ
  | .received record | .active record | .noticing record _ | .writing record _
  | .settled record _ => record.funding
  | .starting | .waiting | .draining | .retired => 0

/-- The call whose record the writer holds unsettled. -/
def calls : WriterPhase → List ℕ
  | .received record | .active record | .noticing record _ | .writing record _ => [record.call]
  | .starting | .waiting | .settled _ _ | .draining | .retired => []

end WriterPhase

def Message.funding : Message → ℕ
  | .record r => r.funding
  | .shutdown => 0

def Message.records : Message → ℕ
  | .record _ => 1
  | .shutdown => 0

def Message.calls : Message → List ℕ
  | .record r => [r.call]
  | .shutdown => []

def channelBytes (channel : List Message) : ℕ := (channel.map Message.funding).sum
def channelRecords (channel : List Message) : ℕ := (channel.map Message.records).sum
def channelCalls (channel : List Message) : List ℕ := channel.flatMap Message.calls

/-- Unless a counter saturated, each class counter is the number of its settlements. -/
def Counted (c : Counters) (settlements : List (ℕ × Class)) : Prop :=
  c.saturated = false → ∀ k : Class, c.value k.counter = (settlements.map Prod.snd).count k

theorem counted_initial : Counted .initial [] := fun _ _ => rfl

theorem Class.counter_injective : Function.Injective Class.counter := by
  intro a b h
  cases a <;> cases b <;> first | rfl | cases h

namespace Counted

variable {c : Counters} {settlements : List (ℕ × Class)}

theorem add (h : Counted c settlements) {counter : Counter}
    (hother : ∀ k : Class, k.counter ≠ counter) (amount : ℕ) :
    Counted (c.add counter amount) settlements := by
  intro hs k
  have hs' : c.saturated = false := by
    unfold Counters.add at hs
    simp only [Bool.or_eq_false_iff] at hs
    exact hs.1
  show Function.update c.value counter _ k.counter = _
  rw [Function.update_of_ne (hother k)]
  exact h hs' k

theorem settle (h : Counted c settlements) (call : ℕ) (k : Class) :
    Counted (c.add k.counter 1) (settlements ++ [(call,k)]) := by
  intro hs j
  have hs' : c.saturated = false ∧ ¬u64Max < c.value k.counter+1 := by
    unfold Counters.add at hs
    simpa only [Bool.or_eq_false_iff,decide_eq_false_iff_not] using hs
  have hvalue := h hs'.1 j
  show Function.update c.value k.counter _ j.counter = _
  rw [List.map_append,List.count_append]
  by_cases hj : j = k
  · subst hj
    rw [Function.update_self,hvalue,Nat.min_eq_left (by omega)]
    simp
  · rw [Function.update_of_ne (fun heq => hj (Class.counter_injective heq)),hvalue]
    simp [Ne.symm hj]

end Counted

structure State.Accounted (l : DiagnosticLimits) (s : State) : Prop where
  funded : s.funded = total (Phase.held l) s.producers+channelBytes s.channel+s.writer.held
  limit : s.funded ≤ l.queueBytes
  formatting : s.formatting = total Phase.guarded s.producers
  queued : s.queued = total Phase.queuing s.producers+channelRecords s.channel
  known : ∀ call phase, s.producers.lookup call = some phase → call < s.calls
  place : ∀ call, (s.producers.lookup call).elim 0 Phase.unsettled+
    (channelCalls s.channel).count call+s.writer.calls.count call+
      (s.settlements.map Prod.fst).count call = if call < s.calls then 1 else 0
  counted : Counted s.counters s.settlements
  order : ∃ done, s.enqueued = done ++ s.writer.calls ++ channelCalls s.channel ∧
    s.written.Sublist done ∧ ∀ call, done.count call ≤ (s.settlements.map Prod.fst).count call

namespace State

variable {l : DiagnosticLimits} {s : State} {call : ℕ} {phase : Phase}

theorem accounted_initial (l : DiagnosticLimits) : initial.Accounted l where
  funded := rfl
  limit := Nat.zero_le _
  formatting := rfl
  queued := rfl
  known := fun _ _ h => (nomatch h)
  place := fun _ => rfl
  counted := counted_initial
  order := ⟨[],rfl,List.Sublist.refl _,fun _ => Nat.zero_le _⟩

/-- A call moves on to its next phase, or is over. -/
def place (s : State) (call : ℕ) : Option Phase → State
  | some phase => s.moveTo call phase
  | none => s.finish call

theorem total_place (f : Phase → ℕ) (h : s.producers.lookup call = some phase)
    (next : Option Phase) :
    total f (s.place call next).producers+f phase = total f s.producers+next.elim 0 f := by
  have herase := total_erase f h
  cases next with
  | none =>
    show total f (s.producers.erase call)+f phase = _
    rw [herase]
    rfl
  | some phase' =>
    show total f (s.producers.insert call phase')+f phase = _
    rw [total_insert]
    simp only [Option.elim_some]
    omega

theorem lookup_place_self (s : State) (call : ℕ) (next : Option Phase) :
    (s.place call next).producers.lookup call = next := by
  cases next with
  | none => exact AList.lookup_erase _ _
  | some phase => exact AList.lookup_insert _

theorem lookup_place_ne (s : State) {call other : ℕ} (hne : other ≠ call) (next : Option Phase) :
    (s.place call next).producers.lookup other = s.producers.lookup other := by
  cases next with
  | none => exact AList.lookup_erase_ne hne
  | some phase => exact AList.lookup_insert_ne hne

theorem place_eq (s : State) (call : ℕ) (next : Option Phase) :
    s.place call next = { s with producers := (s.place call next).producers } := by
  cases next <;> rfl

/-- A call that is settled is counted once more, and it no longer waits for it. -/
theorem settled_count {settlements settlements' : List (ℕ × Class)} {before after : ℕ}
    (h : settlements' = settlements ∧ before = after ∨
      (∃ k, settlements' = settlements ++ [(call,k)]) ∧ before = after+1) :
    ∃ ended, before = after+ended ∧ ∀ other, (settlements'.map Prod.fst).count other =
      (settlements.map Prod.fst).count other+if other = call then ended else 0 := by
  rcases h with ⟨rfl,hopen⟩ | ⟨⟨k,rfl⟩,hopen⟩
  · exact ⟨0,hopen,fun other => by simp⟩
  · refine ⟨1,hopen,fun other => ?_⟩
    rw [List.map_append,List.count_append,List.map_singleton,List.count_singleton]
    simp only [beq_iff_eq,@eq_comm _ call other]

/-- A step of a call that leaves the channel and the writer alone: the counters follow the
phases, and the call is settled in the step that stops holding it. -/
theorem Accounted.advance (h : s.Accounted l) (hp : s.producers.lookup call = some phase)
    (next : Option Phase) {funded formatting queued : ℕ} {counters : Counters}
    {settlements : List (ℕ × Class)}
    (hfunded : funded+phase.held l = s.funded+next.elim 0 (Phase.held l))
    (hlimit : funded ≤ l.queueBytes)
    (hformatting : formatting+phase.guarded = s.formatting+next.elim 0 Phase.guarded)
    (hqueued : queued+phase.queuing = s.queued+next.elim 0 Phase.queuing)
    (hcounted : Counted counters settlements)
    (hsettled : settlements = s.settlements ∧ phase.unsettled = next.elim 0 Phase.unsettled ∨
      (∃ k, settlements = s.settlements ++ [(call,k)]) ∧
        phase.unsettled = next.elim 0 Phase.unsettled+1) :
    Accounted l ({ s with
      funded := funded, formatting := formatting, queued := queued
      counters := counters, settlements := settlements }.place call next) := by
  obtain ⟨ended,hopen,hcount⟩ := settled_count hsettled
  rw [place_eq]
  generalize ht : ({ s with
      funded := funded, formatting := formatting, queued := queued
      counters := counters, settlements := settlements } : State) = t
  have hp' : t.producers.lookup call = some phase := by rw [← ht,hp]
  have htotal : ∀ f : Phase → ℕ, total f (t.place call next).producers+f phase =
      total f s.producers+next.elim 0 f := fun f => by rw [total_place f hp' next,← ht]
  have hself := lookup_place_self t call next
  have hothers : ∀ other ≠ call, (t.place call next).producers.lookup other =
      s.producers.lookup other := fun other hne => by rw [lookup_place_ne t hne,← ht]
  generalize (t.place call next).producers = producers at htotal hself hothers
  subst ht
  constructor
  · have := htotal (Phase.held l)
    have := h.funded
    dsimp only
    omega
  · exact hlimit
  · have := htotal Phase.guarded
    have := h.formatting
    dsimp only
    omega
  · have := htotal Phase.queuing
    have := h.queued
    dsimp only
    omega
  · intro other phase' hother
    by_cases hne : other = call
    · exact hne ▸ h.known call phase hp
    · exact h.known other phase' ((hothers other hne).symm.trans hother)
  · intro other
    have hplace := h.place other
    dsimp only
    rw [hcount]
    by_cases hne : other = call
    · subst hne
      rw [hp,Option.elim_some] at hplace
      rw [hself,if_pos rfl]
      omega
    · rw [hothers other hne,if_neg hne]
      exact hplace
  · exact hcounted
  · obtain ⟨done,henqueued,hwritten,hdone⟩ := h.order
    refine ⟨done,henqueued,hwritten,fun other => ?_⟩
    have := hdone other
    dsimp only
    rw [hcount]
    omega

end State
end Diagnostic
end Ctxmux
