import Ctxmux.StreamLines

/-!
# Lines are delivered

The invariant of a JSON-lines connection. While it is live, the values of every
continuation of the stream are the delivered values followed by those of the queue and
of the raw buffer; after a terminal error they are the delivered values followed by
those of the queue alone.
-/

namespace Ctxmux
namespace Wire
namespace JsonLinesConnection

variable {α β : Type} {k : Codec α β} {c : JsonLinesConnection α β} {V : List β}

/-- The decoded lines in the queue. -/
def queue (c : JsonLinesConnection α β) : List α := c.lines.map QueuedLine.value

/-- A live connection in the middle of a pump, with the values delivered so far. -/
structure Flowing (k : Codec α β) (c : JsonLinesConnection α β) (V : List β) : Prop where
  live : c.terminalError = none
  notEnded : c.ended = false
  stream : ∀ more, valuesOf k (c.stream ++ more) = V ++ valuesFrom k c.queue (c.buffer ++ more)
  results : c.results = V.mapIdx fun i value => (i,.value value)
  waiting : c.waiting = List.range' V.length c.waiting.length
  calls : c.calls = V.length+c.waiting.length
  queueless : c.waiting ≠ [] → c.lines = []
  flag : c.paused = true ↔ c.socket = .paused
  socket : c.socket ≠ .destroyed
  bytes : c.queuedBytes = (c.lines.map QueuedLine.bytes).sum

/-- A live connection between two events. -/
structure Live (k : Codec α β) (c : JsonLinesConnection α β) (V : List β) : Prop
    extends Flowing k c V where
  idle : c.waiting ≠ [] → newline ∉ c.buffer
  held : newline ∈ c.buffer → c.socket = .paused
  pausedQueue : c.socket = .paused → c.lines ≠ []

/-- A connection with a terminal error: its queue is all that it will still deliver. -/
structure Dead (k : Codec α β) (c : JsonLinesConnection α β) (V : List β) : Prop where
  error : c.terminalError.isSome
  noWaiting : c.waiting = []
  stream : c.ended = true ∧ valuesOf k c.stream = V ++ valuesFrom k c.queue [] ∨
    ∀ more, valuesOf k (c.stream ++ more) = V ++ valuesFrom k c.queue []
  values : ∀ call value, (call,.value value) ∈ c.results → V[call]? = some value
  errors : ∀ call error, (call,.error error) ∈ c.results →
    (V ++ valuesFrom k c.queue []).length ≤ call
  once : (c.results.map Prod.fst).Perm (List.range c.calls)
  delivered : V.length ≤ c.calls
  next : c.lines ≠ [] → c.calls = V.length
  pausedBad : c.socket = .paused → ∃ q ∈ c.lines, k.parse q.value = none

def Sound (k : Codec α β) (c : JsonLinesConnection α β) : Prop :=
  ∃ V, Live k c V ∨ Dead k c V

theorem mapIdx_value_mem {call : ℕ} {r : Received β}
    (h : (call,r) ∈ V.mapIdx fun i value => (i,Received.value value)) :
    ∃ value, r = .value value ∧ V[call]? = some value := by
  obtain ⟨i,hi,heq⟩ := List.mem_mapIdx.mp h
  cases heq
  exact ⟨_,rfl,List.getElem?_eq_getElem hi⟩

theorem mapIdx_value_fst (V : List β) :
    (V.mapIdx fun i value => (i,Received.value value)).map Prod.fst = List.range V.length := by
  apply List.ext_getElem
  · simp
  · intro i h₁ h₂
    simp

theorem mapIdx_value_snoc (V : List β) (value : β) :
    ((V ++ [value]).mapIdx fun i value => (i,Received.value value)) =
      (V.mapIdx fun i value => (i,Received.value value)) ++ [(V.length,.value value)] := by
  simp [List.mapIdx_append]

/-- A terminal error hands every waiting receiver the error and leaves the queue. -/
theorem Flowing.fail (h : Flowing k c V) (d : JsonLinesConnection α β) (error : WireError)
    (hd : d = { c.terminate error with socket := d.socket, ended := d.ended })
    (hstream : d.ended = true ∧ valuesFrom k c.queue c.buffer = valuesFrom k c.queue [] ∨
      ∀ more, valuesFrom k c.queue (c.buffer ++ more) = valuesFrom k c.queue [])
    (hempty : c.waiting ≠ [] → valuesFrom k c.queue [] = [])
    (hpaused : d.socket = .paused → ∃ q ∈ c.lines, k.parse q.value = none) : Dead k d V := by
  have hterminate : c.terminate error = { c with
      terminalError := some error
      results := c.results ++ c.waiting.map fun call => (call,.error error)
      waiting := [] } := by
    unfold terminate
    rw [h.live]
  rw [hterminate] at hd
  have hqueue : d.queue = c.queue := by
    rw [hd]
    rfl
  have hresults : d.results = c.results ++ c.waiting.map fun call => (call,.error error) := by
    rw [hd]
  have hcalls : d.calls = c.calls := by rw [hd]
  have hlines : d.lines = c.lines := by rw [hd]
  have hbytes : d.stream = c.stream := by rw [hd]
  constructor
  · rw [hd]
    rfl
  · rw [hd]
  · rw [hqueue,hbytes]
    rcases hstream with ⟨hended,hvalues⟩ | hvalues
    · left
      have := h.stream []
      rw [List.append_nil,List.append_nil,hvalues] at this
      exact ⟨hended,this⟩
    · right
      intro more
      rw [h.stream more,hvalues more]
  · intro call value hmem
    rw [hresults,h.results] at hmem
    rcases List.mem_append.mp hmem with hmem | hmem
    · obtain ⟨value',hvalue,hV⟩ := mapIdx_value_mem hmem
      cases hvalue
      exact hV
    · obtain ⟨w,-,hw⟩ := List.mem_map.mp hmem
      cases hw
  · intro call error' hmem
    rw [hresults,h.results] at hmem
    rcases List.mem_append.mp hmem with hmem | hmem
    · obtain ⟨value',hvalue,-⟩ := mapIdx_value_mem hmem
      cases hvalue
    · obtain ⟨w,hw,heq⟩ := List.mem_map.mp hmem
      cases heq
      rw [hqueue,hempty (List.ne_nil_of_mem hw),List.append_nil]
      rw [h.waiting,List.mem_range'] at hw
      omega
  · rw [hresults,hcalls,h.results,List.map_append,mapIdx_value_fst,List.map_map]
    have hid : (c.waiting.map (Prod.fst ∘ fun call => (call,(Received.error error : Received β)))) =
        c.waiting := List.map_id _
    rw [hid,h.waiting,h.calls,List.range_eq_range',List.range_eq_range']
    have hjoin : List.range' 0 V.length ++ List.range' V.length c.waiting.length =
        List.range' 0 (V.length+c.waiting.length) := by
      have := List.range'_append_1 (s := 0) (m := V.length) (n := c.waiting.length)
      simpa using this
    rw [hjoin]
  · rw [hcalls,h.calls]
    omega
  · intro hne
    rw [hlines] at hne
    rw [hcalls,h.calls]
    by_cases hw : c.waiting = []
    · rw [hw]
      rfl
    · exact absurd (h.queueless hw) hne
  · rw [hlines]
    exact hpaused

/-- With a waiting receiver the queue is empty, so nothing else is to come. -/
theorem Flowing.empty_of_waiting (h : Flowing k c V) (hw : c.waiting ≠ []) :
    valuesFrom k c.queue [] = [] := by
  unfold queue
  rw [h.queueless hw]
  rfl

/-- A first line that carries nothing ends the connection. -/
theorem Flowing.destroyed (h : Flowing k c V) (error : WireError)
    (hbad : ∀ more, valuesOf k (c.buffer ++ more) = []) :
    Dead k (c.terminate error).destroy V := by
  apply h.fail (c.terminate error).destroy error
  · unfold terminate
    rw [h.live]
    rfl
  · right
    intro more
    exact valuesFrom_of_none (hbad more) _
  · exact h.empty_of_waiting
  · exact fun hs => (nomatch hs)

theorem Flowing.drained (h : Flowing k c V) (hnone : newline ∉ c.buffer) : Sound k c.drained := by
  unfold JsonLinesConnection.drained
  split
  · next hlong =>
    exact ⟨V,Or.inr (h.destroyed _ (valuesOf_oversized hnone hlong))⟩
  split
  · next hroom =>
    refine ⟨V,Or.inl ?_⟩
    have hsocket : c.resume.socket = .flowing := by
      unfold resume
      dsimp only
      rw [if_neg h.socket]
    refine { h with flag := ?_, socket := ?_, idle := ?_, held := ?_, pausedQueue := ?_ }
    · rw [hsocket]
      exact ⟨fun hp => (nomatch hp),fun hp => (nomatch hp)⟩
    · rw [hsocket]
      exact fun hp => (nomatch hp)
    · exact fun _ => hnone
    · exact fun hmem => absurd hmem hnone
    · rw [hsocket]
      exact fun hp => (nomatch hp)
  · next hroom =>
    refine ⟨V,Or.inl ?_⟩
    refine { h with idle := fun _ => hnone, held := fun hmem => absurd hmem hnone, pausedQueue := ?_ }
    intro hpaused hempty
    apply hroom
    refine ⟨h.flag.mpr hpaused,?_,?_⟩
    · rw [hempty]
      exact Nat.succ_pos _
    · rw [h.bytes,hempty]
      exact Nat.succ_pos _

/-- A full queue leaves the line in the buffer and the socket paused. -/
theorem Flowing.pause (h : Flowing k c V) {index : ℕ} (hwaiting : c.waiting = [])
    (hfull : c.full index) : Sound k c.pause := by
  have hlines : c.lines ≠ [] := by
    intro hempty
    unfold full at hfull
    rw [hempty] at hfull
    rcases hfull with hfull | ⟨hfull,-⟩
    · exact absurd hfull (Nat.not_succ_le_zero _)
    · exact absurd hfull (lt_irrefl _)
  refine ⟨V,Or.inl ?_⟩
  unfold JsonLinesConnection.pause
  split
  · next hpaused =>
    exact { h with
      idle := fun hne => absurd hwaiting hne, held := fun _ => h.flag.mp hpaused
      pausedQueue := fun _ => hlines }
  · rw [if_neg h.socket]
    exact { h with
      flag := ⟨fun _ => rfl,fun _ => rfl⟩, socket := fun hp => (nomatch hp)
      idle := fun hne => absurd hwaiting hne, held := fun _ => rfl
      pausedQueue := fun _ => hlines }

theorem settle_of_none {call : ℕ} {line : α} (hparse : k.parse line = none)
    (c : JsonLinesConnection α β) : c.settle k call line =
      { c.parseFailed with results := c.parseFailed.results ++ [(call,.error .invalidJson)] } := by
  unfold settle
  rw [hparse]

theorem settle_of_some {call : ℕ} {line : α} {value : β} (hparse : k.parse line = some value)
    (c : JsonLinesConnection α β) :
    c.settle k call line = { c with results := c.results ++ [(call,.value value)] } := by
  unfold settle
  rw [hparse]

end JsonLinesConnection
end Wire
end Ctxmux
