import Ctxmux.LineRun

/-!
# No line is lost

A run delivers every line exactly when the end of its socket never finds it paused with
a queue that parses: such an end strands the lines of the raw buffer, because a pump
does nothing after a terminal error.
-/

namespace Ctxmux
namespace Wire
namespace JsonLinesConnection

variable {α β : Type} {k : Codec α β} {c : JsonLinesConnection α β} {V : List β}
  {queued : QueuedLine α} {lines : List (QueuedLine α)}

theorem sound_initial (k : Codec α β) : Sound k (initial : JsonLinesConnection α β) := by
  refine ⟨[],Or.inl ?_⟩
  constructor
  · constructor
    · rfl
    · rfl
    · exact fun _ => rfl
    · rfl
    · rfl
    · rfl
    · exact fun hne => absurd rfl hne
    · exact ⟨fun hp => (nomatch hp),fun hp => (nomatch hp)⟩
    · exact fun hp => (nomatch hp)
    · rfl
  · exact fun hne => absurd rfl hne
  · exact fun hmem => (nomatch hmem)
  · exact fun hp => (nomatch hp)

theorem Live.data (h : Live k c V) (chunk : List UInt8) : Sound k (c.step k (.data chunk)) := by
  have hflowing : Flowing k
      { c with stream := c.stream ++ chunk, buffer := c.buffer ++ chunk } V := by
    refine { h.toFlowing with stream := ?_ }
    intro more
    have := h.stream (chunk ++ more)
    rw [← List.append_assoc,← List.append_assoc] at this
    exact this
  have hstep : c.step k (.data chunk) =
      { c with stream := c.stream ++ chunk, buffer := c.buffer ++ chunk }.pump k := by
    unfold step accept
    dsimp only
    rw [h.notEnded,h.live]
    rfl
  rw [hstep]
  exact hflowing.pump

theorem data_terminated (h : c.terminalError.isSome) (chunk : List UInt8) :
    c.step k (.data chunk) =
      { c with stream := if c.ended then c.stream else c.stream ++ chunk } := by
  unfold step accept
  dsimp only
  rw [if_pos h]

theorem ended_terminated (h : c.terminalError.isSome) (message : String) :
    c.step k (.ended message) = { c with ended := true } := by
  obtain ⟨error,herror⟩ := Option.isSome_iff_exists.mp h
  unfold step terminate
  dsimp only
  rw [herror]

theorem Dead.data (h : Dead k c V) (chunk : List UInt8) : Sound k (c.step k (.data chunk)) := by
  rw [data_terminated h.error]
  refine ⟨V,Or.inr { h with stream := ?_ }⟩
  rcases h.stream with ⟨hended,hstream⟩ | hstream
  · left
    refine ⟨hended,?_⟩
    dsimp only
    rw [if_pos hended]
    exact hstream
  · right
    intro more
    dsimp only
    split
    · exact hstream more
    · rw [List.append_assoc]
      exact hstream (chunk ++ more)

/-- The connection after a call took the first line of the queue. -/
def popped (c : JsonLinesConnection α β) (queued : QueuedLine α) (lines : List (QueuedLine α)) :
    JsonLinesConnection α β :=
  { c with calls := c.calls+1, lines := lines, queuedBytes := c.queuedBytes-queued.bytes }

theorem receive_popped (hlines : c.lines = queued::lines) :
    c.receive k = ((c.popped queued lines).pump k).settle k c.calls queued.value := by
  unfold receive popped
  dsimp only
  rw [hlines]

/-- A live connection without waiting receivers settles its next call with the first line
of the queue. -/
theorem Live.calls_eq (h : Live k c V) (hlines : c.lines ≠ []) :
    c.waiting = [] ∧ c.calls = V.length := by
  have hwaiting : c.waiting = [] := by
    by_contra hne
    exact hlines (h.queueless hne)
  refine ⟨hwaiting,?_⟩
  have := h.calls
  rw [hwaiting] at this
  exact this

/-- The next queued line goes to the receiver that asks for it. -/
theorem Live.receiveValue (h : Live k c V) (hlines : c.lines = queued::lines) {value : β}
    (hparse : k.parse queued.value = some value) :
    Sound k (c.receive k) := by
  obtain ⟨hwaiting,hcalls⟩ := h.calls_eq (by simp [hlines])
  have hframe := pump_frame (k := k) (c.popped queued lines) hwaiting
  have hcommute := pump_results (k := k) (c.popped queued lines) hwaiting
    (c.results ++ [(c.calls,.value value)])
  have hresults : ((c.popped queued lines).pump k).results = c.results := hframe.2.1
  rw [receive_popped hlines,settle_of_some hparse,hresults,← hcommute]
  apply Flowing.pump (V := V ++ [value])
  constructor
  · exact h.live
  · exact h.notEnded
  · intro more
    have hstream := h.stream more
    unfold queue at hstream ⊢
    rw [hlines,List.map_cons,valuesFrom,hparse] at hstream
    show valuesOf k (c.stream ++ more) = V ++ [value] ++ valuesFrom k (lines.map _) _
    rw [hstream]
    simp
    rfl
  · show c.results ++ _ = _
    rw [mapIdx_value_snoc,h.results,hcalls]
  · show c.waiting = List.range' _ c.waiting.length
    rw [hwaiting]
    rfl
  · show c.calls+1 = (V ++ [value]).length+c.waiting.length
    rw [hcalls,hwaiting]
    simp
  · exact fun hne => absurd hwaiting hne
  · exact h.flag
  · exact h.socket
  · show c.queuedBytes-queued.bytes = (lines.map QueuedLine.bytes).sum
    rw [h.bytes,hlines,List.map_cons,List.sum_cons]
    omega

/-- What is left of a connection without waiting receivers after a parse failure. -/
theorem parseFailed_frame {d : JsonLinesConnection α β} (hw : d.waiting = []) :
    d.parseFailed.results = d.results ∧ d.parseFailed.waiting = [] ∧
      d.parseFailed.lines = [] ∧ d.parseFailed.calls = d.calls ∧
      d.parseFailed.stream = d.stream ∧ d.parseFailed.terminalError.isSome ∧
      d.parseFailed.socket = .destroyed := by
  unfold parseFailed terminate destroy
  dsimp only
  cases he : d.terminalError with
  | some error => exact ⟨rfl,hw,rfl,rfl,rfl,rfl,rfl⟩
  | none => simp [hw]

/-- A queued line that does not parse is the last one that a receiver gets to see. -/
theorem Live.receiveBad (h : Live k c V) (hlines : c.lines = queued::lines)
    (hparse : k.parse queued.value = none) :
    Sound k (c.receive k) := by
  obtain ⟨hwaiting,hcalls⟩ := h.calls_eq (by simp [hlines])
  obtain ⟨hw,hres,hcalls',hstr,-⟩ := pump_frame (k := k) (c.popped queued lines) hwaiting
  obtain ⟨hres',hw',hlines',hcalls'',hstr',herror,hsocket⟩ := parseFailed_frame hw
  rw [hres] at hres'
  rw [hcalls'] at hcalls''
  rw [hstr] at hstr'
  rw [receive_popped hlines,settle_of_none hparse]
  have hstream : ∀ more, valuesOf k (c.stream ++ more) = V ++ [] := by
    intro more
    have hstream := h.stream more
    unfold queue at hstream
    rw [hlines,List.map_cons,valuesFrom,hparse] at hstream
    exact hstream
  refine ⟨V,Or.inr ?_⟩
  constructor
  · exact herror
  · exact hw'
  · right
    intro more
    unfold queue
    dsimp only
    rw [hlines',hstr']
    exact hstream more
  · intro call value hmem
    dsimp only at hmem
    rw [hres'] at hmem
    rcases List.mem_append.mp hmem with hmem | hmem
    · change _ ∈ c.results at hmem
      rw [h.results] at hmem
      obtain ⟨value',hvalue,hV⟩ := mapIdx_value_mem hmem
      cases hvalue
      exact hV
    · rw [List.mem_singleton] at hmem
      cases hmem
  · intro call error hmem
    dsimp only at hmem
    rw [hres'] at hmem
    unfold queue
    dsimp only
    rw [hlines']
    show (V ++ []).length ≤ call
    rw [List.append_nil]
    rcases List.mem_append.mp hmem with hmem | hmem
    · change _ ∈ c.results at hmem
      rw [h.results] at hmem
      obtain ⟨value',hvalue,-⟩ := mapIdx_value_mem hmem
      cases hvalue
    · rw [List.mem_singleton] at hmem
      cases hmem
      exact le_of_eq hcalls.symm
  · dsimp only
    rw [hres',hcalls'']
    show ((c.results ++ _).map Prod.fst).Perm (List.range (c.calls+1))
    rw [h.results,List.map_append,mapIdx_value_fst,hcalls,List.range_succ]
    simp
  · dsimp only
    rw [hcalls'']
    show V.length ≤ c.calls+1
    omega
  · exact fun hne => absurd hlines' hne
  · intro hs
    dsimp only at hs
    rw [hsocket] at hs
    cases hs

theorem Live.receiveWaiting (h : Live k c V) (hlines : c.lines = []) :
    Sound k (c.receive k) := by
  have hbuffer : newline ∉ c.buffer := fun hmem => h.pausedQueue (h.held hmem) hlines
  have hreceive : c.receive k =
      { c with calls := c.calls+1, waiting := c.waiting ++ [c.calls] } := by
    unfold receive
    dsimp only
    rw [hlines,h.live]
  rw [hreceive]
  refine ⟨V,Or.inl ?_⟩
  refine { h with waiting := ?_, calls := ?_, queueless := ?_, idle := ?_ }
  · dsimp only
    rw [List.length_append,List.length_singleton,List.range'_1_concat,← h.waiting,h.calls]
  · dsimp only
    rw [List.length_append,List.length_singleton,h.calls]
    omega
  · exact fun _ => hlines
  · exact fun _ => hbuffer

theorem Dead.once_snoc (h : Dead k c V) (result : Received β) :
    ((c.results ++ [(c.calls,result)]).map Prod.fst).Perm (List.range (c.calls+1)) := by
  rw [List.map_append,List.range_succ]
  exact h.once.append_right _

/-- An error behind the lines is seen by no call before them. -/
theorem Dead.errors_snoc (h : Dead k c V) {front : ℕ}
    (hfront : front = (V ++ valuesFrom k c.queue []).length) (hcalls : front ≤ c.calls)
    (result : Received β) :
    ∀ call error, (call,Received.error error) ∈ c.results ++ [(c.calls,result)] →
      front ≤ call := by
  intro call error hmem
  rcases List.mem_append.mp hmem with hmem | hmem
  · have herrors := h.errors call error hmem
    omega
  · rw [List.mem_singleton] at hmem
    cases hmem
    exact hcalls

theorem Dead.values_error (h : Dead k c V) (error : WireError) :
    ∀ call value, (call,Received.value value) ∈ c.results ++ [(c.calls,.error error)] →
      V[call]? = some value := by
  intro call value hmem
  rcases List.mem_append.mp hmem with hmem | hmem
  · exact h.values call value hmem
  · rw [List.mem_singleton] at hmem
    cases hmem

theorem receive_terminated (h : c.terminalError.isSome) (hlines : c.lines = queued::lines) :
    c.receive k = (c.popped queued lines).settle k c.calls queued.value := by
  have hpump : (c.popped queued lines).pump k = c.popped queued lines := if_pos h
  rw [receive_popped hlines,hpump]

theorem receive_exhausted (h : c.terminalError.isSome) (hlines : c.lines = []) : ∃ error,
    c.receive k = { c with calls := c.calls+1, results := c.results ++ [(c.calls,.error error)] } := by
  obtain ⟨error,herror⟩ := Option.isSome_iff_exists.mp h
  refine ⟨error,?_⟩
  unfold receive
  dsimp only
  rw [hlines,herror]

theorem queue_cons (hlines : c.lines = queued::lines) :
    c.queue = queued.value::lines.map QueuedLine.value := by
  unfold queue
  rw [hlines]
  rfl

theorem Dead.receiveValue (h : Dead k c V) (hlines : c.lines = queued::lines) {value : β}
    (hparse : k.parse queued.value = some value) :
    Sound k (c.receive k) := by
  have hcalls := h.next (by simp [hlines])
  have hlength : (V ++ [value]).length = c.calls+1 := by
    rw [List.length_append,List.length_singleton,hcalls]
  have hvalues : V ++ valuesFrom k c.queue [] =
      (V ++ [value]) ++ valuesFrom k (lines.map QueuedLine.value) [] := by
    rw [queue_cons hlines,valuesFrom,hparse]
    simp
  rw [receive_terminated h.error hlines,settle_of_some hparse]
  refine ⟨V ++ [value],Or.inr ?_⟩
  constructor
  · exact h.error
  · exact h.noWaiting
  · have hstream := h.stream
    rw [hvalues] at hstream
    exact hstream
  · intro call value' hmem
    rcases List.mem_append.mp hmem with hmem | hmem
    · have hV := h.values call value' hmem
      rw [List.getElem?_append_left]
      · exact hV
      · by_contra hge
        rw [List.getElem?_eq_none (by omega)] at hV
        cases hV
    · rw [List.mem_singleton] at hmem
      cases hmem
      rw [hcalls]
      simp
  · intro call error hmem
    rcases List.mem_append.mp hmem with hmem | hmem
    · have herrors := h.errors call error hmem
      rw [hvalues] at herrors
      exact herrors
    · rw [List.mem_singleton] at hmem
      cases hmem
  · exact h.once_snoc _
  · exact hlength.le
  · exact fun _ => hlength.symm
  · intro hpaused
    obtain ⟨q,hq,hbad⟩ := h.pausedBad hpaused
    rw [hlines] at hq
    rcases List.mem_cons.mp hq with rfl | hq
    · rw [hparse] at hbad
      cases hbad
    · exact ⟨q,hq,hbad⟩

theorem Dead.receiveBad (h : Dead k c V) (hlines : c.lines = queued::lines)
    (hparse : k.parse queued.value = none) :
    Sound k (c.receive k) := by
  have hcalls := h.next (by simp [hlines])
  have hvalues : V ++ valuesFrom k c.queue [] = V ++ [] := by
    rw [queue_cons hlines,valuesFrom,hparse]
  have hstream := h.stream
  rw [hvalues] at hstream
  obtain ⟨error,herror⟩ := Option.isSome_iff_exists.mp h.error
  have hterminal : (c.popped queued lines).terminalError = some error := herror
  rw [receive_terminated h.error hlines,settle_of_none hparse]
  refine ⟨V,Or.inr ?_⟩
  unfold parseFailed terminate destroy
  dsimp only
  rw [hterminal]
  constructor
  · rfl
  · exact h.noWaiting
  · exact hstream
  · exact h.values_error _
  · exact h.errors_snoc (congrArg List.length hvalues.symm) (by simp [hcalls]) _
  · exact h.once_snoc _
  · show V.length ≤ c.calls+1
    omega
  · exact fun hne => absurd rfl hne
  · exact fun hs => (by cases hs)

/-- A call that finds nothing more gets the terminal error. -/
theorem Dead.receiveNothing (h : Dead k c V) (hlines : c.lines = []) :
    Sound k (c.receive k) := by
  obtain ⟨error,hreceive⟩ := receive_exhausted (k := k) h.error hlines
  have hvalues : V ++ valuesFrom k c.queue [] = V := by
    unfold queue
    rw [hlines]
    exact List.append_nil V
  have hdelivered : (V ++ valuesFrom k c.queue []).length ≤ c.calls := by
    rw [hvalues]
    exact h.delivered
  rw [hreceive]
  exact ⟨V,Or.inr { h with
    values := h.values_error error
    errors := h.errors_snoc rfl hdelivered _
    once := h.once_snoc _
    delivered := h.delivered.trans (Nat.le_succ _)
    next := fun hne => absurd hlines hne }⟩

theorem Dead.receive (h : Dead k c V) : Sound k (c.receive k) := by
  cases hlines : c.lines with
  | nil => exact h.receiveNothing hlines
  | cons queued lines =>
    cases hparse : k.parse queued.value with
    | some value => exact h.receiveValue hlines hparse
    | none => exact h.receiveBad hlines hparse

theorem Dead.ended (h : Dead k c V) (message : String) :
    Sound k (c.step k (.ended message)) := by
  rw [ended_terminated h.error]
  refine ⟨V,Or.inr { h with stream := Or.inl ⟨rfl,?_⟩ }⟩
  rcases h.stream with ⟨-,hstream⟩ | hstream
  · exact hstream
  · have := hstream []
    rw [List.append_nil] at this
    exact this

/-- An end that finds the socket flowing, or a bad line in the queue, strands nothing. -/
theorem Live.ended (h : Live k c V) (message : String)
    (hclear : EndsClear k c (.ended message)) : Sound k (c.step k (.ended message)) := by
  refine ⟨V,Or.inr ?_⟩
  have hvalues : valuesFrom k c.queue c.buffer = valuesFrom k c.queue [] ∧
      (c.socket = .paused → ∃ q ∈ c.lines, k.parse q.value = none) := by
    rcases hclear h.live with hflowing | ⟨q,hq,hbad⟩
    · refine ⟨valuesFrom_of_none (valuesOf_unfinished ?_) _,fun hp => absurd hp hflowing⟩
      exact fun hmem => hflowing (h.held hmem)
    · refine ⟨valuesFrom_of_bad ⟨q.value,List.mem_map_of_mem hq,hbad⟩ _,fun _ => ⟨q,hq,hbad⟩⟩
  apply h.toFlowing.fail _ (.remote message)
  · unfold step terminate
    dsimp only
    rw [h.live]
  · left
    refine ⟨?_,hvalues.1⟩
    unfold step terminate
    dsimp only
    rw [h.live]
  · exact h.toFlowing.empty_of_waiting
  · intro hs
    apply hvalues.2
    unfold step terminate at hs
    dsimp only at hs
    rw [h.live] at hs
    exact hs

theorem Sound.step (h : Sound k c) (e : Event) (he : EndsClear k c e) : Sound k (c.step k e) := by
  obtain ⟨V,h | h⟩ := h
  · cases e with
    | data chunk => exact h.data chunk
    | receive =>
      show Sound k (c.receive k)
      cases hlines : c.lines with
      | nil => exact h.receiveWaiting hlines
      | cons queued lines =>
        cases hparse : k.parse queued.value with
        | none => exact h.receiveBad hlines hparse
        | some value => exact h.receiveValue hlines hparse
    | ended message => exact h.ended message he
  · cases e with
    | data chunk => exact h.data chunk
    | receive => exact h.receive
    | ended message => exact h.ended message

theorem Live.faithful (h : Live k c V) : Faithful k c := by
  have hvalues := h.stream []
  rw [List.append_nil,List.append_nil] at hvalues
  constructor
  · intro call value hmem
    rw [h.results] at hmem
    obtain ⟨value',hvalue,hV⟩ := mapIdx_value_mem hmem
    cases hvalue
    rw [hvalues,List.getElem?_append_left]
    · exact hV
    · by_contra hge
      rw [List.getElem?_eq_none (by omega)] at hV
      cases hV
  · intro call error hmem
    rw [h.results] at hmem
    obtain ⟨value',hvalue,-⟩ := mapIdx_value_mem hmem
    cases hvalue
  · rw [h.results,mapIdx_value_fst,h.calls]
    have hwaiting := h.waiting
    rw [hwaiting,List.length_range',List.range_eq_range',List.range_eq_range']
    have hjoin := List.range'_append_1 (s := 0) (m := V.length) (n := c.waiting.length)
    rw [Nat.zero_add] at hjoin
    rw [hjoin]
  · exact fun hne => ⟨h.queueless hne,h.idle hne⟩
  · exact h.pausedQueue

theorem Dead.faithful (h : Dead k c V) : Faithful k c := by
  have hvalues : valuesOf k c.stream = V ++ valuesFrom k c.queue [] := by
    rcases h.stream with ⟨-,hstream⟩ | hstream
    · exact hstream
    · have := hstream []
      rw [List.append_nil] at this
      exact this
  constructor
  · intro call value hmem
    have hV := h.values call value hmem
    rw [hvalues,List.getElem?_append_left]
    · exact hV
    · by_contra hge
      rw [List.getElem?_eq_none (by omega)] at hV
      cases hV
  · intro call error hmem
    rw [hvalues]
    exact h.errors call error hmem
  · rw [h.noWaiting,List.append_nil]
    exact h.once
  · exact fun hne => absurd h.noWaiting hne
  · intro hpaused hempty
    obtain ⟨q,hq,-⟩ := h.pausedBad hpaused
    rw [hempty] at hq
    cases hq

theorem Sound.faithful (h : Sound k c) : Faithful k c := by
  obtain ⟨V,h | h⟩ := h
  · exact h.faithful
  · exact h.faithful

/-- A connection that ended while it was paused, with a queue that parses. -/
structure Stranded (k : Codec α β) (c : JsonLinesConnection α β) : Prop where
  error : c.terminalError.isSome
  paused : c.socket = .paused
  parses : ∀ q ∈ c.lines, (k.parse q.value).isSome

theorem Stranded.receive (h : Stranded k c) :
    Stranded k (c.receive k) ∧ (c.receive k).lines = c.lines.tail := by
  cases hlines : c.lines with
  | nil =>
    obtain ⟨error,hreceive⟩ := receive_exhausted (k := k) h.error hlines
    rw [hreceive]
    exact ⟨⟨h.error,h.paused,h.parses⟩,hlines⟩
  | cons queued lines =>
    obtain ⟨value,hparse⟩ :=
      Option.isSome_iff_exists.mp (h.parses queued (by simp [hlines]))
    rw [receive_terminated h.error hlines,settle_of_some hparse]
    refine ⟨⟨h.error,h.paused,?_⟩,rfl⟩
    intro q hq
    apply h.parses
    rw [hlines]
    exact List.mem_cons_of_mem _ hq

theorem Stranded.step (h : Stranded k c) (e : Event) : Stranded k (c.step k e) := by
  cases e with
  | data chunk =>
    rw [data_terminated h.error]
    exact ⟨h.error,h.paused,h.parses⟩
  | receive => exact h.receive.1
  | ended message =>
    rw [ended_terminated h.error]
    exact ⟨h.error,h.paused,h.parses⟩

/-- Reading the queue out leaves the socket paused with an empty queue. -/
theorem Stranded.drain (n : ℕ) {c : JsonLinesConnection α β} (h : Stranded k c)
    (hn : c.lines.length = n) : ¬Faithful k (c.run k (List.replicate n .receive)) := by
  induction n generalizing c with
  | zero =>
    intro hfaithful
    exact hfaithful.paused h.paused (List.length_eq_zero_iff.mp hn)
  | succ n ih =>
    obtain ⟨hstranded,htail⟩ := h.receive
    have hlength : (c.receive k).lines.length = n := by
      rw [htail,List.length_tail,hn]
      rfl
    exact ih hstranded hlength

theorem stranded_of_end {e : Event} (he : ¬EndsClear k c e) :
    Stranded k (c.step k e) := by
  cases e with
  | data chunk => exact absurd trivial he
  | receive => exact absurd trivial he
  | ended message =>
    have hnot : ¬(c.terminalError = none →
      c.socket ≠ .paused ∨ ∃ q ∈ c.lines, k.parse q.value = none) := he
    push Not at hnot
    obtain ⟨hlive,hpaused,hparses⟩ := hnot
    have hstep : c.step k (.ended message) = { c with
        ended := true
        terminalError := some (.remote message)
        results := c.results ++ c.waiting.map fun call => (call,.error (.remote message))
        waiting := [] } := by
      unfold JsonLinesConnection.step terminate
      dsimp only
      rw [hlive]
    rw [hstep]
    exact ⟨rfl,hpaused,fun q hq => Option.ne_none_iff_isSome.mp (hparses q hq)⟩

theorem along_receive (n : ℕ) (c : JsonLinesConnection α β) :
    Machine.Along (step k) (EndsClear k) c (List.replicate n .receive) := by
  induction n generalizing c with
  | zero => exact trivial
  | succ n ih => exact ⟨trivial,ih _⟩

/-- A run that is faithful however often it is read afterwards is exactly a run whose
end never strands what a paused connection holds. -/
theorem lines_faithful_iff (k : Codec α β) (es : List Event) :
    (∀ n, Faithful k ((initial.run k es).run k (List.replicate n .receive))) ↔
      Machine.Along (step k) (EndsClear k) initial es := by
  suffices hall : ∀ (c : JsonLinesConnection α β), Sound k c →
      ((∀ n, Faithful k ((c.run k es).run k (List.replicate n .receive))) ↔
        Machine.Along (step k) (EndsClear k) c es) from hall initial (sound_initial k)
  induction es with
  | nil =>
    intro c hc
    refine ⟨fun _ => trivial,fun _ n => ?_⟩
    apply Sound.faithful
    exact Machine.run_invariant_along (fun _ e h he => h.step e he) hc (along_receive n c)
  | cons e es ih =>
    intro c hc
    by_cases he : EndsClear k c e
    · rw [Machine.Along]
      simp only [he,true_and]
      exact ih _ (hc.step e he)
    · constructor
      · intro hfaithful
        have hstranded : Stranded k (run k c (e::es)) :=
          Machine.run_invariant (fun _ e h => h.step e) (stranded_of_end he) es
        exact absurd (hfaithful _) (hstranded.drain _ rfl)
      · exact fun halong => absurd halong.1 he

/-- ASCII lines, of which only the JSON number one is used. -/
def onesCodec : Codec (List Char) ℕ where
  decode bytes := if bytes.all (· < 128) then some (bytes.map fun b => Char.ofNat b.toNat) else none
  parse line := if line = ['1'] then some 1 else none

/-- One line more than the queue holds. -/
def ones : List UInt8 := (List.replicate 257 [0x31,newline]).flatten

/-- The line that a full queue leaves in the buffer is lost when the socket fails. -/
theorem paused_end_loses_line :
    ¬∀ n, Faithful onesCodec ((initial.run onesCodec [.data ones,.ended "EPIPE"]).run onesCodec
      (List.replicate n .receive)) := by
  intro h
  have herror : (256,Received.error (.remote "EPIPE")) ∈
      ((initial.run onesCodec [.data ones,.ended "EPIPE"]).run onesCodec
        (List.replicate 257 .receive)).results := by decide +kernel
  have hlength : (valuesOf onesCodec ((initial.run onesCodec [.data ones,.ended "EPIPE"]).run
      onesCodec (List.replicate 257 .receive)).stream).length = 257 := by decide +kernel
  have := (h 257).errors 256 _ herror
  omega

end JsonLinesConnection
end Wire
end Ctxmux
