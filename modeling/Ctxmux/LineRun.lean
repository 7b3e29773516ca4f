import Ctxmux.LineDelivery

/-!
# Whole runs of a JSON-lines connection

Pumping and receiving keep the delivery invariant, and the end of the socket keeps it
exactly when it does not strand what a paused connection still holds.
-/

namespace Ctxmux
namespace Wire
namespace JsonLinesConnection

variable {α β : Type} {k : Codec α β} {c : JsonLinesConnection α β} {V : List β}
  {line rest : List UInt8}

/-- A decoded line that no receiver waits for joins the queue. -/
theorem Flowing.enqueue (h : Flowing k c V) (hwaiting : c.waiting = [])
    (hbuffer : c.buffer = line ++ newline::rest) (hline : newline ∉ line)
    (hsize : line.length ≤ maxFrameBytes) {decoded : α} (hdecode : k.decode line = some decoded) :
    Flowing k { c with
      buffer := rest
      lines := c.lines ++ [⟨decoded,line.length⟩]
      queuedBytes := c.queuedBytes+line.length } V := by
  refine { h with stream := ?_, queueless := ?_, bytes := ?_ }
  · intro more
    have := h.stream more
    rw [hbuffer,List.append_assoc,List.cons_append,valuesFrom_decode hline hsize hdecode] at this
    rw [this]
    simp [queue]
  · exact fun hne => absurd hwaiting hne
  · show c.queuedBytes+line.length = ((c.lines ++ [_]).map _).sum
    rw [h.bytes]
    simp

section

variable (h : Flowing k c V) {call : ℕ} {waiting : List ℕ} (hwaiting : c.waiting = call::waiting)
  (hbuffer : c.buffer = line ++ newline::rest) (hline : newline ∉ line)
  (hsize : line.length ≤ maxFrameBytes) {decoded : α} (hdecode : k.decode line = some decoded)
include h hwaiting hbuffer hline hsize hdecode

theorem Flowing.resolve {value : β} (hparse : k.parse decoded = some value) :
    Flowing k { c with
      buffer := rest
      waiting := waiting
      results := c.results ++ [(call,.value value)] } (V ++ [value]) := by
  have hlines := h.queueless (by simp [hwaiting])
  have hrange := h.waiting
  rw [hwaiting,List.length_cons,List.range'_succ] at hrange
  injection hrange with hcall hrest
  have hstream : ∀ more, valuesOf k (c.stream ++ more) =
      (V ++ [value]) ++ valuesFrom k [] (rest ++ more) := by
    intro more
    have := h.stream more
    unfold queue at this
    rw [hbuffer,hlines,List.append_assoc,List.cons_append,List.map_nil,
      valuesFrom_decode hline hsize hdecode,List.nil_append,valuesFrom,hparse] at this
    rw [this]
    simp
  constructor
  · exact h.live
  · exact h.notEnded
  · intro more
    rw [hstream more]
    show _ = _ ++ valuesFrom k (c.lines.map _) _
    rw [hlines]
    rfl
  · show c.results ++ _ = _
    rw [mapIdx_value_snoc,h.results,hcall]
  · show waiting = List.range' (V ++ [value]).length waiting.length
    rw [List.length_append,List.length_singleton]
    exact hrest
  · show c.calls = (V ++ [value]).length+waiting.length
    rw [h.calls,hwaiting,List.length_append,List.length_singleton,List.length_cons]
    omega
  · exact fun _ => hlines
  · exact h.flag
  · exact h.socket
  · exact h.bytes

/-- A line for the oldest receiver that does not parse. -/
theorem Flowing.reject (hparse : k.parse decoded = none) :
    Dead k ({ c with buffer := rest, waiting := waiting }.settle k call decoded) V := by
  have hlines := h.queueless (by simp [hwaiting])
  have hrange := h.waiting
  rw [hwaiting,List.length_cons,List.range'_succ] at hrange
  injection hrange with hcall hrest
  have hstream : ∀ more, valuesOf k (c.stream ++ more) = V ++ [] := by
    intro more
    have := h.stream more
    unfold queue at this
    rw [hbuffer,hlines,List.append_assoc,List.cons_append,List.map_nil,
      valuesFrom_decode hline hsize hdecode,List.nil_append,valuesFrom,hparse] at this
    exact this
  have hsettled : { c with buffer := rest, waiting := waiting }.settle k call decoded = { c with
      buffer := []
      lines := []
      queuedBytes := 0
      waiting := []
      terminalError := some .invalidJson
      socket := .destroyed
      results := c.results ++ waiting.map (fun call => (call,.error .invalidJson)) ++
        [(call,.error .invalidJson)] } := by
    rw [settle_of_none hparse]
    unfold parseFailed terminate destroy
    dsimp only
    rw [h.live]
  rw [hsettled]
  have hresults : ∀ i r, (i,r) ∈ c.results ++ waiting.map
      (fun call => (call,(Received.error .invalidJson : Received β))) ++
        [(call,.error .invalidJson)] →
      (∃ value, r = .value value ∧ V[i]? = some value) ∨
        r = .error .invalidJson ∧ V.length ≤ i := by
    intro i r hmem
    rcases List.mem_append.mp hmem with hmem | hmem
    · rcases List.mem_append.mp hmem with hmem | hmem
      · rw [h.results] at hmem
        exact Or.inl (mapIdx_value_mem hmem)
      · right
        obtain ⟨w,hw,heq⟩ := List.mem_map.mp hmem
        cases heq
        rw [hrest,List.mem_range'] at hw
        exact ⟨rfl,by omega⟩
    · right
      rw [List.mem_singleton] at hmem
      cases hmem
      exact ⟨rfl,by omega⟩
  constructor
  · rfl
  · rfl
  · exact Or.inr hstream
  · intro i value hmem
    rcases hresults i _ hmem with ⟨value',hvalue,hV⟩ | ⟨hne,-⟩
    · cases hvalue
      exact hV
    · cases hne
  · intro i error hmem
    rcases hresults i _ hmem with ⟨value',hvalue,-⟩ | ⟨-,hlt⟩
    · cases hvalue
    · show (V ++ []).length ≤ i
      rw [List.append_nil]
      exact hlt
  · show ((c.results ++ waiting.map (fun call => (call,(Received.error .invalidJson : Received β)))
        ++ [(call,Received.error .invalidJson)]).map Prod.fst).Perm (List.range c.calls)
    rw [List.map_append,List.map_append,List.map_map,h.results,mapIdx_value_fst,h.calls,hwaiting]
    have hid : waiting.map (Prod.fst ∘ fun call => (call,(Received.error .invalidJson : Received β))) =
        waiting := List.map_id _
    rw [hid,List.append_assoc,List.length_cons]
    have hperm : (waiting ++ [call]).Perm (call::waiting) := List.perm_append_comm
    apply (hperm.append_left _).trans
    rw [hcall,hrest,← List.range'_succ,List.range_eq_range',List.range_eq_range']
    have hjoin := List.range'_append_1 (s := 0) (m := V.length) (n := waiting.length+1)
    rw [Nat.zero_add] at hjoin
    have hlength : (List.range' (V.length+1) waiting.length).length = waiting.length :=
      List.length_range'
    rw [hlength,hjoin]
  · show V.length ≤ c.calls
    rw [h.calls]
    omega
  · exact fun hne => absurd rfl hne
  · exact fun hs => (by cases hs)

end

theorem Flowing.pumpLoop (fuel : ℕ) {c : JsonLinesConnection α β} {V : List β}
    (h : Flowing k c V) (hfuel : c.buffer.length < fuel) : Sound k (pumpLoop k fuel c) := by
  induction fuel generalizing c V with
  | zero => omega
  | succ fuel ih =>
    unfold JsonLinesConnection.pumpLoop
    split
    · next hnone => exact h.drained (findIdx?_newline_none hnone)
    next index hindex =>
    obtain ⟨hline,hlength,hbuffer⟩ := findIdx?_newline hindex
    have hshort : (c.buffer.drop (index+1)).length < fuel := by
      have := congrArg List.length hbuffer
      rw [List.length_append,List.length_cons,hlength] at this
      omega
    split
    · next hlong =>
      refine ⟨V,Or.inr (h.destroyed _ ?_)⟩
      intro more
      rw [hbuffer,List.append_assoc]
      apply valuesOf_oversized hline
      omega
    next hsize =>
    have hsize' : (c.buffer.take index).length ≤ maxFrameBytes := by omega
    split
    · next hfull => exact h.pause hfull.1 hfull.2
    split
    · next hdecode =>
      refine ⟨V,Or.inr (h.destroyed _ ?_)⟩
      intro more
      rw [hbuffer,List.append_assoc,List.cons_append,valuesOf_line hline]
      unfold readLine
      rw [if_neg (by omega),hdecode]
      rfl
    next decoded hdecode =>
    dsimp only
    split
    · next hwaiting =>
      have henqueue := h.enqueue hwaiting hbuffer hline hsize' hdecode
      rw [hlength] at henqueue
      exact ih henqueue hshort
    · next call waiting hwaiting =>
      cases hparse : k.parse decoded with
      | none =>
        have hdead := h.reject hwaiting hbuffer hline hsize' hdecode hparse
        rw [if_pos hdead.error]
        exact ⟨V,Or.inr hdead⟩
      | some value =>
        rw [settle_of_some hparse]
        have hresolve := h.resolve hwaiting hbuffer hline hsize' hdecode hparse
        have hlive : ¬c.terminalError.isSome := by
          rw [h.live]
          exact fun hs => (nomatch hs)
        rw [if_neg hlive]
        exact ih hresolve hshort

theorem Flowing.pump (h : Flowing k c V) : Sound k (c.pump k) := by
  unfold JsonLinesConnection.pump
  rw [h.live]
  exact h.pumpLoop _ (Nat.lt_succ_self _)

/-- Without a waiting receiver a pump settles nobody, so it can come before or after the
result of a call. -/
theorem pumpLoop_results (fuel : ℕ) (c : JsonLinesConnection α β) (hwaiting : c.waiting = [])
    (results : List (ℕ × Received β)) :
    pumpLoop k fuel { c with results := results } =
      { pumpLoop k fuel c with results := results } := by
  have hterminate : ∀ (c : JsonLinesConnection α β) error, c.waiting = [] →
      ({ c with results := results }.terminate error).destroy =
        { (c.terminate error).destroy with results := results } := by
    intro c error hw
    unfold terminate destroy
    cases hc : c.terminalError with
    | some error' => simp [hc]
    | none => simp [hw]
  induction fuel generalizing c with
  | zero => rfl
  | succ fuel ih =>
    obtain ⟨buffer,lines,queuedBytes,waiting,terminalError,paused,socket,calls,before,stream,ended⟩ := c
    dsimp only at hwaiting
    subst hwaiting
    unfold JsonLinesConnection.pumpLoop
    dsimp only
    split
    · unfold drained
      dsimp only
      split
      · exact hterminate ⟨buffer,lines,queuedBytes,[],terminalError,paused,socket,calls,before,
        stream,ended⟩ _ rfl
      split
      · rfl
      · rfl
    split
    · exact hterminate ⟨buffer,lines,queuedBytes,[],terminalError,paused,socket,calls,before,
        stream,ended⟩ _ rfl
    split
    · next hfull =>
      have hfull' : full ⟨buffer,lines,queuedBytes,[],terminalError,paused,socket,calls,before,
        stream,ended⟩ _ := hfull.2
      rw [if_pos ⟨rfl,hfull'⟩]
      unfold pause
      dsimp only
      split <;> rfl
    next hfull =>
    have hfull' : ¬(([] : List ℕ) = [] ∧ full ⟨buffer,lines,queuedBytes,[],terminalError,paused,
      socket,calls,before,stream,ended⟩ _) := hfull
    rw [if_neg hfull']
    split
    · exact hterminate ⟨buffer,lines,queuedBytes,[],terminalError,paused,socket,calls,before,
        stream,ended⟩ _ rfl
    · exact ih ⟨_,_,_,[],terminalError,paused,socket,calls,before,stream,ended⟩ rfl

theorem pump_results (c : JsonLinesConnection α β) (hwaiting : c.waiting = [])
    (results : List (ℕ × Received β)) :
    { c with results := results }.pump k = { c.pump k with results := results } := by
  unfold pump
  dsimp only
  split
  · rfl
  · exact pumpLoop_results _ c hwaiting results

/-- What a pump without waiting receivers leaves alone. -/
theorem pumpLoop_frame (fuel : ℕ) (c : JsonLinesConnection α β) (hwaiting : c.waiting = []) :
    (pumpLoop k fuel c).waiting = [] ∧ (pumpLoop k fuel c).results = c.results ∧
      (pumpLoop k fuel c).calls = c.calls ∧ (pumpLoop k fuel c).stream = c.stream ∧
      (pumpLoop k fuel c).ended = c.ended := by
  have hterminate : ∀ (c : JsonLinesConnection α β) error, c.waiting = [] →
      (c.terminate error).destroy.waiting = [] ∧ (c.terminate error).destroy.results = c.results ∧
        (c.terminate error).destroy.calls = c.calls ∧
        (c.terminate error).destroy.stream = c.stream ∧
        (c.terminate error).destroy.ended = c.ended := by
    intro c error hw
    unfold terminate destroy
    cases hc : c.terminalError with
    | some error' => simp [hw]
    | none => simp [hw]
  induction fuel generalizing c with
  | zero => exact ⟨hwaiting,rfl,rfl,rfl,rfl⟩
  | succ fuel ih =>
    unfold JsonLinesConnection.pumpLoop
    split
    · unfold drained
      split
      · exact hterminate c _ hwaiting
      split
      · exact ⟨hwaiting,rfl,rfl,rfl,rfl⟩
      · exact ⟨hwaiting,rfl,rfl,rfl,rfl⟩
    split
    · exact hterminate c _ hwaiting
    split
    · unfold pause
      split <;> exact ⟨hwaiting,rfl,rfl,rfl,rfl⟩
    split
    · exact hterminate c _ hwaiting
    dsimp only
    rw [hwaiting]
    exact ih _ rfl

theorem pump_frame (c : JsonLinesConnection α β) (hwaiting : c.waiting = []) :
    (c.pump k).waiting = [] ∧ (c.pump k).results = c.results ∧ (c.pump k).calls = c.calls ∧
      (c.pump k).stream = c.stream ∧ (c.pump k).ended = c.ended := by
  unfold pump
  split
  · exact ⟨hwaiting,rfl,rfl,rfl,rfl⟩
  · exact pumpLoop_frame _ c hwaiting

end JsonLinesConnection
end Wire
end Ctxmux
