import Ctxmux.ControlSound
import Ctxmux.MapTotals

/-!
# The books of the input lane

The counters, the ledger and the order of the completed operations as one book, and the
rules by which each movement of the lane keeps the book balanced.
-/

namespace Ctxmux
namespace NativeControl

open MapTotals

structure Book where
  failure : Option ProtocolError
  commands : ℕ
  bytes : ℕ
  applied : ℕ
  operations : InputOperations
  completed : List InputOperationKey
  retained : ℕ

def ControlState.book (st : ControlState) : Book where
  failure := st.inputFailure
  commands := st.inputCommands
  bytes := st.inputBytes
  applied := st.appliedInputBytes
  operations := st.inputOperations
  completed := st.completedInputOperations
  retained := st.retainedInputRequestBytes

def InputOperationEntry.bytes (entry : InputOperationEntry) : ℕ := entry.request.data.length

/-- The range of a completed operation holds its request and lies below the cursor. -/
def CompletedAt (applied : ℕ) (request : InputOperationRequest) (range : AppliedInputRange) : Prop :=
  range.startByte = request.expectedByte ∧
    range.endByte = request.expectedByte+request.data.length ∧ range.endByte ≤ applied ∧
    range.endByte < u64Limit

/-- An unknown operation fences the current cursor with the failure of the lane. -/
def UnknownAt (b : Book) (request : InputOperationRequest) (failure : ControlFailure) : Prop :=
  request.expectedByte = b.applied ∧ b.failure.map (·.code) = some failure.error.code ∧
    failure.disposition = .unknown ∧
    ∀ n ∈ failure.confirmedInputBytes, n ≤ request.data.length

/-- The second operation was applied behind the first. -/
def AppliedBefore (ops : InputOperations) (a b : InputOperationKey) : Prop :=
  ∀ request range request' range', ops.lookup a = some (.completed request range) →
    ops.lookup b = some (.completed request' range') → range.endByte ≤ range'.startByte

structure Balanced (limits : ResourceLimits) (b : Book) : Prop where
  commands : b.commands ≤ limits.inputQueueCommands
  bytes : b.bytes ≤ limits.inputQueueBytes
  retained : b.retained = total InputOperationEntry.bytes b.operations
  retainedBound : b.retained ≤ limits.inputResultBytes
  entries : b.operations.entries.length ≤ limits.inputResultEntries
  requests : ∀ key entry, b.operations.lookup key = some entry →
    validateKey key = .ok () ∧ entry.request.data ≠ []
  nodup : b.completed.Nodup
  keys : ∀ key, key ∈ b.completed ↔
    ∃ request range, b.operations.lookup key = some (.completed request range)
  ranges : ∀ key request range, b.operations.lookup key = some (.completed request range) →
    CompletedAt b.applied request range
  ordered : b.completed.Pairwise (AppliedBefore b.operations)
  unknown : ∀ key request failure, b.operations.lookup key = some (.unknown request failure) →
    UnknownAt b request failure
  one : ∀ key key' request request' failure failure',
    b.operations.lookup key = some (.unknown request failure) →
    b.operations.lookup key' = some (.unknown request' failure') → key = key'

namespace Balanced

variable {limits : ResourceLimits} {b : Book} {key : InputOperationKey}
  {request : InputOperationRequest} {entry : InputOperationEntry}

theorem release (h : Balanced limits b) (n : ℕ) :
    Balanced limits { b with commands := b.commands-1, bytes := b.bytes-n } :=
  { h with
    commands := (Nat.sub_le _ _).trans h.commands
    bytes := (Nat.sub_le _ _).trans h.bytes }

theorem enqueue (h : Balanced limits b) {n : ℕ} (hcommands : b.commands < limits.inputQueueCommands)
    (hbytes : n ≤ limits.inputQueueBytes-b.bytes) :
    Balanced limits { b with commands := b.commands+1, bytes := b.bytes+n } :=
  { h with
    commands := hcommands
    bytes := by
      have := h.bytes
      show b.bytes+n ≤ _
      omega }

theorem no_unknown (h : Balanced limits b) (hnone : b.failure = none) (key : InputOperationKey)
    (request : InputOperationRequest) (failure : ControlFailure) :
    b.operations.lookup key ≠ some (.unknown request failure) := by
  intro hl
  have hcode := (h.unknown key request failure hl).2.1
  rw [hnone] at hcode
  cases hcode

theorem length_erase (hl : b.operations.lookup key = some entry) :
    (b.operations.erase key).entries.length+1 = b.operations.entries.length := by
  rw [entries_length,entries_length]
  exact total_erase (fun _ => 1) hl

theorem lookup_of_erase {ops : InputOperations} {other : InputOperationKey}
    (h : (ops.erase key).lookup other = some entry) :
    other ≠ key ∧ ops.lookup other = some entry := by
  by_cases heq : other = key
  · subst heq
    rw [AList.lookup_erase] at h
    cases h
  · rw [AList.lookup_erase_ne heq] at h
    exact ⟨heq,h⟩

section

variable (h : Balanced limits b)
include h

/-- What the ledger keeps after one entry left, with any order that still lists the rest. -/
theorem erased (hl : b.operations.lookup key = some entry) {completed : List InputOperationKey}
    (hsub : completed.Sublist b.completed) (hmem : ∀ k, k ∈ completed ↔ k ∈ b.completed ∧ k ≠ key) :
    Balanced limits { b with
      operations := b.operations.erase key
      completed := completed
      retained := b.retained-entry.request.data.length } := by
  have htotal := total_erase InputOperationEntry.bytes hl
  have hbytes : InputOperationEntry.bytes entry = entry.request.data.length := rfl
  refine ⟨h.commands,h.bytes,?_,(Nat.sub_le _ _).trans h.retainedBound,?_,fun k e hk => ?_,
    h.nodup.sublist hsub,fun k => ?_,fun k req range hk => ?_,?_,fun k req failure hk => ?_,
    fun k k' req req' failure failure' hk hk' => ?_⟩
  · show b.retained-_ = total _ (b.operations.erase key)
    rw [h.retained]
    omega
  · have := length_erase hl
    have hbound := h.entries
    show (b.operations.erase key).entries.length ≤ _
    omega
  · exact h.requests k e (lookup_of_erase hk).2
  · rw [hmem,h.keys]
    constructor
    · rintro ⟨⟨req,range,hk⟩,hne⟩
      exact ⟨req,range,by rw [AList.lookup_erase_ne hne]; exact hk⟩
    · rintro ⟨req,range,hk⟩
      exact ⟨⟨req,range,(lookup_of_erase hk).2⟩,(lookup_of_erase hk).1⟩
  · exact h.ranges k req range (lookup_of_erase hk).2
  · refine (h.ordered.sublist hsub).imp fun hbefore req range req' range' hk hk' => ?_
    exact hbefore req range req' range' (lookup_of_erase hk).2 (lookup_of_erase hk').2
  · exact h.unknown k req failure (lookup_of_erase hk).2
  · exact h.one k k' req req' failure failure' (lookup_of_erase hk).2 (lookup_of_erase hk').2

/-- A pending operation that crossed no byte is forgotten. -/
theorem remove {channel : ℕ} (hl : b.operations.lookup key = some (.pending request channel)) :
    Balanced limits { b with
      operations := b.operations.erase key
      retained := b.retained-request.data.length } := by
  refine h.erased hl (List.Sublist.refl _) fun k => ?_
  refine ⟨fun hk => ⟨hk,?_⟩,fun hk => hk.1⟩
  rintro rfl
  obtain ⟨req,range,hc⟩ := (h.keys k).mp hk
  rw [hl] at hc
  cases hc

theorem evict {keys : List InputOperationKey} {range : AppliedInputRange}
    (hcompleted : b.completed = key::keys)
    (hl : b.operations.lookup key = some (.completed request range)) :
    Balanced limits { b with
      operations := b.operations.erase key
      completed := keys
      retained := b.retained-request.data.length } := by
  have hnodup := h.nodup
  rw [hcompleted] at hnodup
  obtain ⟨hnot,-⟩ := List.nodup_cons.mp hnodup
  refine h.erased hl (by rw [hcompleted]; exact List.sublist_cons_self _ _) fun k => ?_
  rw [hcompleted,List.mem_cons]
  constructor
  · intro hk
    exact ⟨.inr hk,fun heq => hnot (heq ▸ hk)⟩
  · rintro ⟨rfl | hk,hne⟩
    · exact absurd rfl hne
    · exact hk

theorem admit_pending (hl : b.operations.lookup key = none) (hkey : validateKey key = .ok ())
    (hdata : request.data ≠ []) (hentries : b.operations.entries.length < limits.inputResultEntries)
    (hbytes : request.data.length ≤ limits.inputResultBytes-b.retained) (channel : ℕ) :
    Balanced limits { b with
      operations := b.operations.insert key (.pending request channel)
      retained := b.retained+request.data.length } := by
  have hold : ∀ {k : InputOperationKey} {e : InputOperationEntry}, e.outcome.isSome →
      ((b.operations.insert key (.pending request channel)).lookup k = some e ↔
        b.operations.lookup k = some e) := by
    intro k e hout
    by_cases heq : k = key
    · subst heq
      rw [AList.lookup_insert,hl]
      constructor
      · intro hk
        cases hk
        cases hout
      · intro hk
        cases hk
    · rw [AList.lookup_insert_ne heq]
  refine ⟨h.commands,h.bytes,?_,?_,?_,fun k e hk => ?_,h.nodup,fun k => ?_,fun k req range hk => ?_,
    ?_,fun k req failure hk => ?_,fun k k' req req' failure failure' hk hk' => ?_⟩
  · show b.retained+_ = _
    rw [h.retained,total_insert_new _ hl]
    rfl
  · have := h.retainedBound
    show b.retained+_ ≤ _
    omega
  · show (b.operations.insert key _).entries.length ≤ _
    rw [entries_length,total_insert_new _ hl,← entries_length]
    exact hentries
  · by_cases heq : k = key
    · subst heq
      rw [AList.lookup_insert] at hk
      cases hk
      exact ⟨hkey,hdata⟩
    · rw [AList.lookup_insert_ne heq] at hk
      exact h.requests k e hk
  · rw [h.keys]
    constructor
    · rintro ⟨req,range,hk⟩
      exact ⟨req,range,(hold rfl).mpr hk⟩
    · rintro ⟨req,range,hk⟩
      exact ⟨req,range,(hold rfl).mp hk⟩
  · exact h.ranges k req range ((hold rfl).mp hk)
  · exact h.ordered.imp fun hbefore req range req' range' hk hk' =>
      hbefore req range req' range' ((hold rfl).mp hk) ((hold rfl).mp hk')
  · exact h.unknown k req failure ((hold rfl).mp hk)
  · exact h.one k k' req req' failure failure' ((hold rfl).mp hk) ((hold rfl).mp hk')

/-- Replacing the entry of a key by a settled one for the same request keeps the sizes. -/
theorem resized (hl : b.operations.lookup key = some entry) (entry' : InputOperationEntry)
    (hreq : entry'.request = entry.request) :
    b.retained = total InputOperationEntry.bytes (b.operations.insert key entry') ∧
      (b.operations.insert key entry').entries.length ≤ limits.inputResultEntries ∧
      ∀ k e, (b.operations.insert key entry').lookup k = some e →
        validateKey k = .ok () ∧ e.request.data ≠ [] := by
  refine ⟨?_,?_,fun k e hk => ?_⟩
  · rw [h.retained,total_insert_same _ hl entry']
    unfold InputOperationEntry.bytes
    rw [hreq]
  · rw [entries_length,total_insert_same (fun _ => 1) hl entry' rfl,← entries_length]
    exact h.entries
  · by_cases heq : k = key
    · subst heq
      rw [AList.lookup_insert] at hk
      cases hk
      rw [hreq]
      exact h.requests k entry hl
    · rw [AList.lookup_insert_ne heq] at hk
      exact h.requests k e hk

/-- A pending operation at the cursor becomes unknown and poisons the lane. -/
theorem become_unknown (hnone : b.failure = none) {channel : ℕ}
    (hl : b.operations.lookup key = some (.pending request channel))
    (hcursor : request.expectedByte = b.applied) {failure : ControlFailure} {poison : ProtocolError}
    (hcode : poison.code = failure.error.code) (hdisposition : failure.disposition = .unknown)
    (hconfirmed : ∀ n ∈ failure.confirmedInputBytes, n ≤ request.data.length) :
    Balanced limits { b with
      failure := some poison
      operations := b.operations.insert key (.unknown request failure) } := by
  obtain ⟨hretained,hentries,hrequests⟩ := h.resized hl (.unknown request failure) rfl
  have hkeep : ∀ {k : InputOperationKey} {req : InputOperationRequest} {range : AppliedInputRange},
      ((b.operations.insert key (.unknown request failure)).lookup k = some (.completed req range) ↔
        b.operations.lookup k = some (.completed req range)) := by
    intro k req range
    by_cases heq : k = key
    · subst heq
      rw [AList.lookup_insert,hl]
      simp
    · rw [AList.lookup_insert_ne heq]
  have hnew : ∀ {k : InputOperationKey} {req : InputOperationRequest} {f : ControlFailure},
      (b.operations.insert key (.unknown request failure)).lookup k = some (.unknown req f) →
        k = key ∧ req = request ∧ f = failure := by
    intro k req f hk
    by_cases heq : k = key
    · subst heq
      rw [AList.lookup_insert] at hk
      cases hk
      exact ⟨rfl,rfl,rfl⟩
    · rw [AList.lookup_insert_ne heq] at hk
      exact absurd hk (h.no_unknown hnone k req f)
  refine ⟨h.commands,h.bytes,hretained,h.retainedBound,hentries,hrequests,h.nodup,fun k => ?_,
    fun k req range hk => h.ranges k req range (hkeep.mp hk),?_,fun k req f hk => ?_,
    fun k k' req req' f f' hk hk' => (hnew hk).1.trans (hnew hk').1.symm⟩
  · rw [h.keys]
    simp only [hkeep]
  · exact h.ordered.imp fun hbefore req range req' range' hk hk' =>
      hbefore req range req' range' (hkeep.mp hk) (hkeep.mp hk')
  · obtain ⟨-,rfl,rfl⟩ := hnew hk
    exact ⟨hcursor,by simp [hcode],hdisposition,hconfirmed⟩

/-- The lane of a legacy command is poisoned without an entry. -/
theorem poison (hnone : b.failure = none) (error : ProtocolError) :
    Balanced limits { b with failure := some error } :=
  { h with
    unknown := fun key request failure hl => absurd hl (h.no_unknown hnone key request failure) }

theorem advance (hnone : b.failure = none) (n : ℕ) :
    Balanced limits { b with applied := b.applied+n } :=
  { h with
    ranges := fun key request range hl => by
      obtain ⟨hstart,hend,hle,hlimit⟩ := h.ranges key request range hl
      exact ⟨hstart,hend,hle.trans (Nat.le_add_right _ _),hlimit⟩
    unknown := fun key request failure hl => absurd hl (h.no_unknown hnone key request failure) }

theorem complete (hnone : b.failure = none) {channel : ℕ}
    (hl : b.operations.lookup key = some (.pending request channel))
    (hcursor : request.expectedByte = b.applied) (hlimit : b.applied+request.data.length < u64Limit)
    :
    Balanced limits { b with
      applied := b.applied+request.data.length
      operations := b.operations.insert key
        (.completed request ⟨b.applied,b.applied+request.data.length⟩)
      completed := b.completed ++ [key] } := by
  obtain ⟨hretained,hentries,hrequests⟩ := h.resized hl
    (.completed request ⟨b.applied,b.applied+request.data.length⟩) rfl
  have hfresh : key ∉ b.completed := fun hin => by
    obtain ⟨req,range,hc⟩ := (h.keys key).mp hin
    rw [hl] at hc
    cases hc
  have hcases : ∀ {k : InputOperationKey} {req : InputOperationRequest} {range : AppliedInputRange},
      (b.operations.insert key
        (.completed request ⟨b.applied,b.applied+request.data.length⟩)).lookup k =
          some (.completed req range) →
        (k = key ∧ req = request ∧ range = ⟨b.applied,b.applied+request.data.length⟩) ∨
          (k ≠ key ∧ b.operations.lookup k = some (.completed req range)) := by
    intro k req range hk
    by_cases heq : k = key
    · subst heq
      rw [AList.lookup_insert] at hk
      cases hk
      exact .inl ⟨rfl,rfl,rfl⟩
    · rw [AList.lookup_insert_ne heq] at hk
      exact .inr ⟨heq,hk⟩
  have hunknown : ∀ {k : InputOperationKey} {req : InputOperationRequest} {f : ControlFailure},
      (b.operations.insert key
        (.completed request ⟨b.applied,b.applied+request.data.length⟩)).lookup k ≠
          some (.unknown req f) := by
    intro k req f hk
    by_cases heq : k = key
    · subst heq
      rw [AList.lookup_insert] at hk
      cases hk
    · rw [AList.lookup_insert_ne heq] at hk
      exact h.no_unknown hnone k req f hk
  refine ⟨h.commands,h.bytes,hretained,h.retainedBound,hentries,hrequests,?_,fun k => ?_,
    fun k req range hk => ?_,?_,fun k req f hk => absurd hk hunknown,
    fun k k' req req' f f' hk => absurd hk hunknown⟩
  · exact List.nodup_append.mpr ⟨h.nodup,by simp,fun a ha c hc heq => by
      rw [List.mem_singleton] at hc
      exact hfresh (hc ▸ heq ▸ ha)⟩
  · rw [List.mem_append,List.mem_singleton,h.keys]
    constructor
    · rintro (⟨req,range,hk⟩ | rfl)
      · refine ⟨req,range,?_⟩
        have hne : k ≠ key := fun heq => hfresh (heq ▸ (h.keys k).mpr ⟨req,range,hk⟩)
        rw [AList.lookup_insert_ne hne]
        exact hk
      · exact ⟨_,_,AList.lookup_insert _⟩
    · rintro ⟨req,range,hk⟩
      rcases hcases hk with ⟨rfl,-,-⟩ | ⟨-,hold⟩
      · exact .inr rfl
      · exact .inl ⟨req,range,hold⟩
  · rcases hcases hk with ⟨-,rfl,rfl⟩ | ⟨-,hold⟩
    · exact ⟨hcursor.symm,by rw [hcursor],Nat.le_refl _,hlimit⟩
    · obtain ⟨hstart,hend,hle,hlim⟩ := h.ranges k req range hold
      exact ⟨hstart,hend,hle.trans (Nat.le_add_right _ _),hlim⟩
  · rw [List.pairwise_append]
    refine ⟨?_,List.pairwise_singleton _ _,fun a ha c hc => ?_⟩
    · refine h.ordered.imp_of_mem fun {a c} ha hc hbefore req range req' range' hk hk' => ?_
      rcases hcases hk with ⟨rfl,-,-⟩ | ⟨-,hold⟩
      · exact absurd ha hfresh
      · rcases hcases hk' with ⟨rfl,-,-⟩ | ⟨-,hold'⟩
        · exact absurd hc hfresh
        · exact hbefore req range req' range' hold hold'
    · rw [List.mem_singleton] at hc
      subst hc
      intro req range req' range' hk hk'
      rcases hcases hk with ⟨rfl,-,-⟩ | ⟨-,hold⟩
      · exact absurd ha hfresh
      · rcases hcases hk' with ⟨-,-,rfl⟩ | ⟨hne,-⟩
        · exact (h.ranges a req range hold).2.2.1
        · exact absurd rfl hne

end

end Balanced
end NativeControl
end Ctxmux
