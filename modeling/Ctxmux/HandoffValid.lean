import Ctxmux.InputHandoff

/-!
# What the handoff validation accepts

The validation loop accepts exactly the states whose operations are well formed, in
order and within the limits. Such a state opens a balanced book.
-/

namespace Ctxmux
namespace NativeControl

open MapTotals

/-- The book with which a control is rebuilt. -/
def HandoffInputState.book (input : HandoffInputState) : Book where
  failure := input.inputFailure
  commands := 0
  bytes := 0
  applied := input.appliedInputBytes
  operations := input.ledger
  completed := (input.operations.filter fun operation => operation.entry.isCompleted).map (·.key)
  retained := (input.operations.map fun operation => operation.entry.request.data.length).sum

def OutcomeValid (input : HandoffInputState) : HandoffInputOperation → Prop
  | .completed _ expectedByte data range =>
    CompletedAt input.appliedInputBytes ⟨expectedByte,data⟩ range
  | .unknown _ expectedByte data failure => UnknownAt input.book ⟨expectedByte,data⟩ failure

/-- Each completed range starts behind the completed ranges before it. -/
def OrderedFrom : ℕ → List HandoffInputOperation → Prop
  | _, [] => True
  | finish, .completed _ _ _ range::operations =>
    finish ≤ range.startByte ∧ OrderedFrom range.endByte operations
  | finish, .unknown _ _ _ _::operations => OrderedFrom finish operations

structure Validated (limits : HandoffLimits) (input : HandoffInputState) : Prop where
  entries : input.operations.length ≤ limits.resources.inputResultEntries
  outcomes : ∀ operation ∈ input.operations, OutcomeValid input operation
  requests : ∀ operation ∈ input.operations,
    validateKey operation.key = .ok () ∧ operation.data ≠ []
  ordered : OrderedFrom 0 input.operations
  keys : (input.operations.map (·.key)).Nodup
  retained : (input.operations.map (·.data.length)).sum ≤ limits.resources.inputResultBytes
  unknown : input.operations.countP (·.isUnknown) ≤ 1

/-- The scan after an accepted operation. -/
def HandoffScan.next (scan : HandoffScan) (operation : HandoffInputOperation) : HandoffScan where
  retainedBytes := scan.retainedBytes+operation.data.length
  keys := operation.key::scan.keys
  completedEnd :=
    match operation with
    | .completed _ _ _ range => range.endByte
    | .unknown _ _ _ _ => scan.completedEnd
  unknownCount := if operation.isUnknown then scan.unknownCount+1 else scan.unknownCount

/-- What the loop asks of one operation. -/
structure Accepted (input : HandoffInputState) (scan : HandoffScan)
    (operation : HandoffInputOperation) : Prop where
  outcome : OutcomeValid input operation
  behind : OrderedFrom scan.completedEnd [operation]
  key : validateKey operation.key = .ok ()
  data : operation.data ≠ []
  fresh : operation.key ∉ scan.keys
  bytes : scan.retainedBytes+operation.data.length < u64Limit

variable {input : HandoffInputState} {scan scan' : HandoffScan} {operation : HandoffInputOperation}

theorem validatePrefix_eq_ok {dataBytes : ℕ} {failure : ControlFailure} :
    validateHandoffUnknownPrefix dataBytes failure = .ok () ↔
      (∀ n ∈ failure.confirmedInputBytes, n ≤ dataBytes) ∧ failure.disposition = .unknown := by
  unfold validateHandoffUnknownPrefix
  by_cases hlong : ∃ confirmed ∈ failure.confirmedInputBytes, dataBytes < confirmed
  · rw [if_pos hlong]
    obtain ⟨n,hn,hlt⟩ := hlong
    refine iff_of_false (by simp) fun ⟨hle,_⟩ => ?_
    exact Nat.not_lt.mpr (hle n hn) hlt
  · rw [if_neg hlong]
    push Not at hlong
    by_cases hdisposition : failure.disposition = .unknown
    · rw [if_neg (not_not_intro hdisposition)]
      exact iff_of_true rfl ⟨hlong,hdisposition⟩
    · rw [if_pos hdisposition]
      exact iff_of_false (by simp) fun h => hdisposition h.2

theorem validateOutcome_eq_ok :
    input.validateOutcome scan operation = .ok scan' ↔
      OutcomeValid input operation ∧ OrderedFrom scan.completedEnd [operation] ∧
        scan' = { scan with
          completedEnd := (scan.next operation).completedEnd
          unknownCount := (scan.next operation).unknownCount } := by
  cases operation with
  | completed key expectedByte data range =>
    simp only [HandoffInputState.validateOutcome,OutcomeValid,CompletedAt,OrderedFrom,
      HandoffScan.next,HandoffInputOperation.isUnknown]
    by_cases hlimit : u64Limit ≤ expectedByte+data.length
    · rw [if_pos hlimit]
      refine iff_of_false (by simp) ?_
      rintro ⟨⟨-,hend,-,hlt⟩,-⟩
      omega
    · rw [if_neg hlimit]
      split
      · rename_i hbad
        refine iff_of_false (by simp) ?_
        rintro ⟨⟨hstart,hend,happlied,-⟩,⟨hbehind,-⟩,-⟩
        rcases hbad with hbad | hbad | hbad | hbad
        · exact hbad hstart
        · exact hbad hend
        · omega
        · omega
      · rename_i hgood
        push Not at hgood
        obtain ⟨hstart,hend,happlied,hbehind⟩ := hgood
        constructor
        · intro h
          cases h
          exact ⟨⟨hstart,hend,happlied,by omega⟩,⟨hbehind,trivial⟩,rfl⟩
        · rintro ⟨-,-,rfl⟩
          rfl
  | unknown key expectedByte data failure =>
    simp only [HandoffInputState.validateOutcome,OutcomeValid,UnknownAt,OrderedFrom,
      HandoffScan.next,HandoffInputOperation.isUnknown,HandoffInputState.book]
    cases hprefix : validateHandoffUnknownPrefix data.length failure with
    | error message =>
      refine iff_of_false (by simp) ?_
      rintro ⟨⟨-,-,hdisposition,hconfirmed⟩,-⟩
      rw [validatePrefix_eq_ok.mpr ⟨hconfirmed,hdisposition⟩] at hprefix
      cases hprefix
    | ok _ =>
      obtain ⟨hconfirmed,hdisposition⟩ := validatePrefix_eq_ok.mp hprefix
      simp only
      by_cases hcursor : expectedByte = input.appliedInputBytes
      · rw [if_neg (not_not_intro hcursor)]
        by_cases hcode : input.inputFailure.map (·.code) = some failure.error.code
        · rw [if_neg (not_not_intro hcode)]
          constructor
          · intro h
            cases h
            exact ⟨⟨hcursor,hcode,hdisposition,hconfirmed⟩,trivial,rfl⟩
          · rintro ⟨-,-,rfl⟩
            rfl
        · rw [if_pos hcode]
          exact iff_of_false (by simp) fun h => hcode h.1.2.1
      · rw [if_pos hcursor]
        exact iff_of_false (by simp) fun h => hcursor h.1.1

theorem validateOperation_eq_ok :
    input.validateOperation scan operation = .ok scan' ↔
      Accepted input scan operation ∧ scan' = scan.next operation := by
  unfold HandoffInputState.validateOperation
  cases houtcome : input.validateOutcome scan operation with
  | error message =>
    refine iff_of_false (by simp) ?_
    rintro ⟨haccepted,-⟩
    rw [validateOutcome_eq_ok.mpr ⟨haccepted.outcome,haccepted.behind,rfl⟩] at houtcome
    cases houtcome
  | ok scan₁ =>
    obtain ⟨hvalid,hbehind,rfl⟩ := validateOutcome_eq_ok.mp houtcome
    cases hkey : validateKey operation.key with
    | error message =>
      refine iff_of_false (by simp) ?_
      rintro ⟨haccepted,-⟩
      rw [haccepted.key] at hkey
      cases hkey
    | ok _ =>
      simp only
      by_cases hdata : operation.data = []
      · rw [if_pos (by simpa using hdata)]
        exact iff_of_false (by simp) fun h => h.1.data hdata
      · rw [if_neg (by simpa using hdata)]
        by_cases hfresh : operation.key ∈ scan.keys
        · rw [if_pos hfresh]
          exact iff_of_false (by simp) fun h => h.1.fresh hfresh
        · rw [if_neg hfresh]
          by_cases hbytes : u64Limit ≤ scan.retainedBytes+operation.data.length
          · rw [if_pos hbytes]
            exact iff_of_false (by simp) fun h => Nat.not_lt.mpr hbytes h.1.bytes
          · rw [if_neg hbytes]
            constructor
            · intro h
              cases h
              exact ⟨⟨hvalid,hbehind,hkey,hdata,hfresh,Nat.not_le.mp hbytes⟩,rfl⟩
            · rintro ⟨-,rfl⟩
              rfl

theorem orderedFrom_cons {operations : List HandoffInputOperation} :
    OrderedFrom scan.completedEnd (operation::operations) ↔
      OrderedFrom scan.completedEnd [operation] ∧
        OrderedFrom (scan.next operation).completedEnd operations := by
  cases operation with
  | completed key expectedByte data range => simp [OrderedFrom,HandoffScan.next]
  | unknown key expectedByte data failure => simp [OrderedFrom,HandoffScan.next]

/-- What a scan of these operations counts. -/
structure Counts (scan scan' : HandoffScan) (operations : List HandoffInputOperation) : Prop where
  bytes : scan'.retainedBytes = scan.retainedBytes+(operations.map (·.data.length)).sum
  unknown : scan'.unknownCount = scan.unknownCount+operations.countP (·.isUnknown)

theorem Counts.cons {operations : List HandoffInputOperation}
    (h : Counts (scan.next operation) scan' operations) : Counts scan scan' (operation::operations) := by
  obtain ⟨hbytes,hunknown⟩ := h
  refine ⟨?_,?_⟩
  · rw [hbytes,List.map_cons,List.sum_cons]
    simp only [HandoffScan.next]
    omega
  · rw [hunknown,List.countP_cons]
    simp only [HandoffScan.next]
    split
    · omega
    · omega

theorem scan_sound {operations : List HandoffInputOperation}
    (h : operations.foldlM input.validateOperation scan = .ok scan') :
    (∀ operation ∈ operations, OutcomeValid input operation ∧
      validateKey operation.key = .ok () ∧ operation.data ≠ []) ∧
    OrderedFrom scan.completedEnd operations ∧ (operations.map (·.key)).Nodup ∧
    (∀ operation ∈ operations, operation.key ∉ scan.keys) ∧ Counts scan scan' operations := by
  induction operations generalizing scan with
  | nil =>
    cases h
    exact ⟨by simp,trivial,List.nodup_nil,by simp,by simp,by simp⟩
  | cons operation operations ih =>
    rw [List.foldlM_cons] at h
    cases hfirst : input.validateOperation scan operation with
    | error message =>
      rw [hfirst] at h
      cases h
    | ok scan₁ =>
      rw [hfirst] at h
      obtain ⟨haccepted,rfl⟩ := validateOperation_eq_ok.mp hfirst
      obtain ⟨hvalid,hordered,hnodup,hfresh,hcounts⟩ := ih h
      have hnew : ∀ other ∈ operations, other.key ≠ operation.key ∧ other.key ∉ scan.keys :=
        fun other hother => by simpa [HandoffScan.next] using hfresh other hother
      refine ⟨?_,orderedFrom_cons.mpr ⟨haccepted.behind,hordered⟩,?_,?_,hcounts.cons⟩
      · intro other hother
        rcases List.mem_cons.mp hother with rfl | hin
        · exact ⟨haccepted.outcome,haccepted.key,haccepted.data⟩
        · exact hvalid other hin
      · refine List.nodup_cons.mpr ⟨fun hmem => ?_,hnodup⟩
        obtain ⟨other,hother,heq⟩ := List.mem_map.mp hmem
        exact (hnew other hother).1 heq
      · intro other hother
        rcases List.mem_cons.mp hother with rfl | hin
        · exact haccepted.fresh
        · exact (hnew other hin).2

theorem scan_complete {operations : List HandoffInputOperation}
    (hvalid : ∀ operation ∈ operations, OutcomeValid input operation ∧
      validateKey operation.key = .ok () ∧ operation.data ≠ [])
    (hordered : OrderedFrom scan.completedEnd operations) (hnodup : (operations.map (·.key)).Nodup)
    (hfresh : ∀ operation ∈ operations, operation.key ∉ scan.keys)
    (hbytes : scan.retainedBytes+(operations.map (·.data.length)).sum < u64Limit) :
    ∃ scan', operations.foldlM input.validateOperation scan = .ok scan' ∧
      Counts scan scan' operations := by
  induction operations generalizing scan with
  | nil => exact ⟨scan,rfl,by simp,by simp⟩
  | cons operation operations ih =>
    obtain ⟨hoperation,hnodup⟩ := List.nodup_cons.mp hnodup
    obtain ⟨hbehind,hordered⟩ := orderedFrom_cons.mp hordered
    obtain ⟨houtcome,hkey,hdata⟩ := hvalid operation (by simp)
    rw [List.map_cons,List.sum_cons] at hbytes
    have haccepted : Accepted input scan operation :=
      ⟨houtcome,hbehind,hkey,hdata,hfresh operation (by simp),by omega⟩
    obtain ⟨scan',hfold,hcounts⟩ := ih (fun other hother => hvalid other (by simp [hother])) hordered
      hnodup (fun other hother => by
        have hne : other.key ≠ operation.key := fun heq =>
          hoperation (List.mem_map.mpr ⟨other,hother,heq⟩)
        simpa [HandoffScan.next,hne] using hfresh other (by simp [hother]))
      (by simp only [HandoffScan.next]; omega)
    refine ⟨scan',?_,hcounts.cons⟩
    rw [List.foldlM_cons,validateOperation_eq_ok.mpr ⟨haccepted,rfl⟩]
    exact hfold

variable {limits : HandoffLimits}

theorem Validated.validate (h : Validated limits input) :
    input.validateWithResources limits =
      if limits.controlStateBytes < input.controlMemoryBytes limits then
        .error HandoffInputState.fundingError else .ok () := by
  have hfits := limits.fits
  have hretained := h.retained
  obtain ⟨scan,hfold,hcounts⟩ : ∃ scan,
      input.operations.foldlM input.validateOperation HandoffScan.empty = .ok scan ∧
        Counts HandoffScan.empty scan input.operations :=
    scan_complete (fun operation hop => ⟨h.outcomes operation hop,h.requests operation hop⟩)
      h.ordered h.keys (by simp [HandoffScan.empty]) (by simp only [HandoffScan.empty]; omega)
  have hbytes := hcounts.bytes
  have hunknown := hcounts.unknown
  simp only [HandoffScan.empty,Nat.zero_add] at hbytes hunknown
  have hsmall : ¬limits.resources.inputResultBytes < scan.retainedBytes := by omega
  have hone : ¬1 < scan.unknownCount := by
    have := h.unknown
    omega
  simp only [HandoffInputState.validateWithResources,if_neg (Nat.not_lt.mpr h.entries),hfold,
    if_neg hsmall,if_neg hone]

theorem validated_of_ok (h : input.validateWithResources limits = .ok ()) :
    Validated limits input := by
  simp only [HandoffInputState.validateWithResources] at h
  split at h
  · cases h
  · rename_i hentries
    split at h
    · cases h
    · rename_i scan hfold
      obtain ⟨hvalid,hordered,hnodup,-,hcounts⟩ := scan_sound hfold
      have hbytes := hcounts.bytes
      have hunknown := hcounts.unknown
      simp only [HandoffScan.empty,Nat.zero_add] at hbytes hunknown
      split at h
      · cases h
      · split at h
        · cases h
        · exact ⟨by omega,fun operation hop => (hvalid operation hop).1,
            fun operation hop => (hvalid operation hop).2,hordered,hnodup,by omega,by omega⟩

section Rebuilt

variable {operations : List HandoffInputOperation} {ops : InputOperations}
  {key : InputOperationKey} {entry : InputOperationEntry}

theorem lookup_fold (hnodup : (operations.map (·.key)).Nodup)
    (hfresh : ∀ operation ∈ operations, ops.lookup operation.key = none) :
    (operations.foldl (fun ops operation => ops.insert operation.key operation.entry) ops).lookup key =
      some entry ↔
        (∃ operation ∈ operations, operation.key = key ∧ operation.entry = entry) ∨
          ops.lookup key = some entry := by
  induction operations generalizing ops with
  | nil => simp
  | cons operation operations ih =>
    obtain ⟨hoperation,hnodup⟩ := List.nodup_cons.mp hnodup
    have hnone := hfresh operation (by simp)
    have hrest : ∀ other ∈ operations,
        (ops.insert operation.key operation.entry).lookup other.key = none := fun other hother => by
      have hne : other.key ≠ operation.key := fun heq =>
        hoperation (List.mem_map.mpr ⟨other,hother,heq⟩)
      rw [AList.lookup_insert_ne hne]
      exact hfresh other (by simp [hother])
    rw [List.foldl_cons,ih hnodup hrest]
    by_cases hkey : key = operation.key
    · subst hkey
      rw [AList.lookup_insert,hnone]
      constructor
      · rintro (⟨other,hother,hk,he⟩ | he)
        · exact .inl ⟨other,by simp [hother],hk,he⟩
        · exact .inl ⟨operation,by simp,rfl,Option.some.inj he⟩
      · rintro (⟨other,hother,hk,he⟩ | he)
        · rcases List.mem_cons.mp hother with rfl | hin
          · exact .inr (by rw [he])
          · exact .inl ⟨other,hin,hk,he⟩
        · cases he
    · rw [AList.lookup_insert_ne hkey]
      constructor
      · rintro (⟨other,hother,hk,he⟩ | he)
        · exact .inl ⟨other,by simp [hother],hk,he⟩
        · exact .inr he
      · rintro (⟨other,hother,hk,he⟩ | he)
        · rcases List.mem_cons.mp hother with rfl | hin
          · exact absurd hk.symm hkey
          · exact .inl ⟨other,hin,hk,he⟩
        · exact .inr he

theorem total_fold (f : InputOperationEntry → ℕ) (hnodup : (operations.map (·.key)).Nodup)
    (hfresh : ∀ operation ∈ operations, ops.lookup operation.key = none) :
    total f (operations.foldl (fun ops operation => ops.insert operation.key operation.entry) ops) =
      total f ops+(operations.map fun operation => f operation.entry).sum := by
  induction operations generalizing ops with
  | nil => simp
  | cons operation operations ih =>
    obtain ⟨hoperation,hnodup⟩ := List.nodup_cons.mp hnodup
    have hrest : ∀ other ∈ operations,
        (ops.insert operation.key operation.entry).lookup other.key = none := fun other hother => by
      have hne : other.key ≠ operation.key := fun heq =>
        hoperation (List.mem_map.mpr ⟨other,hother,heq⟩)
      rw [AList.lookup_insert_ne hne]
      exact hfresh other (by simp [hother])
    rw [List.foldl_cons,ih hnodup hrest,total_insert_new f (hfresh operation (by simp)),
      List.map_cons,List.sum_cons]
    omega

theorem Validated.lookup (h : Validated limits input) :
    input.ledger.lookup key = some entry ↔
      ∃ operation ∈ input.operations, operation.key = key ∧ operation.entry = entry := by
  unfold HandoffInputState.ledger
  rw [lookup_fold h.keys (by simp)]
  simp

theorem Validated.total (h : Validated limits input) (f : InputOperationEntry → ℕ) :
    MapTotals.total f input.ledger = (input.operations.map fun operation => f operation.entry).sum := by
  unfold HandoffInputState.ledger
  rw [total_fold f h.keys (by simp)]
  simp

end Rebuilt

/-- The second operation lies behind the first, if both are completed. -/
def Behind (a b : HandoffInputOperation) : Prop :=
  ∀ request range request' range', a.entry = .completed request range →
    b.entry = .completed request' range' → range.endByte ≤ range'.startByte

theorem OrderedFrom.pairwise {finish : ℕ} {operations : List HandoffInputOperation}
    (h : OrderedFrom finish operations)
    (hvalid : ∀ operation ∈ operations, OutcomeValid input operation) :
    operations.Pairwise Behind ∧ ∀ operation ∈ operations, ∀ request range,
      operation.entry = .completed request range → finish ≤ range.startByte := by
  induction operations generalizing finish with
  | nil => exact ⟨List.Pairwise.nil,by simp⟩
  | cons operation operations ih =>
    have hrest : ∀ other ∈ operations, OutcomeValid input other := fun other hother =>
      hvalid other (by simp [hother])
    cases operation with
    | completed key expectedByte data range =>
      obtain ⟨hstart,hordered⟩ := h
      obtain ⟨hpairwise,hbehind⟩ := ih hordered hrest
      obtain ⟨hs,he,-,-⟩ : CompletedAt input.appliedInputBytes ⟨expectedByte,data⟩ range :=
        hvalid (.completed key expectedByte data range) (by simp)
      simp only at hs he
      refine ⟨List.Pairwise.cons ?_ hpairwise,?_⟩
      · intro other hother request range₁ request' range' h₁ h₂
        cases h₁
        exact hbehind other hother request' range' h₂
      · intro other hother request' range' hentry
        rcases List.mem_cons.mp hother with rfl | hin
        · cases hentry
          exact hstart
        · have := hbehind other hin request' range' hentry
          omega
    | unknown key expectedByte data failure =>
      obtain ⟨hpairwise,hbehind⟩ := ih h hrest
      refine ⟨List.Pairwise.cons ?_ hpairwise,?_⟩
      · intro other hother request range request' range' h₁
        cases h₁
      · intro other hother request' range' hentry
        rcases List.mem_cons.mp hother with rfl | hin
        · cases hentry
        · exact hbehind other hin request' range' hentry

theorem entry_request_data (operation : HandoffInputOperation) :
    operation.entry.request.data = operation.data := by
  cases operation with
  | completed key expectedByte data range => rfl
  | unknown key expectedByte data failure => rfl

/-- Two unknown operations of a valid state are the same. -/
theorem unknown_unique {operations : List HandoffInputOperation} {a b : HandoffInputOperation}
    (h : operations.countP (·.isUnknown) ≤ 1) (ha : a ∈ operations) (hb : b ∈ operations)
    (hua : a.isUnknown = true) (hub : b.isUnknown = true) : a = b := by
  rw [List.countP_eq_length_filter] at h
  have hina : a ∈ operations.filter (·.isUnknown) := List.mem_filter.mpr ⟨ha,hua⟩
  have hinb : b ∈ operations.filter (·.isUnknown) := List.mem_filter.mpr ⟨hb,hub⟩
  match hfilter : operations.filter (·.isUnknown) with
  | [] =>
    rw [hfilter] at hina
    cases hina
  | [x] =>
    rw [hfilter,List.mem_singleton] at hina hinb
    rw [hina,hinb]
  | x::y::rest =>
    rw [hfilter] at h
    simp at h

theorem Validated.balanced (h : Validated limits input) : Balanced limits.resources input.book := by
  have hlookup : ∀ {key : InputOperationKey} {entry : InputOperationEntry},
      input.book.operations.lookup key = some entry ↔
        ∃ operation ∈ input.operations, operation.key = key ∧ operation.entry = entry :=
    h.lookup
  have hmem : ∀ key, key ∈ input.book.completed ↔ ∃ operation ∈ input.operations,
      operation.entry.isCompleted = true ∧ operation.key = key := by
    intro key
    simp [HandoffInputState.book,and_assoc]
  have hbytes : input.book.retained = (input.operations.map (·.data.length)).sum := by
    simp only [HandoffInputState.book,entry_request_data]
  refine ⟨Nat.zero_le _,Nat.zero_le _,(h.total InputOperationEntry.bytes).symm,
    by rw [hbytes]; exact h.retained,?_,fun key entry hl => ?_,?_,fun key => ?_,
    fun key request range hl => ?_,?_,fun key request failure hl => ?_,
    fun key key' request request' failure failure' hl hl' => ?_⟩
  · rw [entries_length]
    refine (h.total fun _ => 1).trans_le ?_
    simpa using h.entries
  · obtain ⟨operation,hop,rfl,rfl⟩ := hlookup.mp hl
    rw [entry_request_data]
    exact h.requests operation hop
  · exact h.keys.sublist (List.filter_sublist.map _)
  · rw [hmem]
    constructor
    · rintro ⟨operation,hop,hcompleted,rfl⟩
      cases operation with
      | completed key expectedByte data range =>
        exact ⟨_,_,hlookup.mpr ⟨_,hop,rfl,rfl⟩⟩
      | unknown key expectedByte data failure => cases hcompleted
    · rintro ⟨request,range,hl⟩
      obtain ⟨operation,hop,rfl,hentry⟩ := hlookup.mp hl
      exact ⟨operation,hop,by rw [hentry]; rfl,rfl⟩
  · obtain ⟨operation,hop,rfl,hentry⟩ := hlookup.mp hl
    have houtcome := h.outcomes operation hop
    cases operation with
    | completed key expectedByte data range' =>
      cases hentry
      exact houtcome
    | unknown key expectedByte data failure => cases hentry
  · show (List.map _ (input.operations.filter _)).Pairwise _
    rw [List.pairwise_map]
    have hpairwise := (h.ordered.pairwise h.outcomes).1.sublist
      (List.filter_sublist (p := fun operation => operation.entry.isCompleted))
    refine hpairwise.imp_of_mem fun {a b} ha hb hbehind request range request' range' hl hl' => ?_
    have hina := List.mem_of_mem_filter ha
    have hinb := List.mem_of_mem_filter hb
    obtain ⟨a',ha',hkeya,hentrya⟩ := hlookup.mp hl
    obtain ⟨b',hb',hkeyb,hentryb⟩ := hlookup.mp hl'
    cases List.inj_on_of_nodup_map h.keys ha' hina hkeya
    cases List.inj_on_of_nodup_map h.keys hb' hinb hkeyb
    exact hbehind request range request' range' hentrya hentryb
  · obtain ⟨operation,hop,rfl,hentry⟩ := hlookup.mp hl
    have houtcome := h.outcomes operation hop
    cases operation with
    | completed key expectedByte data range' => cases hentry
    | unknown key expectedByte data failure' =>
      cases hentry
      exact houtcome
  · obtain ⟨a,ha,rfl,hentrya⟩ := hlookup.mp hl
    obtain ⟨b,hb,rfl,hentryb⟩ := hlookup.mp hl'
    cases a with
    | completed key expectedByte data range => cases hentrya
    | unknown key expectedByte data f =>
      cases b with
      | completed key' expectedByte' data' range' => cases hentryb
      | unknown key' expectedByte' data' f' =>
        rw [unknown_unique h.unknown ha hb rfl rfl]

/-- An input state that a control may be built from: the constructor validates it. -/
abbrev AdoptedInput (limits : HandoffLimits) :=
  { input : HandoffInputState // input.validateWithResources limits = .ok () }

/-- The control that adopts an input state. -/
def adopt (runId : String) (limits : HandoffLimits) (input : AdoptedInput limits) (closed : Bool) :
    Owner := newWithComponents runId limits.resources input.1 closed

/-- The state that a run of an adopted control reaches. -/
def reached (runId : String) (limits : HandoffLimits) (input : AdoptedInput limits) (closed : Bool)
    (events : List Event) : Owner :=
  Machine.run step (adopt runId limits input closed) events

structure Booked (limits : HandoffLimits) (base : HandoffInputState) (o : Owner) : Prop where
  sound : Sound base o
  balanced : Balanced o.resources o.state.book
  resources : o.resources = limits.resources

theorem reached_booked (runId : String) (limits : HandoffLimits) (input : AdoptedInput limits)
    (closed : Bool) (events : List Event) :
    Booked limits input.1 (reached runId limits input closed events) := by
  have hstart : Booked limits input.1 (adopt runId limits input closed) :=
    ⟨sound_new runId limits.resources input.1 closed,(validated_of_ok input.2).balanced,rfl⟩
  refine Machine.run_invariant (I := Booked limits input.1) (fun o e h => ?_) hstart events
  exact ⟨sound_step h.sound e,by
    rw [step_resources]
    exact (expects_and_balances h.sound h.balanced e).2,(step_resources o e).trans h.resources⟩

/-- The coupled fields of the input lane. -/
structure InputLedger (o : Owner) : Prop where
  commands : o.state.inputCommands = o.state.inputQueue.length
  bytes : o.state.inputBytes = (o.state.inputQueue.map (·.data.length)).sum
  queueBounds : o.state.inputCommands ≤ o.resources.inputQueueCommands ∧
    o.state.inputBytes ≤ o.resources.inputQueueBytes
  retained : o.state.retainedInputRequestBytes =
    (o.state.inputOperations.entries.map fun entry => entry.2.request.data.length).sum
  retainedBound : o.state.retainedInputRequestBytes ≤ o.resources.inputResultBytes
  entries : o.state.inputOperations.entries.length ≤ o.resources.inputResultEntries
  pending : ∀ key,
    (∃ request channel, o.state.inputOperations.lookup key = some (.pending request channel)) ↔
      ∃ command ∈ o.state.inputQueue, ∃ channel, command.reply = .recoverable key channel
  completedOnce : o.state.completedInputOperations.Nodup
  completed : ∀ key, key ∈ o.state.completedInputOperations ↔
    ∃ request range, o.state.inputOperations.lookup key = some (.completed request range)
  ordered : o.state.completedInputOperations.Pairwise (AppliedBefore o.state.inputOperations)
  ranges : ∀ key request range,
    o.state.inputOperations.lookup key = some (.completed request range) →
      range.startByte < range.endByte ∧ range.endByte ≤ o.state.appliedInputBytes
  oneUnknown : ∀ key key' request request' failure failure',
    o.state.inputOperations.lookup key = some (.unknown request failure) →
    o.state.inputOperations.lookup key' = some (.unknown request' failure') → key = key'
  unknown : ∀ key request failure,
    o.state.inputOperations.lookup key = some (.unknown request failure) →
      request.expectedByte = o.state.appliedInputBytes ∧
        o.state.inputFailure.map (·.code) = some failure.error.code

theorem Booked.ledger {base : HandoffInputState} {o : Owner} (h : Booked limits base o) :
    InputLedger o := by
  have hlane := h.sound.lane
  have hb := h.balanced
  refine ⟨hlane.commands,hlane.bytes,⟨hb.commands,hb.bytes⟩,hb.retained,hb.retainedBound,hb.entries,
    fun key => ?_,hb.nodup,hb.keys,hb.ordered,fun key request range hl => ?_,hb.one,
    fun key request failure hl => ?_⟩
  · constructor
    · rintro ⟨request,channel,hl⟩
      have hqueued := hlane.ledger.pending_queued key request channel hl
      obtain ⟨command,hcommand,hticket⟩ := List.mem_map.mp hqueued
      exact ⟨command,hcommand,channel,congrArg Prod.snd hticket⟩
    · rintro ⟨command,hcommand,channel,hreply⟩
      obtain ⟨expected,hl,-⟩ := hlane.ledger.queued_pending command.ticket
        (List.mem_map_of_mem hcommand) key channel hreply
      exact ⟨_,_,hl⟩
  · obtain ⟨hstart,hend,hle,-⟩ := hb.ranges key request range hl
    have hdata := List.length_pos_of_ne_nil (hb.requests key _ hl).2
    have hpos : 0 < request.data.length := hdata
    exact ⟨by omega,hle⟩
  · obtain ⟨hcursor,hcode,-⟩ := hb.unknown key request failure hl
    exact ⟨hcursor,hcode⟩

/-- In every run of a new or adopted control the ledger is in order, and no checked
subtraction or expectation of any critical section can fail. -/
theorem native_input_ledger (runId : String) (limits : HandoffLimits) (input : AdoptedInput limits)
    (closed : Bool) (events : List Event) :
    InputLedger (reached runId limits input closed events) ∧
      ∀ e, Expects (reached runId limits input closed events) e := by
  have h := reached_booked runId limits input closed events
  exact ⟨h.ledger,fun e => (expects_and_balances h.sound h.balanced e).1⟩

end NativeControl
end Ctxmux
