import Ctxmux.HandoffManifest
import Ctxmux.LedgerAnswers

/-!
# An accepted manifest is accepted again

The writer counts every byte it lets through, the final newline included, so the file of
an accepted manifest is within the limit that the reader applies, and the reader checks
what the writer checked. The checks fund every carried Stop in the preserved budget.
-/

namespace Ctxmux
namespace Handoff

open Durable (RunId)
open Registry (HandoffStopOperation)

variable {m : HandoffManifest} {host : Host} {manifestFd : RawFd}

theorem forM_eq_ok {α : Type} {check : α → Except String Unit} {xs : List α}
    (h : xs.forM check = .ok ()) : ∀ x ∈ xs, check x = .ok () := by
  induction xs with
  | nil => simp
  | cons x xs ih =>
    rw [List.forM_eq_forM,List.forM_cons] at h
    cases hx : check x with
    | error message =>
      rw [hx] at h
      cases h
    | ok u =>
      rw [hx] at h
      intro y hy
      rcases List.mem_cons.mp hy with rfl | hin
      · exact hx
      · exact ih h y hin

/-- A chain of checks that passes, passes its first check and the rest. -/
theorem then_eq_ok {α : Type} {first : Except String Unit} {rest : Except String α} {a : α}
    (h : (do first; rest) = .ok a) : first = .ok () ∧ rest = .ok a := by
  cases first with
  | error message => cases h
  | ok u => exact ⟨rfl,h⟩

theorem guard_eq_ok {α : Type} {p : Prop} [Decidable p] {message : String} {rest : Except String α}
    {a : α} (h : (do
      if p then (.error message : Except String Unit)
      rest) = .ok a) : ¬p ∧ rest = .ok a := by
  by_cases hp : p
  · rw [if_pos hp] at h
    cases h
  · rw [if_neg hp] at h
    exact ⟨hp,h⟩

/-- A signed word holds every byte count of a validated policy. -/
theorem ResourceLimits.count_le {limits : ResourceLimits} {sizes : HostSizes}
    (h : limits.validate sizes = .ok ()) {count : String × ℕ} (hin : count ∈ limits.byteCounts) :
    count.2 ≤ i64Max := by
  unfold ResourceLimits.validate at h
  obtain ⟨-,h⟩ := guard_eq_ok h
  obtain ⟨hcounts,-⟩ := then_eq_ok h
  have hcount := forM_eq_ok hcounts count hin
  unfold ResourceLimits.checkByteCount at hcount
  split at hcount
  · cases hcount
  · rename_i hbound
    exact Nat.le_of_not_lt fun hlt => hbound (.inr hlt)

/-- What the incoming registry relies on of a validated manifest. -/
structure Funded (host : Host) (m : HandoffManifest) : Prop where
  valid : ∀ operation ∈ m.stopOperations, operation.validate = .ok ()
  ids : (m.stopOperations.map (·.runId)).Nodup
  keys : (m.stopOperations.map (·.operationKey)).Nodup
  funds : m.inputControlBytes host.sizes+
    (m.stopOperations.map (·.controlMemoryBytes host.sizes.stopRecord)).sum ≤
      m.resources.controlStateBytes

theorem checkStops_eq_ok {ids : List RunId} {keys : List Registry.StopOperationKey}
    {operations : List HandoffStopOperation}
    (h : HandoffManifest.checkStops ids keys operations = .ok ()) :
    (∀ operation ∈ operations, operation.validate = .ok ()) ∧
      (operations.map (·.runId)).Nodup ∧ (operations.map (·.operationKey)).Nodup ∧
      (∀ operation ∈ operations, operation.runId ∉ ids) ∧
      ∀ operation ∈ operations, operation.operationKey ∉ keys := by
  induction operations generalizing ids keys with
  | nil => simp
  | cons operation operations ih =>
    unfold HandoffManifest.checkStops at h
    cases hvalid : operation.validate with
    | error message =>
      rw [hvalid] at h
      cases h
    | ok u =>
      simp only [hvalid] at h
      split at h
      · cases h
      · rename_i hfresh
        obtain ⟨hrest,hids,hkeys,hid,hkey⟩ := ih h
        refine ⟨fun other hin => ?_,List.nodup_cons.mpr ⟨fun hin => ?_,hids⟩,
          List.nodup_cons.mpr ⟨fun hin => ?_,hkeys⟩,fun other hin hmem => ?_,fun other hin hmem => ?_⟩
        · rcases List.mem_cons.mp hin with rfl | hin
          · exact hvalid
          · exact hrest other hin
        · obtain ⟨other,hother,heq⟩ := List.mem_map.mp hin
          exact hid other hother (by simp [heq])
        · obtain ⟨other,hother,heq⟩ := List.mem_map.mp hin
          exact hkey other hother (by simp [heq])
        · rcases List.mem_cons.mp hin with rfl | hin
          · exact hfresh (.inl hmem)
          · exact hid other hin (by simp [hmem])
        · rcases List.mem_cons.mp hin with rfl | hin
          · exact hfresh (.inr hmem)
          · exact hkey other hin (by simp [hmem])

theorem saturatingAdd_le {a b limit : ℕ} (hlimit : limit ≤ i64Max)
    (h : NativeControl.saturatingAdd a b ≤ limit) : a+b ≤ limit := by
  unfold NativeControl.saturatingAdd at h
  have hword : i64Max < NativeControl.u64Limit-1 := by decide
  rcases Nat.le_total (a+b) (NativeControl.u64Limit-1) with hle | hle
  · rwa [Nat.min_eq_left hle] at h
  · rw [Nat.min_eq_right hle] at h
    omega

theorem funded_of_validate (h : m.validate host manifestFd = .ok ()) : Funded host m := by
  unfold HandoffManifest.validate at h
  obtain ⟨hresources,h⟩ := then_eq_ok h
  obtain ⟨-,h⟩ := then_eq_ok h
  obtain ⟨-,h⟩ := then_eq_ok h
  cases hseen : HandoffManifest.checkRuns (m.resources.handoffLimits host.sizes) [] m.runs with
  | error message =>
    rw [hseen] at h
    cases h
  | ok seen =>
    rw [hseen] at h
    obtain ⟨-,h⟩ := then_eq_ok h
    obtain ⟨hcontrol,hstops⟩ := guard_eq_ok h
    obtain ⟨hvalid,hids,hkeys,-⟩ := checkStops_eq_ok hstops
    have hlimit : m.resources.controlStateBytes ≤ i64Max := ResourceLimits.count_le hresources
      (show ("control_state_bytes",m.resources.controlStateBytes) ∈ m.resources.byteCounts by
        simp [ResourceLimits.byteCounts])
    exact ⟨hvalid,hids,hkeys,saturatingAdd_le hlimit (Nat.le_of_not_lt hcontrol)⟩

theorem validate_of {seen : List RunId} (hresources : m.resources.validate host.sizes = .ok ())
    (hepoch : m.checkEpoch host = .ok ())
    (hfds : HandoffManifest.checkFds manifestFd [] m.allFds = .ok ())
    (hruns : HandoffManifest.checkRuns (m.resources.handoffLimits host.sizes) [] m.runs = .ok seen)
    (hclosed : HandoffManifest.checkClosedInputs (m.resources.handoffLimits host.sizes) seen
      m.closedInputs = .ok ())
    (hcontrol : m.controlBytes host.sizes ≤ m.resources.controlStateBytes)
    (hstops : HandoffManifest.checkStops [] [] m.stopOperations = .ok ()) :
    m.validate host manifestFd = .ok () := by
  unfold HandoffManifest.validate
  rw [hresources,hepoch,hfds,hruns]
  simp only [bind,Except.bind,hclosed,if_neg (Nat.not_lt.mpr hcontrol)]
  exact hstops

theorem handoffBytes_le (h : m.validate host manifestFd = .ok ()) :
    m.resources.handoffBytes ≤ i64Max := by
  unfold HandoffManifest.validate at h
  obtain ⟨hresources,-⟩ := then_eq_ok h
  exact ResourceLimits.count_le hresources
    (show ("handoff_bytes",m.resources.handoffBytes) ∈ m.resources.byteCounts by
      simp [ResourceLimits.byteCounts])

namespace BoundedWriter

variable {w w' : BoundedWriter} {writes writes' : FileWrites} {data : List Byte}

/-- The file grew by the data, and the budget shrank by it. -/
structure Wrote (w w' : BoundedWriter) (data : List Byte) : Prop where
  inner : w'.inner = w.inner ++ data
  remaining : w'.remaining+data.length = w.remaining

theorem Wrote.trans {w'' : BoundedWriter} {data' : List Byte} (h : Wrote w w' data)
    (h' : Wrote w' w'' data') : Wrote w w'' (data ++ data') := by
  refine ⟨by rw [h'.inner,h.inner,List.append_assoc],?_⟩
  rw [← h.remaining,← h'.remaining,List.length_append]
  omega

theorem write_wrote {taken : Except String ℕ} {written : ℕ}
    (h : w.write data taken = .ok (written,w')) : Wrote w w' (data.take written) := by
  unfold write at h
  split at h
  · cases h
  · rename_i hroom
    cases taken with
    | error error => cases h
    | ok count =>
      cases h
      refine ⟨rfl,?_⟩
      simp only [List.length_take]
      omega

theorem writeAll_wrote (h : writeAll writes w data = .ok (w',writes')) : Wrote w w' data := by
  induction writes generalizing w data with
  | nil =>
    cases data with
    | nil =>
      cases h
      exact ⟨by simp,by simp⟩
    | cons b data =>
      simp only [writeAll] at h
      cases hwrite : w.write (b::data) (.ok (b::data).length) with
      | error error =>
        rw [hwrite] at h
        cases h
      | ok out =>
        obtain ⟨written,w₁⟩ := out
        rw [hwrite] at h
        cases h
        have hwrote := write_wrote hwrite
        have hall : written = (b::data).length := by
          unfold write at hwrite
          split at hwrite
          · cases hwrite
          · cases hwrite
            exact Nat.min_self _
        rwa [hall,List.take_length] at hwrote
  | cons taken writes ih =>
    cases data with
    | nil =>
      cases h
      exact ⟨by simp,by simp⟩
    | cons b data =>
      simp only [writeAll] at h
      cases hwrite : w.write (b::data) taken with
      | error error =>
        rw [hwrite] at h
        cases h
      | ok out =>
        obtain ⟨written,w₁⟩ := out
        simp only [hwrite] at h
        split at h
        · cases h
        · have hwrote := (write_wrote hwrite).trans (ih h)
          rwa [List.take_append_drop] at hwrote

theorem writePieces_wrote {pieces : List (List Byte)}
    (h : writePieces writes w pieces = .ok (w',writes')) : Wrote w w' pieces.flatten := by
  induction pieces generalizing writes w with
  | nil =>
    cases h
    exact ⟨by simp,by simp⟩
  | cons piece pieces ih =>
    simp only [writePieces] at h
    cases hpiece : writeAll writes w piece with
    | error error =>
      rw [hpiece] at h
      cases h
    | ok out =>
      obtain ⟨w₁,writes₁⟩ := out
      rw [hpiece] at h
      exact (writeAll_wrote hpiece).trans (ih h)

/-- A file that takes its writes whole takes every piece that fits. -/
theorem writePieces_whole {pieces : List (List Byte)} (h : pieces.flatten.length ≤ w.remaining) :
    writePieces [] w pieces =
      .ok (⟨w.inner ++ pieces.flatten,w.remaining-pieces.flatten.length⟩,[]) := by
  induction pieces generalizing w with
  | nil => simp [writePieces]
  | cons piece pieces ih =>
    rw [List.flatten_cons,List.length_append] at h
    have hpiece : writeAll [] w piece =
        .ok (⟨w.inner ++ piece,w.remaining-piece.length⟩,[]) := by
      cases piece with
      | nil => simp [writeAll]
      | cons b data =>
        have hroom : ¬w.remaining < (b::data).length := by omega
        simp only [writeAll,write,if_neg hroom,Nat.min_self,List.take_length]
    rw [writePieces,hpiece]
    simp only
    rw [ih (show pieces.flatten.length ≤ w.remaining-piece.length by omega),List.flatten_cons,
      List.append_assoc,List.length_append,Nat.sub_sub]

end BoundedWriter

/-- A validated manifest that fits its own limit is written. -/
theorem writePreflight_whole (hvalid : m.validate host manifestFd = .ok ())
    (hlength : (host.encode m).flatten.length+1 ≤ m.resources.handoffBytes) :
    writePreflight host manifestFd [] m = .ok ((host.encode m).flatten ++ [newline]) := by
  have hfits : (host.encode m).flatten.length ≤
      (⟨[],m.resources.handoffBytes⟩ : BoundedWriter).remaining := Nat.le_of_succ_le hlength
  have hpieces := BoundedWriter.writePieces_whole hfits
  have hroom : ¬m.resources.handoffBytes-(host.encode m).flatten.length < [newline].length :=
    Nat.not_lt.mpr (Nat.le_sub_of_add_le (Nat.add_comm _ _ ▸ hlength))
  simp only [writePreflight,hvalid,hpieces,BoundedWriter.writeAll,BoundedWriter.write,if_neg hroom,
    List.nil_append,Nat.min_self,List.take_length]

/-- An accepted preflight leaves the serialized line, within the policy's own limit. -/
theorem writePreflight_ok {writes : FileWrites} {file : List Byte}
    (h : writePreflight host manifestFd writes m = .ok file) :
    m.validate host manifestFd = .ok () ∧ file = (host.encode m).flatten ++ [newline] ∧
      file.length ≤ m.resources.handoffBytes := by
  unfold writePreflight at h
  cases hvalid : m.validate host manifestFd with
  | error message =>
    rw [hvalid] at h
    cases h
  | ok u =>
    simp only [hvalid] at h
    cases hpieces : BoundedWriter.writePieces writes ⟨[],m.resources.handoffBytes⟩ (host.encode m) with
    | error error =>
      rw [hpieces] at h
      cases h
    | ok out =>
      obtain ⟨w,writes'⟩ := out
      simp only [hpieces] at h
      cases hline : BoundedWriter.writeAll writes' w [newline] with
      | error error =>
        rw [hline] at h
        cases h
      | ok out =>
        obtain ⟨w',rest⟩ := out
        rw [hline] at h
        cases h
        have hwrote := (BoundedWriter.writePieces_wrote hpieces).trans
          (BoundedWriter.writeAll_wrote hline)
        have hlength := hwrote.remaining
        have hfile : w'.inner = (host.encode m).flatten ++ [newline] := by simpa using hwrote.inner
        refine ⟨rfl,hfile,?_⟩
        rw [hfile]
        exact Nat.le.intro (by rw [Nat.add_comm]; exact hlength)

/-- The incoming image accepts what the outgoing one accepted, with equal content. -/
theorem readManifest_of_preflight {writes : FileWrites} {file : List Byte}
    (h : writePreflight host manifestFd writes m = .ok file) (hschema : m.schema = handoffSchema)
    (hjson : host.decode ((host.encode m).flatten ++ [newline]) = .ok m) :
    readManifest host manifestFd m.resources.handoffBytes file = .ok m := by
  obtain ⟨hvalid,rfl,hlength⟩ := writePreflight_ok h
  have hlimit := handoffBytes_le hvalid
  have hread : m.resources.handoffBytes ≤
      NativeControl.saturatingAdd m.resources.handoffBytes 1 := by
    unfold NativeControl.saturatingAdd
    have hword : i64Max < NativeControl.u64Limit-1 := by decide
    omega
  have hbound := Nat.not_lt.mpr hlength
  simp only [readManifest,List.take_of_length_le (hlength.trans hread),if_neg hbound,hjson,hschema,
    hvalid,ne_eq,not_true_eq_false,if_false]

end Handoff
end Ctxmux
