import Ctxmux.ApplicationState
import Ctxmux.Finalize

/-!
# How the finalizer divides the missing chunks

The reverse scan keeps the two parts contiguous exactly when no chunk fits into the
final transaction after one before it, seen from the end, did not. The groups of the
first part keep its chunks in order.
-/

namespace Ctxmux
namespace Durable

/-- Sizes, last chunk first: once one exceeds the room that is left, all that follow do. -/
def NeverSkips : ℕ → List ℕ → Prop
  | _, [] => True
  | room, n::ns => if n ≤ room then NeverSkips (room-n) ns else ∀ m ∈ ns, room < m

instance decidableNeverSkips : (room : ℕ) → (ns : List ℕ) → Decidable (NeverSkips room ns)
  | _, [] => inferInstanceAs (Decidable True)
  | room, n::ns =>
    have := decidableNeverSkips (room-n) ns
    inferInstanceAs (Decidable (if n ≤ room then NeverSkips (room-n) ns else ∀ m ∈ ns, room < m))

variable {s : FinalScan} {xs chunks : List OutputChunk} {x : OutputChunk}

theorem FinalScan.push_mono (s : FinalScan) (x : OutputChunk) :
    (∀ c ∈ s.before, c ∈ (s.push x).before) ∧ ∀ c ∈ s.final, c ∈ (s.push x).final := by
  unfold push
  split
  · exact ⟨fun c hc => hc,fun c hc => List.mem_append_left _ hc⟩
  · exact ⟨fun c hc => List.mem_append_left _ hc,fun c hc => hc⟩

theorem FinalScan.fold_mono (s : FinalScan) (xs : List OutputChunk) :
    (∀ c ∈ s.before, c ∈ (xs.foldl push s).before) ∧
      ∀ c ∈ s.final, c ∈ (xs.foldl push s).final := by
  induction xs generalizing s with
  | nil => exact ⟨fun c hc => hc,fun c hc => hc⟩
  | cons x xs ih =>
    obtain ⟨hbefore,hfinal⟩ := s.push_mono x
    obtain ⟨hbefore',hfinal'⟩ := ih (s.push x)
    exact ⟨fun c hc => hbefore' c (hbefore c hc),fun c hc => hfinal' c (hfinal c hc)⟩

theorem FinalScan.fold_perm (s : FinalScan) (xs : List OutputChunk) :
    ((xs.foldl push s).before ++ (xs.foldl push s).final).Perm
      (s.before ++ s.final ++ xs) := by
  induction xs generalizing s with
  | nil => simp
  | cons x xs ih =>
    refine (ih (s.push x)).trans ?_
    unfold push
    split
    · rw [← List.append_assoc,List.append_assoc]
      exact List.Perm.refl _
    · simp only [List.append_assoc,List.singleton_append]
      refine List.Perm.append_left _ ?_
      exact List.perm_middle.symm

theorem FinalScan.push_of_le (h : s.finalBytes ≤ maxTransactionPayloadBytes)
    (hfits : x.data.length ≤ maxTransactionPayloadBytes-s.finalBytes) :
    s.push x = { s with
      final := s.final ++ [x]
      finalBytes := s.finalBytes+x.data.length } :=
  if_pos (by omega)

theorem FinalScan.push_of_lt (hover : maxTransactionPayloadBytes-s.finalBytes < x.data.length) :
    s.push x = { s with before := s.before ++ [x] } :=
  if_neg (by omega)

/-- A chunk that fits into what is left puts some chunk into the final part. -/
theorem FinalScan.takes_one (h : s.finalBytes ≤ maxTransactionPayloadBytes)
    (hfits : ∃ m ∈ xs, m.data.length ≤ maxTransactionPayloadBytes-s.finalBytes) :
    ∃ m ∈ xs, m ∈ (xs.foldl push s).final := by
  induction xs generalizing s with
  | nil =>
    obtain ⟨m,hm,_⟩ := hfits
    cases hm
  | cons x xs ih =>
    by_cases hx : x.data.length ≤ maxTransactionPayloadBytes-s.finalBytes
    · refine ⟨x,by simp,((s.push x).fold_mono xs).2 x ?_⟩
      rw [push_of_le h hx]
      simp
    · obtain ⟨m,hm,hle⟩ := hfits
      have hrest : m ∈ xs := by
        rcases List.mem_cons.mp hm with rfl | hm
        · exact absurd hle hx
        · exact hm
      have hsame : (s.push x).finalBytes = s.finalBytes := by
        rw [push_of_lt (not_le.mp hx)]
      obtain ⟨y,hy,hfinal⟩ := ih (s := s.push x) (hsame ▸ h) ⟨m,hrest,hsame ▸ hle⟩
      exact ⟨y,by simp [hy],hfinal⟩

/-- A skip puts a chunk into the final part after one that it left out. -/
theorem FinalScan.skips (h : s.finalBytes ≤ maxTransactionPayloadBytes)
    (hskips : ¬NeverSkips (maxTransactionPayloadBytes-s.finalBytes) (xs.map (·.data.length))) :
    ∃ c m, List.Sublist [c,m] xs ∧ c ∈ (xs.foldl push s).before ∧
      m ∈ (xs.foldl push s).final := by
  induction xs generalizing s with
  | nil => exact absurd trivial hskips
  | cons x xs ih =>
    simp only [List.map_cons,NeverSkips] at hskips
    split at hskips
    · rename_i hfits
      have hpush := push_of_le h hfits
      have hroom : maxTransactionPayloadBytes-(s.push x).finalBytes =
          maxTransactionPayloadBytes-s.finalBytes-x.data.length := by
        rw [hpush]
        simp only
        omega
      obtain ⟨c,m,hsub,hc,hm⟩ := ih (s := s.push x) (by rw [hpush]; simp only; omega)
        (hroom ▸ hskips)
      exact ⟨c,m,hsub.cons x,hc,hm⟩
    · rename_i hover
      have hpush := push_of_lt (not_le.mp hover)
      push Not at hskips
      obtain ⟨n,hn,hle⟩ := hskips
      obtain ⟨m,hm,rfl⟩ := List.mem_map.mp hn
      obtain ⟨y,hy,hfinal⟩ := takes_one (s := s.push x) (by rw [hpush]; exact h)
        ⟨m,hm,by rw [hpush]; exact hle⟩
      refine ⟨x,y,(List.singleton_sublist.mpr hy).cons_cons x,
        ((s.push x).fold_mono xs).1 x ?_,hfinal⟩
      rw [hpush]
      simp

/-- When nothing fits any more, everything goes before. -/
theorem FinalScan.fold_over
    (hover : ∀ x ∈ xs, maxTransactionPayloadBytes-s.finalBytes < x.data.length) :
    xs.foldl push s = { s with before := s.before ++ xs } := by
  induction xs generalizing s with
  | nil => simp
  | cons x xs ih =>
    rw [List.foldl_cons,push_of_lt (hover x (by simp))]
    simpa using ih (s := { s with before := s.before ++ [x] }) fun y hy => hover y (by simp [hy])

/-- Without a skip the final part is what the scan met first. -/
theorem FinalScan.takes_initial (h : s.finalBytes ≤ maxTransactionPayloadBytes)
    (hnil : s.before = [])
    (hnever : NeverSkips (maxTransactionPayloadBytes-s.finalBytes) (xs.map (·.data.length))) :
    ∃ ys zs, xs = ys ++ zs ∧ (xs.foldl push s).before = zs ∧
      (xs.foldl push s).final = s.final ++ ys ∧
      s.finalBytes+(ys.map (·.data.length)).sum ≤ maxTransactionPayloadBytes := by
  induction xs generalizing s with
  | nil => exact ⟨[],[],rfl,hnil,by simp,by simpa using h⟩
  | cons x xs ih =>
    simp only [List.map_cons,NeverSkips] at hnever
    split at hnever
    · rename_i hfits
      have hpush := push_of_le h hfits
      have hroom : maxTransactionPayloadBytes-(s.push x).finalBytes =
          maxTransactionPayloadBytes-s.finalBytes-x.data.length := by
        rw [hpush]
        simp only
        omega
      obtain ⟨ys,zs,rfl,hbefore,hfinal,hbytes⟩ := ih (s := s.push x)
        (by rw [hpush]; simp only; omega) (by rw [hpush]; exact hnil) (hroom ▸ hnever)
      refine ⟨x::ys,zs,rfl,hbefore,?_,?_⟩
      · rw [List.foldl_cons,hfinal,hpush]
        simp
      · rw [hpush] at hbytes
        simpa [Nat.add_assoc] using hbytes
    · rename_i hover
      refine ⟨[],x::xs,rfl,?_,?_,by simpa using h⟩
      all_goals
        rw [fold_over fun y hy => ?_]
        · simp [hnil]
        · rcases List.mem_cons.mp hy with rfl | hy
          · exact not_le.mp hover
          · exact hnever _ (List.mem_map.mpr ⟨y,hy,rfl⟩)

/-- A chunk that is left out before a chunk of the final part, seen from the end. -/
theorem finalPartition_skips {missing : List OutputChunk}
    (hskips : ¬NeverSkips maxTransactionPayloadBytes (missing.map (·.data.length)).reverse) :
    ∃ c m, List.Sublist [m,c] missing ∧ c ∈ (finalPartition missing).1 ∧
      m ∈ (finalPartition missing).2 := by
  rw [← List.map_reverse] at hskips
  obtain ⟨c,m,hsub,hc,hm⟩ := FinalScan.skips (s := ⟨[],[],0⟩) (Nat.zero_le _) hskips
  exact ⟨c,m,by simpa using hsub.reverse,by simpa [finalPartition] using hc,
    by simpa [finalPartition] using hm⟩

theorem finalPartition_perm (missing : List OutputChunk) :
    ((finalPartition missing).1 ++ (finalPartition missing).2).Perm missing := by
  have hperm := FinalScan.fold_perm ⟨[],[],0⟩ missing.reverse
  refine ((List.reverse_perm _).append (List.reverse_perm _)).trans (hperm.trans ?_)
  simp

theorem finalPartition_contiguous {missing : List OutputChunk}
    (hnever : NeverSkips maxTransactionPayloadBytes (missing.map (·.data.length)).reverse) :
    (finalPartition missing).1 ++ (finalPartition missing).2 = missing ∧
      ((finalPartition missing).2.map (·.data.length)).sum ≤ maxTransactionPayloadBytes := by
  rw [← List.map_reverse] at hnever
  obtain ⟨ys,zs,hsplit,hbefore,hfinal,hbytes⟩ :=
    FinalScan.takes_initial (s := ⟨[],[],0⟩) (Nat.zero_le _) rfl hnever
  have hmissing := congrArg List.reverse hsplit
  rw [List.reverse_reverse,List.reverse_append] at hmissing
  have hparts : finalPartition missing = (zs.reverse,ys.reverse) := by
    simp only [finalPartition,hbefore,hfinal,List.nil_append]
  rw [hparts]
  refine ⟨hmissing.symm,?_⟩
  rw [List.map_reverse,List.sum_reverse]
  simpa using hbytes

/-- What `split_chunks` has made of the chunks so far. -/
structure ChunkGroups.Holds (g : ChunkGroups) (chunks : List OutputChunk) : Prop where
  flatten : g.groups.flatten ++ g.current = chunks
  filled : ∀ group ∈ g.groups, group ≠ []
  bytes : g.bytes = (g.current.map (·.data.length)).sum
  small : ∀ group ∈ g.groups, (group.map (·.data.length)).sum ≤ maxTransactionPayloadBytes
  current : g.bytes ≤ maxTransactionPayloadBytes

theorem ChunkGroups.Holds.push {g g' : ChunkGroups} (h : g.Holds chunks) (hok : g.push x = .ok g') :
    g'.Holds (chunks ++ [x]) := by
  unfold ChunkGroups.push at hok
  split_ifs at hok with hlarge hfull
  · obtain rfl := Except.ok.inj hok
    refine ⟨by simp [← h.flatten],fun group hg => ?_,by simp,fun group hg => ?_,not_lt.mp hlarge⟩
    · rcases List.mem_append.mp hg with hg | hg
      · exact h.filled group hg
      · rw [List.mem_singleton.mp hg]
        exact hfull.1
    · rcases List.mem_append.mp hg with hg | hg
      · exact h.small group hg
      · rw [List.mem_singleton.mp hg,← h.bytes]
        exact h.current
  · obtain rfl := Except.ok.inj hok
    refine ⟨by simp [← h.flatten],h.filled,by simp [h.bytes],h.small,?_⟩
    by_cases hnil : g.current = []
    · have hzero : g.bytes = 0 := by simp [h.bytes,hnil]
      simp only [hzero,Nat.zero_add]
      exact not_lt.mp hlarge
    · simpa using not_and.mp hfull hnil

theorem ChunkGroups.Holds.fold {g g' : ChunkGroups} {more : List OutputChunk} (h : g.Holds chunks)
    (hok : more.foldlM ChunkGroups.push g = .ok g') :
    g'.Holds (chunks ++ more) := by
  induction more generalizing g chunks with
  | nil =>
    obtain rfl := Except.ok.inj hok
    simpa using h
  | cons x more ih =>
    rw [List.foldlM_cons] at hok
    obtain ⟨g₁,hpush,hrest⟩ := bind_eq_ok.mp hok
    simpa using ih (h.push hpush) hrest

/-- The groups hold the chunks in order, none is empty and each fits into a transaction. -/
theorem splitChunks_spec {groups : List (List OutputChunk)} (hok : splitChunks chunks = .ok groups)
    :
    groups.flatten = chunks ∧ ∀ group ∈ groups, group ≠ [] ∧
      (group.map (·.data.length)).sum ≤ maxTransactionPayloadBytes := by
  obtain ⟨g,hfold,hrest⟩ := bind_eq_ok.mp hok
  have hstart : ChunkGroups.Holds ⟨[],[],0⟩ [] :=
    ⟨rfl,fun _ hg => absurd hg List.not_mem_nil,rfl,fun _ hg => absurd hg List.not_mem_nil,
      Nat.zero_le _⟩
  have h := hstart.fold hfold
  obtain rfl := Except.ok.inj hrest
  split
  · rename_i hnil
    refine ⟨by simpa [hnil] using h.flatten,fun group hg => ⟨h.filled group hg,h.small group hg⟩⟩
  · rename_i hne
    refine ⟨by simpa using h.flatten,fun group hg => ?_⟩
    rcases List.mem_append.mp hg with hg | hg
    · exact ⟨h.filled group hg,h.small group hg⟩
    · rw [List.mem_singleton.mp hg]
      exact ⟨hne,h.bytes ▸ h.current⟩

theorem splitChunks_ok (hsmall : ∀ chunk ∈ chunks, chunk.data.length ≤ maxTransactionPayloadBytes) :
    ∃ groups, splitChunks chunks = .ok groups := by
  have hfold : ∀ g : ChunkGroups, ∃ g', chunks.foldlM ChunkGroups.push g = .ok g' := by
    induction chunks with
    | nil => exact fun g => ⟨g,rfl⟩
    | cons x chunks ih =>
      intro g
      have hpush : ∃ g₁, g.push x = .ok g₁ := by
        unfold ChunkGroups.push
        rw [if_neg (not_lt.mpr (hsmall x (by simp)))]
        split
        · exact ⟨_,rfl⟩
        · exact ⟨_,rfl⟩
      obtain ⟨g₁,hg₁⟩ := hpush
      rw [List.foldlM_cons,ok_bind hg₁]
      exact ih (fun y hy => hsmall y (by simp [hy])) g₁
  obtain ⟨g,hg⟩ := hfold ⟨[],[],0⟩
  exact ⟨_,ok_bind hg⟩

end Durable
end Ctxmux
