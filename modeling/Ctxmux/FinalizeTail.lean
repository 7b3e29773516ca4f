import Ctxmux.AppendAccepts

/-!
# The tail of a finalized Run

The reverse scan of the finalizer does not stop at the first chunk that does not fit:
a smaller chunk before it may still fit and then overtakes it into the final
transaction, which leaves a hole that storage refuses. Without such a chunk the
transactions write the whole tail once and in order.
-/

namespace Ctxmux
namespace Durable

open Tiling

variable {codec : Codec} {limits : OutputLimits} {streams : RunId → ℕ → Byte} {id : RunId}
  {s s' : Store} {replay : OutputReplay} {terminal : Option TerminalSettlement}
  {chunk : OutputChunk} {c c' : ReplayCursors}

/-- Tables whose rows correspond one by one find corresponding rows. -/
theorem Database.run?_forall₂ {R : RunRow → RunRow → Prop} {db db' : Database}
    (hid : ∀ r r', R r r' → r'.id = r.id) (h : List.Forall₂ R db.runs db'.runs) (id : RunId) :
    Option.Rel R (db.run? id) (db'.run? id) := by
  unfold run?
  generalize db.runs = runs at h
  generalize db'.runs = runs' at h
  induction h with
  | nil => exact .none
  | @cons r r' rs rs' hr _ ih =>
    have hsame := hid r r' hr
    rw [List.find?_cons,List.find?_cons]
    by_cases heq : r.id = id
    · simp only [hsame,heq,decide_true]
      exact .some hr
    · simp only [hsame,heq,decide_false]
      exact ih

theorem Retired.run? {db db' : Database} (h : Retired db db') {row : RunRow}
    (hrow : db.run? id = some row) :
    ∃ row', db'.run? id = some row' ∧ row' = { row with
      durableFirstAvailableByte := row'.durableFirstAvailableByte
      replayBytes := row'.replayBytes
      replayTruncated := row'.replayTruncated } := by
  have hrel := Database.run?_forall₂ (fun r r' hr => by rw [hr]) h.runs id
  rw [hrow] at hrel
  generalize db'.run? id = found at hrel
  cases hrel with
  | some hr => exact ⟨_,rfl,hr⟩

/-- The eviction and the settlement that follow the appends of a transaction. -/
theorem afterAppends_spec {s₁ : Store} {db db' : Database} {fits : Bool} {row : RunRow}
    (hs : Sound s₁.db s₁.files) (hw : ∀ r ∈ s₁.db.runs, Window s₁.db r)
    (hprune : pruneGlobalReplayWithRowFunding limits.durableReplayBytes limits.rowFunding s₁.db =
      .ok (fits,db))
    (hsettle : stageTerminal codec db terminal = .ok db') (hrow : s₁.db.run? id = some row)
    (hid : ∀ t, terminal = some t → t.id = id) :
    (Sound db' s₁.files ∧ (∀ r ∈ db'.runs, Window db' r) ∧
      db'.replayFile = s₁.db.replayFile) ∧
    (∀ streams, Faithful streams s₁.db s₁.files → Faithful streams db' s₁.files) ∧
    ∃ row', db'.run? id = some row' ∧ row'.durableOutputBytes = row.durableOutputBytes ∧
      (terminal = none → row'.stateKind = row.stateKind) ∧
      ∀ t, terminal = some t → row'.stateKind = .exited ∧ row'.stateJson = t.stateJson codec := by
  have he := evicts_pruneGlobal hs hw hprune
  obtain ⟨row₁,hrow₁,hsame⟩ := he.retired.run? hrow
  have hfaithful : ∀ streams, Faithful streams s₁.db s₁.files → Faithful streams db s₁.files :=
    fun streams hf => hf.shrink he.retired.chunks
  cases terminal with
  | none =>
    obtain rfl := Except.ok.inj hsettle
    exact ⟨⟨he.sound,he.windows,he.retired.replayFile⟩,hfaithful,row₁,hrow₁,by rw [hsame],
      fun _ => by rw [hsame],fun t ht => (by cases ht)⟩
  | some t =>
    obtain ⟨old,_,hupdate⟩ := bind_eq_ok.mp hsettle
    obtain rfl := hid t rfl
    simp only at hupdate
    split at hupdate
    · cases hupdate
    · obtain rfl := Except.ok.inj hupdate
      refine ⟨⟨he.sound.updateRun t.id (fun _ => rfl) (fun _ => rfl),?_,
        by simpa using he.retired.replayFile⟩,
        fun streams hf chunk hc => hfaithful streams hf chunk (by simpa using hc),?_⟩
      · refine windows_updateRun he.windows rfl (fun _ _ => rfl) fun r hr _ => ?_
        have hwindow := he.windows r hr
        exact ⟨by simpa using hwindow.tiles,hwindow.bytes,hwindow.truncated,hwindow.bound⟩
      · rw [Database.run?_updateRun_self (by simp),hrow₁]
        refine ⟨_,rfl,by rw [hsame],fun hnone => (by cases hnone),fun t' ht' => ?_⟩
        obtain rfl := Option.some.inj ht'
        exact ⟨rfl,rfl⟩

theorem appendTransaction_eq_ok
    (hok : appendTransaction codec limits s [(id,replay)] terminal = .ok (true,s')) :
    ∃ s₁ evicted db db', appendReplayWithStorage s s.db.replayFile id replay
        limits.durableRunOutputBytes = .ok (s₁,evicted) ∧
      pruneGlobalReplayWithRowFunding limits.durableReplayBytes limits.rowFunding s₁.db =
        .ok (true,db) ∧
      stageTerminal codec db terminal = .ok db' ∧ s' = ⟨db',s₁.files⟩ ∧
      replayPayload replay ≤ maxTransactionPayloadBytes := by
  unfold appendTransaction at hok
  simp only at hok
  split at hok
  · cases hok
  · rename_i hpayload
    obtain ⟨⟨fits,staged⟩,hstage,hrest⟩ := bind_eq_ok.mp hok
    obtain ⟨rfl,rfl⟩ := Prod.mk.inj (Except.ok.inj hrest)
    obtain ⟨s₁,happends,hstage⟩ := bind_eq_ok.mp hstage
    obtain ⟨⟨flag,db⟩,hprune,hstage⟩ := bind_eq_ok.mp hstage
    obtain ⟨s₂,hstaged,hrest⟩ := bind_eq_ok.mp (show (do
      let s ← stageAppend limits s (id,replay)
      ([] : List (RunId × OutputReplay)).foldlM (stageAppend limits) s) = .ok s₁ from happends)
    obtain rfl := Except.ok.inj hrest
    obtain ⟨⟨s₃,evicted⟩,happend,hrest⟩ := bind_eq_ok.mp hstaged
    obtain ⟨_,_,hrest⟩ := bind_eq_ok.mp hrest
    obtain rfl := Except.ok.inj hrest
    simp only at hstage
    split at hstage
    · rename_i hfits
      obtain ⟨db',hsettle,hrest⟩ := bind_eq_ok.mp hstage
      obtain ⟨_,rfl⟩ := Prod.mk.inj (Except.ok.inj hrest)
      refine ⟨_,evicted,db,db',happend,?_,hsettle,rfl,?_⟩
      · rw [hprune,hfits]
      · simpa using hpayload
    · have hfalse := (Prod.mk.inj (Except.ok.inj hstage)).1
      cases hfalse

/-- No chunk starts above what the head has reached. -/
def Contig : ℕ → List OutputChunk → Prop
  | _, [] => True
  | head, chunk::chunks => chunk.startByte ≤ head ∧ Contig (max head chunk.endByte) chunks

def reach (head : ℕ) (chunks : List OutputChunk) : ℕ :=
  chunks.foldl (fun head chunk => max head chunk.endByte) head

theorem contig_append {head : ℕ} {xs ys : List OutputChunk} :
    Contig head (xs ++ ys) ↔ Contig head xs ∧ Contig (reach head xs) ys := by
  induction xs generalizing head with
  | nil => simp [Contig,reach]
  | cons x xs ih =>
    rw [List.cons_append,Contig,Contig,ih,and_assoc]
    rfl

theorem reach_append (head : ℕ) (xs ys : List OutputChunk) :
    reach head (xs ++ ys) = reach (reach head xs) ys :=
  List.foldl_append

/-- Every byte from the head up to the end of one of the chunks lies in one of them. -/
theorem Contig.covers {head p : ℕ} {chunks : List OutputChunk} (h : Contig head chunks)
    (hp : head ≤ p) (hc : chunk ∈ chunks) (hpc : p < chunk.endByte) :
    ∃ x ∈ chunks, x.startByte ≤ p ∧ p < x.endByte := by
  induction chunks generalizing head with
  | nil => cases hc
  | cons x chunks ih =>
    obtain ⟨hstart,hrest⟩ := h
    by_cases hx : p < x.endByte
    · exact ⟨x,by simp,hstart.trans hp,hx⟩
    · have hmem : chunk ∈ chunks := by
        rcases List.mem_cons.mp hc with rfl | hc
        · exact absurd hpc hx
        · exact hc
      obtain ⟨y,hy,hyp⟩ := ih hrest (by omega) hmem
      exact ⟨y,by simp [hy],hyp⟩

theorem applyAligned_start (hfirst : replay.firstAvailableByte = 0)
    (hok : applyAligned id replay chunk c = .ok c') :
    chunk.startByte ≤ c.durableHead := by
  obtain ⟨_,hcheck,hrest⟩ := bind_eq_ok.mp hok
  obtain ⟨hrange,_,_⟩ := checkChunkRange_eq_ok hcheck
  split at hrest
  · omega
  · obtain ⟨c₁,hjump,_⟩ := bind_eq_ok.mp hrest
    unfold jumpGap at hjump
    split_ifs at hjump with hat hgap
    · exact hat.le
    · omega

/-- A replay whose first available byte is zero is never allowed a gap. -/
theorem applyReplayChunk_start (hfirst : replay.firstAvailableByte = 0)
    (hok : applyReplayChunk id replay c chunk = .ok c') :
    chunk.startByte ≤ c.durableHead := by
  obtain ⟨_,_,hrest⟩ := bind_eq_ok.mp hok
  split at hrest
  · rename_i hstraddle
    exact hstraddle.1.le
  · exact applyAligned_start hfirst hrest

theorem Packed.contig_fold {w : String} {s₀ : Store} {chunks : List OutputChunk}
    (hp : Packed id w s₀ c) (hfirst : replay.firstAvailableByte = 0)
    (hok : chunks.foldlM (applyReplayChunk id replay) c = .ok c') :
    Contig c.durableHead chunks ∧ c'.durableHead = reach c.durableHead chunks := by
  induction chunks generalizing c with
  | nil =>
    obtain rfl := Except.ok.inj hok
    exact ⟨trivial,rfl⟩
  | cons chunk chunks ih =>
    rw [List.foldlM_cons] at hok
    obtain ⟨c₁,happly,hrest⟩ := bind_eq_ok.mp hok
    obtain ⟨hp₁,hhead₁,_⟩ := hp.apply happly
    obtain ⟨hcontig,hreach⟩ := ih hp₁ hrest
    rw [hhead₁] at hcontig hreach
    exact ⟨⟨applyReplayChunk_start hfirst happly,hcontig⟩,hreach⟩

/-- What a committed transaction of one Run found and left. -/
structure Committed (id : RunId) (s s' : Store) (chunks : List OutputChunk) (row row' : RunRow) :
    Prop where
  sound : Sound s'.db s'.files
  windows : ∀ r ∈ s'.db.runs, Window s'.db r
  replayFile : s'.db.replayFile = s.db.replayFile
  found : s'.db.run? id = some row'
  contig : Contig row.durableOutputBytes chunks
  head : row'.durableOutputBytes = reach row.durableOutputBytes chunks

theorem committed_appendTransaction {row : RunRow} (hs : Sound s.db s.files)
    (hw : ∀ r ∈ s.db.runs, Window s.db r) (hname : validReplayFileName s.db.replayFile = true)
    (hrow : s.db.run? id = some row) (hfirst : replay.firstAvailableByte = 0)
    (hok : appendTransaction codec limits s [(id,replay)] terminal = .ok (true,s'))
    (hid : ∀ t, terminal = some t → t.id = id) :
    ∃ row', Committed id s s' replay.chunks row row' := by
  obtain ⟨s₁,evicted,db,db',happend,hprune,hsettle,rfl,_⟩ := appendTransaction_eq_ok hok
  obtain ⟨hsound,hwindows,hfile,_⟩ := append_sound hs hw hname happend
  obtain ⟨row₀,c₁,c₂,pruned,oldest,bytes,hrow₀,hfold,hflush,hcut,hs₁⟩ :=
    appendReplayWithStorage_eq_ok happend
  obtain rfl := Option.some.inj (hrow.symm.trans hrow₀)
  have hpacked := packed_start hs hw hname hrow
  obtain ⟨hcontig,hreach⟩ := hpacked.contig_fold hfirst hfold
  obtain ⟨hp₁,_,_⟩ := hpacked.fold hfold
  obtain ⟨hp₂,hpending,_,hhead⟩ := hp₁.flush hflush
  have hruns := hp₂.pruned_runs hpending hcut
  have hpruned : pruned.run? id = some row := by
    unfold Database.run?
    rw [hruns]
    exact hrow
  have hfound : ∃ row₁, s₁.db.run? id = some row₁ ∧ row₁.durableOutputBytes = c₂.durableHead := by
    rw [hs₁,Database.run?_updateRun_self (by simp),hpruned]
    exact ⟨_,rfl,rfl⟩
  obtain ⟨row₁,hrow₁,hhead₁⟩ := hfound
  obtain ⟨⟨hsound',hwindows',hfile'⟩,_,row',hrow',hhead',_⟩ :=
    afterAppends_spec hsound hwindows hprune hsettle hrow₁ hid
  exact ⟨row',hsound',hwindows',hfile'.trans hfile,hrow',hcontig,
    hhead'.trans (hhead₁.trans (hhead.trans hreach))⟩

end Durable
end Ctxmux
