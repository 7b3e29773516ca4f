import Ctxmux.OutputTransaction
import Ctxmux.ReplayContent

/-!
# The payload of an output transaction

The payload file grows in an append exactly when a chunk ends above the durable head
of its Run, and the row changes of a whole transaction keep the tables sound over the
grown file.
-/

namespace Ctxmux
namespace Durable

open Tiling

/-- The payload file followed by what the loop still buffers. -/
def loopTail (c : ReplayCursors) : List Byte := (c.files c.writer).getD [] ++ c.pending

/-- The head stayed and nothing was added, or the head moved and something was. -/
structure Extends (c c' : ReplayCursors) : Prop where
  writer : c'.writer = c.writer
  head : c.durableHead ≤ c'.durableHead
  kept : c'.durableHead = c.durableHead → loopTail c' = loopTail c
  added : c.durableHead < c'.durableHead → (loopTail c).length < (loopTail c').length

variable {id : RunId} {w : String} {s₀ s s' : Store} {replay : OutputReplay} {chunk : OutputChunk}
  {c c' c'' : ReplayCursors} {payload : List Byte} {limits : OutputLimits}

theorem Extends.refl (c : ReplayCursors) : Extends c c :=
  ⟨rfl,le_rfl,fun _ => rfl,fun hlt => absurd hlt (lt_irrefl _)⟩

theorem Extends.trans (h : Extends c c') (h' : Extends c' c'') : Extends c c'' where
  writer := h'.writer.trans h.writer
  head := h.head.trans h'.head
  kept heq := by
    have := h.head
    have := h'.head
    rw [h'.kept (by omega),h.kept (by omega)]
  added hlt := by
    have hle := h.head
    have hle' := h'.head
    by_cases hfirst : c.durableHead < c'.durableHead
    · have := h.added hfirst
      by_cases hsecond : c'.durableHead < c''.durableHead
      · exact this.trans (h'.added hsecond)
      · rw [h'.kept (by omega)]
        exact this
    · rw [← h.kept (by omega)]
      exact h'.added (by omega)

theorem loopTail_flush (hok : flushPendingRow id c = .ok c') :
    c'.writer = c.writer ∧ loopTail c' = loopTail c := by
  obtain ⟨db,files,rfl,hnil,hcons⟩ := flushPendingRow_eq_ok hok
  refine ⟨rfl,?_⟩
  by_cases hpending : c.pending = []
  · obtain ⟨_,rfl⟩ := hnil hpending
    simp [loopTail,hpending]
  · obtain ⟨rfl,_⟩ := hcons hpending
    simp [loopTail]

theorem loopTail_verify (hok : verifyChunk id chunk c = .ok c') :
    c'.writer = c.writer ∧ loopTail c' = loopTail c := by
  unfold verifyChunk at hok
  split at hok
  · cases hok
  · obtain ⟨c₁,hflush,hrest⟩ := bind_eq_ok.mp hok
    obtain ⟨same,_,hrest⟩ := bind_eq_ok.mp hrest
    split at hrest
    · obtain rfl := Except.ok.inj hrest
      exact loopTail_flush hflush
    · cases hrest

theorem loopTail_jump (hok : jumpGap id replay chunk c = .ok c') :
    c'.writer = c.writer ∧ loopTail c' = loopTail c := by
  unfold jumpGap at hok
  split_ifs at hok
  · obtain rfl := Except.ok.inj hok
    exact ⟨rfl,rfl⟩
  · obtain ⟨c₁,hflush,hrest⟩ := bind_eq_ok.mp hok
    have hflushed := loopTail_flush hflush
    obtain rfl := Except.ok.inj hrest
    exact hflushed

theorem loopTail_buffer (hok : bufferChunk id chunk c = .ok c') :
    c'.writer = c.writer ∧ loopTail c' = loopTail c ++ chunk.data := by
  obtain ⟨c₁,hflush,hrest⟩ := bind_eq_ok.mp hok
  have hextended : loopTail (extendPending chunk (beginStream chunk c)) =
      loopTail c ++ chunk.data := by
    unfold beginStream
    split <;> simp [loopTail,extendPending]
  have hwriter : (extendPending chunk (beginStream chunk c)).writer = c.writer := by
    unfold beginStream
    split <;> rfl
  have hfull : c₁.writer = c.writer ∧ loopTail c₁ = loopTail c ++ chunk.data := by
    unfold flushFullRow at hflush
    split at hflush
    · obtain ⟨hw,ht⟩ := loopTail_flush hflush
      exact ⟨hw.trans hwriter,ht.trans hextended⟩
    · obtain rfl := Except.ok.inj hflush
      exact ⟨hwriter,hextended⟩
  obtain rfl := Except.ok.inj hrest
  exact hfull

theorem Packed.extends_aligned (hp : Packed id w s₀ c)
    (hok : applyAligned id replay chunk c = .ok c')
    (hside : chunk.endByte ≤ c.durableHead ∨ c.durableHead ≤ chunk.startByte) : Extends c c' := by
  obtain ⟨_,hhead,_⟩ := hp.aligned hok hside
  obtain ⟨_,hcheck,hrest⟩ := bind_eq_ok.mp hok
  obtain ⟨_,hne,_⟩ := checkChunkRange_eq_ok hcheck
  have hpos := List.length_pos_iff.mpr hne
  split at hrest
  · obtain ⟨hwriter,htail⟩ := loopTail_verify hrest
    exact ⟨hwriter,by omega,fun _ => htail,fun hlt => by omega⟩
  · obtain ⟨c₁,hjump,hbuffer⟩ := bind_eq_ok.mp hrest
    obtain ⟨hwriter₁,htail₁⟩ := loopTail_jump hjump
    obtain ⟨hwriter,htail⟩ := loopTail_buffer hbuffer
    refine ⟨hwriter.trans hwriter₁,by omega,fun heq => by omega,fun _ => ?_⟩
    rw [htail,htail₁,List.length_append]
    omega

theorem Packed.extends_apply (hp : Packed id w s₀ c)
    (hok : applyReplayChunk id replay c chunk = .ok c') : Extends c c' := by
  obtain ⟨_,_,hrest⟩ := bind_eq_ok.mp hok
  split at hrest
  · obtain ⟨c₁,hfront,hback⟩ := bind_eq_ok.mp hrest
    obtain ⟨hp₁,hhead₁,_⟩ := hp.aligned hfront (.inl le_rfl)
    rw [max_self] at hhead₁
    have hstart : c₁.durableHead ≤ chunk.startByte+(c.durableHead-chunk.startByte) := by omega
    exact (hp.extends_aligned hfront (.inl le_rfl)).trans
      (hp₁.extends_aligned hback (.inr hstart))
  · exact hp.extends_aligned hrest (by omega)

/-- The loop moves the head exactly when a chunk ends above it. -/
theorem Packed.extends_fold {chunks : List OutputChunk} (hp : Packed id w s₀ c)
    (hok : chunks.foldlM (applyReplayChunk id replay) c = .ok c') :
    Extends c c' ∧ (c.durableHead < c'.durableHead ↔
      ∃ chunk ∈ chunks, c.durableHead < chunk.endByte) := by
  induction chunks generalizing c with
  | nil =>
    obtain rfl := Except.ok.inj hok
    exact ⟨.refl c,by simp⟩
  | cons chunk chunks ih =>
    rw [List.foldlM_cons] at hok
    obtain ⟨c₁,happly,hrest⟩ := bind_eq_ok.mp hok
    obtain ⟨hp₁,hhead₁,_⟩ := hp.apply happly
    obtain ⟨hext,hiff⟩ := ih hp₁ hrest
    refine ⟨(hp.extends_apply happly).trans hext,?_⟩
    have hle := hext.head
    rw [List.exists_mem_cons_iff]
    by_cases hnew : c.durableHead < chunk.endByte
    · exact iff_of_true (by clear hiff; omega) (.inl hnew)
    · have hsame : c₁.durableHead = c.durableHead := by clear hiff; omega
      rw [hsame] at hiff
      rw [hiff]
      exact ⟨.inr,fun h => h.resolve_left hnew⟩

theorem Database.run?_updateRun_of_ne {db : Database} {other : RunId} {f : RunRow → RunRow}
    (hid : ∀ row, (f row).id = row.id) (hne : other ≠ id) :
    (db.updateRun id f).run? other = db.run? other := by
  rw [run?_updateRun hid]
  exact (Option.map_congr fun row hrow => if_neg ((run?_mem hrow).2.symm ▸ hne)).trans Option.map_id'

theorem Grown.trans {files files' files'' : Files} {more : List Byte}
    (h : Grown w files files' payload) (h' : Grown w files' files'' more) :
    Grown w files files'' (payload ++ more) where
  others other hne := (h'.others other hne).trans (h.others other hne)
  tail := by rw [h'.tail,h.tail,List.append_assoc]
  kept hsome := h'.kept (h.kept hsome)

theorem Grown.len {files files' : Files} (h : Grown w files files' payload) :
    files'.len w = files.len w+payload.length := by
  simp [Files.len,h.tail]

/-- Cutting the file back to its old length restores it. -/
theorem Grown.cut {files files' : Files} (h : Grown w files files' payload)
    (hsome : (files w).isSome) :
    files'.write w (((files' w).getD []).take (files.len w)) = files := by
  obtain ⟨content,hcontent⟩ := Option.isSome_iff_exists.mp hsome
  funext other
  by_cases heq : other = w
  · subst heq
    rw [Files.write_self,h.tail]
    simp [Files.len,hcontent]
  · rw [Files.write_of_ne _ _ heq,h.others other heq]

/-- A chunk of the Run in the batch. -/
def Offers (batch : List (RunId × OutputReplay)) (id : RunId) (chunk : OutputChunk) : Prop :=
  ∃ item ∈ batch, item.1 = id ∧ chunk ∈ item.2.chunks

/-- The batch offers bytes above the durable head of one of its Runs. -/
def Fresh (db : Database) (batch : List (RunId × OutputReplay)) : Prop :=
  ∃ id chunk row, Offers batch id chunk ∧ db.run? id = some row ∧
    row.durableOutputBytes < chunk.endByte

/-- What the appends of a transaction leave: sound tables over a payload file that grew. -/
structure Staged (s s' : Store) (payload : List Byte) : Prop where
  sound : Sound s'.db s'.files
  windows : ∀ r ∈ s'.db.runs, Window s'.db r
  replayFile : s'.db.replayFile = s.db.replayFile
  grown : Grown s.db.replayFile s.files s'.files payload

theorem stageAppend_spec {item : RunId × OutputReplay} (hs : Sound s.db s.files)
    (hw : ∀ r ∈ s.db.runs, Window s.db r) (hname : validReplayFileName s.db.replayFile = true)
    (hok : stageAppend limits s item = .ok s') :
    ∃ payload, Staged s s' payload ∧
      (∀ other, other ≠ item.1 → s'.db.run? other = s.db.run? other) ∧
      ∃ row, s.db.run? item.1 = some row ∧
        (payload ≠ [] ↔ ∃ chunk ∈ item.2.chunks, row.durableOutputBytes < chunk.endByte) := by
  obtain ⟨⟨next,evicted⟩,happend,hrest⟩ := bind_eq_ok.mp hok
  obtain ⟨_,_,hrest⟩ := bind_eq_ok.mp hrest
  obtain rfl := Except.ok.inj hrest
  obtain ⟨hsound,hwindows,hfile,⟨payload,hgrown⟩,_⟩ := append_sound hs hw hname happend
  obtain ⟨row,c₁,c₂,db,oldest,bytes,hrow,hfold,hflush,hprune,hnext⟩ :=
    appendReplayWithStorage_eq_ok happend
  have hpacked := packed_start hs hw hname hrow
  obtain ⟨hext,hmoves⟩ := hpacked.extends_fold hfold
  obtain ⟨hp₁,_,_⟩ := hpacked.fold hfold
  obtain ⟨hp₂,hpending,_,hhead⟩ := hp₁.flush hflush
  obtain ⟨_,htail⟩ := loopTail_flush hflush
  have hruns := hp₂.pruned_runs hpending hprune
  refine ⟨payload,⟨hsound,hwindows,hfile,hgrown⟩,fun other hne => ?_,row,hrow,?_⟩
  · rw [hnext]
    simp only
    rw [Database.run?_updateRun_of_ne _ hne]
    · unfold Database.run?
      rw [hruns]
    · exact fun _ => rfl
  · have hlength : (loopTail c₁).length = s.files.len s.db.replayFile+payload.length := by
      have hfiles : next.files = c₂.files := by rw [hnext]
      rw [← htail,← hgrown.len,hfiles]
      simp [loopTail,hpending,hp₂.packing.writer,Files.len]
    rw [← hmoves]
    constructor
    · intro hne
      by_contra hstay
      have hkept := congrArg List.length (hext.kept (le_antisymm (not_lt.mp hstay) hext.head))
      rw [hlength] at hkept
      exact hne (List.length_eq_zero_iff.mp (by simpa [loopTail,Files.len] using hkept))
    · rintro hlt rfl
      have hadded := hext.added hlt
      rw [hlength] at hadded
      simp [loopTail,Files.len] at hadded

theorem Staged.trans {s'' : Store} {more : List Byte} (h : Staged s s' payload)
    (h' : Staged s' s'' more) : Staged s s'' (payload ++ more) :=
  ⟨h'.sound,h'.windows,h'.replayFile.trans h.replayFile,h.grown.trans (h.replayFile ▸ h'.grown)⟩

/-- The appends of all Runs: the payload is empty exactly when no Run is offered a byte
above its head. -/
theorem foldlM_stageAppend {items : List (RunId × OutputReplay)} (hs : Sound s.db s.files)
    (hw : ∀ r ∈ s.db.runs, Window s.db r) (hname : validReplayFileName s.db.replayFile = true)
    (hids : (items.map (·.1)).Nodup) (hok : items.foldlM (stageAppend limits) s = .ok s') :
    ∃ payload, Staged s s' payload ∧ (payload ≠ [] ↔ Fresh s.db items) := by
  induction items generalizing s with
  | nil =>
    obtain rfl := Except.ok.inj hok
    exact ⟨[],⟨hs,hw,rfl,Grown.refl _ _⟩,by simp [Fresh,Offers]⟩
  | cons item items ih =>
    rw [List.foldlM_cons] at hok
    obtain ⟨s₁,hstage,hrest⟩ := bind_eq_ok.mp hok
    obtain ⟨payload,hstaged,hothers,row,hrow,hfresh⟩ := stageAppend_spec hs hw hname hstage
    obtain ⟨hnot,hids⟩ := List.nodup_cons.mp hids
    obtain ⟨more,hmore,hiff⟩ := ih hstaged.sound hstaged.windows
      (hstaged.replayFile ▸ hname) hids hrest
    refine ⟨payload ++ more,hstaged.trans hmore,?_⟩
    have hsame : Fresh s₁.db items ↔ Fresh s.db items := by
      refine exists_congr fun id => exists_congr fun chunk => exists_congr fun r =>
        and_congr_right fun hoffers => ?_
      obtain ⟨other,hmem,rfl,_⟩ := hoffers
      rw [hothers other.1 fun heq => hnot (List.mem_map.mpr ⟨other,hmem,heq⟩)]
    rw [ne_eq,List.append_eq_nil_iff,not_and_or,← ne_eq,← ne_eq,hiff,hsame,hfresh]
    constructor
    · rintro (⟨chunk,hchunk,hlt⟩ | ⟨id,chunk,r,⟨other,hmem,hid,hchunk⟩,hr⟩)
      · exact ⟨item.1,chunk,row,⟨item,by simp,rfl,hchunk⟩,hrow,hlt⟩
      · exact ⟨id,chunk,r,⟨other,by simp [hmem],hid,hchunk⟩,hr⟩
    · rintro ⟨id,chunk,r,⟨other,hmem,rfl,hchunk⟩,hr,hlt⟩
      rcases List.mem_cons.mp hmem with rfl | hmem
      · obtain rfl := Option.some.inj (hrow.symm.trans hr)
        exact .inl ⟨chunk,hchunk,hlt⟩
      · exact .inr ⟨other.1,chunk,r,⟨other,hmem,rfl,hchunk⟩,hr,hlt⟩

theorem mergeReplay_ids (merged : List (RunId × OutputReplay)) :
    (mergeReplay id replay merged).map (·.1) =
      if id ∈ merged.map (·.1) then merged.map (·.1) else merged.map (·.1) ++ [id] := by
  induction merged with
  | nil => simp [mergeReplay]
  | cons item merged ih =>
    unfold mergeReplay
    by_cases heq : item.1 = id
    · simp [heq]
    · have hne : id ≠ item.1 := fun h => heq h.symm
      rw [if_neg heq,List.map_cons,ih]
      by_cases hin : id ∈ merged.map (·.1)
      · rw [if_pos hin,if_pos (by simp only [List.map_cons,List.mem_cons]; exact .inr hin)]
        rfl
      · rw [if_neg hin,if_neg (by simp only [List.map_cons,List.mem_cons]; tauto)]
        rfl

theorem offers_mergeReplay (merged : List (RunId × OutputReplay)) (k : RunId) :
    Offers (mergeReplay id replay merged) k chunk ↔
      Offers merged k chunk ∨ (id = k ∧ chunk ∈ replay.chunks) := by
  induction merged with
  | nil => simp [Offers,mergeReplay]
  | cons item merged ih =>
    unfold mergeReplay
    by_cases heq : item.1 = id
    · rw [if_pos heq]
      simp only [Offers,List.exists_mem_cons_iff,List.mem_append,heq,and_or_left]
      rw [or_right_comm]
    · rw [if_neg heq]
      simp only [Offers,List.exists_mem_cons_iff] at ih ⊢
      rw [ih,or_assoc]

/-- Coalescing keeps the chunks of every Run and names it once. -/
theorem coalesceBatch_spec (batch : List (RunId × OutputReplay)) :
    ((coalesceBatch batch).map (·.1)).Nodup ∧
      ∀ id chunk, Offers (coalesceBatch batch) id chunk ↔ Offers batch id chunk := by
  have hfold : ∀ merged : List (RunId × OutputReplay), (merged.map (·.1)).Nodup →
      ((batch.foldl (fun m item => mergeReplay item.1 item.2 m) merged).map (·.1)).Nodup ∧
      ∀ id chunk, Offers (batch.foldl (fun m item => mergeReplay item.1 item.2 m) merged) id chunk ↔
        Offers merged id chunk ∨ Offers batch id chunk := by
    induction batch with
    | nil => exact fun merged hnodup => ⟨hnodup,by simp [Offers]⟩
    | cons item batch ih =>
      intro merged hnodup
      have hmerged : ((mergeReplay item.1 item.2 merged).map (·.1)).Nodup := by
        rw [mergeReplay_ids]
        split
        · exact hnodup
        · rename_i hnot
          exact List.nodup_append.mpr ⟨hnodup,List.nodup_singleton _,by
            intro a ha b hb heq
            rw [List.mem_singleton.mp hb] at heq
            exact hnot (heq ▸ ha)⟩
      obtain ⟨hids,hoffers⟩ := ih _ hmerged
      refine ⟨hids,fun id chunk => ?_⟩
      rw [List.foldl_cons,hoffers,offers_mergeReplay,or_assoc]
      simp only [Offers,List.exists_mem_cons_iff]
  obtain ⟨hids,hoffers⟩ := hfold [] List.nodup_nil
  exact ⟨hids,fun id chunk => (hoffers id chunk).trans (by simp [Offers])⟩

/-- The row changes of a transaction keep the tables sound over the grown file, and the
payload is empty exactly when the batch offers nothing above the heads. -/
theorem stageOutput_spec {codec : Codec} {fits : Bool} {batch : List (RunId × OutputReplay)}
    {terminal : Option TerminalSettlement} (hs : Sound s.db s.files)
    (hw : ∀ r ∈ s.db.runs, Window s.db r) (hname : validReplayFileName s.db.replayFile = true)
    (hok : stageOutput codec limits s batch terminal = .ok (fits,s')) :
    ∃ payload, Sound s'.db s'.files ∧ s'.db.replayFile = s.db.replayFile ∧
      Grown s.db.replayFile s.files s'.files payload ∧ (payload ≠ [] ↔ Fresh s.db batch) := by
  obtain ⟨s₁,happends,hrest⟩ := bind_eq_ok.mp hok
  obtain ⟨⟨flag,db⟩,hprune,hrest⟩ := bind_eq_ok.mp hrest
  obtain ⟨hids,hoffers⟩ := coalesceBatch_spec batch
  obtain ⟨payload,hstaged,hfresh⟩ := foldlM_stageAppend hs hw hname hids happends
  have hevicts := evicts_pruneGlobal hstaged.sound hstaged.windows hprune
  have hbatch : Fresh s.db (coalesceBatch batch) ↔ Fresh s.db batch :=
    exists_congr fun id => exists_congr fun chunk => exists_congr fun r =>
      and_congr_left fun _ => hoffers id chunk
  have hfile := hevicts.retired.replayFile.trans hstaged.replayFile
  refine ⟨payload,?_⟩
  rw [← hbatch,← hfresh]
  simp only at hrest
  split at hrest
  · obtain ⟨db',hterminal,hrest⟩ := bind_eq_ok.mp hrest
    obtain ⟨_,rfl⟩ := Prod.mk.inj (Except.ok.inj hrest)
    cases terminal with
    | none =>
      obtain rfl := Except.ok.inj hterminal
      exact ⟨hevicts.sound,hfile,hstaged.grown,Iff.rfl⟩
    | some terminal =>
      obtain ⟨row,_,hupdate⟩ := bind_eq_ok.mp hterminal
      simp only at hupdate
      split at hupdate
      · cases hupdate
      · obtain rfl := Except.ok.inj hupdate
        exact ⟨hevicts.sound.updateRun terminal.id (fun _ => rfl) (fun _ => rfl),by simpa using hfile,
          hstaged.grown,Iff.rfl⟩
  · obtain ⟨_,rfl⟩ := Prod.mk.inj (Except.ok.inj hrest)
    exact ⟨hevicts.sound,hfile,hstaged.grown,Iff.rfl⟩

end Durable
end Ctxmux
