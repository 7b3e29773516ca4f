import Ctxmux.BatchAdmitted

/-!
# One rule for the gathering loop

The loop of `append_batch_with_shutdown` runs what it has gathered and goes on with the rest.
At every point the pieces that were run and those that are gathered are, in this order, the
pieces of the entries passed so far. What holds of a transaction and passes from a step to the
next holds of the whole call.
-/

namespace Ctxmux
namespace Durable

open Tiling

variable {f : Funding} {a : Appender} {g : Gathering} {batch : Entries}

/-- The pieces of an entry: its groups, or the entry itself. -/
def partials (replay : OutputReplay) : List (List OutputChunk) → List OutputReplay
  | [] => []
  | chunks::groups => partialReplay replay groups.isEmpty chunks::partials replay groups

def piecesOf (replay : OutputReplay) : List OutputReplay :=
  match splitChunks replay.chunks with
  | .ok (group::groups) => partials replay (group::groups)
  | _ => [replay]

/-- The entries of the batch whose Runs the store still has. -/
def Entries.live (db : Database) (batch : Entries) : Entries :=
  batch.filter fun item => (db.run? item.1).isSome

def Entries.pieces (batch : Entries) : Entries :=
  batch.flatMap fun item => (piecesOf item.2).map (item.1,·)

theorem partials_last (replay : OutputReplay) {groups : List (List OutputChunk)} (hne : groups ≠ []) :
    ((partials replay groups).getLast?).map (·.truncated) = some replay.truncated := by
  induction groups with
  | nil => exact absurd rfl hne
  | cons chunks groups ih =>
    cases groups with
    | nil => rfl
    | cons next groups =>
      have hlast := ih (by simp)
      unfold partials
      rw [List.getLast?_cons]
      cases h : (partials replay (next::groups)).getLast? with
      | none => simp [partials] at h
      | some last => simpa [h] using hlast

theorem partials_spec (replay : OutputReplay) (groups : List (List OutputChunk)) :
    (partials replay groups).flatMap (·.chunks) = groups.flatten ∧
      ∀ piece ∈ partials replay groups, piece.firstAvailableByte = replay.firstAvailableByte ∧
        piece.chunks ∈ groups := by
  induction groups with
  | nil => exact ⟨rfl,by simp [partials]⟩
  | cons chunks groups ih =>
    obtain ⟨hflat,hpieces⟩ := ih
    unfold partials
    refine ⟨by rw [List.flatMap_cons,hflat]; rfl,fun piece hpiece => ?_⟩
    rcases List.mem_cons.mp hpiece with rfl | hpiece
    · exact ⟨rfl,by simp [partialReplay,groupReplay]⟩
    · obtain ⟨hfirst,hmem⟩ := hpieces piece hpiece
      exact ⟨hfirst,List.mem_cons_of_mem _ hmem⟩

theorem pieces_self (replay : OutputReplay) : Pieces [replay] replay where
  rendered piece hpiece := by rw [List.mem_singleton.mp hpiece]
  tiles first last ht _ := by simpa using ht
  data stream hall chunk hc := (hall chunk (by simpa using hc)).2
  truncated := rfl

theorem piecesOf_pieces (replay : OutputReplay) : Pieces (piecesOf replay) replay := by
  unfold piecesOf
  split
  · rename_i group groups hsplit
    obtain ⟨hflatten,_⟩ := splitChunks_spec hsplit
    obtain ⟨hflat,hpieces⟩ := partials_spec replay (group::groups)
    rw [hflatten] at hflat
    exact ⟨fun piece hpiece => (hpieces piece hpiece).1,fun first last ht _ => hflat ▸ ht,
      fun stream hall chunk hc => (hall chunk (hflat ▸ hc)).2,partials_last replay (by simp)⟩
  · exact pieces_self replay

theorem Entries.pieces_recut (batch : Entries) : Recut batch.pieces batch := by
  induction batch with
  | nil => exact Recut.refl []
  | cons item batch ih => exact Recut.append ((piecesOf_pieces item.2).recut item.1) ih

/-- Every chunk fits into a transaction, as the blocks of the cache do. -/
def Blocks (batch : Entries) : Prop :=
  ∀ item ∈ batch, ∀ chunk ∈ item.2.chunks, chunk.data.length ≤ maxTransactionPayloadBytes

/-- What is gathered is counted, and fits into one transaction. -/
structure Gathering.Holds (g : Gathering) : Prop where
  counted : g.payload = g.batch.payload
  small : g.batch.payload ≤ maxTransactionPayloadBytes

namespace Gathering

theorem holds_start : Gathering.start.Holds := ⟨rfl,Nat.zero_le _⟩

theorem Holds.join {g : Gathering} (h : g.Holds) {id : RunId} {piece : OutputReplay}
    {heads : RunId → Option ℕ} (hpiece : replayPayload piece ≤ maxTransactionPayloadBytes)
    (hfits : g.batch = [] ∨ g.payload+replayPayload piece ≤ maxTransactionPayloadBytes) :
    Holds ⟨g.batch ++ [(id,piece)],g.payload+replayPayload piece,heads⟩ := by
  have hsum : g.payload+replayPayload piece ≤ maxTransactionPayloadBytes := by
    rcases hfits with hnil | hle
    · rw [h.counted,hnil]
      simpa [Entries.payload] using hpiece
    · exact hle
  refine ⟨?_,?_⟩
  · simp only [Entries.payload_append,Entries.payload_single,h.counted]
  · simp only [Entries.payload_append,Entries.payload_single,← h.counted]
    exact hsum

/-- So does an entry without chunks, which weighs nothing. -/
theorem Holds.join_empty {g : Gathering} (h : g.Holds) {id : RunId} {replay : OutputReplay}
    (hnil : replay.chunks = []) : Holds ⟨g.batch ++ [(id,replay)],g.payload,g.expectedHeads⟩ := by
  refine ⟨?_,?_⟩
  · simp only [Entries.payload_append,Entries.payload_single,replayPayload,hnil,h.counted]
    rfl
  · simp only [Entries.payload_append,Entries.payload_single,replayPayload,hnil]
    exact h.small

end Gathering

theorem gather_goes {batch : Entries} {b : Appender} {g' : Gathering}
    (h : (appendTransactionWithShutdown f a batch none).gather g = (b,.ok (some g'))) : g' = g := by
  have houtcome := congrArg Prod.snd h
  unfold AppendStep.gather at houtcome
  cases hran : (appendTransactionWithShutdown f a batch none).2 with
  | error error => simp [hran,Except.map] at houtcome
  | ok flag =>
    rw [hran] at houtcome
    cases flag with
    | true => exact (Option.some.inj (Except.ok.inj houtcome)).symm
    | false => cases Except.ok.inj houtcome

section

variable {id : RunId} {piece : OutputReplay} {b : Appender} {g' : Gathering}
  (h : (if g.batch ≠ [] ∧ (maxTransactionPayloadBytes < g.payload+replayPayload piece ∨
      decide ((piece.chunks.head?).elim 0 (·.startByte) =
        (g.expectedHeads id).getD (a.durableHead id)) = false) then
      (appendTransactionWithShutdown f a g.batch none).gather Gathering.start
    else (a,.ok (some g))) = (b,.ok (some g')))
include h

/-- A piece that does not continue its Run finds nothing gathered after the flush. -/
theorem flushed_stale
    (hstale : decide ((piece.chunks.head?).elim 0 (·.startByte) =
      (g.expectedHeads id).getD (a.durableHead id)) = false) : g'.batch = [] := by
  split at h
  · rw [gather_goes h]
    rfl
  · rename_i hdue
    have hsame : g = g' := Option.some.inj (Except.ok.inj (Prod.mk.inj h).2)
    by_contra hne
    exact hdue ⟨hsame ▸ hne,.inr hstale⟩

theorem flushed_small :
    g'.batch = [] ∨ g'.payload+replayPayload piece ≤ maxTransactionPayloadBytes := by
  split at h
  · rw [gather_goes h]
    exact .inl rfl
  · rename_i hdue
    have hsame : g = g' := Option.some.inj (Except.ok.inj (Prod.mk.inj h).2)
    by_cases hne : g.batch = []
    · exact .inl (hsame ▸ hne)
    · exact .inr (hsame ▸ not_lt.mp (not_or.mp (not_and.mp hdue hne)).1)

end

/-- What carries a fact `T` about single transactions over to a call. `I` is what is known of
an actor and the entries that it has still to present, and `Fine` of their replays. -/
structure BatchRule (f : Funding) (Fine : OutputReplay → Prop) (I : Appender → Entries → Prop)
    (T : Appender → Entries → AppendStep → Prop) : Prop where
  left : ∀ {a xs ys}, I a (xs ++ ys) → I a xs
  after : ∀ {a b xs ys}, I a (xs ++ ys) → T a xs (b,.ok true) → I b ys
  live : ∀ {a b xs}, I a xs → T a xs (b,.ok true) → ∀ batch : Entries,
    batch.live b.store.db = batch.live a.store.db
  empty : ∀ {a}, I a [] → T a [] (a,.ok true)
  seq : ∀ {a b xs ys result}, I a (xs ++ ys) → T a xs (b,.ok true) → T b ys result →
    T a (xs ++ ys) result
  ends : ∀ {a xs ys result}, I a (xs ++ ys) → T a xs result → result.2 ≠ .ok true →
    T a (xs ++ ys) result
  run : ∀ {a batch}, I a batch → batch ≠ [] → batch.payload ≤ maxTransactionPayloadBytes →
    T a batch (appendTransactionWithShutdown f a batch none)
  fails : ∀ {a total replay error}, I a total → Fine replay →
    splitChunks replay.chunks = .error error → T a total (a,.error error)
  forget : ∀ {a total} (id : RunId), I a total →
    I { a with reclaimingOutput := a.reclaimingOutput.erase id } total ∧
      ∀ result, T { a with reclaimingOutput := a.reclaimingOutput.erase id } total result →
        T a total result

/-- Where a step of the loop leaves the pieces that it was to pass on. -/
inductive Looped (T : Appender → Entries → AppendStep → Prop) (a : Appender) (total : Entries) :
    GatherStep → Prop
  | goes {b : Appender} {g : Gathering} {done : Entries} (whole : done ++ g.batch = total)
      (holds : g.Holds) (taken : T a done (b,.ok true)) : Looped T a total (b,.ok (some g))
  | stops {b : Appender} (stopped : T a total (b,.ok false)) : Looped T a total (b,.ok none)
  | fails {b : Appender} {error : PersistenceError} (failed : T a total (b,.error error)) :
      Looped T a total (b,.error error)

namespace BatchRule

variable {Fine : OutputReplay → Prop} {I : Appender → Entries → Prop}
  {T : Appender → Entries → AppendStep → Prop}

section

variable (rule : BatchRule f Fine I T)
include rule

theorem here (hI : I a g.batch) (hg : g.Holds) :
    Looped T a g.batch (a,.ok (some g)) :=
  .goes (List.nil_append _) hg (rule.empty (rule.left (show I a ([] ++ g.batch) from hI)))

/-- One step after another: the second starts with what the first has gathered. -/
theorem andThen {xs ys : Entries} {result : GatherStep} {next : Appender → Gathering → GatherStep}
    (h : Looped T a xs result) (hI : I a (xs ++ ys))
    (hnext : ∀ b g, result = (b,.ok (some g)) → g.Holds → I b (g.batch ++ ys) →
      Looped T b (g.batch ++ ys) (next b g)) : Looped T a (xs ++ ys) (result.andThen next) := by
  cases h with
  | @goes b g done whole holds taken =>
    have hsplit : xs ++ ys = done ++ (g.batch ++ ys) := by rw [← whole,List.append_assoc]
    rw [hsplit] at hI ⊢
    have hrest := hnext b g rfl holds (rule.after hI taken)
    show Looped T a _ (next b g)
    generalize next b g = last at hrest
    cases hrest with
    | goes whole' holds' taken' =>
      rw [← whole',← List.append_assoc] at hI ⊢
      exact .goes rfl holds' (rule.seq (rule.left hI) taken taken')
    | stops stopped => exact .stops (rule.seq hI taken stopped)
    | fails failed => exact .fails (rule.seq hI taken failed)
  | stops stopped => exact .stops (rule.ends hI stopped fun h => (by cases h))
  | fails failed => exact .fails (rule.ends hI failed fun h => (by cases h))

theorem gather (hI : I a (batch ++ g.batch)) (hne : batch ≠ [])
    (hsmall : batch.payload ≤ maxTransactionPayloadBytes) (hg : g.Holds) :
    Looped T a (batch ++ g.batch) ((appendTransactionWithShutdown f a batch none).gather g) := by
  have hrun := rule.run (rule.left hI) hne hsmall
  unfold AppendStep.gather
  generalize appendTransactionWithShutdown f a batch none = ran at hrun
  obtain ⟨b,outcome⟩ := ran
  cases outcome with
  | error error => exact .fails (rule.ends hI hrun fun h => (by cases h))
  | ok flag =>
    cases flag with
    | true => exact .goes rfl hg hrun
    | false => exact .stops (rule.ends hI hrun fun h => (by cases h))

theorem flush {due : Prop} [Decidable due] (hI : I a g.batch) (hg : g.Holds)
    (hdue : due → g.batch ≠ []) :
    Looped T a g.batch
      (if due then (appendTransactionWithShutdown f a g.batch none).gather Gathering.start
        else (a,.ok (some g))) := by
  split
  · rename_i hrun
    have hflush : Looped T a (g.batch ++ Gathering.start.batch)
        ((appendTransactionWithShutdown f a g.batch none).gather Gathering.start) :=
      rule.gather (by simpa [Gathering.start] using hI) (hdue hrun) hg.small Gathering.holds_start
    rwa [show g.batch ++ Gathering.start.batch = g.batch from List.append_nil _] at hflush
  · exact rule.here hI hg

theorem group {id : RunId} {piece : OutputReplay} (hI : I a (g.batch ++ [(id,piece)]))
    (hg : g.Holds) (hpiece : replayPayload piece ≤ maxTransactionPayloadBytes) :
    Looped T a (g.batch ++ [(id,piece)]) (gatherGroup f a g id piece) := by
  unfold gatherGroup
  dsimp only
  refine rule.andThen (rule.flush (rule.left hI) hg And.left) hI fun b g' hflushed hholds hI' => ?_
  split
  · rename_i hstale
    have hnil := flushed_stale hflushed hstale
    have hswap : g'.batch ++ [(id,piece)] = [(id,piece)] ++ g'.batch := by rw [hnil]; rfl
    rw [hswap] at hI' ⊢
    exact rule.gather hI' (by simp) (by simpa using hpiece) hholds
  · exact rule.here (g := ⟨g'.batch ++ [(id,piece)],_,_⟩) hI'
      (hholds.join hpiece (flushed_small hflushed))

theorem groups {id : RunId} {replay : OutputReplay} {groups : List (List OutputChunk)}
    (hI : I a (g.batch ++ (partials replay groups).map (id,·))) (hg : g.Holds)
    (hsmall : ∀ group ∈ groups, (group.map (·.data.length)).sum ≤ maxTransactionPayloadBytes) :
    Looped T a (g.batch ++ (partials replay groups).map (id,·))
      (gatherGroups f id replay groups a g) := by
  induction groups generalizing a g with
  | nil =>
    have hnil : g.batch ++ (partials replay []).map (id,·) = g.batch := List.append_nil _
    rw [hnil] at hI ⊢
    exact rule.here hI hg
  | cons chunks groups ih =>
    have hsplit : g.batch ++ (partials replay (chunks::groups)).map (id,·) =
        g.batch ++ [(id,partialReplay replay groups.isEmpty chunks)] ++
          (partials replay groups).map (id,·) := by
      simp [partials]
    rw [hsplit] at hI ⊢
    unfold gatherGroups
    exact rule.andThen (rule.group (rule.left hI) hg (hsmall chunks (by simp))) hI
      fun b g' _ hholds hI' => ih hI' hholds fun group hmem => hsmall group (by simp [hmem])

theorem entry {id : RunId} {replay : OutputReplay} (hfound : (a.store.db.run? id).isSome = true)
    (hfine : Fine replay) (hI : I a (g.batch ++ (piecesOf replay).map (id,·))) (hg : g.Holds) :
    Looped T a (g.batch ++ (piecesOf replay).map (id,·)) (gatherEntry f a g id replay) := by
  unfold gatherEntry
  rw [if_neg (by simp [Option.isNone_iff_eq_none,Option.isSome_iff_ne_none.mp hfound])]
  unfold piecesOf at hI ⊢
  cases hsplit : splitChunks replay.chunks with
  | error error => exact .fails (rule.fails (hsplit ▸ hI) hfine hsplit)
  | ok groups =>
    obtain ⟨hflatten,hgroups⟩ := splitChunks_spec hsplit
    rw [hsplit] at hI
    cases groups with
    | nil =>
      have hnil : replay.chunks = [] := hflatten.symm
      exact rule.here (g := ⟨g.batch ++ [(id,replay)],g.payload,g.expectedHeads⟩) hI
        (hg.join_empty hnil)
    | cons group groups => exact rule.groups hI hg fun group hmem => (hgroups group hmem).2

theorem gatherBatch (hfine : ∀ item ∈ batch, Fine item.2)
    (hI : I a (g.batch ++ (batch.live a.store.db).pieces)) (hg : g.Holds) :
    Looped T a (g.batch ++ (batch.live a.store.db).pieces) (Durable.gatherBatch f batch a g) := by
  induction batch generalizing a g with
  | nil =>
    have hnil : g.batch ++ (Entries.live a.store.db []).pieces = g.batch := List.append_nil _
    rw [hnil] at hI ⊢
    exact rule.here hI hg
  | cons item batch ih =>
    have hrest : ∀ item ∈ batch, Fine item.2 := fun x hx => hfine x (by simp [hx])
    unfold Durable.gatherBatch
    by_cases hfound : (a.store.db.run? item.1).isSome = true
    · have hsplit : g.batch ++ (Entries.live a.store.db (item::batch)).pieces =
          g.batch ++ (piecesOf item.2).map (item.1,·) ++ (Entries.live a.store.db batch).pieces := by
        simp [Entries.live,Entries.pieces,hfound]
      rw [hsplit] at hI ⊢
      have hentry := rule.entry hfound (hfine item (by simp)) (rule.left hI) hg
      refine rule.andThen hentry hI fun b g' hgoes hholds hI' => ?_
      have hlive : Entries.live b.store.db batch = Entries.live a.store.db batch := by
        rw [hgoes] at hentry
        cases hentry with
        | goes whole holds taken =>
          rw [← whole] at hI
          exact rule.live (rule.left (rule.left hI)) taken batch
      rw [← hlive] at hI' ⊢
      exact ih hrest hI' hholds
    · have hsame : Entries.live a.store.db (item::batch) = Entries.live a.store.db batch :=
        List.filter_cons_of_neg hfound
      have hentry : gatherEntry f a g item.1 item.2 =
          ({ a with reclaimingOutput := a.reclaimingOutput.erase item.1 },.ok (some g)) := by
        unfold gatherEntry
        rw [if_pos (by simpa using hfound)]
      rw [hsame] at hI ⊢
      rw [hentry]
      obtain ⟨hI',hback⟩ := rule.forget item.1 hI
      have hlast := ih (a := { a with reclaimingOutput := a.reclaimingOutput.erase item.1 }) hrest hI' hg
      show Looped T a _ (Durable.gatherBatch f batch _ g)
      generalize Durable.gatherBatch f batch _ g = last at hlast
      cases hlast with
      | goes whole holds taken =>
        rw [← whole] at hI hI'
        exact .goes whole holds ((rule.forget item.1 (rule.left hI)).2 _ taken)
      | stops stopped => exact .stops (hback _ stopped)
      | fails failed => exact .fails (hback _ failed)

/-- What the rule asks of transactions holds of a call and the pieces of its entries. -/
theorem appendBatch (hfine : ∀ item ∈ batch, Fine item.2) (hI : I a (batch.live a.store.db).pieces)
    :
    T a (batch.live a.store.db).pieces (appendBatchWithShutdown f a batch) := by
  have hgathered := rule.gatherBatch (g := Gathering.start) hfine hI Gathering.holds_start
  rw [show Gathering.start.batch ++ (batch.live a.store.db).pieces =
    (batch.live a.store.db).pieces from List.nil_append _] at hgathered
  unfold appendBatchWithShutdown
  dsimp only
  generalize Durable.gatherBatch f batch a Gathering.start = gathered at hgathered
  cases hgathered with
  | @goes b g done whole holds taken =>
    dsimp only
    rw [← whole] at hI ⊢
    split
    · rename_i hnil
      rw [hnil,List.append_nil]
      exact taken
    · rename_i hne
      exact rule.seq hI taken (rule.run (rule.after hI taken) hne holds.small)
  | stops stopped => exact stopped
  | fails failed => exact failed

end

end BatchRule
end Durable
end Ctxmux
