import Ctxmux.LiveEventJournal

/-!
# Delivery by the live event journal

The journal holds the events from `base` on, and a receiver at position `p` has yet to
account for the events from `p` on. The publisher's preparation leaves room for one
event, and neither a receiver nor a retirement takes that room away.
-/

namespace Ctxmux
namespace Journal

variable {ε : Type} (output : ε → Bool) {s : State ε} {history : List ε} {reader p : ℕ}

/-- The next event finds the inline envelope or a slot of the deque free. -/
def State.SlotFree (s : State ε) : Prop := s.first = none ∨ s.rest.length < s.restCapacity

/-- The journal after the events of `history` were sent. -/
structure Kept (history : List ε) (s : State ε) : Prop where
  next : s.next = history.length
  base : s.base ≤ s.next
  held : s.held = history.drop s.base
  inline : s.first = none → s.rest = []
  capacity : s.rest.length ≤ s.restCapacity
  positions : ∀ p, some p ∈ s.readers → p ≤ s.next
  count : s.receiverCount = s.readers.countP Option.isSome

theorem Kept.held_length (h : Kept history s) : s.held.length = s.next-s.base := by
  rw [h.held,List.length_drop,h.next]

/-- What retirements may change. -/
structure Retired (s s' : State ε) : Prop where
  next : s'.next = s.next
  readers : s'.readers = s.readers
  receiverCount : s'.receiverCount = s.receiverCount
  closed : s'.closed = s.closed
  slot : s.SlotFree → s'.SlotFree

theorem Retired.refl (s : State ε) : Retired s s := ⟨rfl,rfl,rfl,rfl,fun h => h⟩

theorem Retired.trans {s s' s'' : State ε} (h : Retired s s') (h' : Retired s' s'') :
    Retired s s'' :=
  ⟨h'.next.trans h.next,h'.readers.trans h.readers,h'.receiverCount.trans h.receiverCount,
    h'.closed.trans h.closed,fun hslot => h'.slot (h.slot hslot)⟩

theorem Kept.retire (h : Kept history s) :
    Kept history (s.retire output).1 ∧ Retired s (s.retire output).1 ∧
      (s.first.isSome → (s.retire output).1.base = s.base+1 ∧
        (s.rest.length = s.restCapacity → (s.retire output).1.SlotFree)) := by
  have hlength := h.held_length
  have hheld := h.held
  unfold State.retire
  cases hfirst : s.first with
  | none => exact ⟨h,.refl s,by simp⟩
  | some e =>
    have hbelow : s.base < s.next := by
      rw [State.held,hfirst] at hlength
      simp at hlength
      omega
    have hdrop : history.drop (s.base+1) = s.rest := by
      rw [← List.drop_drop,← hheld,State.held,hfirst]
      rfl
    cases hrest : s.rest with
    | nil =>
      refine ⟨⟨h.next,hbelow,?_,fun _ => rfl,le_rfl,h.positions,h.count⟩,
        ⟨rfl,rfl,rfl,rfl,fun _ => .inl rfl⟩,fun _ => ⟨rfl,fun _ => .inl rfl⟩⟩
      rw [hdrop,hrest]
      rfl
    | cons x xs =>
      have hcapacity := h.capacity
      rw [hrest,List.length_cons] at hcapacity
      refine ⟨⟨h.next,hbelow,?_,fun hnone => (by cases hnone),by simp only; omega,h.positions,
        h.count⟩,⟨rfl,rfl,rfl,rfl,fun _ => .inr hcapacity⟩,fun _ => ⟨rfl,fun _ => .inr hcapacity⟩⟩
      rw [hdrop,hrest]
      rfl

theorem Kept.retireTo (h : Kept history s) {through : ℕ} (hle : through ≤ s.next) :
    Kept history (s.retireTo output through) ∧ Retired s (s.retireTo output through) ∧
      through ≤ (s.retireTo output through).base := by
  unfold State.retireTo
  induction hn : through-s.base generalizing s with
  | zero => exact ⟨h,.refl s,by simp only [Function.iterate_zero,id]; omega⟩
  | succ n ih =>
    have hfirst : s.first.isSome := by
      by_contra hnone
      have hnone : s.first = none := by simpa using hnone
      have hlength := h.held_length
      rw [State.held,hnone,h.inline hnone] at hlength
      simp at hlength
      omega
    obtain ⟨hkept,hretired,hstep⟩ := h.retire output
    have hbase := (hstep hfirst).1
    obtain ⟨hkept',hretired',hthrough⟩ := ih hkept (by rw [hretired.next]; exact hle) (by omega)
    rw [Function.iterate_succ_apply]
    exact ⟨hkept',hretired.trans hretired',hthrough⟩

theorem Kept.reclaim (h : Kept history s) :
    Kept history (s.reclaim output) ∧ Retired s (s.reclaim output) := by
  have hle : (s.readers.filterMap id).min?.getD s.next ≤ s.next := by
    cases hmin : (s.readers.filterMap id).min? with
    | none => exact le_rfl
    | some p =>
      have hmem := List.min?_mem hmin
      exact h.positions p (by simpa using hmem)
  obtain ⟨hkept,hretired,_⟩ := h.retireTo output hle
  exact ⟨hkept,hretired⟩

theorem doubled_gt {capacity requested : ℕ} (h : State.doubled capacity = some requested) :
    capacity < requested := by
  unfold State.doubled at h
  split at h
  · obtain rfl := Option.some.inj h
    omega
  · cases h

theorem Kept.fundSlot (h : Kept history s) (grow : Option ℕ) :
    Kept history (s.fundSlot output grow).1 ∧ Retired s (s.fundSlot output grow).1 ∧
      (s.fundSlot output grow).1.SlotFree := by
  unfold State.fundSlot
  split
  · rename_i hfull
    obtain ⟨hkept,hretired,hstep⟩ := h.retire output
    split
    · rename_i requested extra hdoubled
      have hgt := doubled_gt hdoubled
      have hfull' := hfull.2
      exact ⟨⟨h.next,h.base,h.held,h.inline,by simp only; omega,h.positions,h.count⟩,
        ⟨rfl,rfl,rfl,rfl,fun _ => .inr (by simp only; omega)⟩,.inr (by simp only; omega)⟩
    · exact ⟨hkept,hretired,(hstep hfull.1).2 hfull.2⟩
  · rename_i hroom
    refine ⟨h,.refl s,?_⟩
    have hcapacity := h.capacity
    by_cases hfirst : s.first = none
    · exact .inl hfirst
    · have hsome : s.first.isSome := by simpa [Option.isSome_iff_ne_none] using hfirst
      exact .inr (lt_of_le_of_ne hcapacity fun heq => hroom ⟨hsome,heq⟩)

theorem Kept.retireRefused (h : Kept history s) (n : ℕ) :
    Kept history (State.retireRefused output n s).1 ∧
      Retired s (State.retireRefused output n s).1 := by
  induction n generalizing s with
  | zero => exact ⟨h,.refl s⟩
  | succ n ih =>
    unfold State.retireRefused
    split
    · obtain ⟨hkept,hretired,_⟩ := h.retire output
      obtain ⟨hkept',hretired'⟩ := ih hkept
      exact ⟨hkept',hretired.trans hretired'⟩
    · exact ⟨h,.refl s⟩

theorem Kept.prepare (h : Kept history s) (grow : Option ℕ) (allocation : Bool)
    (refusals : Option ℕ) :
    Kept history (s.prepare output grow allocation refusals).1 ∧
      Retired s (s.prepare output grow allocation refusals).1 ∧
      (s.prepare output grow allocation refusals).1.SlotFree := by
  obtain ⟨hkept,hretired⟩ := h.reclaim output
  obtain ⟨hkept₁,hretired₁,hslot⟩ := hkept.fundSlot output grow
  unfold State.prepare
  simp only
  split
  · obtain ⟨hkept₂,hretired₂⟩ := hkept₁.retireRefused output
      (refusals.getD ((s.reclaim output).fundSlot output grow).1.held.length)
    exact ⟨hkept₂,(hretired.trans hretired₁).trans hretired₂,hretired₂.slot hslot⟩
  · exact ⟨hkept₁,hretired.trans hretired₁,hslot⟩

theorem Kept.register (h : Kept history s) {old : Option ℕ} (new : Option ℕ)
    (hold : s.readers[reader]? = some old) (hnew : ∀ p, new = some p → p ≤ s.next) (count : ℕ)
    (hcount : count+(if old.isSome then 1 else 0) = s.receiverCount+(if new.isSome then 1 else 0)) :
    Kept history { s with readers := s.readers.set reader new, receiverCount := count } := by
  obtain ⟨hlt,hget⟩ := List.getElem?_eq_some_iff.mp hold
  refine ⟨h.next,h.base,h.held,h.inline,h.capacity,fun p hp => ?_,?_⟩
  · rcases List.mem_or_eq_of_mem_set hp with hp | hp
    · exact h.positions p hp
    · exact hnew p hp.symm
  · have hpos : old.isSome = true → 0 < s.readers.countP Option.isSome := fun hsome =>
      List.countP_pos_iff.mpr ⟨old,hget ▸ List.getElem_mem hlt,hsome⟩
    have hsame := h.count
    rw [List.countP_set hlt,hget]
    simp only
    by_cases hsome : old.isSome = true
    · have := hpos hsome
      simp only [hsome,if_true] at hcount ⊢
      omega
    · simp only [hsome] at hcount ⊢
      simp only [if_false,Bool.false_eq_true] at hcount ⊢
      omega

theorem position?_set_self {old new : Option ℕ} (hold : s.readers[reader]? = some old) :
    (s.readers.set reader new)[reader]?.join = new := by
  obtain ⟨hlt,_⟩ := List.getElem?_eq_some_iff.mp hold
  rw [List.getElem?_set_self hlt]
  rfl

theorem Kept.subscribe (h : Kept history s) {grow : Option ℕ} {s' : State ε}
    (hok : s.subscribe grow = some (reader,s')) :
    Kept history s' ∧ s'.position? reader = some s.next ∧ s'.closed = false ∧
      s.closed = false ∧ (s.SlotFree → s'.SlotFree) ∧
      ∀ other p, s.position? other = some p → s'.position? other = some p := by
  have hpush : Kept history { s with
      readers := s.readers ++ [some s.next]
      receiverCount := s.receiverCount+1 } := by
    refine ⟨h.next,h.base,h.held,h.inline,h.capacity,fun p hp => ?_,?_⟩
    · rcases List.mem_append.mp hp with hp | hp
      · exact h.positions p hp
      · exact (Option.some.inj (List.mem_singleton.mp hp)).le
    · simp [h.count]
  have hlast : (s.readers ++ [some s.next])[s.readers.length]?.join = some s.next := by simp
  have hothers : ∀ (other p : ℕ), s.readers[other]?.join = some p →
      (s.readers ++ [some s.next])[other]?.join = some p := by
    intro other p hp
    by_cases hlt : other < s.readers.length
    · rw [List.getElem?_append_left hlt]
      exact hp
    · rw [List.getElem?_eq_none (not_lt.mp hlt)] at hp
      cases hp
  unfold State.subscribe at hok
  by_cases hclosed : s.closed = true
  · rw [if_pos hclosed] at hok
    cases hok
  · rw [if_neg hclosed] at hok
    have hopen : s.closed = false := by simpa using hclosed
    split at hok
    · rename_i index hfind
      obtain ⟨rfl,rfl⟩ := Prod.mk.inj (Option.some.inj hok)
      obtain ⟨hlt,hnone,_⟩ := List.findIdx?_eq_some_iff_getElem.mp hfind
      have hold : s.readers[index]? = some none := by
        rw [List.getElem?_eq_getElem hlt]
        simpa using hnone
      refine ⟨h.register (some s.next) hold (fun p hp => (Option.some.inj hp).ge) _ (by simp),
        position?_set_self hold,hopen,hopen,fun hslot => hslot,fun other p hp => ?_⟩
      have hne : index ≠ other := by
        rintro rfl
        rw [State.position?,hold] at hp
        cases hp
      simpa [State.position?,List.getElem?_set_ne hne] using hp
    · split at hok
      · obtain ⟨requested,_,hok⟩ := Option.bind_eq_some_iff.mp hok
        obtain ⟨extra,_,hok⟩ := Option.bind_eq_some_iff.mp hok
        obtain ⟨rfl,rfl⟩ := Prod.mk.inj (Option.some.inj hok)
        exact ⟨⟨hpush.next,hpush.base,hpush.held,hpush.inline,hpush.capacity,hpush.positions,
          hpush.count⟩,hlast,hopen,hopen,fun hslot => hslot,hothers⟩
      · obtain ⟨rfl,rfl⟩ := Prod.mk.inj (Option.some.inj hok)
        exact ⟨hpush,hlast,hopen,hopen,fun hslot => hslot,hothers⟩

/-- An event that is accepted becomes the last of the history. -/
theorem Kept.send (h : Kept history s) (e : ε) (hslot : s.SlotFree) :
    (s.send e).2 ≠ .assertFailed ∧ (s.send e).1.readers = s.readers ∧
      (s.send e).1.closed = s.closed ∧
      Kept (if (s.send e).2 = .accepted then history ++ [e] else history) (s.send e).1 := by
  have hpositions : ∀ p, some p ∈ s.readers → p ≤ s.next+1 := fun p hp =>
    (h.positions p hp).trans (Nat.le_succ _)
  have hdrop : (history ++ [e]).drop s.base = history.drop s.base ++ [e] :=
    List.drop_append_of_le_length (h.next ▸ h.base)
  unfold State.send
  split
  · exact ⟨by simp,rfl,rfl,by simpa using h⟩
  · split
    · exact ⟨by simp,rfl,rfl,by simpa using h⟩
    · split
      · rename_i hnone
        have hnone : s.first = none := by simpa using hnone
        refine ⟨by simp,rfl,rfl,?_⟩
        rw [if_pos rfl]
        refine ⟨by simp [h.next],h.base.trans (Nat.le_succ _),?_,fun hsome => (by cases hsome),
          h.capacity,hpositions,h.count⟩
        rw [hdrop,← h.held]
        simp [State.held,hnone,h.inline hnone]
      · split
        · rename_i hsome hroom
          refine ⟨by simp,rfl,rfl,?_⟩
          rw [if_pos rfl]
          refine ⟨by simp [h.next],h.base.trans (Nat.le_succ _),?_,
            fun hnone => absurd hnone (by simpa using hsome),?_,hpositions,h.count⟩
          · rw [hdrop,← h.held]
            simp [State.held]
          · simp only [List.length_append,List.length_singleton]
            omega
        · rename_i hsome hfull
          rcases hslot with hnone | hfree
          · exact absurd (by simp [hnone]) hsome
          · exact absurd hfree hfull

/-- An event is accepted as long as a receiver is registered and a sequence number is left. -/
theorem Kept.send_accepted (h : Kept history s) (hopen : s.closed = false)
    (hp : s.position? reader = some p) (hnext : s.next < u64Max) (hslot : s.SlotFree) (e : ε) :
    (s.send e).2 = .accepted := by
  have hcount : s.receiverCount ≠ 0 := by
    rw [h.count]
    exact (List.countP_pos_iff.mpr
      ⟨some p,List.mem_of_getElem? (Option.join_eq_some_iff.mp hp),rfl⟩).ne'
  unfold State.send
  rw [if_neg (by simp [hopen,hcount]),if_neg (Nat.not_le.mpr hnext)]
  split
  · rfl
  · rename_i hsome
    rcases hslot with hnone | hfree
    · exact absurd (by simp [hnone]) hsome
    · rw [if_pos hfree]

theorem send_refused (hnext : u64Max ≤ s.next) (e : ε) : (s.send e).2 ≠ .accepted := by
  unfold State.send
  rw [if_pos hnext]
  split <;> simp

/-- The event at a position that the journal still holds. -/
theorem Kept.getElem? (h : Kept history s) (hbase : s.base ≤ p) :
    (if p-s.base = 0 then s.first else s.rest[p-s.base-1]?) = history[p]? := by
  have hheld : s.held[p-s.base]? = history[p]? := by
    rw [h.held,List.getElem?_drop,Nat.add_sub_cancel' hbase]
  rw [← hheld,State.held]
  cases hfirst : s.first with
  | none =>
    rw [h.inline hfirst]
    split <;> simp
  | some e =>
    cases hk : p-s.base with
    | zero => simp
    | succ k => simp

theorem Kept.tryRecv (h : Kept history s) (hp : s.position? reader = some p) :
    ∃ p', (s.tryRecv output reader p).1.position? reader = some p' ∧
      Kept history (s.tryRecv output reader p).1 ∧
      (s.tryRecv output reader p).1.closed = s.closed ∧
      (s.SlotFree → (s.tryRecv output reader p).1.SlotFree) ∧
      (∀ other, other ≠ reader →
        (s.tryRecv output reader p).1.position? other = s.position? other) ∧
      ∀ os, Outbox.Accepts ⟨history.drop p',s.closed⟩ os →
        Outbox.Accepts ⟨history.drop p,s.closed⟩ (.got (s.tryRecv output reader p).2::os) := by
  have hold : s.readers[reader]? = some (some p) := Option.join_eq_some_iff.mp hp
  have hle : p ≤ s.next := h.positions p (List.mem_of_getElem? hold)
  have hnext := h.next
  have hbase := h.base
  have hothers : ∀ other (new : Option ℕ), other ≠ reader →
      (s.readers.set reader new)[other]?.join = s.position? other := fun other new hne => by
    rw [List.getElem?_set_ne hne.symm]
    rfl
  have hmoved : ∀ q, q ≤ s.next → Kept history { s with readers := s.readers.set reader (some q) } :=
    fun q hq => h.register (some q) hold (fun r hr => Option.some.inj hr ▸ hq) _ (by simp)
  unfold State.tryRecv
  split
  · rename_i hlag
    refine ⟨s.base,position?_set_self hold,hmoved s.base h.base,rfl,fun hslot => hslot,
      fun other hne => hothers other _ hne,fun os hos => ⟨by omega,?_,?_⟩⟩
    · rw [List.length_drop]
      omega
    · rw [List.drop_drop,Nat.add_sub_cancel' hlag.le]
      exact hos
  · rename_i hlag
    split
    · rename_i hlast
      have hnone : history.drop p = [] := List.drop_eq_nil_of_le (by omega)
      refine ⟨p,hp,h,rfl,fun hslot => hslot,fun _ _ => rfl,fun os hos => ?_⟩
      split
      · rename_i hclosed
        exact ⟨hnone,hclosed,hos⟩
      · rename_i hopen
        exact ⟨hnone,by simpa using hopen,hos⟩
    · rename_i hlast
      have hlt : p < history.length := by omega
      have hget : history[p]? = some history[p] := List.getElem?_eq_getElem hlt
      rw [h.getElem? (not_lt.mp hlag),hget]
      obtain ⟨hkept,hretired⟩ := (hmoved (p+1) (by omega)).reclaim output
      refine ⟨p+1,?_,hkept,hretired.closed,hretired.slot,fun other hne => ?_,fun os hos => ?_⟩
      · rw [State.position?,hretired.readers]
        exact position?_set_self hold
      · rw [State.position?,hretired.readers]
        exact hothers other _ hne
      · exact ⟨history.drop (p+1),List.drop_eq_getElem_cons hlt,hos⟩

/-- What a receive finds in an open journal, and where it leaves the receiver. -/
theorem Kept.received (h : Kept history s) (hopen : s.closed = false)
    (hp : s.position? reader = some p) :
    (∃ n, (s.tryRecv output reader p).2 = .lagged n ∧ p ≤ s.base ∧
      (s.tryRecv output reader p).1.position? reader = some s.base) ∨
    ((s.tryRecv output reader p).2 = .empty ∧ (s.tryRecv output reader p).1 = s) ∨
    ∃ e, history[p]? = some e ∧ (s.tryRecv output reader p).2 = .event e ∧
      (s.tryRecv output reader p).1.position? reader = some (p+1) := by
  have hold : s.readers[reader]? = some (some p) := Option.join_eq_some_iff.mp hp
  have hle := h.positions p (List.mem_of_getElem? hold)
  have hnext := h.next
  unfold State.tryRecv
  split
  · rename_i hlag
    exact .inl ⟨_,rfl,hlag.le,position?_set_self hold⟩
  · rename_i hlag
    split
    · exact .inr (.inl ⟨by simp [hopen],rfl⟩)
    · rename_i hlast
      have hlt : p < history.length := by omega
      have hget : history[p]? = some history[p] := List.getElem?_eq_getElem hlt
      have hmoved : Kept history { s with readers := s.readers.set reader (some (p+1)) } :=
        h.register (some (p+1)) hold (fun r hr => by
          have := Option.some.inj hr
          omega) _ (by simp)
      rw [h.getElem? (not_lt.mp hlag),hget]
      refine .inr (.inr ⟨_,rfl,rfl,?_⟩)
      simp only
      rw [State.position?,(hmoved.reclaim output).2.readers]
      exact position?_set_self hold

theorem Kept.dropReceiver (h : Kept history s) (hp : s.position? reader = some p) :
    Kept history (s.dropReceiver output reader) ∧
      (s.dropReceiver output reader).closed = s.closed ∧
      (s.SlotFree → (s.dropReceiver output reader).SlotFree) ∧
      ∀ other q, other ≠ reader → s.position? other = some q →
        (s.dropReceiver output reader).position? other = some q := by
  have hold : s.readers[reader]? = some (some p) := Option.join_eq_some_iff.mp hp
  have hsome : 0 < s.receiverCount := by
    rw [h.count]
    exact List.countP_pos_iff.mpr ⟨some p,List.mem_of_getElem? hold,rfl⟩
  have hremoved : Kept history { s with
      readers := s.readers.set reader none
      receiverCount := s.receiverCount-1 } :=
    h.register none hold (fun r hr => (by cases hr)) _ (by simp; omega)
  obtain ⟨hkept,hretired⟩ := hremoved.reclaim output
  have hothers : ∀ other q, other ≠ reader → s.position? other = some q →
      (s.readers.set reader none)[other]?.join = some q := fun other q hne hq => by
    rw [List.getElem?_set_ne hne.symm]
    exact hq
  unfold State.dropReceiver
  simp only
  split
  · rename_i hzero
    have hcount := hkept.count
    rw [hzero] at hcount
    refine ⟨⟨hkept.next,hkept.base,hkept.held,hkept.inline,hkept.capacity,
      fun q hq => (by cases hq),by simpa using hzero⟩,hretired.closed,hretired.slot,
      fun other q hne hq => ?_⟩
    have hin := hothers other q hne hq
    have hmem : some q ∈ s.readers.set reader none :=
      List.mem_of_getElem? (Option.join_eq_some_iff.mp hin)
    rw [hretired.readers] at hcount
    exact absurd hcount (List.countP_pos_iff.mpr ⟨some q,hmem,rfl⟩).ne
  · refine ⟨hkept,hretired.closed,hretired.slot,fun other q hne hq => ?_⟩
    rw [State.position?,hretired.readers]
    exact hothers other q hne hq

/-- The invariant of the journal and its publisher. -/
structure Live.Kept (history : List ε) (s : Live ε) : Prop where
  journal : Journal.Kept history s.journal
  slot : s.prepared = true → s.journal.SlotFree

theorem Live.kept_start : Live.Kept ([] : List ε) Live.start :=
  ⟨⟨rfl,le_rfl,rfl,fun _ => rfl,le_rfl,fun p hp => (by cases hp),rfl⟩,fun hp => (by cases hp)⟩

/-- One event: the history grows by an accepted event only, and a registered receiver that
is not dropped observes what it was promised. -/
def Live.Follows (s : Live ε) (history : List ε) (e : Event ε) : Prop :=
  ∃ history', (s.step output e).Kept history' ∧
    history'.length ≤ history.length+(if e.sends then 1 else 0) ∧
    ∀ reader p, s.journal.position? reader = some p → e.drops reader = false →
      ∃ p', (s.step output e).journal.position? reader = some p' ∧
        ∀ os, Outbox.Accepts ⟨history'.drop p',(s.step output e).journal.closed⟩ os →
          Outbox.Accepts ⟨history.drop p,s.journal.closed⟩ (observe output reader s e ++ os)

section

variable {s : Live ε} (h : s.Kept history)
include h

theorem Live.Kept.idle {e : Event ε} (hstep : s.step output e = s)
    (hquiet : ∀ reader p, s.journal.position? reader = some p → observe output reader s e = []) :
    s.Follows output history e := by
  rw [Live.Follows,hstep]
  refine ⟨history,h,Nat.le_add_right _ _,fun reader p hp _ => ⟨p,hp,fun os hos => ?_⟩⟩
  rw [hquiet reader p hp]
  exact hos

theorem Live.Kept.subscribe (grow : Option ℕ) : s.Follows output history (.subscribe grow) := by
  cases hsub : s.journal.subscribe grow with
  | none => exact h.idle output (by simp [Live.step,hsub]) fun _ _ _ => rfl
  | some result =>
    obtain ⟨index,journal⟩ := result
    obtain ⟨hkept,_,hclosed,hopen,hslot,hothers⟩ := h.journal.subscribe hsub
    simp only [Live.Follows,Live.step,hsub]
    refine ⟨history,⟨hkept,fun hp => hslot (h.slot hp)⟩,le_rfl,fun reader p hp _ =>
      ⟨p,hothers reader p hp,fun os hos => ?_⟩⟩
    simp only [Option.map_some,Option.getD_some,hclosed] at hos
    rw [hopen]
    exact hos

theorem Live.Kept.send (e : ε) : s.Follows output history (.send e) := by
  by_cases hmay : s.MaySend
  · obtain ⟨_,hreaders,hclosed,hkept⟩ := h.journal.send e (h.slot hmay.2)
    simp only [Live.Follows,Live.step,if_pos hmay]
    refine ⟨_,⟨hkept,fun hp => (by cases hp)⟩,?_,fun reader p hp _ => ⟨p,?_,fun os hos => ?_⟩⟩
    · split <;> simp [Event.sends]
    · rw [State.position?,hreaders]
      exact hp
    · have hle : p ≤ history.length :=
        h.journal.next ▸ h.journal.positions p
          (List.mem_of_getElem? (Option.join_eq_some_iff.mp hp))
      rw [hclosed] at hos
      by_cases hnext : s.journal.next < u64Max
      · have haccepted := h.journal.send_accepted hmay.1 hp hnext (h.slot hmay.2) e
        rw [if_pos haccepted,List.drop_append_of_le_length hle] at hos
        simp only [observe,if_pos (And.intro hmay hnext)]
        exact ⟨hmay.1,hos⟩
      · rw [if_neg (send_refused (not_lt.mp hnext) e)] at hos
        simp only [observe,hnext,and_false,if_false]
        exact hos
  · exact h.idle output (by simp only [Live.step,if_neg hmay]) fun _ _ _ => by
      simp only [observe,hmay,false_and,if_false]

theorem Live.Kept.tryRecv (other : ℕ) : s.Follows output history (.tryRecv other) := by
  cases hother : s.journal.position? other with
  | none =>
    refine h.idle output (by simp only [Live.step,hother]) fun reader p hp => ?_
    have hne : other ≠ reader := fun heq => by simp [← heq,hother] at hp
    simp only [observe,if_neg hne]
  | some q =>
    obtain ⟨q',hq',hkept,hclosed,hslot,hothers,haccepts⟩ := h.journal.tryRecv output hother
    simp only [Live.Follows,Live.step,hother]
    refine ⟨history,⟨hkept,fun hp => hslot (h.slot hp)⟩,le_rfl,fun reader p hp _ => ?_⟩
    rw [hclosed]
    by_cases heq : other = reader
    · subst heq
      obtain rfl := Option.some.inj (hother.symm.trans hp)
      refine ⟨q',hq',fun os hos => ?_⟩
      simp only [observe,if_true,hother]
      exact haccepts os hos
    · refine ⟨p,(hothers reader (Ne.symm heq)).trans hp,fun os hos => ?_⟩
      simp only [observe,if_neg heq]
      exact hos

theorem Live.Kept.dropReceiver (other : ℕ) : s.Follows output history (.dropReceiver other) := by
  cases hother : s.journal.position? other with
  | none => exact h.idle output (by simp only [Live.step,hother]) fun _ _ _ => rfl
  | some q =>
    obtain ⟨hkept,hclosed,hslot,hothers⟩ := h.journal.dropReceiver output hother
    simp only [Live.Follows,Live.step,hother]
    refine ⟨history,⟨hkept,fun hp => hslot (h.slot hp)⟩,le_rfl,fun reader p hp hdrops => ?_⟩
    have hne : reader ≠ other := fun heq => by simp [Event.drops,heq] at hdrops
    refine ⟨p,hothers reader p hne hp,fun os hos => ?_⟩
    rw [hclosed] at hos
    exact hos

theorem Live.Kept.step (e : Event ε) : s.Follows output history e := by
  cases e with
  | subscribe grow => exact h.subscribe output grow
  | prepare grow allocation refusals =>
    obtain ⟨hkept,hretired,hslot⟩ := h.journal.prepare output grow allocation refusals
    simp only [Live.Follows,Live.step]
    split
    · exact ⟨history,h,le_rfl,fun reader p hp _ => ⟨p,hp,fun os hos => hos⟩⟩
    · refine ⟨history,⟨hkept,fun _ => hslot⟩,le_rfl,fun reader p hp _ => ⟨p,?_,fun os hos => ?_⟩⟩
      · rw [State.position?,hretired.readers]
        exact hp
      · rw [hretired.closed] at hos
        exact hos
  | send e => exact h.send output e
  | tryRecv other => exact h.tryRecv output other
  | dropReceiver other => exact h.dropReceiver output other
  | dropSender =>
    simp only [Live.Follows,Live.step]
    refine ⟨history,⟨⟨h.journal.next,h.journal.base,h.journal.held,h.journal.inline,
      h.journal.capacity,h.journal.positions,h.journal.count⟩,h.slot⟩,le_rfl,fun reader p hp _ =>
      ⟨p,hp,fun os hos => ?_⟩⟩
    simp only [observe]
    split
    · rename_i hclosed
      rw [hclosed]
      exact hos
    · exact hos

end

/-- The journal of a run counts no more events than the publisher sent. -/
theorem Live.kept_run (es : List (Event ε)) :
    ∃ history, (Machine.run (Live.step output) Live.start es).Kept history ∧
      history.length ≤ es.countP Event.sends := by
  induction es using List.reverseRecOn with
  | nil => exact ⟨[],Live.kept_start,le_rfl⟩
  | append_singleton es e ih =>
    obtain ⟨history,h,hle⟩ := ih
    obtain ⟨history',h',hle',-⟩ := h.step output e
    rw [Machine.run_append]
    refine ⟨history',h',hle'.trans ?_⟩
    rw [List.countP_append,List.countP_singleton]
    exact Nat.add_le_add_right hle _

/-- Everything that a registered receiver observes until it is dropped. -/
theorem Live.Kept.accepts {s : Live ε} (h : s.Kept history)
    (hp : s.journal.position? reader = some p) (es : List (Event ε)) :
    Outbox.Accepts ⟨history.drop p,s.journal.closed⟩ (trace output reader s es) := by
  induction es generalizing s history p with
  | nil => exact trivial
  | cons e es ih =>
    unfold trace
    split
    · exact trivial
    · rename_i hkeeps
      obtain ⟨history',h',-,hreaders⟩ := h.step output e
      obtain ⟨p',hp',haccepts⟩ := hreaders reader p hp (by simpa using hkeeps)
      exact haccepts _ (ih h' hp')

/-- From its subscription on a receiver obtains the events that the publisher sends, in order
and without repetition; a lag counts exactly the events that it skips, and the end is reported
only when the sender is gone and every event is delivered or counted. No send of a
publisher that prepares each event finds the deque without a free slot, and while a receiver
is registered every such send is accepted; the sequence number is that of the sends at most. -/
theorem journal_delivers_in_order (es : List (Event ε)) (grow : Option ℕ) (later : List (Event ε)) :
    let s := Machine.run (Live.step output) Live.start es
    Outbox.Accepts ⟨[],false⟩ (subscriptionTrace output s grow later) ∧
      (∀ e, s.sendOutcome e ≠ some .assertFailed) ∧
      (∀ reader e, (s.journal.position? reader).isSome → s.MaySend → s.journal.next < u64Max →
        s.sendOutcome e = some .accepted) ∧
      s.journal.next ≤ es.countP Event.sends := by
  intro s
  obtain ⟨history,h,hle⟩ := Live.kept_run output es
  refine ⟨?_,fun e => ?_,fun reader e hreader hmay hnext => ?_,h.journal.next.trans_le hle⟩
  · unfold subscriptionTrace
    cases hsub : s.journal.subscribe grow with
    | none => exact trivial
    | some result =>
      obtain ⟨reader,journal⟩ := result
      obtain ⟨hkept,hposition,hclosed,_,hslot,_⟩ := h.journal.subscribe hsub
      have hlive : Live.Kept history { s with journal := journal } :=
        ⟨hkept,fun hp => hslot (h.slot hp)⟩
      have haccepts := hlive.accepts output hposition later
      rw [h.journal.next,List.drop_length] at haccepts
      simp only [hclosed] at haccepts
      exact haccepts
  · unfold Live.sendOutcome
    split
    · rename_i hmay
      intro hfails
      exact (h.journal.send e (h.slot hmay.2)).1 (Option.some.inj hfails)
    · simp
  · obtain ⟨p,hp⟩ := Option.isSome_iff_exists.mp hreader
    rw [Live.sendOutcome,if_pos hmay]
    exact congrArg some (h.journal.send_accepted hmay.1 hp hnext (h.slot hmay.2) e)

end Journal
end Ctxmux
