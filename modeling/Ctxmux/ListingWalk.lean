import Ctxmux.RunListing

/-!
# Walking the pages of the registry

A client asks for page after page while the owners of the registry publish and remove
Runs. It never sees an id twice, it sees every Run that stays, and it comes to an end.
-/

namespace Ctxmux
namespace Registry

open Durable (RunId)
open Selection (UnstableSelection)

/-- One answered page: the cursor and the size that were asked for, the ids in the registry
when it was taken, and what came back. -/
structure ListedPage where
  after : Option RunId
  limit : ℕ
  present : List RunId
  rows : List RunId
  hasMore : Bool

/-- The registry with a client that lists it. `known` remembers every id that the registry
has held since the walk began. -/
structure Walk where
  system : System
  cursor : Option RunId
  received : List RunId
  pages : List ListedPage
  ended : Bool
  known : Finset RunId

inductive WalkEvent where
  | owner (e : Event)
  | page (order : HashOrder) (selection : UnstableSelection RunId) (limit : ℕ+)

def WalkEvent.isPage : WalkEvent → Bool
  | .owner _ => false
  | .page _ _ _ => true

namespace Walk

def start (system : System) : Walk :=
  ⟨system,none,[],[],false,system.registry.runs.keys.toFinset⟩

/-- The loop of the client: a page without a cursor is the last one. -/
def takePage (w : Walk) (order : HashOrder) (selection : UnstableSelection RunId) (limit : ℕ) :
    Walk :=
  let registry := w.system.registry
  let page := registry.list order selection w.cursor limit
  let rows := page.1.map (·.id)
  { w with
    cursor := page.2.or w.cursor
    received := w.received ++ rows
    pages := w.pages ++ [⟨w.cursor,limit,registry.runs.keys,rows,page.2.isSome⟩]
    ended := page.2.isNone }

def step (w : Walk) : WalkEvent → Walk
  | .owner e =>
    let system := w.system.step e
    { w with system := system, known := w.known ∪ system.registry.runs.keys.toFinset }
  | .page order selection limit => if w.ended then w else w.takePage order selection limit

end Walk

/-- What one page owes to the ids in the registry. -/
structure ListedPage.Exact (p : ListedPage) : Prop where
  rows : p.rows = (Selection.sorted (p.present.filter (passes p.after))).take p.limit
  more : p.hasMore = decide (p.limit < (p.present.filter (passes p.after)).length)
  nonempty : p.hasMore = true → p.rows ≠ []

/-- The ids at or below the cursor are settled; after the last page all are. -/
def Walk.Settled (w : Walk) (id : RunId) : Prop :=
  w.ended = true ∨ ∃ cursor ∈ w.cursor, id ≤ cursor

structure Walk.Sound (w : Walk) : Prop where
  increasing : w.received.Pairwise (· < ·)
  below : w.ended = false → ∀ id ∈ w.received, ∃ cursor ∈ w.cursor, id ≤ cursor
  complete : ∀ id, w.Settled id → (∀ p ∈ w.pages, id ∈ p.present) → id ∈ w.received
  honest : ∀ p ∈ w.pages, p.Exact
  known : ∀ id ∈ w.received, id ∈ w.known
  present : ∀ id ∈ w.system.registry.runs.keys, id ∈ w.known
  progress : w.pages.length ≤ w.received.length+w.ended.toNat
  rows : w.received = w.pages.flatMap (·.rows)

namespace Walk.Sound

variable {w : Walk}

theorem start (system : System) : (Walk.start system).Sound where
  increasing := List.Pairwise.nil
  below := by
    intro _ id hid
    cases hid
  complete := by
    intro id hsettled
    rcases hsettled with hended | ⟨cursor,hcursor,-⟩
    · cases hended
    · cases hcursor
  honest := by
    intro p hp
    cases hp
  known := by
    intro id hid
    cases hid
  present := by
    intro id hid
    exact List.mem_toFinset.mpr hid
  progress := Nat.zero_le _
  rows := rfl

theorem owner (h : w.Sound) (e : Event) : (w.step (.owner e)).Sound where
  increasing := h.increasing
  below := h.below
  complete := h.complete
  honest := h.honest
  known := by
    intro id hid
    exact Finset.mem_union_left _ (h.known id hid)
  present := by
    intro id hid
    exact Finset.mem_union_right _ (List.mem_toFinset.mpr hid)
  progress := h.progress
  rows := h.rows

end Walk.Sound

section Page

variable {s : RegistryState} {after : Option RunId} {limit : ℕ}

theorem ids_of_rows (ids : List RunId) : (ids.map RunSummary.mk).map (·.id) = ids := by
  induction ids with
  | nil => rfl
  | cons id ids ih =>
    rw [List.map_cons,List.map_cons,ih]

theorem list_eq (order : HashOrder) (selection : UnstableSelection RunId) :
    s.list order selection after limit =
      (((s.remaining after).take limit).map RunSummary.mk,
        if limit < (s.remaining after).length then ((s.remaining after).take limit).getLast?
        else none) := by
  unfold RegistryState.list
  rw [RegistryState.listSummariesAfter_eq]
  dsimp only
  by_cases h : limit < (s.remaining after).length
  · rw [decide_eq_true h,if_pos rfl,if_pos h,← List.getLast?_map,ids_of_rows]
  · rw [decide_eq_false h,if_neg Bool.false_ne_true,if_neg h]

theorem not_passes {id : RunId} (h : ¬passes after id = true) : ∃ cursor ∈ after, id ≤ cursor := by
  cases after with
  | none => exact absurd rfl h
  | some cursor =>
    refine ⟨cursor,rfl,?_⟩
    simpa [passes] using h

/-- An id of a strictly sorted list that is not above the last id of a front is in it. -/
theorem mem_take_of_le {ids : List RunId} (h : ids.Pairwise (· < ·)) {id last : RunId}
    (hid : id ∈ ids) (hlast : (ids.take limit).getLast? = some last) (hle : id ≤ last) :
    id ∈ ids.take limit := by
  rw [← List.take_append_drop limit ids] at h hid
  rcases List.mem_append.mp hid with hid | hid
  · exact hid
  · have hlt := (List.pairwise_append.mp h).2.2 last (List.mem_of_getLast? hlast) id hid
    exact absurd hle (not_le.mpr hlt)

theorem le_last {ids : List RunId} (h : ids.Pairwise (· < ·)) {id last : RunId}
    (hid : id ∈ ids) (hlast : ids.getLast? = some last) : id ≤ last := by
  obtain ⟨front,rfl⟩ := List.getLast?_eq_some_iff.mp hlast
  rcases List.mem_append.mp hid with hid | hid
  · exact ((List.pairwise_append.mp h).2.2 id hid last (List.mem_singleton.mpr rfl)).le
  · exact (List.mem_singleton.mp hid).le

end Page

/-- What a page adds to the walk: a front of the sorted ids above the cursor. -/
structure PageTaken (w w' : Walk) (limit : ℕ) : Prop where
  system : w'.system = w.system
  known : w'.known = w.known
  received : w'.received = w.received ++ (w.system.registry.remaining w.cursor).take limit
  pages : w'.pages = w.pages ++ [⟨w.cursor,limit,w.system.registry.runs.keys,
    (w.system.registry.remaining w.cursor).take limit,
    decide (limit < (w.system.registry.remaining w.cursor).length)⟩]
  last : (w'.ended = true ∧ (w.system.registry.remaining w.cursor).length ≤ limit) ∨
    (w'.ended = false ∧ limit < (w.system.registry.remaining w.cursor).length ∧
      ∃ last, ((w.system.registry.remaining w.cursor).take limit).getLast? = some last ∧
        w'.cursor = some last)

theorem takePage_taken (w : Walk) (order : HashOrder) (selection : UnstableSelection RunId)
    {limit : ℕ} (hpos : 0 < limit) : PageTaken w (w.takePage order selection limit) limit := by
  unfold Walk.takePage
  dsimp only
  rw [list_eq]
  dsimp only
  have hrows : (((w.system.registry.remaining w.cursor).take limit).map RunSummary.mk).map
      (·.id) = (w.system.registry.remaining w.cursor).take limit := ids_of_rows _
  rw [hrows]
  by_cases hmore : limit < (w.system.registry.remaining w.cursor).length
  · have hne : (w.system.registry.remaining w.cursor).take limit ≠ [] := by
      apply List.ne_nil_of_length_pos
      rw [List.length_take]
      omega
    have hlast := List.getLast?_eq_some_getLast hne
    rw [if_pos hmore,hlast]
    refine ⟨rfl,rfl,rfl,?_,?_⟩
    · simp [hmore]
    · exact Or.inr ⟨rfl,hmore,_,hlast,rfl⟩
  · rw [if_neg hmore]
    refine ⟨rfl,rfl,rfl,?_,?_⟩
    · simp [hmore]
    · exact Or.inl ⟨rfl,by omega⟩

namespace Walk.Sound

variable {w : Walk}

theorem page (h : w.Sound) (hopen : w.ended = false) {w' : Walk} {limit : ℕ} (hpos : 0 < limit)
    (t : PageTaken w w' limit) : w'.Sound := by
  have hstrict := RegistryState.remaining_strict (s := w.system.registry) w.cursor
  have hfront : ((w.system.registry.remaining w.cursor).take limit).Pairwise (· < ·) :=
    hstrict.sublist (List.take_sublist _ _)
  have hpasses : ∀ id ∈ (w.system.registry.remaining w.cursor).take limit,
      id ∈ w.system.registry.runs ∧ passes w.cursor id = true :=
    fun id hid => RegistryState.mem_remaining.mp (List.mem_of_mem_take hid)
  have habove : ∀ x ∈ w.received, ∀ y ∈ (w.system.registry.remaining w.cursor).take limit,
      x < y := by
    intro x hx y hy
    obtain ⟨cursor,hcursor,hle⟩ := h.below hopen x hx
    have hlt := (hpasses y hy).2
    rw [Option.mem_def.mp hcursor] at hlt
    exact hle.trans_lt (of_decide_eq_true hlt)
  constructor
  · rw [t.received]
    exact List.pairwise_append.mpr ⟨h.increasing,hfront,habove⟩
  · intro hended id hid
    rcases t.last with ⟨hdone,-⟩ | ⟨-,-,last,hlast,hcursor⟩
    · rw [hdone] at hended
      cases hended
    · refine ⟨last,hcursor,?_⟩
      rw [t.received] at hid
      rcases List.mem_append.mp hid with hid | hid
      · exact (habove id hid last (List.mem_of_getLast? hlast)).le
      · exact le_last hfront hid hlast
  · intro id hsettled hpresent
    rw [t.pages] at hpresent
    rw [t.received]
    by_cases hold : passes w.cursor id = true
    · have hkeys : id ∈ w.system.registry.runs.keys :=
        hpresent _ (List.mem_append_right _ (List.mem_singleton.mpr rfl))
      have hremaining : id ∈ w.system.registry.remaining w.cursor :=
        RegistryState.mem_remaining.mpr ⟨AList.mem_keys.mp hkeys,hold⟩
      apply List.mem_append_right
      rcases t.last with ⟨hdone,hall⟩ | ⟨hmore,-,last,hlast,hcursor⟩
      · rw [List.take_of_length_le hall]
        exact hremaining
      · rcases hsettled with hended | ⟨cursor,hc,hle⟩
        · rw [hmore] at hended
          cases hended
        · rw [Option.mem_def,hcursor] at hc
          cases hc
          exact mem_take_of_le hstrict hremaining hlast hle
    · apply List.mem_append_left
      apply h.complete id (Or.inr (not_passes hold))
      exact fun p hp => hpresent p (List.mem_append_left _ hp)
  · intro p hp
    rw [t.pages] at hp
    rcases List.mem_append.mp hp with hp | hp
    · exact h.honest p hp
    · rw [List.mem_singleton.mp hp]
      refine ⟨rfl,?_,?_⟩
      · simp [RegistryState.remaining]
      · intro hmore
        apply List.ne_nil_of_length_pos
        rw [List.length_take]
        have := of_decide_eq_true hmore
        omega
  · intro id hid
    rw [t.received] at hid
    rw [t.known]
    rcases List.mem_append.mp hid with hid | hid
    · exact h.known id hid
    · exact h.present id (AList.mem_keys.mpr (hpasses id hid).1)
  · rw [t.system,t.known]
    exact h.present
  · have hprogress := h.progress
    rw [hopen] at hprogress
    rw [t.pages,t.received,List.length_append,List.length_append,List.length_singleton]
    rcases t.last with ⟨hdone,-⟩ | ⟨hgoes,hmore,-⟩
    · rw [hdone]
      simp only [Bool.toNat_false,Bool.toNat_true] at hprogress ⊢
      omega
    · rw [hgoes,List.length_take]
      simp only [Bool.toNat_false] at hprogress ⊢
      omega
  · rw [t.received,t.pages,List.flatMap_append,← h.rows]
    simp

theorem step (h : w.Sound) (e : WalkEvent) : (w.step e).Sound := by
  cases e with
  | owner e => exact h.owner e
  | page order selection limit =>
    unfold Walk.step
    dsimp only
    split
    · exact h
    · next hopen => exact h.page (by simpa using hopen) limit.pos (takePage_taken w order selection limit.pos)

theorem received_le (h : w.Sound) : w.received.length ≤ w.known.card := by
  have hnodup : w.received.Nodup := h.increasing.imp fun hlt => ne_of_lt hlt
  rw [← List.toFinset_card_of_nodup hnodup]
  apply Finset.card_le_card
  intro id hid
  exact h.known id (List.mem_toFinset.mp hid)

end Walk.Sound

theorem step_ended {w : Walk} (e : WalkEvent) (h : w.ended = true) : (w.step e).ended = true := by
  cases e with
  | owner e => exact h
  | page order selection limit =>
    unfold Walk.step
    dsimp only
    rw [if_pos h]
    exact h

theorem step_pages (w : Walk) (e : WalkEvent) (h : w.ended = false) :
    (w.step e).pages.length = w.pages.length+e.isPage.toNat := by
  cases e with
  | owner e => rfl
  | page order selection limit =>
    unfold Walk.step
    dsimp only
    rw [h,if_neg Bool.false_ne_true,(takePage_taken w order selection limit.pos).pages]
    exact List.length_append

/-- Until the walk has ended, every page event is answered. -/
theorem pages_counted (es : List WalkEvent) (w : Walk)
    (hopen : (Machine.run Walk.step w es).ended = false) :
    (Machine.run Walk.step w es).pages.length = w.pages.length+es.countP (·.isPage) := by
  have hended : ∀ (w : Walk) (es : List WalkEvent), w.ended = true →
      (Machine.run Walk.step w es).ended = true := by
    intro w es h
    exact Machine.run_invariant (I := fun w => Walk.ended w = true)
      (fun _ e hw => step_ended e hw) h es
  induction es generalizing w with
  | nil => rfl
  | cons e es ih =>
    have hw : w.ended = false := by
      cases h : w.ended with
      | false => rfl
      | true => rw [hended w (e::es) h] at hopen; cases hopen
    rw [Machine.run_cons] at hopen ⊢
    rw [ih (w.step e) hopen,step_pages w e hw,List.countP_cons]
    cases e.isPage with
    | false => simp
    | true =>
      simp only [Bool.toNat_true,if_true]
      omega

/-- Paged listing over every interleaving with the registry's owners: the ids come in
strictly increasing order, each page is exact, a Run that stays is received, and the walk
ends after as many pages as there are Runs, and one. -/
theorem walk_complete (system : System) (es : List WalkEvent) :
    let w := Machine.run Walk.step (Walk.start system) es
    w.received = w.pages.flatMap (·.rows) ∧ w.received.Pairwise (· < ·) ∧
    (∀ p ∈ w.pages, p.Exact ∧ ∀ id ∈ p.rows, id ∈ p.present) ∧
    (w.ended = true → ∀ id, (∀ p ∈ w.pages, id ∈ p.present) → id ∈ w.received) ∧
    w.pages.length ≤ w.known.card+1 ∧
    (w.known.card < es.countP (·.isPage) → w.ended = true) := by
  intro w
  have hsound : w.Sound :=
    Machine.run_invariant (I := Walk.Sound) (fun _ e hw => Walk.Sound.step hw e)
      (Walk.Sound.start system) es
  have hreceived := hsound.received_le
  refine ⟨hsound.rows,hsound.increasing,?_,?_,?_,?_⟩
  · intro p hp
    refine ⟨hsound.honest p hp,?_⟩
    intro id hid
    rw [(hsound.honest p hp).rows] at hid
    have hsorted := Selection.mem_sorted.mp (List.mem_of_mem_take hid)
    exact (List.mem_filter.mp hsorted).1
  · intro hended id hpresent
    exact hsound.complete id (Or.inl hended) hpresent
  · have hprogress := hsound.progress
    have hone : w.ended.toNat ≤ 1 := Bool.toNat_le w.ended
    omega
  · intro hmany
    cases hopen : w.ended with
    | true => rfl
    | false =>
      have hcount := pages_counted es (Walk.start system) hopen
      have hprogress := hsound.progress
      rw [hopen] at hprogress
      have hlength : w.pages.length = es.countP (·.isPage) := by
        rw [hcount]
        exact Nat.zero_add _
      simp only [Bool.toNat_false] at hprogress
      omega

/-- Pages leave the registry alone, and each is taken of all its Runs. -/
theorem run_pages {es : List WalkEvent} (h : ∀ e ∈ es, e.isPage = true) (w : Walk) :
    (Machine.run Walk.step w es).known = w.known ∧
      ∀ p ∈ (Machine.run Walk.step w es).pages, p ∈ w.pages ∨
        p.present = w.system.registry.runs.keys := by
  induction es generalizing w with
  | nil => exact ⟨rfl,fun p hp => .inl hp⟩
  | cons e es ih =>
    have hstep : (w.step e).known = w.known ∧ (w.step e).system = w.system ∧
        ∀ p ∈ (w.step e).pages, p ∈ w.pages ∨ p.present = w.system.registry.runs.keys := by
      cases e with
      | owner e => cases h (.owner e) (by simp)
      | page order selection limit =>
        simp only [Walk.step]
        split
        · exact ⟨rfl,rfl,fun p hp => .inl hp⟩
        · refine ⟨rfl,rfl,fun p hp => ?_⟩
          rcases List.mem_append.mp hp with hp | hp
          · exact .inl hp
          · exact .inr (List.mem_singleton.mp hp ▸ rfl)
    obtain ⟨hknown,hsystem,hpages⟩ := hstep
    obtain ⟨hrest,hpresent⟩ := ih (fun e' he' => h e' (by simp [he'])) (w.step e)
    rw [Machine.run_cons]
    refine ⟨hrest.trans hknown,fun p hp => ?_⟩
    rcases hpresent p hp with hp | hp
    · exact hpages p hp
    · exact .inr (hsystem ▸ hp)

def twoRuns : System :=
  System.recovered ⟨4,4,100,100⟩
    ⟨[⟨⟨"run-b"⟩,"first",1,none⟩,⟨⟨"run-a"⟩,"second",1,none⟩],by decide,by decide,by decide,by simp⟩

/-- Three pages of one row list both Runs. -/
theorem walk_complete_two :
    let w := Machine.run Walk.step (Walk.start twoRuns)
      (List.replicate 3 (.page .inserted .full 1))
    w.ended = true ∧ w.received.Pairwise (· < ·) ∧ ⟨"run-a"⟩ ∈ w.received ∧
      ⟨"run-b"⟩ ∈ w.received := by
  intro w
  have hpages : ∀ e ∈ List.replicate 3 (WalkEvent.page .inserted .full 1), e.isPage = true :=
    fun e he => List.eq_of_mem_replicate he ▸ rfl
  obtain ⟨hknown,hpresent⟩ := run_pages hpages (Walk.start twoRuns)
  obtain ⟨-,hincreasing,-,hcomplete,-,hends⟩ :=
    walk_complete twoRuns (List.replicate 3 (.page .inserted .full 1))
  have hended : w.ended = true := hends (by rw [hknown]; decide)
  have hall : ∀ id ∈ twoRuns.registry.runs.keys, id ∈ w.received := by
    intro id hid
    refine hcomplete hended id fun p hp => ?_
    rcases hpresent p hp with hp | hp
    · cases hp
    · exact hp ▸ hid
  exact ⟨hended,hincreasing,hall _ (by decide),hall _ (by decide)⟩

end Registry
end Ctxmux
