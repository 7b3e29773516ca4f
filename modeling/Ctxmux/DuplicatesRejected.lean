import Ctxmux.DuplicateScan

/-!
# The duplicate-member pass of the daemon

The daemon walks the calls that its decoder makes for a text, and keeps the names of each
object apart. The decoder is outside this development: what is used of it is that the
calls for a text are those of its value. Then the pass and the scanner of the SDK accept the
same texts.
-/

namespace Ctxmux
namespace Json

open CodeUnits

mutual

/-- The calls of a decoder on a visitor, without the scalars that the visitor ignores. A
number beyond sixty-four bits is a map of one reserved name. -/
inductive Visit where
  | unit | bool | i64 | u64 | f64 | str
  | seq (items : VisitSeq)
  | map (entries : VisitMap)

inductive VisitSeq where
  | done
  | element (value : Visit) (items : VisitSeq)

inductive VisitMap where
  | done
  | entry (name : String) (value : Visit) (entries : VisitMap)

end

inductive DecodeError where
  | duplicateMember (name : String)
  | invalid
deriving DecidableEq,Repr

mutual

/-- `RejectDuplicateObjectMembers`. -/
def Visit.reject : Visit → Except DecodeError Unit
  | .seq items => items.reject
  | .map entries => entries.reject []
  | _ => .ok ()

def VisitSeq.reject : VisitSeq → Except DecodeError Unit
  | .done => .ok ()
  | .element value items => do
    value.reject
    items.reject

def VisitMap.reject : (names : List String) → VisitMap → Except DecodeError Unit
  | _, .done => .ok ()
  | names, .entry name value entries =>
    if name ∈ names then .error (.duplicateMember name)
    else do
      value.reject
      entries.reject (name::names)

end

/-- The pass on a text, with the calls that the decoder makes for it, if it is complete. -/
def rejectDuplicates (decoder : List Char → Option Visit) (text : List Char) :
    Except DecodeError Unit :=
  match decoder text with
  | none => .error .invalid
  | some visit => visit.reject

def numberToken : String := "$serde_json::private::Number"

def Atom.Calls : Atom → Visit → Prop
  | .null, visit => visit = .unit
  | .true, visit => visit = .bool
  | .false, visit => visit = .bool
  | .number _, visit => visit = .i64 ∨ visit = .u64 ∨ visit = .f64 ∨
      visit = .map (.entry numberToken .str .done)

mutual

/-- The calls for a value: its elements and members in their order, with the names unescaped. -/
def Value.Calls : Value → Visit → Prop
  | .atom a, visit => a.Calls visit
  | .string _, visit => visit = .str
  | .emptyArray _, visit => visit = .seq .done
  | .array items, visit => ∃ calls, visit = .seq calls ∧ items.Calls calls
  | .emptyObject _, visit => visit = .map .done
  | .object members, visit => ∃ calls, visit = .map calls ∧ members.Calls calls

def Elements.Calls : Elements → VisitSeq → Prop
  | .last _ value _, calls => ∃ visit, calls = .element visit .done ∧ value.Calls visit
  | .more _ value _ items, calls =>
    ∃ visit rest, calls = .element visit rest ∧ value.Calls visit ∧ items.Calls rest

def Members.Calls : Members → VisitMap → Prop
  | .last _ name _ _ value _, calls =>
    ∃ text visit, calls = .entry text visit .done ∧ encode text.toList = name.unescaped ∧
      value.Calls visit
  | .more _ name _ _ value _ members, calls =>
    ∃ text visit rest, calls = .entry text visit rest ∧ encode text.toList = name.unescaped ∧
      value.Calls visit ∧ members.Calls rest

end

theorem then_eq_ok {first second : Except DecodeError Unit} :
    (do first; second) = .ok () ↔ first = .ok () ∧ second = .ok () := by
  cases first with
  | error e => exact ⟨nofun,nofun⟩
  | ok u => exact ⟨fun h => ⟨rfl,h⟩,And.right⟩

/-- Names of the decoder are equal when they have the same units. -/
theorem mem_units {text : String} {names : List String} :
    encode text.toList ∈ names.map (fun name => encode name.toList) ↔ text ∈ names := by
  have hinj : Function.Injective fun name : String => encode name.toList :=
    encode_injective.comp fun a b h => String.toList_inj.mp h
  exact List.mem_map_of_injective hinj

theorem reject_entry {name : String} {value : Visit} {entries : VisitMap} {names : List String} :
    (VisitMap.entry name value entries).reject names = .ok () ↔
      name ∉ names ∧ value.reject = .ok () ∧ entries.reject (name::names) = .ok () := by
  rw [VisitMap.reject]
  split
  · rename_i hold
    exact ⟨nofun,fun h => absurd hold h.1⟩
  · rename_i hnew
    rw [then_eq_ok]
    exact (and_iff_right hnew).symm

mutual

theorem Value.reject_iff : (value : Value) → {visit : Visit} → value.Calls visit →
    (visit.reject = .ok () ↔ ¬value.Duplicated)
  | .atom a, visit, h => by
    have hok : visit.reject = .ok () := by
      cases a with
      | number token =>
        rcases h with rfl | rfl | rfl | rfl <;> rfl
      | _ =>
        cases h
        rfl
    simp [hok,Value.Duplicated]
  | .string ps, visit, h => by
    cases h
    simp [Visit.reject,Value.Duplicated]
  | .emptyArray blank, visit, h => by
    cases h
    simp [Visit.reject,VisitSeq.reject,Value.Duplicated]
  | .array items, visit, h => by
    obtain ⟨calls,rfl,hcalls⟩ := h
    rw [Visit.reject,Value.Duplicated]
    exact Elements.reject_iff items hcalls
  | .emptyObject blank, visit, h => by
    cases h
    simp [Visit.reject,VisitMap.reject,Value.Duplicated]
  | .object members, visit, h => by
    obtain ⟨calls,rfl,hcalls⟩ := h
    rw [Visit.reject,not_duplicated_object]
    exact Members.reject_iff members [] hcalls

theorem Elements.reject_iff : (items : Elements) → {calls : VisitSeq} → items.Calls calls →
    (calls.reject = .ok () ↔ ¬items.Duplicated)
  | .last _ value _, calls, h => by
    obtain ⟨visit,rfl,hvalue⟩ := h
    rw [VisitSeq.reject,then_eq_ok,Elements.Duplicated,← Value.reject_iff value hvalue]
    exact and_iff_left rfl
  | .more _ value _ items, calls, h => by
    obtain ⟨visit,rest,rfl,hvalue,hrest⟩ := h
    rw [VisitSeq.reject,then_eq_ok,Elements.Duplicated,not_or,Value.reject_iff value hvalue,
      Elements.reject_iff items hrest]

theorem Members.reject_iff : (members : Members) → (names : List String) → {calls : VisitMap} →
    members.Calls calls →
      (calls.reject names = .ok () ↔
        members.Clear (names.map fun name => encode name.toList))
  | .last _ name _ _ value _, names, calls, h => by
    obtain ⟨text,visit,rfl,htext,hvalue⟩ := h
    rw [reject_entry,Members.Clear,← htext,mem_units,Value.reject_iff value hvalue]
    exact and_congr_right' (and_iff_left rfl)
  | .more _ name _ _ value _ members, names, calls, h => by
    obtain ⟨text,visit,rest,rfl,htext,hvalue,hrest⟩ := h
    rw [reject_entry,Members.Clear,← htext,mem_units,Value.reject_iff value hvalue,
      Members.reject_iff members (text::names) hrest]
    rfl

end

/-- The nesting limit of the decoder. -/
def recursionLimit : ℕ := 127

/-- The decoder reads this text as its value, when the value has no lone surrogate and is
not nested too deep. -/
def Reads (decoder : List Char → Option Visit) (t : JsonText) (text : List Char) : Prop :=
  t.value.Paired → t.value.depth ≤ recursionLimit →
    ∃ visit, decoder text = some visit ∧ t.value.Calls visit

/-- The scanner throws exactly on the valid texts that repeat a name in an object, its loops
end on every text, and it accepts the texts that the pass of the daemon accepts. -/
theorem duplicates_rejected :
    (∀ t : JsonText, ∀ steps, t.source.length ≤ steps →
      ((∃ e, Sdk.rejectWithin steps t.source [] = some (.error e)) ↔ t.value.Duplicated)) ∧
    (∀ text : List CodeUnit, ∀ steps, text.length ≤ steps →
      (Sdk.rejectWithin steps text []).isSome = true) ∧
    ∀ (decoder : List Char → Option Visit) (t : JsonText) (text : List Char),
      encode text = t.source → Reads decoder t text → t.value.Paired →
        t.value.depth ≤ recursionLimit → ∀ steps, t.source.length ≤ steps →
          (Sdk.rejectWithin steps (encode text) [] = some (.ok ()) ↔
            rejectDuplicates decoder text = .ok ()) := by
  refine ⟨?_,fun text steps hsteps => Sdk.rejectWithin_isSome hsteps [],?_⟩
  · intro t steps hsteps
    obtain ⟨hclear,hdup⟩ := Sdk.scanned_text t
    constructor
    · rintro ⟨e,he⟩
      by_contra h
      rw [hclear h steps hsteps] at he
      cases he
    · intro h
      obtain ⟨e,he⟩ := hdup h
      exact ⟨e,he steps hsteps⟩
  · intro decoder t text htext hreads hpaired hdepth steps hsteps
    obtain ⟨hclear,hdup⟩ := Sdk.scanned_text t
    obtain ⟨visit,hvisit,hcalls⟩ := hreads hpaired hdepth
    rw [htext,rejectDuplicates,hvisit]
    dsimp only
    rw [Value.reject_iff t.value hcalls]
    constructor
    · intro hok h
      obtain ⟨e,he⟩ := hdup h
      rw [he steps hsteps] at hok
      cases hok
    · intro h
      exact hclear h steps hsteps

def noBlank : Blank := ⟨[],nofun⟩

def plainPiece (c : Char) (h : isPlain (unit c) = true := by decide) : Piece := .plain (unit c) h

/-- A value string that looks like a member: `{"a":"\"a\":","b":[true]}`. -/
def quotedMember : JsonText where
  before := noBlank
  value := .object (.more noBlank [plainPiece 'a'] noBlank noBlank
    (.string [.escape .quotationMark,plainPiece 'a',.escape .quotationMark,plainPiece ':']) noBlank
    (.last noBlank [plainPiece 'b'] noBlank noBlank (.array (.last noBlank (.atom .true) noBlank))
      noBlank))
  after := noBlank

def quotedMemberText : List Char := "\x7b\"a\":\"\\\"a\\\":\",\"b\":[true]\x7d".toList

def quotedMemberCalls : Visit :=
  .map (.entry "a" .str (.entry "b" (.seq (.element .bool .done)) .done))

theorem duplicates_rejected_quoted :
    Sdk.rejectWithin 25 (encode quotedMemberText) [] = some (.ok ()) ∧
      rejectDuplicates (fun _ => some quotedMemberCalls) quotedMemberText = .ok () := by
  have hscan : Sdk.rejectWithin 25 (encode quotedMemberText) [] = some (.ok ()) := by
    decide +kernel
  refine ⟨hscan,?_⟩
  refine (duplicates_rejected.2.2 (fun _ => some quotedMemberCalls) quotedMember quotedMemberText
    rfl ?_ ?_ (by decide) 25 (by decide)).mp hscan
  · intro _ _
    exact ⟨_,rfl,_,rfl,_,_,_,rfl,rfl,rfl,_,_,rfl,rfl,_,rfl,_,rfl,rfl⟩
  · exact ⟨⟨['a'],rfl⟩,⟨['\"','a','\"',':'],rfl⟩,⟨['b'],rfl⟩,trivial⟩

end Json
end Ctxmux
