import Ctxmux.JsonText

/-!
# The duplicate-member scanner of the SDK

The scanner keeps a small stack of the arrays and objects it is in. A position in the text
is the suffix that begins there. On a valid text it takes a string for a name exactly when
it is one, so it throws exactly when an object repeats a name.
-/

namespace Ctxmux
namespace Json

open CodeUnits

namespace Sdk

inductive Context where
  | array
  | object (keys : List (List CodeUnit))
deriving DecidableEq,Repr

inductive SyntaxError where
  | duplicateMember (key : List CodeUnit)
  | invalidString
deriving DecidableEq,Repr

/-- The body of a string and the text after its closing quote, if there is one. -/
def stringEnd : List CodeUnit → Option (List CodeUnit × List CodeUnit)
  | [] => none
  | u::text =>
    if u = unit '\\' then
      match text with
      | [] => none
      | v::text => (stringEnd text).map fun found => (u::v::found.1,found.2)
    else if u = unit '"' then some ([],text)
    else (stringEnd text).map fun found => (u::found.1,found.2)

/-- The whitespace of a regular expression. -/
def isWhitespace (u : CodeUnit) : Bool :=
  let n := u.toNat
  9 ≤ n && n ≤ 13 || n = 0x20 || n = 0xA0 || n = 0x1680 || 0x2000 ≤ n && n ≤ 0x200A ||
    n = 0x2028 || n = 0x2029 || n = 0x202F || n = 0x205F || n = 0x3000 || n = 0xFEFF

def nextNonWhitespace : List CodeUnit → Option CodeUnit
  | [] => none
  | u::text => if isWhitespace u = true then nextNonWhitespace text else some u

def simpleEscape (u : CodeUnit) : Option CodeUnit :=
  if u = unit '"' then some u
  else if u = unit '\\' then some u
  else if u = unit '/' then some u
  else if u = unit 'b' then some 8
  else if u = unit 'f' then some 12
  else if u = unit 'n' then some 10
  else if u = unit 'r' then some 13
  else if u = unit 't' then some 9
  else none

/-- `JSON.parse` of a string literal with this body. -/
def parseString : List CodeUnit → Option (List CodeUnit)
  | [] => some []
  | u::text =>
    if u = unit '\\' then
      match text with
      | [] => none
      | v::text =>
        if v = unit 'u' then
          match text with
          | a::b::c::d::text => do
            let a ← hexValue a
            let b ← hexValue b
            let c ← hexValue c
            let d ← hexValue d
            let rest ← parseString text
            some (ofHex a b c d::rest)
          | _ => none
        else do
          let meaning ← simpleEscape v
          let rest ← parseString text
          some (meaning::rest)
    else if isPlain u = true then do
      let rest ← parseString text
      some (u::rest)
    else none

/-- The loop of `rejectDuplicateObjectMembers`, for at most so many iterations. It is `none`
when it has not ended by then. -/
def rejectWithin : ℕ → List CodeUnit → List Context → Option (Except SyntaxError Unit)
  | _, [], _ => some (.ok ())
  | 0, _::_, _ => none
  | steps+1, u::text, stack =>
    if u = unit '{' then rejectWithin steps text (.object []::stack)
    else if u = unit '[' then rejectWithin steps text (.array::stack)
    else if u = unit '}' ∨ u = unit ']' then rejectWithin steps text stack.tail
    else if u = unit '"' then
      match stringEnd text with
      | none => some (.ok ())
      | some (body,text) =>
        match stack with
        | .object keys::stack =>
          if nextNonWhitespace text = some (unit ':') then
            match parseString body with
            | none => some (.error .invalidString)
            | some key =>
              if key ∈ keys then some (.error (.duplicateMember key))
              else rejectWithin steps text (.object (key::keys)::stack)
          else rejectWithin steps text (.object keys::stack)
        | stack => rejectWithin steps text stack
    else rejectWithin steps text stack

theorem stringEnd_escape (v : CodeUnit) (text : List CodeUnit) :
    stringEnd (unit '\\'::v::text) =
      (stringEnd text).map fun found => (unit '\\'::v::found.1,found.2) := by
  rw [stringEnd,if_pos rfl]

theorem stringEnd_quote (text : List CodeUnit) : stringEnd (unit '"'::text) = some ([],text) := by
  rw [stringEnd.eq_def]
  rfl

variable {u : CodeUnit}

theorem stringEnd_other (hslash : u ≠ unit '\\') (hquote : u ≠ unit '"') (text : List CodeUnit) :
    stringEnd (u::text) = (stringEnd text).map fun found => (u::found.1,found.2) := by
  rw [stringEnd.eq_def]
  dsimp only
  rw [if_neg hslash,if_neg hquote]

theorem stringEnd_length {text body rest : List CodeUnit}
    (h : stringEnd text = some (body,rest)) : rest.length < text.length := by
  induction text using stringEnd.induct generalizing body with
  | case1 => cases h
  | case2 => simp [stringEnd] at h
  | case3 v text ih =>
    simp only [stringEnd_escape,Option.map_eq_some_iff] at h
    obtain ⟨⟨found,left⟩,hfound,heq⟩ := h
    cases heq
    have hrest := ih hfound
    simp only [List.length_cons]
    exact hrest.trans (by omega)
  | case4 text hquote =>
    simp only [stringEnd_quote,Option.some.injEq,Prod.mk.injEq] at h
    rw [← h.2]
    exact Nat.lt_succ_self _
  | case5 u text hslash hquote ih =>
    simp only [stringEnd_other hslash hquote,Option.map_eq_some_iff] at h
    obtain ⟨⟨found,left⟩,hfound,heq⟩ := h
    cases heq
    exact (ih hfound).trans (Nat.lt_succ_self _)

/-- Every iteration takes the loop further, whatever the text is. -/
theorem rejectWithin_isSome {steps : ℕ} {text : List CodeUnit} (h : text.length ≤ steps)
    (stack : List Context) : (rejectWithin steps text stack).isSome = true := by
  induction steps generalizing text stack with
  | zero =>
    cases List.length_eq_zero_iff.mp (Nat.le_zero.mp h)
    rfl
  | succ steps ih =>
    cases text with
    | nil => rfl
    | cons u text =>
      have hrest : text.length ≤ steps := Nat.le_of_succ_le_succ h
      unfold rejectWithin
      split
      · exact ih hrest _
      · split
        · exact ih hrest _
        · split
          · exact ih hrest _
          · split
            · cases hend : stringEnd text with
              | none => rfl
              | some found =>
                obtain ⟨body,rest⟩ := found
                have hlt := stringEnd_length hend
                have hleft : rest.length ≤ steps := by omega
                dsimp only
                split
                · split
                  · split
                    · rfl
                    · split
                      · rfl
                      · exact ih hleft _
                  · exact ih hleft _
                · exact ih hleft _
            · exact ih hrest _

/-- The loop ends with a result, given as many iterations as there are units left. -/
def Ends (text : List CodeUnit) (stack : List Context) (result : Except SyntaxError Unit) : Prop :=
  ∀ steps, text.length ≤ steps → rejectWithin steps text stack = some result

section Ends

variable {text : List CodeUnit} {stack : List Context} {result : Except SyntaxError Unit}

theorem Ends.nil : Ends [] stack (.ok ()) := by
  intro steps _
  cases steps <;> rfl

/-- A unit that opens or closes nothing. -/
def isInner (u : CodeUnit) : Bool :=
  u ≠ unit '{' && u ≠ unit '[' && u ≠ unit '}' && u ≠ unit ']' && u ≠ unit '"'

theorem Ends.inner (hu : isInner u = true) (h : Ends text stack result) :
    Ends (u::text) stack result := by
  intro steps hsteps
  simp only [isInner,Bool.and_eq_true,decide_eq_true_eq] at hu
  obtain ⟨⟨⟨⟨hbrace,hbracket⟩,hbrace'⟩,hbracket'⟩,hquote⟩ := hu
  cases steps with
  | zero => cases hsteps
  | succ steps =>
    rw [rejectWithin,if_neg hbrace,if_neg hbracket,if_neg (not_or.mpr ⟨hbrace',hbracket'⟩),
      if_neg hquote]
    exact h steps (Nat.le_of_succ_le_succ hsteps)

theorem Ends.inners {units : List CodeUnit} (hunits : ∀ u ∈ units, isInner u = true)
    (h : Ends text stack result) : Ends (units ++ text) stack result := by
  induction units with
  | nil => exact h
  | cons u units ih =>
    exact (ih fun v hv => hunits v (List.mem_cons_of_mem _ hv)).inner
      (hunits u List.mem_cons_self)

theorem Ends.openObject (h : Ends text (.object []::stack) result) :
    Ends (unit '{'::text) stack result := by
  intro steps hsteps
  cases steps with
  | zero => cases hsteps
  | succ steps =>
    rw [rejectWithin,if_pos rfl]
    exact h steps (Nat.le_of_succ_le_succ hsteps)

theorem Ends.openArray (h : Ends text (.array::stack) result) :
    Ends (unit '['::text) stack result := by
  intro steps hsteps
  cases steps with
  | zero => cases hsteps
  | succ steps =>
    rw [rejectWithin,if_neg (by decide),if_pos rfl]
    exact h steps (Nat.le_of_succ_le_succ hsteps)

theorem Ends.close (hu : u = unit '}' ∨ u = unit ']') (context : Context)
    (h : Ends text stack result) : Ends (u::text) (context::stack) result := by
  intro steps hsteps
  have hbrace : u ≠ unit '{' := by
    rintro rfl
    revert hu
    decide
  have hbracket : u ≠ unit '[' := by
    rintro rfl
    revert hu
    decide
  cases steps with
  | zero => cases hsteps
  | succ steps =>
    rw [rejectWithin,if_neg hbrace,if_neg hbracket,if_pos hu]
    exact h steps (Nat.le_of_succ_le_succ hsteps)

end Ends

/-! ## Strings -/

theorem not_special (hu : isPlain u = true) : u ≠ unit '\\' ∧ u ≠ unit '"' := by
  simp only [isPlain,Bool.and_eq_true,decide_eq_true_eq] at hu
  exact ⟨hu.2,hu.1.2⟩

theorem plain_of_hex (hu : (hexValue u).isSome = true) : isPlain u = true := by
  have hne : ∀ c : CodeUnit, hexValue c = none → u ≠ c := by
    rintro c hc rfl
    rw [hc] at hu
    cases hu
  have hquote := hne (unit '"') (by decide)
  have hslash := hne (unit '\\') (by decide)
  have hlarge : 32 ≤ u.toNat := by
    by_contra hsmall
    simp only [hexValue] at hu
    rw [if_neg (by omega),if_neg (by omega),if_neg (by omega)] at hu
    cases hu
  simp only [isPlain,Bool.and_eq_true,decide_eq_true_eq]
  exact ⟨⟨hlarge,hquote⟩,hslash⟩

theorem stringEnd_plains {units : List CodeUnit} (hunits : ∀ u ∈ units, isPlain u = true)
    (text : List CodeUnit) :
    stringEnd (units ++ text) =
      (stringEnd text).map fun found => (units ++ found.1,found.2) := by
  induction units with
  | nil => exact Option.map_id'.symm ▸ rfl
  | cons u units ih =>
    obtain ⟨hslash,hquote⟩ := not_special (hunits u List.mem_cons_self)
    rw [List.cons_append,stringEnd_other hslash hquote,
      ih fun v hv => hunits v (List.mem_cons_of_mem _ hv),Option.map_map]
    rfl

theorem stringEnd_piece (p : Piece) (text : List CodeUnit) :
    stringEnd (p.source ++ text) =
      (stringEnd text).map fun found => (p.source ++ found.1,found.2) := by
  cases p with
  | plain u h => exact stringEnd_plains (by simpa [Piece.source] using h) text
  | escape e => exact stringEnd_escape e.letter text
  | hex a b c d =>
    have hdigits : ∀ u ∈ [a.1,b.1,c.1,d.1], isPlain u = true := by
      simp only [List.mem_cons,List.not_mem_nil,or_false,forall_eq_or_imp,forall_eq]
      exact ⟨plain_of_hex a.2,plain_of_hex b.2,plain_of_hex c.2,plain_of_hex d.2⟩
    have hrest := stringEnd_plains hdigits text
    show stringEnd (unit '\\'::unit 'u'::([a.1,b.1,c.1,d.1] ++ text)) = _
    rw [stringEnd_escape,hrest,Option.map_map]
    rfl

/-- The scanner finds the end of a literal, whatever its pieces are. -/
theorem stringEnd_literal (ps : Pieces) (text : List CodeUnit) :
    stringEnd (ps.body ++ unit '"'::text) = some (ps.body,text) := by
  induction ps with
  | nil => exact stringEnd_quote text
  | cons p ps ih =>
    have hbody : Pieces.body (p::ps) = p.source ++ Pieces.body ps := List.flatMap_cons
    rw [hbody,List.append_assoc,stringEnd_piece,ih]
    rfl

theorem simpleEscape_letter (e : Escape) : simpleEscape e.letter = some e.meaning := by
  cases e <;> rfl

theorem parseString_plain (hu : isPlain u = true) (text : List CodeUnit) :
    parseString (u::text) = (parseString text).map (u::·) := by
  rw [parseString.eq_def]
  dsimp only
  rw [if_neg (not_special hu).1,if_pos hu]
  cases parseString text <;> rfl

theorem parseString_escape (e : Escape) (text : List CodeUnit) :
    parseString (unit '\\'::e.letter::text) = (parseString text).map (e.meaning::·) := by
  have hletter : e.letter ≠ unit 'u' := by cases e <;> decide
  rw [parseString.eq_def]
  dsimp only
  rw [if_pos rfl,if_neg hletter,simpleEscape_letter]
  cases parseString text <;> rfl

theorem parseString_hex (a b c d : {u : CodeUnit // (hexValue u).isSome = true})
    (text : List CodeUnit) :
    parseString (unit '\\'::unit 'u'::a.1::b.1::c.1::d.1::text) =
      (parseString text).map ((Piece.hex a b c d).meaning::·) := by
  rw [parseString.eq_def]
  dsimp only
  rw [if_pos rfl,if_pos rfl,← Option.some_get a.2,← Option.some_get b.2,← Option.some_get c.2,
    ← Option.some_get d.2]
  cases parseString text <;> rfl

theorem parseString_literal (ps : Pieces) : parseString ps.body = some ps.unescaped := by
  induction ps with
  | nil => rfl
  | cons p ps ih =>
    have hbody : Pieces.body (p::ps) = p.source ++ Pieces.body ps := List.flatMap_cons
    rw [hbody]
    cases p with
    | plain u h => exact (parseString_plain h _).trans (congrArg _ ih)
    | escape e => exact (parseString_escape e _).trans (congrArg _ ih)
    | hex a b c d => exact (parseString_hex a b c d _).trans (congrArg _ ih)

/-! ## Tokens -/

theorem whitespace_of_blank (hu : isBlank u = true) :
    isWhitespace u = true ∧ isInner u = true := by
  simp only [isBlank,Bool.or_eq_true,decide_eq_true_eq] at hu
  rcases hu with ((rfl | rfl) | rfl) | rfl <;> decide

theorem next_blank (blank : Blank) (hu : isWhitespace u = false) (text : List CodeUnit) :
    nextNonWhitespace (blank ++ u::text) = some u := by
  obtain ⟨units,hunits⟩ := blank
  show nextNonWhitespace (units ++ u::text) = some u
  induction units with
  | nil =>
    rw [List.nil_append,nextNonWhitespace,hu]
    rfl
  | cons v units ih =>
    rw [List.cons_append,nextNonWhitespace,
      if_pos (whitespace_of_blank (hunits v List.mem_cons_self)).1]
    exact ih fun w hw => hunits w (List.mem_cons_of_mem _ hw)

theorem next_end (blank : Blank) : nextNonWhitespace (blank : List CodeUnit) = none := by
  obtain ⟨units,hunits⟩ := blank
  show nextNonWhitespace units = none
  induction units with
  | nil => rfl
  | cons v units ih =>
    rw [nextNonWhitespace,if_pos (whitespace_of_blank (hunits v List.mem_cons_self)).1]
    exact ih fun w hw => hunits w (List.mem_cons_of_mem _ hw)

theorem inner_of_digit {c : Char} (hc : c.isDigit = true) : isInner (unit c) = true := by
  simp only [Char.isDigit,Bool.and_eq_true,decide_eq_true_eq] at hc
  have hlow : 48 ≤ c.toNat := hc.1
  have hhigh : c.toNat ≤ 57 := hc.2
  have hunit : (unit c).toNat = c.toNat := by
    unfold unit
    rw [UInt16.toNat_ofNat']
    omega
  have hne : ∀ v : CodeUnit, v.toNat < 48 ∨ 57 < v.toNat → unit c ≠ v := by
    rintro v hv rfl
    omega
  simp only [isInner,Bool.and_eq_true,decide_eq_true_eq]
  exact ⟨⟨⟨⟨hne _ (by decide),hne _ (by decide)⟩,hne _ (by decide)⟩,hne _ (by decide)⟩,
    hne _ (by decide)⟩

theorem inner_of_number (token : Version.NumberToken) :
    ∀ u ∈ token.source.map unit, isInner u = true := by
  have hdigits : ∀ {cs : List Char}, Decimal.IsDigits cs → ∀ c ∈ cs, isInner (unit c) = true :=
    fun hcs c hc => inner_of_digit (hcs c hc)
  simp only [List.mem_map,forall_exists_index,and_imp,forall_apply_eq_imp_iff₂]
  intro c hc
  simp only [Version.NumberToken.source,List.mem_append] at hc
  rcases hc with hc | hc | hc | hc
  · split at hc
    · cases List.mem_singleton.mp hc
      decide
    · cases hc
  · exact hdigits token.integer_digits c hc
  · unfold Version.NumberToken.fractionSource at hc
    cases hfraction : token.fraction with
    | none =>
      rw [hfraction] at hc
      cases hc
    | some digits =>
      rw [hfraction] at hc
      rcases List.mem_cons.mp hc with rfl | hc
      · decide
      · exact hdigits (token.fraction_digits digits hfraction).1 c hc
  · unfold Version.NumberToken.exponentSource at hc
    cases hexponent : token.exponent with
    | none =>
      rw [hexponent] at hc
      cases hc
    | some e =>
      obtain ⟨hletter,hsign,hspelled,_⟩ := token.exponent_digits e hexponent
      rw [hexponent] at hc
      rcases List.mem_cons.mp hc with rfl | hc
      · rcases hletter with h | h <;> rw [h] <;> decide
      · rcases List.mem_append.mp hc with hc | hc
        · rcases hsign c (Option.mem_toList.mp hc) with rfl | rfl <;> decide
        · exact hdigits hspelled c hc

theorem inner_of_atom (a : Atom) : ∀ u ∈ a.source, isInner u = true := by
  cases a with
  | number token => exact inner_of_number token
  | _ => exact List.all_eq_true.mp (by decide)

section Ends

variable {text : List CodeUnit} {stack : List Context} {result : Except SyntaxError Unit}

theorem Ends.blank (blank : Blank) (h : Ends text stack result) :
    Ends (blank ++ text) stack result :=
  h.inners fun u hu => (whitespace_of_blank (blank.2 u hu)).2

theorem literal_append (ps : Pieces) (text : List CodeUnit) :
    ps.literal ++ text = unit '"'::(ps.body ++ unit '"'::text) := by
  simp only [Pieces.literal,List.cons_append,List.append_assoc,List.nil_append]

theorem rejectWithin_literal (ps : Pieces) (steps : ℕ) :
    rejectWithin (steps+1) (ps.literal ++ text) stack =
      match stack with
      | .object keys::stack =>
        if nextNonWhitespace text = some (unit ':') then
          if ps.unescaped ∈ keys then some (.error (.duplicateMember ps.unescaped))
          else rejectWithin steps text (.object (ps.unescaped::keys)::stack)
        else rejectWithin steps text (.object keys::stack)
      | stack => rejectWithin steps text stack := by
  rw [literal_append,rejectWithin,if_neg (by decide),if_neg (by decide),if_neg (by decide),
    if_pos rfl,stringEnd_literal]
  dsimp only
  rw [parseString_literal]

theorem literal_length (ps : Pieces) : text.length+1 ≤ (ps.literal ++ text).length := by
  rw [literal_append]
  simp only [List.length_cons,List.length_append]
  omega

/-- A string that no colon follows is not taken for a name. -/
theorem Ends.string (ps : Pieces) (hnext : nextNonWhitespace text ≠ some (unit ':'))
    (h : Ends text stack result) : Ends (ps.literal ++ text) stack result := by
  intro steps hsteps
  have hlength : text.length+1 ≤ (ps.literal ++ text).length := literal_length ps
  cases steps with
  | zero => omega
  | succ steps =>
    rw [rejectWithin_literal]
    split
    · rw [if_neg hnext]
      exact h steps (by omega)
    · exact h steps (by omega)

theorem Ends.name (ps : Pieces) {keys : List (List CodeUnit)}
    (hnext : nextNonWhitespace text = some (unit ':')) (hnew : ps.unescaped ∉ keys)
    (h : Ends text (.object (ps.unescaped::keys)::stack) result) :
    Ends (ps.literal ++ text) (.object keys::stack) result := by
  intro steps hsteps
  have hlength : text.length+1 ≤ (ps.literal ++ text).length := literal_length ps
  cases steps with
  | zero => omega
  | succ steps =>
    rw [rejectWithin_literal]
    dsimp only
    rw [if_pos hnext,if_neg hnew]
    exact h steps (by omega)

theorem Ends.repeated (ps : Pieces) {keys : List (List CodeUnit)}
    (hnext : nextNonWhitespace text = some (unit ':')) (hold : ps.unescaped ∈ keys) :
    Ends (ps.literal ++ text) (.object keys::stack)
      (.error (.duplicateMember ps.unescaped)) := by
  intro steps hsteps
  have hlength : text.length+1 ≤ (ps.literal ++ text).length := literal_length ps
  cases steps with
  | zero => omega
  | succ steps =>
    rw [rejectWithin_literal]
    dsimp only
    rw [if_pos hnext,if_pos hold]

end Ends

/-! ## Values -/

/-- The scanner passes a part of the text, or throws in it. -/
structure Scans (source : List CodeUnit) (Thrown : Prop) (text : List CodeUnit)
    (stack stack' : List Context) : Prop where
  passes : ¬Thrown → ∀ result, Ends text stack' result → Ends (source ++ text) stack result
  throws : Thrown → ∃ e, Ends (source ++ text) stack (.error e)

section Scans

variable {text source : List CodeUnit} {stack : List Context} {keys : List (List CodeUnit)}

variable {stack' : List Context}

/-- What stands around a value keeps what the scanner does with it. -/
theorem Scans.around {tail : List CodeUnit} {Thrown Later : Prop} {stack'' : List Context}
    (h : Scans source Thrown (tail ++ text) stack stack')
    (htail : Scans tail Later text stack' stack'') :
    Scans (source ++ tail) (Thrown ∨ Later) text stack stack'' where
  passes := by
    intro hclear result hresult
    rw [List.append_assoc]
    exact h.passes (fun hthrown => hclear (.inl hthrown)) _
      (htail.passes (fun hlater => hclear (.inr hlater)) _ hresult)
  throws := by
    intro hthrown
    rw [List.append_assoc]
    by_cases hfirst : Thrown
    · exact h.throws hfirst
    · obtain ⟨e,he⟩ := htail.throws (hthrown.resolve_left hfirst)
      exact ⟨e,h.passes hfirst _ he⟩

theorem Scans.of_passes (h : ∀ result, Ends text stack' result → Ends (source ++ text) stack result)
    :
    Scans source False text stack stack' := ⟨fun _ => h,fun hfalse => hfalse.elim⟩

theorem Scans.iff {Thrown Thrown' : Prop} (h : Scans source Thrown text stack stack')
    (hiff : Thrown' ↔ Thrown) :
    Scans source Thrown' text stack stack' :=
  ⟨fun hclear => h.passes (hiff.not.mp hclear),fun hthrown => h.throws (hiff.mp hthrown)⟩

theorem Scans.blank (blank : Blank) : Scans blank False text stack stack :=
  .of_passes fun _ h => h.blank blank

theorem Scans.inner (hu : isInner u = true) : Scans [u] False text stack stack :=
  .of_passes fun _ h => h.inner hu

theorem Scans.close (hu : u = unit '}' ∨ u = unit ']') (context : Context) :
    Scans [u] False text (context::stack) stack :=
  .of_passes fun _ h => h.close hu context

/-- A name takes its place among the keys, or is thrown for being there. -/
theorem Scans.name (ps : Pieces) (hnext : nextNonWhitespace text = some (unit ':')) :
    Scans ps.literal (ps.unescaped ∈ keys) text (.object keys::stack)
      (.object (ps.unescaped::keys)::stack) where
  passes := fun hnew _ h => h.name ps hnext hnew
  throws := fun hold => ⟨_,Ends.repeated ps hnext hold⟩

theorem Scans.openArray : Scans [unit '['] False text stack (.array::stack) :=
  .of_passes fun _ h => h.openArray

theorem Scans.openObject : Scans [unit '{'] False text stack (.object []::stack) :=
  .of_passes fun _ h => h.openObject

/-- A separator or the closing bracket follows a value, never a colon. -/
theorem next_after (after : Blank) (hu : isWhitespace u = false) (hcolon : u ≠ unit ':')
    (rest text : List CodeUnit) :
    nextNonWhitespace (after ++ u::rest ++ text) ≠ some (unit ':') := by
  rw [List.append_assoc,List.cons_append,next_blank after hu]
  exact fun h => hcolon (Option.some.inj h)

theorem next_colon (named : Blank) (rest text : List CodeUnit) :
    nextNonWhitespace (named ++ unit ':'::rest ++ text) = some (unit ':') := by
  rw [List.append_assoc,List.cons_append,next_blank named (by decide)]

end Scans

mutual

/-- Induction on the grammar: a value leaves the stack as it was, or throws. -/
theorem Value.scanned : (value : Value) → {text : List CodeUnit} → {stack : List Context} →
    nextNonWhitespace text ≠ some (unit ':') →
      Scans value.source value.Duplicated text stack stack
  | .atom a, _, _, _ => .of_passes fun _ h => h.inners (inner_of_atom a)
  | .string ps, _, _, hnext => .of_passes fun _ h => h.string ps hnext
  | .emptyArray blank, _, _, _ => by
    refine Scans.iff (Scans.openArray.around ((Scans.blank blank).around (.close (.inr rfl) .array))) ?_
    simp [Value.Duplicated]
  | .array items, _, _, _ => by
    refine Scans.iff (Scans.openArray.around (Elements.scanned items)) ?_
    simp [Value.Duplicated]
  | .emptyObject blank, _, _, _ => by
    refine Scans.iff (Scans.openObject.around
      ((Scans.blank blank).around (.close (.inl rfl) (.object [])))) ?_
    simp [Value.Duplicated]
  | .object members, _, _, _ => by
    have hiff : (Value.object members).Duplicated ↔ ¬members.Clear [] :=
      (not_iff_comm.mp (not_duplicated_object members)).symm
    refine Scans.iff (Scans.openObject.around (Members.scanned members [])) ?_
    simp [hiff]

theorem Elements.scanned : (items : Elements) → {text : List CodeUnit} → {stack : List Context} →
    Scans items.source items.Duplicated text (.array::stack) stack
  | .last before value after, text, stack => by
    have hvalue : Scans value.source value.Duplicated ((after : List CodeUnit) ++ [unit ']'] ++ text)
        (.array::stack) (.array::stack) :=
      Value.scanned value (next_after after (by decide) (by decide) [] text)
    refine Scans.iff ((Scans.blank before).around
      (hvalue.around ((Scans.blank after).around (.close (.inr rfl) .array)))) ?_
    simp [Elements.Duplicated]
  | .more before value after items, text, stack => by
    have hvalue : Scans value.source value.Duplicated
        ((after : List CodeUnit) ++ unit ','::items.source ++ text)
        (.array::stack) (.array::stack) :=
      Value.scanned value (next_after after (by decide) (by decide) items.source text)
    refine Scans.iff ((Scans.blank before).around (hvalue.around ((Scans.blank after).around
      ((Scans.inner (u := unit ',') (by decide)).around (Elements.scanned items))))) ?_
    simp [Elements.Duplicated]

theorem Members.scanned : (members : Members) → (keys : List (List CodeUnit)) →
    {text : List CodeUnit} → {stack : List Context} →
      Scans members.source (¬members.Clear keys) text (.object keys::stack) stack
  | .last before name named middle value after, keys, text, stack => by
    have hvalue : Scans value.source value.Duplicated ((after : List CodeUnit) ++ [unit '}'] ++ text)
        (.object (name.unescaped::keys)::stack) (.object (name.unescaped::keys)::stack) :=
      Value.scanned value (next_after after (by decide) (by decide) [] text)
    refine Scans.iff ((Scans.blank before).around ((Scans.name name (next_colon named _ _)).around
      ((Scans.blank named).around ((Scans.inner (u := unit ':') (by decide)).around
        ((Scans.blank middle).around (hvalue.around ((Scans.blank after).around
          (.close (.inl rfl) (.object (name.unescaped::keys)))))))))) ?_
    simp only [Members.Clear]
    tauto
  | .more before name named middle value after members, keys, text, stack => by
    have hvalue : Scans value.source value.Duplicated
        ((after : List CodeUnit) ++ unit ','::members.source ++ text)
        (.object (name.unescaped::keys)::stack) (.object (name.unescaped::keys)::stack) :=
      Value.scanned value (next_after after (by decide) (by decide) members.source text)
    refine Scans.iff ((Scans.blank before).around ((Scans.name name (next_colon named _ _)).around
      ((Scans.blank named).around ((Scans.inner (u := unit ':') (by decide)).around
        ((Scans.blank middle).around (hvalue.around ((Scans.blank after).around
          ((Scans.inner (u := unit ',') (by decide)).around
            (Members.scanned members (name.unescaped::keys)))))))))) ?_
    simp only [Members.Clear]
    tauto

end

/-- `rejectDuplicateObjectMembers` throws exactly on the texts that repeat a name. -/
theorem scanned_text (t : JsonText) :
    (¬t.value.Duplicated → Ends t.source [] (.ok ())) ∧
      (t.value.Duplicated → ∃ e, Ends t.source [] (.error e)) := by
  have hafter : Ends (t.after : List CodeUnit) [] (.ok ()) := by
    have h : Ends ((t.after : List CodeUnit) ++ []) [] (.ok ()) := Ends.nil.blank t.after
    rwa [List.append_nil] at h
  have hnext : nextNonWhitespace (t.after : List CodeUnit) ≠ some (unit ':') := by
    rw [next_end]
    exact nofun
  have hvalue : Scans t.value.source t.value.Duplicated t.after [] [] :=
    Value.scanned t.value hnext
  constructor
  · intro hclear
    exact (hvalue.passes hclear _ hafter).blank t.before
  · intro hdup
    obtain ⟨e,he⟩ := hvalue.throws hdup
    exact ⟨e,he.blank t.before⟩

end Sdk

end Json
end Ctxmux
