import Ctxmux.CodeUnits
import Ctxmux.VersionToken

/-!
# Valid JSON texts

A valid text is a derivation of the grammar, read off as code units. A name is what its
literal means after unescaping; an object is duplicated when two of its names are equal.
-/

namespace Ctxmux
namespace Json

open CodeUnits

def unit (c : Char) : CodeUnit := UInt16.ofNat c.toNat

def isBlank (u : CodeUnit) : Bool :=
  u = unit ' ' || u = unit '\t' || u = unit '\n' || u = unit '\r'

/-- Whitespace between two tokens. -/
abbrev Blank := {blank : List CodeUnit // ∀ u ∈ blank, isBlank u = true}

inductive Escape where
  | quotationMark | reverseSolidus | solidus | backspace | formFeed | lineFeed | carriageReturn | tab
deriving DecidableEq,Repr

def Escape.letter : Escape → CodeUnit
  | .quotationMark => unit '"'
  | .reverseSolidus => unit '\\'
  | .solidus => unit '/'
  | .backspace => unit 'b'
  | .formFeed => unit 'f'
  | .lineFeed => unit 'n'
  | .carriageReturn => unit 'r'
  | .tab => unit 't'

def Escape.meaning : Escape → CodeUnit
  | .quotationMark => unit '"'
  | .reverseSolidus => unit '\\'
  | .solidus => unit '/'
  | .backspace => 8
  | .formFeed => 12
  | .lineFeed => 10
  | .carriageReturn => 13
  | .tab => 9

def hexValue (u : CodeUnit) : Option ℕ :=
  let n := u.toNat
  if 48 ≤ n ∧ n ≤ 57 then some (n-48)
  else if 97 ≤ n ∧ n ≤ 102 then some (n-87)
  else if 65 ≤ n ∧ n ≤ 70 then some (n-55)
  else none

def ofHex (a b c d : ℕ) : CodeUnit := UInt16.ofNat (((a*16+b)*16+c)*16+d)

/-- A unit that stands for itself in a string. -/
def isPlain (u : CodeUnit) : Bool := 32 ≤ u.toNat && u ≠ unit '"' && u ≠ unit '\\'

/-- One code unit of a string, as it is written. -/
inductive Piece where
  | plain (u : CodeUnit) (h : isPlain u = true)
  | escape (e : Escape)
  | hex (a b c d : {u : CodeUnit // (hexValue u).isSome = true})
deriving DecidableEq

def Piece.source : Piece → List CodeUnit
  | .plain u _ => [u]
  | .escape e => [unit '\\',e.letter]
  | .hex a b c d => [unit '\\',unit 'u',a,b,c,d]

def Piece.meaning : Piece → CodeUnit
  | .plain u _ => u
  | .escape e => e.meaning
  | .hex a b c d => ofHex ((hexValue a).get a.2) ((hexValue b).get b.2) ((hexValue c).get c.2)
      ((hexValue d).get d.2)

abbrev Pieces := List Piece

def Pieces.body (ps : Pieces) : List CodeUnit := ps.flatMap Piece.source

/-- The literal with its quotes. -/
def Pieces.literal (ps : Pieces) : List CodeUnit := unit '"'::(ps.body ++ [unit '"'])

def Pieces.unescaped (ps : Pieces) : List CodeUnit := ps.map Piece.meaning

inductive Atom where
  | null | true | false
  | number (token : Version.NumberToken)

def Atom.source : Atom → List CodeUnit
  | .null => "null".toList.map unit
  | .true => "true".toList.map unit
  | .false => "false".toList.map unit
  | .number token => token.source.map unit

mutual

inductive Value where
  | atom (a : Atom)
  | string (ps : Pieces)
  | emptyArray (blank : Blank)
  | array (items : Elements)
  | emptyObject (blank : Blank)
  | object (members : Members)

inductive Elements where
  | last (before : Blank) (value : Value) (after : Blank)
  | more (before : Blank) (value : Value) (after : Blank) (items : Elements)

inductive Members where
  | last (before : Blank) (name : Pieces) (named : Blank) (middle : Blank) (value : Value)
      (after : Blank)
  | more (before : Blank) (name : Pieces) (named : Blank) (middle : Blank) (value : Value)
      (after : Blank) (members : Members)

end

mutual

def Value.source : Value → List CodeUnit
  | .atom a => a.source
  | .string ps => ps.literal
  | .emptyArray blank => unit '['::(blank ++ [unit ']'])
  | .array items => unit '['::items.source
  | .emptyObject blank => unit '{'::(blank ++ [unit '}'])
  | .object members => unit '{'::members.source

def Elements.source : Elements → List CodeUnit
  | .last before value after => before ++ (value.source ++ (after ++ [unit ']']))
  | .more before value after items =>
    before ++ (value.source ++ (after ++ unit ','::items.source))

def Members.source : Members → List CodeUnit
  | .last before name named middle value after =>
    before ++ (name.literal ++ (named ++ unit ':'::(middle ++ (value.source ++
      (after ++ [unit '}'])))))
  | .more before name named middle value after members =>
    before ++ (name.literal ++ (named ++ unit ':'::(middle ++ (value.source ++
      (after ++ unit ','::members.source)))))

end

def Members.names : Members → List (List CodeUnit)
  | .last _ name _ _ _ _ => [name.unescaped]
  | .more _ name _ _ _ _ members => name.unescaped::members.names

mutual

/-- Some object in the value has two members of one name. -/
def Value.Duplicated : Value → Prop
  | .array items => items.Duplicated
  | .object members => ¬members.names.Nodup ∨ members.Duplicated
  | _ => False

def Elements.Duplicated : Elements → Prop
  | .last _ value _ => value.Duplicated
  | .more _ value _ items => value.Duplicated ∨ items.Duplicated

def Members.Duplicated : Members → Prop
  | .last _ _ _ _ value _ => value.Duplicated
  | .more _ _ _ _ value _ members => value.Duplicated ∨ members.Duplicated

end

mutual

/-- The arrays and objects that a value nests. -/
def Value.depth : Value → ℕ
  | .atom _ => 0
  | .string _ => 0
  | .emptyArray _ => 1
  | .array items => items.depth+1
  | .emptyObject _ => 1
  | .object members => members.depth+1

def Elements.depth : Elements → ℕ
  | .last _ value _ => value.depth
  | .more _ value _ items => max value.depth items.depth

def Members.depth : Members → ℕ
  | .last _ _ _ _ value _ => value.depth
  | .more _ _ _ _ value _ members => max value.depth members.depth

end

/-- No surrogate stands alone: the literal means a text of characters. -/
def Pieces.Paired (ps : Pieces) : Prop := ∃ text, encode text = ps.unescaped

mutual

/-- No string of the value, and no name, has a lone surrogate. -/
def Value.Paired : Value → Prop
  | .atom _ => True
  | .string ps => ps.Paired
  | .emptyArray _ => True
  | .array items => items.Paired
  | .emptyObject _ => True
  | .object members => members.Paired

def Elements.Paired : Elements → Prop
  | .last _ value _ => value.Paired
  | .more _ value _ items => value.Paired ∧ items.Paired

def Members.Paired : Members → Prop
  | .last _ name _ _ value _ => name.Paired ∧ value.Paired
  | .more _ name _ _ value _ members => name.Paired ∧ value.Paired ∧ members.Paired

end

/-- A text with the whitespace around its value. -/
structure JsonText where
  before : Blank
  value : Value
  after : Blank

def JsonText.source (t : JsonText) : List CodeUnit := t.before ++ (t.value.source ++ t.after)

/-- Duplicates among the members, when the names of the list are taken. -/
def Members.Clear : (names : List (List CodeUnit)) → Members → Prop
  | names, .last _ name _ _ value _ => name.unescaped ∉ names ∧ ¬value.Duplicated
  | names, .more _ name _ _ value _ members =>
    name.unescaped ∉ names ∧ ¬value.Duplicated ∧ Clear (name.unescaped::names) members

theorem Members.clear_iff (members : Members) (names : List (List CodeUnit)) :
    members.Clear names ↔
      members.names.Nodup ∧ ¬members.Duplicated ∧ members.names.Disjoint names := by
  cases members with
  | last before name named middle value after =>
    simp only [Clear,Members.names,Members.Duplicated,List.nodup_singleton,true_and,
      List.singleton_disjoint]
    exact and_comm
  | more before name named middle value after members =>
    have ih := clear_iff members (name.unescaped::names)
    simp only [Clear,Members.names,Members.Duplicated,ih,List.nodup_cons,List.disjoint_cons_left,
      List.disjoint_cons_right]
    tauto

theorem not_duplicated_object (members : Members) :
    ¬(Value.object members).Duplicated ↔ members.Clear [] := by
  rw [Members.clear_iff,Value.Duplicated]
  simp only [List.disjoint_nil_right,and_true,not_or,not_not]

end Json
end Ctxmux
