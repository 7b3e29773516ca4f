import Ctxmux.TmuxLines
import Ctxmux.TmuxParser
import Ctxmux.VersionParsed

/-!
# Transcripts of Control Mode

A transcript is a sequence of notifications and command blocks, and it may end inside a
block. Its lines come out of the reader and the parser as its items, in their order, with
the payloads decoded.
-/

namespace Ctxmux
namespace Tmux

open Decimal (IsDigits spelled)

/-- An integer as it is written. -/
structure Numeral where
  digits : List Char
  isDigits : IsDigits digits
  nonempty : digits ≠ []
  bounded : spelled digits ≤ Version.u64Max

def Numeral.source (n : Numeral) : List Byte := n.digits.map byte

def Numeral.value (n : Numeral) : ℕ := spelled n.digits

/-- The digits of a pane, window or session. -/
structure Id where
  digits : List Char
  isDigits : IsDigits digits
  nonempty : digits ≠ []

def Id.source (id : Id) (sigil : Char) : List Byte := byte sigil::id.digits.map byte

def Id.text (id : Id) (sigil : Char) : String := String.ofList (sigil::id.digits)

def Separated (header : List Byte) : Prop :=
  ∀ before after, header ++ ascii " :" ≠ before ++ (ascii " : " ++ after)

def knownStarts : List (List Byte) :=
  [ascii "%begin ",ascii "%end ",ascii "%error ",ascii "%output ",ascii "%extended-output ",
    ascii "%session-changed ",ascii "%session-renamed ",ascii "%window-close ",ascii "%pause ",
    ascii "%continue ",ascii "%exit "]

inductive Notification where
  | output (pane : Id) (payload : Written)
  /-- The separator is the first of its line; other fields may stand before it. -/
  | extendedOutput (pane : Id) (age : Numeral) (fields : List Byte) (payload : Written)
    (hfields : fields = [] ∨ fields.head? = some space)
    (hheader : Separated (pane.source '%' ++ space::(age.source ++ fields)))
  | sessionChanged (session : Id) (name : List Byte)
  | sessionRenamed (session : Id) (name : Written)
  | windowClose (window : Id)
  | pause (pane : Id)
  | continued (pane : Id)
  | exit (reason : Option (List Byte))
  | other (rest : List Byte) (hexit : ascii "%" ++ rest ≠ ascii "%exit")
    (hknown : ∀ start ∈ knownStarts, stripPrefix start (ascii "%" ++ rest) = none)

def Notification.line : Notification → List Byte
  | .output pane payload => ascii "%output " ++ (pane.source '%' ++ space::payload.source)
  | .extendedOutput pane age fields payload _ _ => ascii "%extended-output " ++
      (pane.source '%' ++ space::(age.source ++ fields) ++ (ascii " : " ++ payload.source))
  | .sessionChanged session name =>
    ascii "%session-changed " ++ (session.source '$' ++ space::name)
  | .sessionRenamed session name =>
    ascii "%session-renamed " ++ (session.source '$' ++ space::name.source)
  | .windowClose window => ascii "%window-close " ++ window.source '@'
  | .pause pane => ascii "%pause " ++ pane.source '%'
  | .continued pane => ascii "%continue " ++ pane.source '%'
  | .exit reason => ascii "%exit" ++ reason.elim [] (space::·)
  | .other rest _ _ => ascii "%" ++ rest

def Notification.item : Notification → ControlItem
  | .output pane payload => .output (pane.text '%') payload.bytes none
  | .extendedOutput pane age _ payload _ _ =>
    .output (pane.text '%') payload.bytes (some age.value)
  | .sessionChanged session _ => .sessionChanged (session.text '$')
  | .sessionRenamed session name => .sessionRenamed (session.text '$') name.bytes
  | .windowClose window => .windowClosed (window.text '@')
  | .pause pane => .paused (pane.text '%')
  | .continued pane => .continued (pane.text '%')
  | .exit _ => .exit
  | .other _ _ _ => .notification

structure Header where
  time : Numeral
  number : Numeral
  flags : Numeral

def Header.source (h : Header) : List Byte :=
  h.time.source ++ space::(h.number.source ++ space::h.flags.source)

def Header.values (h : Header) : ℕ × ℕ × ℕ := (h.time.value,h.number.value,h.flags.value)

/-- A block that has been opened, with its lines so far. -/
structure OpenBlock where
  header : Header
  output : List (List Byte)
  plain : ∀ line ∈ output, ∀ start ∈ [ascii "%begin ",ascii "%end ",ascii "%error "],
    stripPrefix start line = none
  lines_bounded : output.length ≤ maxCommandBlockLines
  bytes_bounded : (output.map List.length).sum ≤ maxCommandBlockBytes

def OpenBlock.lines (b : OpenBlock) : List (List Byte) :=
  (ascii "%begin " ++ b.header.source)::b.output

structure Command where
  block : OpenBlock
  success : Bool
  closing : Header
  closes : closing.values = block.header.values

def Command.lines (c : Command) : List (List Byte) :=
  c.block.lines ++ [(if c.success then ascii "%end " else ascii "%error ") ++ c.closing.source]

def Command.item (c : Command) : ControlItem :=
  .commandResult c.block.header.number.value c.success c.block.output

/-- Outside of blocks an empty line means nothing. -/
inductive Entry where
  | blank
  | notification (n : Notification)
  | command (c : Command)

def Entry.lines : Entry → List (List Byte)
  | .blank => [[]]
  | .notification n => [n.line]
  | .command c => c.lines

def Entry.items : Entry → List ControlItem
  | .blank => []
  | .notification n => [n.item]
  | .command c => [c.item]

structure Transcript where
  entries : List Entry
  unfinished : Option OpenBlock

def Transcript.lines (t : Transcript) : List (List Byte) :=
  t.entries.flatMap Entry.lines ++ t.unfinished.elim [] OpenBlock.lines

def Transcript.items (t : Transcript) : List ControlItem := t.entries.flatMap Entry.items

/-! ## The loop -/

/-- Lines are read and parsed until the stream ends or something fails. -/
def drain (cut : ℕ → ℕ) (reader : Reader) (parser : ControlParser) :
    List ControlItem × Except String ControlParser :=
  match _h : readBoundedLine cut reader with
  | .error e => ([],.error e)
  | .ok (.eof,_,_) => ([],.ok parser)
  | .ok (.line,line,reader') =>
    match parser.parseLine line with
    | .error e => ([],.error e)
    | .ok (item,parser) =>
      let rest := drain cut reader' parser
      (item.toList ++ rest.1,rest.2)
termination_by reader.remaining.length
decreasing_by exact readBoundedLine_shorter _h

/-- The parser on lines that are already cut. -/
def ControlParser.parseLines (parser : ControlParser) :
    List (List Byte) → List ControlItem × Except String ControlParser
  | [] => ([],.ok parser)
  | line::lines =>
    match parser.parseLine line with
    | .error e => ([],.error e)
    | .ok (item,parser) =>
      let rest := parseLines parser lines
      (item.toList ++ rest.1,rest.2)

/-- The bytes of the lines, each with its own terminator. -/
def wireBytes (wire : List (List Byte × Bool)) : List Byte :=
  wire.flatMap fun line => terminated line.1 line.2

/-- However the stream is cut, the parser gets the lines. -/
theorem drain_wire (cut : ℕ → ℕ) {wire : List (List Byte × Bool)}
    (hwire : ∀ line ∈ wire, PlainLine line.1 line.2) (fills : ℕ) (parser : ControlParser) :
    drain cut ⟨wireBytes wire,fills⟩ parser = parser.parseLines (wire.map Prod.fst) := by
  induction wire generalizing fills parser with
  | nil =>
    rw [drain]
    have heof := readBoundedLine_eof cut fills
    split
    · rename_i e h
      cases heof.symm.trans h
    · rfl
    · rename_i line reader h
      cases heof.symm.trans h
  | cons line wire ih =>
    obtain ⟨fills',hread⟩ := readBoundedLine_line cut fills (hwire line List.mem_cons_self)
      (wireBytes wire)
    have hbytes : wireBytes (line::wire) = terminated line.1 line.2 ++ wireBytes wire :=
      List.flatMap_cons
    rw [drain,hbytes]
    split
    · rename_i e h
      cases hread.symm.trans h
    · rename_i line' reader h
      cases hread.symm.trans h
    · rename_i line' reader h
      cases hread.symm.trans h
      rw [List.map_cons,ControlParser.parseLines]
      cases parser.parseLine line.1 with
      | error e => rfl
      | ok next =>
        dsimp only
        rw [ih fun other hother => hwire other (List.mem_cons_of_mem _ hother)]

theorem parseLines_append {parser parser' : ControlParser} {xs ys : List (List Byte)}
    {items : List ControlItem} (h : parser.parseLines xs = (items,.ok parser')) :
    parser.parseLines (xs ++ ys) =
      (items ++ (parser'.parseLines ys).1,(parser'.parseLines ys).2) := by
  induction xs generalizing parser items with
  | nil =>
    cases h
    rfl
  | cons line xs ih =>
    rw [List.cons_append,ControlParser.parseLines]
    rw [ControlParser.parseLines] at h
    cases hline : parser.parseLine line with
    | error e =>
      rw [hline] at h
      cases h
    | ok next =>
      rw [hline] at h
      dsimp only at h ⊢
      obtain ⟨hitems,hlast⟩ := Prod.mk.inj h
      have hpair : next.2.parseLines xs = ((next.2.parseLines xs).1,.ok parser') := by rw [← hlast]
      rw [ih hpair,← hitems,List.append_assoc]

end Tmux
end Ctxmux
