import Ctxmux.TmuxOctal
import Ctxmux.VersionScan

/-!
# The line parser of Control Mode

A line is a notification, or it belongs to a command block. The parser keeps the block it
is in; inside it only the terminators have a meaning.
-/

namespace Ctxmux
namespace Tmux

def ascii (text : String) : List Byte := text.toList.map byte

def charOf (b : Byte) : Char := Char.ofNat b.toNat

def space : Byte := byte ' '

/-- The rest of a line after a prefix, if it begins with it. -/
def stripPrefix : (start line : List Byte) → Option (List Byte)
  | [], line => some line
  | _::_, [] => none
  | a::start, b::line => if a = b then stripPrefix start line else none

def startsWith (line start : List Byte) : Bool := (stripPrefix start line).isSome

inductive ControlItem where
  | output (paneId : String) (data : List Byte) (ageMillis : Option ℕ)
  | commandResult (number : ℕ) (success : Bool) (output : List (List Byte))
  | sessionChanged (sessionId : String)
  | sessionRenamed (sessionId : String) (name : List Byte)
  | windowClosed (windowId : String)
  | paused (paneId : String)
  | continued (paneId : String)
  | exit
  | notification
deriving DecidableEq,Repr

structure CommandBlock where
  time : ℕ
  number : ℕ
  flags : ℕ
  payloadBytes : ℕ
  lineCount : ℕ
  output : List (List Byte)
deriving DecidableEq,Repr

structure ControlParser where
  block : Option CommandBlock
deriving DecidableEq,Repr

def maxCommandBlockLines : ℕ := 32*1024

def maxCommandBlockBytes : ℕ := 1024*1024

def CommandBlock.pushOutput (block : CommandBlock) (line : List Byte) : Except String CommandBlock :=
  if maxCommandBlockLines ≤ block.lineCount then
    .error "tmux command block has too many output lines"
  else if maxCommandBlockBytes < block.payloadBytes+line.length then
    .error "tmux command block output exceeds 1 MiB"
  else .ok { block with
    payloadBytes := block.payloadBytes+line.length
    lineCount := block.lineCount+1
    output := block.output ++ [line] }

def asciiU64 (value : List Byte) : Except String ℕ :=
  match Version.parseU64 (value.map charOf) with
  | some n => .ok n
  | none => .error "invalid tmux control integer"

/-- The fields between the separators, empty ones included. -/
def split (separator : Byte) : List Byte → List (List Byte)
  | [] => [[]]
  | b::value =>
    if b = separator then []::split separator value
    else
      match split separator value with
      | [] => [[b]]
      | field::fields => (b::field)::fields

def splitOnce (separator : Byte) : List Byte → Option (List Byte × List Byte)
  | [] => none
  | b::value =>
    if b = separator then some ([],value)
    else (splitOnce separator value).map fun parts => (b::parts.1,parts.2)

def parseBlockHeader (start line : List Byte) : Except String (ℕ × ℕ × ℕ) :=
  match stripPrefix start line with
  | none => .error "invalid tmux command block prefix"
  | some rest =>
    match split space rest with
    | [time,number,flags] => do
      let time ← asciiU64 time
      let number ← asciiU64 number
      let flags ← asciiU64 flags
      return (time,number,flags)
    | _ => .error "invalid tmux command block header"

def isDigit (b : Byte) : Bool := byte '0' ≤ b && b ≤ byte '9'

def controlId (value : List Byte) (sigil : Byte) (label : String) : Except String String :=
  if value.head? ≠ some sigil ∨ value.length = 1 ∨ (value.drop 1).all isDigit = false then
    .error s!"invalid tmux {label} ID"
  else .ok (String.ofList (value.map charOf))

/-- The position of the first window of three bytes that is the separator. -/
def separatorAt : List Byte → Option ℕ
  | a::b::c::value =>
    if [a,b,c] = ascii " : " then some 0 else (separatorAt (b::c::value)).map (·+1)
  | _ => none

def orElse {α : Type} (result : Option α) (error : String) : Except String α :=
  match result with
  | some value => .ok value
  | none => .error error

def parseOutput (rest : List Byte) : Except String ControlItem := do
  let (pane,value) ← orElse (splitOnce space rest) "malformed tmux output notification"
  let paneId ← controlId pane (byte '%') "pane"
  let data ← decodeOctal value
  return .output paneId data none

def parseExtendedOutput (rest : List Byte) : Except String ControlItem := do
  let separator ← orElse (separatorAt rest) "malformed tmux extended-output separator"
  let fields := split space (rest.take separator)
  let value := rest.drop (separator+3)
  let pane ← orElse fields.head? "tmux extended-output has no pane"
  let age ← orElse (fields.tail.head?.bind fun value => Version.parseU64 (value.map charOf))
    "tmux extended-output has invalid age"
  let paneId ← controlId pane (byte '%') "pane"
  let data ← decodeOctal value
  return .output paneId data (some age)

def parseSessionChanged (rest : List Byte) : Except String ControlItem := do
  let (session,_) ← orElse (splitOnce space rest) "malformed tmux session-changed notification"
  let sessionId ← controlId session (byte '$') "session"
  return .sessionChanged sessionId

def parseSessionRenamed (value : List Byte) : Except String ControlItem := do
  let (session,name) ← orElse (splitOnce space value) "malformed tmux session-renamed notification"
  let sessionId ← controlId session (byte '$') "session"
  let name ← decodeOctal name
  return .sessionRenamed sessionId name

def rejectStrayBlockTerminator (line : List Byte) : Except String Unit :=
  if startsWith line (ascii "%end ") = true ∨ startsWith line (ascii "%error ") = true then
    .error "tmux command block terminator without begin"
  else .ok ()

/-- A line outside of every block, other than the first line of one. -/
def parseNotification (line : List Byte) : Except String ControlItem :=
  match stripPrefix (ascii "%output ") line with
  | some rest => parseOutput rest
  | none =>
  match stripPrefix (ascii "%extended-output ") line with
  | some rest => parseExtendedOutput rest
  | none =>
  match stripPrefix (ascii "%session-changed ") line with
  | some rest => parseSessionChanged rest
  | none =>
  match stripPrefix (ascii "%session-renamed ") line with
  | some rest => parseSessionRenamed rest
  | none =>
  match stripPrefix (ascii "%window-close ") line with
  | some window => (controlId window (byte '@') "window").map .windowClosed
  | none =>
  match stripPrefix (ascii "%pause ") line with
  | some pane => (controlId pane (byte '%') "pane").map .paused
  | none =>
  match stripPrefix (ascii "%continue ") line with
  | some pane => (controlId pane (byte '%') "pane").map .continued
  | none =>
    if line = ascii "%exit" ∨ startsWith line (ascii "%exit ") = true then .ok .exit
    else do
      rejectStrayBlockTerminator line
      if startsWith line (ascii "%") = true then return .notification
      else throw "tmux emitted an unframed control line"

/-- A line inside of a block. -/
def CommandBlock.parseLine (block : CommandBlock) (line : List Byte) :
    Except String (Option ControlItem × ControlParser) :=
  if startsWith line (ascii "%begin ") = true then .error "nested tmux command block"
  else if startsWith line (ascii "%end ") = true ∨ startsWith line (ascii "%error ") = true then do
    let success := startsWith line (ascii "%end ")
    let header ← parseBlockHeader (if success then ascii "%end " else ascii "%error ") line
    if (block.time,block.number,block.flags) ≠ header then
      throw "tmux command block terminator does not match begin"
    return (some (.commandResult block.number success block.output),⟨none⟩)
  else do
    let block ← block.pushOutput line
    return (none,⟨some block⟩)

def ControlParser.parseLine (parser : ControlParser) (line : List Byte) :
    Except String (Option ControlItem × ControlParser) :=
  match parser.block with
  | some block => block.parseLine line
  | none =>
    if line = [] then .ok (none,parser)
    else if startsWith line (ascii "%begin ") = true then do
      let (time,number,flags) ← parseBlockHeader (ascii "%begin ") line
      return (none,⟨some ⟨time,number,flags,0,0,[]⟩⟩)
    else do
      let item ← parseNotification line
      return (some item,parser)

def ControlParser.finish (parser : ControlParser) : Except String Unit :=
  if parser.block.isSome = true then
    .error "tmux Control Mode stream ended inside a command block"
  else .ok ()

end Tmux
end Ctxmux
