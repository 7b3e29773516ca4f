import Ctxmux.TmuxTranscript

/-!
# Control Mode decoding

Every part of a line reads back: the prefixes apart from each other, the identifiers, the
integers, the separator of an extended output, and the payload.
-/

namespace Ctxmux
namespace Tmux

open Decimal (IsDigits spelled)

theorem stripPrefix_append (start rest : List Byte) : stripPrefix start (start ++ rest) = some rest := by
  induction start with
  | nil => rfl
  | cons b start ih =>
    rw [List.cons_append,stripPrefix,if_pos rfl]
    exact ih

theorem startsWith_append (start rest : List Byte) : startsWith (start ++ rest) start = true := by
  rw [startsWith,stripPrefix_append]
  rfl

theorem charOf_byte {c : Char} (h : c.toNat < 256) : charOf (byte c) = c := by
  have hbyte : (UInt8.ofNat c.toNat).toNat = c.toNat := by
    rw [UInt8.toNat_ofNat']
    omega
  unfold charOf byte
  rw [hbyte]
  exact Char.ofNat_toNat c

theorem digit_toNat {c : Char} (h : c.isDigit = true) : 48 ≤ c.toNat ∧ c.toNat ≤ 57 := by
  simp only [Char.isDigit,Bool.and_eq_true,decide_eq_true_eq] at h
  exact ⟨h.1,h.2⟩

section Digits

variable {digits : List Char}

theorem map_charOf_digits (h : IsDigits digits) : (digits.map byte).map charOf = digits := by
  rw [List.map_map]
  conv_rhs => rw [← List.map_id digits]
  apply List.map_congr_left
  intro c hc
  have hbound := digit_toNat (h c hc)
  exact charOf_byte (by omega)

theorem byte_digit {c : Char} (h : c.isDigit = true) : (byte c).toNat = c.toNat := by
  have hbound := digit_toNat h
  unfold byte
  rw [UInt8.toNat_ofNat']
  omega

theorem isDigit_byte {c : Char} (h : c.isDigit = true) : isDigit (byte c) = true := by
  have hbound := digit_toNat h
  have hbyte := byte_digit h
  simp only [isDigit,Bool.and_eq_true,decide_eq_true_eq,UInt8.le_iff_toNat_le]
  rw [hbyte]
  exact ⟨hbound.1,hbound.2⟩

theorem digits_no_space (h : IsDigits digits) : space ∉ digits.map byte := by
  rw [List.mem_map]
  rintro ⟨c,hc,hspace⟩
  have hbound := digit_toNat (h c hc)
  have hbyte := byte_digit (h c hc)
  rw [hspace] at hbyte
  have hvalue : space.toNat = 32 := by decide
  omega

end Digits

theorem asciiU64_source (n : Numeral) : Version.parseU64 (n.source.map charOf) = some n.value := by
  unfold Numeral.source
  rw [map_charOf_digits n.isDigits,Version.parseU64_digits n.isDigits n.nonempty,
    if_pos n.bounded]
  rfl

theorem controlId_source (id : Id) {sigil : Char} (hsigil : sigil.toNat < 256) (label : String) :
    controlId (id.source sigil) (byte sigil) label = .ok (id.text sigil) := by
  have hlength : (id.source sigil).length ≠ 1 := by
    have hpos := List.length_pos_iff.mpr id.nonempty
    simp only [Id.source,List.length_cons,List.length_map]
    omega
  have hdigits : ((id.source sigil).drop 1).all isDigit = true := by
    simp only [Id.source,List.drop_succ_cons,List.drop_zero,List.all_eq_true,List.mem_map]
    rintro b ⟨c,hc,rfl⟩
    exact isDigit_byte (id.isDigits c hc)
  unfold controlId
  rw [if_neg]
  · unfold Id.source Id.text
    rw [List.map_cons,charOf_byte hsigil,map_charOf_digits id.isDigits]
  · rw [hdigits]
    simp [Id.source]
    exact id.nonempty

section Split

variable {separator : Byte} {xs : List Byte}

theorem split_plain (h : separator ∉ xs) : split separator xs = [xs] := by
  induction xs with
  | nil => rfl
  | cons b xs ih =>
    have hb : b ≠ separator := fun heq => h (heq ▸ List.mem_cons_self)
    rw [split,if_neg hb,ih fun hmem => h (List.mem_cons_of_mem _ hmem)]

theorem split_append (h : separator ∉ xs) (ys : List Byte) :
    split separator (xs ++ separator::ys) = xs::split separator ys := by
  induction xs with
  | nil => rw [List.nil_append,split,if_pos rfl]
  | cons b xs ih =>
    have hb : b ≠ separator := fun heq => h (heq ▸ List.mem_cons_self)
    rw [List.cons_append,split,if_neg hb,ih fun hmem => h (List.mem_cons_of_mem _ hmem)]

theorem splitOnce_append (h : separator ∉ xs) (ys : List Byte) :
    splitOnce separator (xs ++ separator::ys) = some (xs,ys) := by
  induction xs with
  | nil => rw [List.nil_append,splitOnce,if_pos rfl]
  | cons b xs ih =>
    have hb : b ≠ separator := fun heq => h (heq ▸ List.mem_cons_self)
    rw [List.cons_append,splitOnce,if_neg hb,ih fun hmem => h (List.mem_cons_of_mem _ hmem)]
    rfl

end Split

theorem Numeral.no_space (n : Numeral) : space ∉ n.source := digits_no_space n.isDigits

theorem Id.no_space (id : Id) {sigil : Char} (hsigil : byte sigil ≠ space) :
    space ∉ id.source sigil := by
  rw [Id.source,List.mem_cons,not_or]
  exact ⟨hsigil.symm,digits_no_space id.isDigits⟩

theorem parseBlockHeader_source (start : List Byte) (header : Header) :
    parseBlockHeader start (start ++ header.source) = .ok header.values := by
  have hsplit : split space header.source =
      [header.time.source,header.number.source,header.flags.source] := by
    unfold Header.source
    rw [split_append header.time.no_space,split_append header.number.no_space,
      split_plain header.flags.no_space]
  have hnumber : ∀ n : Numeral, asciiU64 n.source = .ok n.value := by
    intro n
    rw [asciiU64,asciiU64_source]
  unfold parseBlockHeader
  rw [stripPrefix_append]
  dsimp only
  rw [hsplit]
  dsimp only
  rw [hnumber,hnumber,hnumber]
  rfl

/-- The first separator of the line is the one after the header. -/
theorem separatorAt_header {header : List Byte} (h : Separated header) (value : List Byte) :
    separatorAt (header ++ (ascii " : " ++ value)) = some header.length := by
  induction header with
  | nil => rfl
  | cons a header ih =>
    have hrest : Separated header := by
      intro before after heq
      exact h (a::before) after (by rw [List.cons_append,heq,List.cons_append])
    have hstep : ∀ b c tail, header ++ (ascii " : " ++ value) = b::c::tail →
        [a,b,c] ≠ ascii " : " →
          separatorAt (a::header ++ (ascii " : " ++ value)) = some (a::header).length := by
      intro b c tail htail hne
      have hfound := ih hrest
      rw [htail] at hfound
      rw [List.cons_append,htail,separatorAt,if_neg hne,hfound]
      rfl
    cases header with
    | nil =>
      apply hstep _ _ _ rfl
      intro hwindow
      have hsecond : byte ' ' = byte ':' := (List.cons.inj (List.cons.inj hwindow).2).1
      revert hsecond
      decide
    | cons b header =>
      cases header with
      | nil =>
        apply hstep _ _ _ rfl
        intro hwindow
        obtain ⟨rfl,hb⟩ := List.cons.inj hwindow
        obtain ⟨rfl,_⟩ := List.cons.inj hb
        exact h [] [byte ':'] rfl
      | cons c header =>
        apply hstep _ _ _ rfl
        intro hwindow
        apply h [] (header ++ ascii " :")
        rw [← hwindow]
        rfl

section Parse

theorem split_header (pane : Id) (age : Numeral) {fields : List Byte}
    (hfields : fields = [] ∨ fields.head? = some space) :
    (split space (pane.source '%' ++ space::(age.source ++ fields))).head? =
        some (pane.source '%') ∧
      (split space (pane.source '%' ++ space::(age.source ++ fields))).tail.head? =
        some age.source := by
  have hpane : space ∉ pane.source '%' := pane.no_space (by decide)
  rw [split_append hpane]
  refine ⟨rfl,?_⟩
  rw [List.tail_cons]
  rcases hfields with rfl | hhead
  · rw [List.append_nil,split_plain age.no_space]
    rfl
  · obtain ⟨rest,rfl⟩ := List.head?_eq_some_iff.mp hhead
    rw [split_append age.no_space]
    rfl

theorem pane_source (pane : Id) : controlId (pane.source '%') (byte '%') "pane" = .ok (pane.text '%') :=
  controlId_source pane (by decide) "pane"

theorem session_source (session : Id) :
    controlId (session.source '$') (byte '$') "session" = .ok (session.text '$') :=
  controlId_source session (by decide) "session"

theorem window_source (window : Id) :
    controlId (window.source '@') (byte '@') "window" = .ok (window.text '@') :=
  controlId_source window (by decide) "window"

theorem parseOutput_source (pane : Id) (payload : Written) :
    parseOutput (pane.source '%' ++ space::payload.source) =
      .ok (.output (pane.text '%') payload.bytes none) := by
  unfold parseOutput
  rw [splitOnce_append (pane.no_space (by decide))]
  dsimp only [orElse]
  simp only [pane_source,decodeOctal_source,bind,Except.bind]
  rfl

theorem parseExtendedOutput_source (pane : Id) (age : Numeral) {fields : List Byte}
    (payload : Written) (hfields : fields = [] ∨ fields.head? = some space)
    (hheader : Separated (pane.source '%' ++ space::(age.source ++ fields))) :
    parseExtendedOutput (pane.source '%' ++ space::(age.source ++ fields) ++
        (ascii " : " ++ payload.source)) =
      .ok (.output (pane.text '%') payload.bytes (some age.value)) := by
  obtain ⟨hpane,hage⟩ := split_header pane age hfields
  have hlength : (ascii " : ").length = 3 := by decide
  have hdrop : (pane.source '%' ++ space::(age.source ++ fields) ++
      (ascii " : " ++ payload.source)).drop
        ((pane.source '%' ++ space::(age.source ++ fields)).length+3) = payload.source := by
    rw [← hlength,← List.length_append,← List.append_assoc,List.drop_left]
  unfold parseExtendedOutput
  rw [separatorAt_header hheader]
  dsimp only [orElse]
  simp only [bind,Except.bind,List.take_left,hdrop,hpane,hage,Option.bind_some,asciiU64_source,
    pane_source,decodeOctal_source]
  rfl

theorem parseSessionChanged_source (session : Id) (name : List Byte) :
    parseSessionChanged (session.source '$' ++ space::name) =
      .ok (.sessionChanged (session.text '$')) := by
  unfold parseSessionChanged
  rw [splitOnce_append (session.no_space (by decide))]
  dsimp only [orElse]
  simp only [session_source,bind,Except.bind]
  rfl

theorem parseSessionRenamed_source (session : Id) (name : Written) :
    parseSessionRenamed (session.source '$' ++ space::name.source) =
      .ok (.sessionRenamed (session.text '$') name.bytes) := by
  unfold parseSessionRenamed
  rw [splitOnce_append (session.no_space (by decide))]
  dsimp only [orElse]
  simp only [session_source,decodeOctal_source,bind,Except.bind]
  rfl

/-- Each notification reads as its item: no prefix of another kind is at its front. -/
theorem parseNotification_line (n : Notification) : parseNotification n.line = .ok n.item := by
  cases n with
  | output pane payload =>
    unfold parseNotification Notification.line
    rw [stripPrefix_append]
    exact parseOutput_source pane payload
  | extendedOutput pane age fields payload hfields hheader =>
    exact parseExtendedOutput_source pane age payload hfields hheader
  | sessionChanged session name => exact parseSessionChanged_source session name
  | sessionRenamed session name => exact parseSessionRenamed_source session name
  | windowClose window =>
    show (controlId (window.source '@') (byte '@') "window").map ControlItem.windowClosed = _
    rw [window_source]
    rfl
  | pause pane =>
    show (controlId (pane.source '%') (byte '%') "pane").map ControlItem.paused = _
    rw [pane_source]
    rfl
  | continued pane =>
    show (controlId (pane.source '%') (byte '%') "pane").map ControlItem.continued = _
    rw [pane_source]
    rfl
  | exit reason =>
    cases reason with
    | none => rfl
    | some reason => rfl
  | other rest hexit hknown =>
    have hnone : ∀ start ∈ knownStarts, startsWith (ascii "%" ++ rest) start = false := by
      intro start hstart
      rw [startsWith,hknown start hstart]
      rfl
    simp only [knownStarts,List.mem_cons,List.not_mem_nil,or_false,forall_eq_or_imp,
      forall_eq] at hknown hnone
    obtain ⟨-,-,-,houtput,hextended,hchanged,hrenamed,hclose,hpause,hcontinue,-⟩ := hknown
    obtain ⟨-,hend,herror,-,-,-,-,-,-,-,hexits⟩ := hnone
    simp only [parseNotification,Notification.line,houtput,hextended,hchanged,hrenamed,hclose,
      hpause,hcontinue,hexits,hexit,hend,herror,rejectStrayBlockTerminator,startsWith_append,
      Bool.false_eq_true,or_false,if_false,if_true,bind,Except.bind]
    rfl

end Parse

/-! ## Entries -/

variable {line : List Byte} {block : CommandBlock}

theorem parseLine_other (hline : line ≠ []) (hbegin : startsWith line (ascii "%begin ") = false) :
    ControlParser.parseLine ⟨none⟩ line =
      (parseNotification line).map fun item => (some item,⟨none⟩) := by
  simp only [ControlParser.parseLine,if_neg hline,hbegin,Bool.false_eq_true,if_false,bind,
    Except.bind]
  cases parseNotification line <;> rfl

theorem line_not_begin (n : Notification) :
    n.line ≠ [] ∧ startsWith n.line (ascii "%begin ") = false := by
  cases n with
  | other rest hexit hknown =>
    refine ⟨List.cons_ne_nil _ _,?_⟩
    have hbegin := hknown (ascii "%begin ") List.mem_cons_self
    rw [startsWith,Notification.line,hbegin]
    rfl
  | exit reason => cases reason <;> exact ⟨List.cons_ne_nil _ _,rfl⟩
  | _ => exact ⟨List.cons_ne_nil _ _,rfl⟩

theorem parseLine_notification (n : Notification) :
    ControlParser.parseLine ⟨none⟩ n.line = .ok (some n.item,⟨none⟩) := by
  obtain ⟨hline,hbegin⟩ := line_not_begin n
  rw [parseLine_other hline hbegin,parseNotification_line]
  rfl

theorem parseLine_begin (header : Header) :
    ControlParser.parseLine ⟨none⟩ (ascii "%begin " ++ header.source) =
      .ok (none,⟨some ⟨header.time.value,header.number.value,header.flags.value,0,0,[]⟩⟩) := by
  have hline : ascii "%begin " ++ header.source ≠ [] := List.cons_ne_nil _ _
  simp only [ControlParser.parseLine,if_neg hline,startsWith_append,if_true,
    parseBlockHeader_source,bind,Except.bind]
  rfl

/-- A line that begins with no terminator goes into the block. -/
theorem parseLine_output
    (hplain : ∀ start ∈ [ascii "%begin ",ascii "%end ",ascii "%error "],
      stripPrefix start line = none) :
    ControlParser.parseLine ⟨some block⟩ line =
      (block.pushOutput line).map fun block => (none,⟨some block⟩) := by
  have hnone : ∀ start ∈ [ascii "%begin ",ascii "%end ",ascii "%error "],
      startsWith line start = false := by
    intro start hstart
    rw [startsWith,hplain start hstart]
    rfl
  simp only [List.mem_cons,List.not_mem_nil,or_false,forall_eq_or_imp,forall_eq] at hnone
  obtain ⟨hbegin,hend,herror⟩ := hnone
  simp only [ControlParser.parseLine,CommandBlock.parseLine,hbegin,hend,herror,Bool.false_eq_true,
    or_false,if_false,bind,Except.bind]
  cases block.pushOutput line <;> rfl

theorem parseLine_close {closing : Header} (success : Bool)
    (h : closing.values = (block.time,block.number,block.flags)) :
    ControlParser.parseLine ⟨some block⟩
        ((if success then ascii "%end " else ascii "%error ") ++ closing.source) =
      .ok (some (.commandResult block.number success block.output),⟨none⟩) := by
  cases success with
  | true =>
    have hbegin : startsWith (ascii "%end " ++ closing.source) (ascii "%begin ") = false := rfl
    simp only [ControlParser.parseLine,CommandBlock.parseLine,hbegin,startsWith_append,
      Bool.false_eq_true,if_false,if_true,true_or,parseBlockHeader_source,bind,Except.bind,h,
      ne_eq,not_true_eq_false]
    rfl
  | false =>
    have hbegin : startsWith (ascii "%error " ++ closing.source) (ascii "%begin ") = false := rfl
    have hend : startsWith (ascii "%error " ++ closing.source) (ascii "%end ") = false := rfl
    simp only [ControlParser.parseLine,CommandBlock.parseLine,hbegin,hend,startsWith_append,
      Bool.false_eq_true,if_false,or_true,if_true,parseBlockHeader_source,bind,Except.bind,h,
      ne_eq,not_true_eq_false]
    rfl

/-- The lines of a block are collected within its bounds. -/
theorem parseLines_output {lines : List (List Byte)}
    (hplain : ∀ line ∈ lines, ∀ start ∈ [ascii "%begin ",ascii "%end ",ascii "%error "],
      stripPrefix start line = none) (hlines : block.lineCount+lines.length ≤ maxCommandBlockLines)
    (hbytes : block.payloadBytes+(lines.map List.length).sum ≤ maxCommandBlockBytes) :
    ControlParser.parseLines ⟨some block⟩ lines = ([],.ok ⟨some { block with
      payloadBytes := block.payloadBytes+(lines.map List.length).sum
      lineCount := block.lineCount+lines.length
      output := block.output ++ lines }⟩) := by
  induction lines generalizing block with
  | nil =>
    simp only [ControlParser.parseLines,List.map_nil,List.sum_nil,List.length_nil,Nat.add_zero,
      List.append_nil]
  | cons line lines ih =>
    simp only [List.length_cons,List.map_cons,List.sum_cons] at hlines hbytes
    have hpush : block.pushOutput line = .ok { block with
        payloadBytes := block.payloadBytes+line.length
        lineCount := block.lineCount+1
        output := block.output ++ [line] } := by
      unfold CommandBlock.pushOutput
      rw [if_neg (by omega),if_neg (by omega)]
    rw [ControlParser.parseLines,parseLine_output (hplain line List.mem_cons_self),hpush]
    dsimp only [Except.map]
    rw [ih (fun other hother => hplain other (List.mem_cons_of_mem _ hother))
      (by dsimp only; omega) (by dsimp only; omega)]
    simp only [Option.toList_none,List.append_assoc,List.singleton_append,List.length_cons,
      List.map_cons,List.sum_cons,List.nil_append]
    rw [Nat.add_assoc,Nat.add_assoc,Nat.add_comm 1]

theorem parseLines_open (b : OpenBlock) :
    ∃ block, ControlParser.parseLines ⟨none⟩ b.lines = ([],.ok ⟨some block⟩) ∧
      (block.time,block.number,block.flags) = b.header.values ∧ block.output = b.output := by
  let opened : CommandBlock :=
    ⟨b.header.time.value,b.header.number.value,b.header.flags.value,0,0,[]⟩
  have hlines : opened.lineCount+b.output.length ≤ maxCommandBlockLines := by
    simpa [opened] using b.lines_bounded
  have hbytes : opened.payloadBytes+(b.output.map List.length).sum ≤ maxCommandBlockBytes := by
    simpa [opened] using b.bytes_bounded
  have houtput := parseLines_output b.plain hlines hbytes
  refine ⟨{ opened with
    payloadBytes := opened.payloadBytes+(b.output.map List.length).sum
    lineCount := opened.lineCount+b.output.length
    output := opened.output ++ b.output },?_,rfl,List.nil_append b.output⟩
  rw [OpenBlock.lines,ControlParser.parseLines,parseLine_begin]
  dsimp only
  rw [houtput]
  rfl

theorem parseLines_entry (e : Entry) :
    ControlParser.parseLines ⟨none⟩ e.lines = (e.items,.ok ⟨none⟩) := by
  cases e with
  | blank => rfl
  | notification n =>
    simp only [Entry.lines,ControlParser.parseLines,parseLine_notification]
    rfl
  | command c =>
    obtain ⟨block,hopen,hheader,houtput⟩ := parseLines_open c.block
    have hclose := parseLine_close c.success (c.closes.trans hheader.symm)
    have hnumber : block.number = c.block.header.number.value :=
      congrArg (fun values => values.2.1) hheader
    rw [Entry.lines,Command.lines,parseLines_append hopen]
    simp only [ControlParser.parseLines,hclose,hnumber,houtput]
    rfl

theorem parseLines_entries (entries : List Entry) :
    ControlParser.parseLines ⟨none⟩ (entries.flatMap Entry.lines) =
      (entries.flatMap Entry.items,.ok ⟨none⟩) := by
  induction entries with
  | nil => rfl
  | cons e entries ih =>
    rw [List.flatMap_cons,List.flatMap_cons,parseLines_append (parseLines_entry e),ih]

theorem parseLines_transcript (t : Transcript) :
    ∃ parser, ControlParser.parseLines ⟨none⟩ t.lines = (t.items,.ok parser) ∧
      parser.block.isSome = t.unfinished.isSome := by
  rw [Transcript.lines,parseLines_append (parseLines_entries t.entries)]
  cases hunfinished : t.unfinished with
  | none =>
    refine ⟨⟨none⟩,?_,rfl⟩
    simp only [Option.elim_none,ControlParser.parseLines,List.append_nil]
    rfl
  | some b =>
    obtain ⟨block,hopen,_,_⟩ := parseLines_open b
    refine ⟨⟨some block⟩,?_,rfl⟩
    simp only [Option.elim_some,hopen,List.append_nil]
    rfl

/-- The octal decoder, and the reader and the parser on every transcript however its stream
is cut. -/
theorem control_mode_decoded :
    (∀ value : List Byte, (decodeOctal value).isOk = true ↔ Escaped value) ∧
    (∀ payload : Written, decodeOctal payload.source = .ok payload.bytes) ∧
    ∀ (t : Transcript) (wire : List (List Byte × Bool)) (cut : ℕ → ℕ),
      wire.map Prod.fst = t.lines → (∀ line ∈ wire, PlainLine line.1 line.2) →
        ∃ parser, drain cut ⟨wireBytes wire,0⟩ ⟨none⟩ = (t.items,.ok parser) ∧
          ((∃ e, parser.finish = .error e) ↔ t.unfinished.isSome = true) := by
  refine ⟨decodeOctal_isOk,decodeOctal_source,?_⟩
  intro t wire cut hlines hwire
  obtain ⟨parser,hparser,hblock⟩ := parseLines_transcript t
  refine ⟨parser,?_,?_⟩
  · rw [drain_wire cut hwire,hlines,hparser]
  · rw [← hblock]
    unfold ControlParser.finish
    split
    · rename_i hopen
      exact iff_of_true ⟨_,rfl⟩ hopen
    · rename_i hclosed
      refine iff_of_false ?_ hclosed
      rintro ⟨e,he⟩
      cases he

def exampleNumeral (c : Char) (h : c.isDigit = true := by decide)
    (hbound : spelled [c] ≤ Version.u64Max := by decide) : Numeral :=
  ⟨[c],by simpa [IsDigits] using h,List.cons_ne_nil _ _,hbound⟩

def exampleId (c : Char) (h : c.isDigit = true := by decide) : Id :=
  ⟨[c],by simpa [IsDigits] using h,List.cons_ne_nil _ _⟩

/-- An output, a block that an error closes, and one that stays open after a line. -/
def exampleTranscript : Transcript where
  entries :=
    [.notification (.output (exampleId '2') [⟨10,true,by decide⟩,⟨104,false,by decide⟩]),
      .command
        { block :=
            { header := ⟨exampleNumeral '1',exampleNumeral '6',exampleNumeral '0'⟩
              output := [ascii "no pane",[]]
              plain := by decide
              lines_bounded := by decide
              bytes_bounded := by decide }
          success := false
          closing := ⟨exampleNumeral '1',exampleNumeral '6',exampleNumeral '0'⟩
          closes := rfl }]
  unfinished := some
    { header := ⟨exampleNumeral '1',exampleNumeral '7',exampleNumeral '0'⟩
      output := [ascii "%output is text here"]
      plain := by decide
      lines_bounded := by decide
      bytes_bounded := by decide }

/-- Its lines, with both ways to end one. -/
def exampleWire : List (List Byte × Bool) :=
  [(ascii "%output %2 \\012h",true),(ascii "%begin 1 6 0",false),(ascii "no pane",true),([],false),
    (ascii "%error 1 6 0",true),(ascii "%begin 1 7 0",false),(ascii "%output is text here",true)]

theorem plainLine_of {crlf : Bool} (hnewline : newline ∉ line)
    (hlast : line.getLast? ≠ some carriageReturn)
    (hbounded : (terminated line crlf).length ≤ maxControlLineBytes) : PlainLine line crlf :=
  ⟨hnewline,hlast,hbounded⟩

theorem exampleWire_plain : ∀ line ∈ exampleWire, PlainLine line.1 line.2 := by
  unfold exampleWire
  simp only [List.mem_cons,List.not_mem_nil,or_false,forall_eq_or_imp,forall_eq]
  exact ⟨plainLine_of (by decide +kernel) (by decide +kernel) (by decide +kernel),
    plainLine_of (by decide +kernel) (by decide +kernel) (by decide +kernel),
    plainLine_of (by decide +kernel) (by decide +kernel) (by decide +kernel),
    plainLine_of (by decide +kernel) (by decide +kernel) (by decide +kernel),
    plainLine_of (by decide +kernel) (by decide +kernel) (by decide +kernel),
    plainLine_of (by decide +kernel) (by decide +kernel) (by decide +kernel),
    plainLine_of (by decide +kernel) (by decide +kernel) (by decide +kernel)⟩

theorem control_mode_decoded_open :
    ∃ parser, drain (fun _ => 0) ⟨wireBytes exampleWire,0⟩ ⟨none⟩ =
        ([.output "%2" [10,104] none,.commandResult 6 false [ascii "no pane",[]]],.ok parser) ∧
      ∃ e, parser.finish = .error e := by
  obtain ⟨parser,hdrain,hfinish⟩ := control_mode_decoded.2.2 exampleTranscript exampleWire
    (fun _ => 0) (by decide +kernel) exampleWire_plain
  exact ⟨parser,hdrain,hfinish.mpr rfl⟩

end Tmux
end Ctxmux
