import Ctxmux.TmuxOctal

/-!
# Bounded lines of a buffered reader

The reader shows any non-empty part of what is left of its stream. However it cuts the
stream, the lines come out whole, without their terminators.
-/

namespace Ctxmux
namespace Tmux

def newline : Byte := byte '\n'

def carriageReturn : Byte := byte '\r'

def maxControlLineBytes : ℕ := 1024*1024

inductive BoundedLineRead where
  | line | eof
deriving DecidableEq,Repr

/-- A buffered reader: what is left of the stream, and the fills so far. -/
structure Reader where
  remaining : List Byte
  fills : ℕ
deriving DecidableEq,Repr

/-- The buffer of this fill. It is empty only at the end of the stream. -/
def Reader.fillBuf (cut : ℕ → ℕ) (reader : Reader) : List Byte × Reader :=
  (reader.remaining.take (cut reader.fills+1),{ reader with fills := reader.fills+1 })

def Reader.consume (reader : Reader) (n : ℕ) : Reader :=
  { reader with remaining := reader.remaining.drop n }

/-- The part of the buffer that belongs to the line. -/
def takeLine (available : List Byte) : ℕ :=
  match available.findIdx? (· = newline) with
  | none => available.length
  | some index => index+1

/-- A line without its terminator. -/
def popTerminator (line : List Byte) : List Byte :=
  let line := line.dropLast
  if line.getLast? = some carriageReturn then line.dropLast else line

theorem takeLine_pos {available : List Byte} (h : available ≠ []) : 0 < takeLine available := by
  unfold takeLine
  split
  · exact List.length_pos_iff.mpr h
  · exact Nat.succ_pos _

theorem consume_shorter (cut : ℕ → ℕ) {reader : Reader} (h : (reader.fillBuf cut).1 ≠ []) :
    ((reader.fillBuf cut).2.consume (takeLine (reader.fillBuf cut).1)).remaining.length <
      reader.remaining.length := by
  have hpos := takeLine_pos h
  have hremaining : reader.remaining ≠ [] := by
    intro hempty
    apply h
    show reader.remaining.take _ = []
    rw [hempty,List.take_nil]
  have hlength := List.length_pos_iff.mpr hremaining
  show (reader.remaining.drop _).length < reader.remaining.length
  rw [List.length_drop]
  omega

/-- The loop of `read_bounded_line`. Every iteration consumes some of the stream. -/
def readLoop (cut : ℕ → ℕ) (reader : Reader) (line : List Byte) :
    Except String (BoundedLineRead × List Byte × Reader) :=
  if _h : (reader.fillBuf cut).1 = [] then
    .ok (if line = [] then .eof else .line,line,(reader.fillBuf cut).2)
  else
    let take := takeLine (reader.fillBuf cut).1
    if maxControlLineBytes < line.length+take then .error "tmux Control Mode line exceeds 1 MiB"
    else
      let line := line ++ (reader.fillBuf cut).1.take take
      let reader := (reader.fillBuf cut).2.consume take
      if line.getLast? = some newline then .ok (.line,popTerminator line,reader)
      else readLoop cut reader line
termination_by reader.remaining.length
decreasing_by exact consume_shorter cut _h

def readBoundedLine (cut : ℕ → ℕ) (reader : Reader) :
    Except String (BoundedLineRead × List Byte × Reader) :=
  readLoop cut reader []

section Step

variable {cut : ℕ → ℕ} {reader : Reader} {line : List Byte}

theorem readLoop_end (h : (reader.fillBuf cut).1 = []) :
    readLoop cut reader line =
      .ok (if line = [] then .eof else .line,line,(reader.fillBuf cut).2) := by
  rw [readLoop,dif_pos h]

theorem readLoop_step {available : List Byte} (hbuffer : (reader.fillBuf cut).1 = available)
    (h : available ≠ []) :
    readLoop cut reader line =
      if maxControlLineBytes < line.length+takeLine available then
        .error "tmux Control Mode line exceeds 1 MiB"
      else if (line ++ available.take (takeLine available)).getLast? = some newline then
        .ok (.line,popTerminator (line ++ available.take (takeLine available)),
          (reader.fillBuf cut).2.consume (takeLine available))
      else readLoop cut ((reader.fillBuf cut).2.consume (takeLine available))
        (line ++ available.take (takeLine available)) := by
  subst hbuffer
  rw [readLoop,dif_neg h]

/-- Reading never lengthens what is left, and takes some of it when there is any. -/
theorem readLoop_shorter {read : BoundedLineRead} {line' : List Byte} {reader' : Reader}
    (h : readLoop cut reader line = .ok (read,line',reader')) :
    reader'.remaining.length ≤ reader.remaining.length ∧
      ((reader.fillBuf cut).1 ≠ [] → reader'.remaining.length < reader.remaining.length) := by
  induction reader, line using readLoop.induct cut with
  | case1 reader line hempty =>
    rw [readLoop_end hempty] at h
    cases h
    exact ⟨le_rfl,fun hsome => absurd hempty hsome⟩
  | case2 reader line hsome take hlarge =>
    rw [readLoop_step rfl hsome,if_pos hlarge] at h
    cases h
  | case3 reader line hsome take hsmall line₂ hlast =>
    have hshorter := consume_shorter cut hsome
    rw [readLoop_step rfl hsome,if_neg hsmall,if_pos hlast] at h
    cases h
    exact ⟨hshorter.le,fun _ => hshorter⟩
  | case4 reader line hsome take hsmall line₂ reader₂ hlast ih =>
    have hshorter := consume_shorter cut hsome
    rw [readLoop_step rfl hsome,if_neg hsmall,if_neg hlast] at h
    have hrest := (ih h).1.trans_lt hshorter
    exact ⟨hrest.le,fun _ => hrest⟩

end Step

theorem readLoop_eof (cut : ℕ → ℕ) (fills : ℕ) (line : List Byte) :
    readLoop cut ⟨[],fills⟩ line = .ok (if line = [] then .eof else .line,line,⟨[],fills+1⟩) := by
  rw [readLoop]
  rfl

theorem findIdx?_newline {front : List Byte} (h : newline ∉ front) (rest : List Byte) :
    (front ++ newline::rest).findIdx? (· = newline) = some front.length := by
  induction front with
  | nil => rfl
  | cons b front ih =>
    have hb : b ≠ newline := fun heq => h (heq ▸ List.mem_cons_self)
    rw [List.cons_append,List.findIdx?_cons,ih fun hmem => h (List.mem_cons_of_mem _ hmem)]
    simp [hb]

theorem findIdx?_none {front : List Byte} (h : newline ∉ front) :
    front.findIdx? (· = newline) = none := by
  rw [List.findIdx?_eq_none_iff]
  intro b hb
  simp only [decide_eq_false_iff_not]
  exact fun heq => h (heq ▸ hb)

/-- Induction on what is left of the line: the buffer ends inside it, or has its end. -/
theorem readLoop_line (cut : ℕ → ℕ) {front line rest : List Byte} (fills : ℕ)
    (hfront : newline ∉ front) (hline : newline ∉ line)
    (hbound : line.length+front.length+1 ≤ maxControlLineBytes) :
    ∃ fills', readLoop cut ⟨front ++ newline::rest,fills⟩ line =
      .ok (.line,popTerminator (line ++ front ++ [newline]),⟨rest,fills'⟩) := by
  induction hlength : front.length using Nat.strong_induction_on
    generalizing front line fills with
  | _ n ih =>
    subst hlength
    have hsome : (Reader.fillBuf cut ⟨front ++ newline::rest,fills⟩).1 ≠ [] := by
      simp [Reader.fillBuf]
    by_cases hinside : cut fills+1 ≤ front.length
    · have hbuffer : (Reader.fillBuf cut ⟨front ++ newline::rest,fills⟩).1 =
          front.take (cut fills+1) :=
        List.take_append_of_le_length hinside
      have hpart : newline ∉ front.take (cut fills+1) := fun h => hfront (List.mem_of_mem_take h)
      have htake : takeLine (front.take (cut fills+1)) = cut fills+1 := by
        unfold takeLine
        rw [findIdx?_none hpart]
        exact List.length_take_of_le hinside
      have hnext : newline ∉ line ++ front.take (cut fills+1) := by
        rw [List.mem_append,not_or]
        exact ⟨hline,hpart⟩
      have hlast : (line ++ front.take (cut fills+1)).getLast? ≠ some newline :=
        fun h => hnext (List.mem_of_getLast? h)
      have hdrop : (⟨front ++ newline::rest,fills+1⟩ : Reader).consume (cut fills+1) =
          ⟨front.drop (cut fills+1) ++ newline::rest,fills+1⟩ := by
        unfold Reader.consume
        rw [List.drop_append_of_le_length hinside]
      have hlength : (front.drop (cut fills+1)).length = front.length-(cut fills+1) :=
        List.length_drop
      have hlengths : (front.take (cut fills+1)).length = cut fills+1 :=
        List.length_take_of_le hinside
      have hrest : newline ∉ front.drop (cut fills+1) :=
        fun hmem => hfront (List.mem_of_mem_drop hmem)
      obtain ⟨fills',h⟩ := ih _ (by omega) (fills+1) hrest hnext
        (by rw [List.length_append]; omega) rfl
      refine ⟨fills',?_⟩
      rw [readLoop_step hbuffer (hbuffer ▸ hsome),htake,if_neg (by omega),List.take_take,
        Nat.min_self,if_neg hlast]
      show readLoop cut (Reader.consume ⟨front ++ newline::rest,fills+1⟩ (cut fills+1)) _ = _
      rw [hdrop,h,List.append_assoc line,List.take_append_drop]
    · have hbuffer : ∃ more, (Reader.fillBuf cut ⟨front ++ newline::rest,fills⟩).1 =
          front ++ newline::more := by
        refine ⟨rest.take (cut fills-front.length),?_⟩
        show (front ++ newline::rest).take (cut fills+1) = _
        rw [List.take_append,List.take_of_length_le (by omega)]
        have hsplit : cut fills+1-front.length = cut fills-front.length+1 := by omega
        rw [hsplit,List.take_succ_cons]
      obtain ⟨more,hmore⟩ := hbuffer
      have htake : takeLine (front ++ newline::more) = front.length+1 := by
        unfold takeLine
        rw [findIdx?_newline hfront]
      have hpart : (front ++ newline::more).take (front.length+1) = front ++ [newline] := by
        rw [List.take_append,List.take_of_length_le (by omega)]
        simp
      have hlast : (line ++ (front ++ [newline])).getLast? = some newline := by
        simp
      refine ⟨fills+1,?_⟩
      rw [readLoop_step hmore (hmore ▸ hsome),htake,if_neg (by omega),hpart,if_pos hlast]
      simp [Reader.fillBuf,Reader.consume]

/-- A line of the stream with its terminator. -/
def terminated (line : List Byte) (crlf : Bool) : List Byte :=
  if crlf = true then line ++ [carriageReturn,newline] else line ++ [newline]

/-- What a line may hold, so that its terminator is known from it. -/
structure PlainLine (line : List Byte) (crlf : Bool) : Prop where
  newline : newline ∉ line
  last : line.getLast? ≠ some carriageReturn
  bounded : (terminated line crlf).length ≤ maxControlLineBytes

/-- A line is read whole and without its terminator, however the stream is cut. -/
theorem readBoundedLine_line (cut : ℕ → ℕ) (fills : ℕ) {line : List Byte} {crlf : Bool}
    (h : PlainLine line crlf) (rest : List Byte) :
    ∃ fills', readBoundedLine cut ⟨terminated line crlf ++ rest,fills⟩ =
      .ok (.line,line,⟨rest,fills'⟩) := by
  have hbounded := h.bounded
  unfold readBoundedLine
  cases crlf with
  | false =>
    simp only [terminated,Bool.false_eq_true,if_false,List.length_append,
      List.length_singleton] at hbounded ⊢
    have hread : ∃ fills', readLoop cut ⟨line ++ newline::rest,fills⟩ [] =
        .ok (.line,popTerminator ([] ++ line ++ [newline]),⟨rest,fills'⟩) :=
      readLoop_line cut fills h.newline List.not_mem_nil (by simpa using hbounded)
    obtain ⟨fills',hread⟩ := hread
    refine ⟨fills',?_⟩
    rw [List.append_assoc,List.singleton_append,hread]
    simp only [popTerminator,List.nil_append,List.dropLast_concat,if_neg h.last]
  | true =>
    simp only [terminated,if_true,List.length_append,List.length_cons,
      List.length_nil] at hbounded ⊢
    have hfront : newline ∉ line ++ [carriageReturn] := by
      rw [List.mem_append,not_or]
      exact ⟨h.newline,by decide⟩
    have hshort : ([] : List Byte).length+(line ++ [carriageReturn]).length+1 ≤
        maxControlLineBytes := by
      simp only [List.length_append,List.length_cons,List.length_nil]
      omega
    have hread : ∃ fills', readLoop cut ⟨line ++ [carriageReturn] ++ newline::rest,fills⟩ [] =
        .ok (.line,popTerminator ([] ++ (line ++ [carriageReturn]) ++ [newline]),⟨rest,fills'⟩) :=
      readLoop_line cut fills hfront List.not_mem_nil hshort
    obtain ⟨fills',hread⟩ := hread
    refine ⟨fills',?_⟩
    have hsplit : line ++ [carriageReturn,newline] ++ rest =
        line ++ [carriageReturn] ++ newline::rest := by simp
    rw [hsplit,hread]
    simp [popTerminator]

theorem readBoundedLine_eof (cut : ℕ → ℕ) (fills : ℕ) :
    readBoundedLine cut ⟨[],fills⟩ = .ok (.eof,[],⟨[],fills+1⟩) :=
  readLoop_eof cut fills []

theorem readBoundedLine_shorter {cut : ℕ → ℕ} {reader reader' : Reader} {line : List Byte}
    (h : readBoundedLine cut reader = .ok (.line,line,reader')) :
    reader'.remaining.length < reader.remaining.length := by
  apply (readLoop_shorter h).2
  intro hempty
  unfold readBoundedLine at h
  rw [readLoop_end hempty] at h
  cases h

end Tmux
end Ctxmux
