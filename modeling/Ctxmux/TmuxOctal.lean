import Mathlib.Tactic

/-!
# Octal escapes of Control Mode

Payload bytes are written as themselves or as a backslash with three octal digits. The
decoder accepts the strings in which every backslash begins such an escape, and it gives
back the bytes of every way to write them.
-/

namespace Ctxmux
namespace Tmux

abbrev Byte := UInt8

def byte (c : Char) : Byte := UInt8.ofNat c.toNat

def backslash : Byte := byte '\\'

def isOctal (b : Byte) : Bool := byte '0' ≤ b && b ≤ byte '7'

def octalValue (a b c : Byte) : ℕ :=
  (a-byte '0').toNat*64+(b-byte '0').toNat*8+(c-byte '0').toNat

def decodeOctal : List Byte → Except String (List Byte)
  | [] => .ok []
  | b::value =>
    if b ≠ backslash then (decodeOctal value).map (b::·)
    else
      match value with
      | x::y::z::value =>
        if !(isOctal x && isOctal y && isOctal z) then .error "invalid tmux octal escape"
        else if 255 < octalValue x y z then .error "tmux octal escape exceeds one byte"
        else (decodeOctal value).map (UInt8.ofNat (octalValue x y z)::·)
      | _ => .error "truncated tmux octal escape"

/-- Three digits of an escape stand at the front. -/
def EscapeDigits (value : List Byte) : Prop :=
  ∃ x y z rest, value = x::y::z::rest ∧ isOctal x = true ∧ isOctal y = true ∧ isOctal z = true ∧
    octalValue x y z ≤ 255

/-- Every backslash begins an escape. -/
def Escaped (value : List Byte) : Prop :=
  ∀ before after, value = before ++ backslash::after → EscapeDigits after

theorem octal_ne_backslash {b : Byte} (h : isOctal b = true) : b ≠ backslash := by
  rintro rfl
  revert h
  decide

theorem decodeOctal_plain {b : Byte} (h : b ≠ backslash) (value : List Byte) :
    decodeOctal (b::value) = (decodeOctal value).map (b::·) := by
  rw [decodeOctal.eq_def]
  dsimp only
  rw [if_pos h]

theorem decodeOctal_escape {x y z : Byte} (hx : isOctal x = true) (hy : isOctal y = true)
    (hz : isOctal z = true) (hvalue : octalValue x y z ≤ 255) (value : List Byte) :
    decodeOctal (backslash::x::y::z::value) =
      (decodeOctal value).map (UInt8.ofNat (octalValue x y z)::·) := by
  rw [decodeOctal,if_neg (by simp),hx,hy,hz,if_neg (by decide),if_neg (by omega)]

theorem map_isOk {value : Except String (List Byte)} (f : List Byte → List Byte) :
    (value.map f).isOk = value.isOk := by
  cases value <;> rfl

theorem escaped_plain {b : Byte} (h : b ≠ backslash) (value : List Byte) :
    Escaped (b::value) ↔ Escaped value := by
  constructor
  · intro hvalue before after heq
    exact hvalue (b::before) after (by rw [heq,List.cons_append])
  · intro hvalue before after heq
    cases before with
    | nil => exact absurd (List.cons.inj heq).1 h
    | cons c before => exact hvalue before after (List.cons.inj heq).2

theorem escaped_escape {x y z : Byte} (hx : isOctal x = true) (hy : isOctal y = true)
    (hz : isOctal z = true) (hvalue : octalValue x y z ≤ 255) (value : List Byte) :
    Escaped (backslash::x::y::z::value) ↔ Escaped value := by
  have hdigits : Escaped (x::y::z::value) ↔ Escaped value := by
    rw [escaped_plain (octal_ne_backslash hx),escaped_plain (octal_ne_backslash hy),
      escaped_plain (octal_ne_backslash hz)]
  rw [← hdigits]
  constructor
  · intro h before after heq
    exact h (backslash::before) after (by rw [heq,List.cons_append])
  · intro h before after heq
    cases before with
    | nil =>
      rw [← (List.cons.inj heq).2]
      exact ⟨x,y,z,value,rfl,hx,hy,hz,hvalue⟩
    | cons c before => exact h before after (List.cons.inj heq).2

/-- The decoder accepts exactly the strings in which every backslash begins an escape. -/
theorem decodeOctal_isOk (value : List Byte) : (decodeOctal value).isOk = true ↔ Escaped value := by
  induction value using decodeOctal.induct with
  | case1 =>
    refine iff_of_true rfl ?_
    intro before after heq
    cases before <;> cases heq
  | case2 b value h ih => rw [decodeOctal_plain h,map_isOk,ih,escaped_plain h]
  | case3 b h x y z value hdigits =>
    cases not_not.mp h
    rw [decodeOctal,if_neg h,if_pos hdigits]
    refine iff_of_false (by decide) ?_
    intro hescaped
    obtain ⟨_,_,_,_,heq,hx,hy,hz,_⟩ := hescaped [] _ rfl
    cases heq
    rw [hx,hy,hz] at hdigits
    cases hdigits
  | case4 b h x y z value hdigits hlarge =>
    cases not_not.mp h
    rw [decodeOctal,if_neg h,if_neg hdigits,if_pos hlarge]
    refine iff_of_false (by decide) ?_
    intro hescaped
    obtain ⟨_,_,_,_,heq,_,_,_,hvalue⟩ := hescaped [] _ rfl
    cases heq
    omega
  | case5 b h x y z value hdigits hlarge ih =>
    cases not_not.mp h
    simp only [Bool.not_eq_true',Bool.not_eq_false,Bool.and_eq_true] at hdigits
    obtain ⟨⟨hx,hy⟩,hz⟩ := hdigits
    have hvalue : octalValue x y z ≤ 255 := by omega
    rw [decodeOctal_escape hx hy hz hvalue,map_isOk,ih,escaped_escape hx hy hz hvalue]
  | case6 b value h hshort =>
    cases not_not.mp h
    have herror : decodeOctal (backslash::value) = .error "truncated tmux octal escape" := by
      rw [decodeOctal.eq_def]
      dsimp only
      rw [if_neg h]
      split
      · rename_i x y z rest
        exact absurd rfl (hshort x y z rest)
      · rfl
    rw [herror]
    refine iff_of_false (by decide) ?_
    intro hescaped
    obtain ⟨x,y,z,rest,rfl,_⟩ := hescaped [] value rfl
    exact hshort x y z rest rfl

/-- A byte with the choice to escape it; a backslash is always escaped. -/
structure WrittenByte where
  byte : Byte
  escaped : Bool
  backslash_escaped : byte = backslash → escaped = true

def octalDigit (n : ℕ) : Byte := byte '0'+UInt8.ofNat n

def WrittenByte.source (w : WrittenByte) : List Byte :=
  let n := w.byte.toNat
  if w.escaped = true then [backslash,octalDigit (n/64),octalDigit (n/8%8),octalDigit (n%8)]
  else [w.byte]

/-- One way to write a payload. -/
abbrev Written := List WrittenByte

def Written.source (payload : Written) : List Byte := payload.flatMap WrittenByte.source

def Written.bytes (payload : Written) : List Byte := payload.map WrittenByte.byte

theorem octalDigit_spec : ∀ n < 8, isOctal (octalDigit n) = true ∧
    (octalDigit n-byte '0').toNat = n := by
  decide

theorem octalValue_digits {n : ℕ} (hn : n < 256) :
    octalValue (octalDigit (n/64)) (octalDigit (n/8%8)) (octalDigit (n%8)) = n := by
  have h₁ := (octalDigit_spec (n/64) (by omega)).2
  have h₂ := (octalDigit_spec (n/8%8) (by omega)).2
  have h₃ := (octalDigit_spec (n%8) (by omega)).2
  unfold octalValue
  rw [h₁,h₂,h₃]
  omega

/-- However a payload is written, the decoder gives it back. -/
theorem decodeOctal_source (payload : Written) : decodeOctal payload.source = .ok payload.bytes := by
  induction payload with
  | nil => rfl
  | cons w payload ih =>
    have hsource : Written.source (w::payload) = w.source ++ Written.source payload :=
      List.flatMap_cons
    have hbyte : w.byte.toNat < 256 := UInt8.toNat_lt w.byte
    rw [hsource]
    by_cases hescaped : w.escaped = true
    · have hvalue := octalValue_digits hbyte
      rw [WrittenByte.source,if_pos hescaped]
      refine (decodeOctal_escape (octalDigit_spec _ (by omega)).1 (octalDigit_spec _ (by omega)).1
        (octalDigit_spec _ (by omega)).1 (by omega) (Written.source payload)).trans ?_
      rw [ih,hvalue,UInt8.ofNat_toNat]
      rfl
    · have hplain : w.byte ≠ backslash := fun h => hescaped (w.backslash_escaped h)
      rw [WrittenByte.source,if_neg hescaped]
      refine (decodeOctal_plain hplain (Written.source payload)).trans ?_
      rw [ih]
      rfl

end Tmux
end Ctxmux
