import Ctxmux.JsonLines
import Ctxmux.VersionScan

/-!
# Capability versions are read exactly

Both parsers accept a number token exactly if its decimal value is a version, and return
that value.
-/

namespace Ctxmux
namespace Version

open Decimal (IsDigits spelled trimZeros)

/-- The natural number that a scaled digit string spells. -/
def Spells (n : ℕ) (shift : ℤ) (value : ℕ) : Prop := (n : ℚ)*(10 : ℚ)^shift = value

def IsVersion (n : ℕ) : Prop := 1 ≤ n ∧ n ≤ maxRuntimeCapabilityVersion

theorem Spells.unique {n : ℕ} {shift : ℤ} {x y : ℕ} (hx : Spells n shift x)
    (hy : Spells n shift y) : x = y := by
  have h : (x : ℚ) = y := hx.symm.trans hy
  exact_mod_cast h

theorem spells_scaled (n appended : ℕ) : Spells n appended (n*10^appended) := by
  unfold Spells
  rw [zpow_natCast]
  push_cast
  rfl

/-- With a negative shift the number is the quotient, without a rest. -/
theorem spells_cut {n removed x : ℕ} : Spells n (-removed) x ↔ n = x*10^removed := by
  have hpos : ((10 : ℚ)^removed) ≠ 0 := pow_ne_zero _ (by norm_num)
  unfold Spells
  rw [zpow_neg,zpow_natCast]
  constructor
  · intro h
    have hq : (n : ℚ) = x*10^removed := by
      rw [← h]
      field_simp
    exact_mod_cast hq
  · intro h
    rw [h]
    push_cast
    field_simp

theorem not_version_of_large {n : ℕ} {shift : ℤ} (hn : 0 < n) (h : 16 < shift) {x : ℕ}
    (hx : Spells n shift x) : ¬IsVersion x := by
  rintro ⟨-,hle⟩
  obtain ⟨appended,rfl⟩ := Int.eq_ofNat_of_zero_le (by omega : 0 ≤ shift)
  have heq := hx.unique (spells_scaled n appended)
  have hpow : 10^16 ≤ 10^appended := Nat.pow_le_pow_right (by decide) (by omega)
  have hmul : 10^appended ≤ n*10^appended := Nat.le_mul_of_pos_left _ hn
  have hmax : maxRuntimeCapabilityVersion < 10^16 := by decide
  omega

theorem not_version_of_small {n length : ℕ} {shift : ℤ} (hn : n < 10^length)
    (h : (length : ℤ) ≤ -shift) {x : ℕ} (hx : Spells n shift x) : ¬IsVersion x := by
  rintro ⟨hone,-⟩
  obtain ⟨removed,hremoved⟩ := Int.eq_ofNat_of_zero_le (by omega : 0 ≤ -shift)
  have hshift : shift = -(removed : ℤ) := by omega
  rw [hshift] at hx
  have heq := spells_cut.mp hx
  have hpow : 10^length ≤ 10^removed := Nat.pow_le_pow_right (by decide) (by omega)
  have hmul : 10^removed ≤ x*10^removed := Nat.le_mul_of_pos_left _ hone
  omega

section Shift

variable {digits : List Char} {shift : ℤ}

/-- What both shifts do: the digits of the number, or no version at all. -/
def Shifted (digits : List Char) (shift : ℤ) (result : Option (List Char)) : Prop :=
  match result with
  | some out => IsDigits out ∧ Spells (spelled digits) shift (spelled out) ∧
      out.length ≤ digits.length+16
  | none => ∀ x, Spells (spelled digits) shift x → ¬IsVersion x

theorem take_digits (h : IsDigits digits) (n : ℕ) : IsDigits (digits.take n) :=
  fun c hc => h c (List.mem_of_mem_take hc)

/-- Cutting digits off leaves the number exactly if they are zeros. -/
theorem spelled_cut (h : IsDigits digits) {removed : ℕ} (hremoved : removed < digits.length) :
    ((digits.drop (digits.length-removed)).all (· = '0') = true →
      spelled digits = spelled (digits.take (digits.length-removed))*10^removed) ∧
    ((digits.drop (digits.length-removed)).all (· = '0') = false →
      ∀ x, spelled digits ≠ x*10^removed) := by
  have hsplit : spelled digits = spelled (digits.take (digits.length-removed))*10^removed +
      spelled (digits.drop (digits.length-removed)) := by
    have happend := Decimal.spelled_append (digits.take (digits.length-removed))
      (digits.drop (digits.length-removed))
    rw [List.take_append_drop,List.length_drop] at happend
    rw [happend]
    congr 3
    omega
  have hdrop : IsDigits (digits.drop (digits.length-removed)) :=
    fun c hc => h c (List.mem_of_mem_drop hc)
  have hlt := Decimal.spelled_lt hdrop
  rw [List.length_drop,show digits.length-(digits.length-removed) = removed by omega] at hlt
  have hzero := Decimal.spelled_zero_iff hdrop
  constructor
  · intro hall
    have hz : spelled (digits.drop (digits.length-removed)) = 0 := by
      apply hzero.mpr
      simpa using hall
    rw [hz] at hsplit
    exact hsplit
  · intro hall x hx
    have hmod : spelled (digits.drop (digits.length-removed)) = 0 := by
      have hdvd : spelled digits % 10^removed = 0 := by
        rw [hx]
        exact Nat.mul_mod_left _ _
      rw [hsplit,Nat.mul_add_mod_self_right,Nat.mod_eq_of_lt hlt] at hdvd
      exact hdvd
    have hzeros := hzero.mp hmod
    have hall' : (digits.drop (digits.length-removed)).all (· = '0') = true := by
      simpa using hzeros
    rw [hall'] at hall
    cases hall

theorem shifted_cut (h : IsDigits digits) {removed : ℕ} (hshift : shift = -removed) :
    Shifted digits shift
      (if digits.length ≤ removed || !(digits.drop (digits.length-removed)).all (· = '0') then none
        else some (digits.take (digits.length-removed))) := by
  subst hshift
  by_cases hlong : digits.length ≤ removed
  · rw [decide_eq_true hlong]
    intro x hx
    exact not_version_of_small (Decimal.spelled_lt h) (by omega) hx
  · obtain ⟨hzeros,hother⟩ := spelled_cut h (Nat.lt_of_not_le hlong)
    rw [decide_eq_false hlong]
    cases hall : (digits.drop (digits.length-removed)).all (· = '0') with
    | true =>
      refine ⟨take_digits h _,spells_cut.mpr (hzeros hall),?_⟩
      rw [List.length_take]
      omega
    | false =>
      intro x hx
      exact absurd (spells_cut.mp hx) (hother hall x)

theorem digits_zeros (h : IsDigits digits) (appended : ℕ) :
    IsDigits (digits ++ List.replicate appended '0') := by
  intro c hc
  rcases List.mem_append.mp hc with hc | hc
  · exact h c hc
  · rw [List.eq_of_mem_replicate hc]
    rfl

theorem spelled_appended (digits : List Char) (appended : ℕ) :
    spelled (digits ++ List.replicate appended '0') = spelled digits*10^appended := by
  rw [Decimal.spelled_append,Decimal.spelled_zeros,List.length_replicate,Nat.add_zero]

/-- More than sixteen significant digits are above every version. -/
theorem not_version_of_long (h : IsDigits digits) (hpos : 0 < spelled digits) {appended : ℕ}
    (hlong : 16 < (trimZeros digits).length+appended) {x : ℕ}
    (hx : Spells (spelled digits) appended x) : ¬IsVersion x := by
  rintro ⟨-,hle⟩
  obtain ⟨hsome,hsize⟩ := Decimal.le_spelled_trimZeros h hpos
  have heq := hx.unique (spells_scaled _ appended)
  have hpow : 10^16 ≤ spelled digits*10^appended := by
    calc 10^16 ≤ 10^((trimZeros digits).length-1+appended) :=
          Nat.pow_le_pow_right (by decide) (by omega)
      _ = 10^((trimZeros digits).length-1)*10^appended := pow_add _ _ _
      _ ≤ spelled digits*10^appended := Nat.mul_le_mul_right _ hsize
  have hmax : maxRuntimeCapabilityVersion < 10^16 := by decide
  omega

theorem sdk_shifted (h : IsDigits digits) (hpos : 0 < spelled digits) (shift : ℤ) :
    Shifted digits shift (Sdk.shiftDigits digits shift) := by
  unfold Sdk.shiftDigits
  split
  · next hneg => exact shifted_cut h (by omega)
  · next hnonneg =>
    obtain ⟨appended,rfl⟩ := Int.eq_ofNat_of_zero_le (by omega : 0 ≤ shift)
    have happended : (appended : ℤ).toNat = appended := rfl
    dsimp only
    rw [happended]
    split
    · next hlong => exact fun x hx => not_version_of_long h hpos hlong hx
    · next hshort =>
      refine ⟨digits_zeros (Decimal.trimZeros_digits h) appended,?_,?_⟩
      · rw [spelled_appended,Decimal.spelled_trimZeros]
        exact spells_scaled _ appended
      · rw [List.length_append,List.length_replicate]
        omega

theorem daemon_shift_cut (hneg : shift < 0) (hfits : -shift ≤ usizeMax) :
    (shiftDigits digits shift).toOption =
      if digits.length ≤ (-shift).toNat ||
          !(digits.drop (digits.length-(-shift).toNat)).all (· = '0') then none
      else some (digits.take (digits.length-(-shift).toNat)) := by
  have hin : inI128 (-shift) = some (-shift) := by
    apply if_pos
    have hmax : (usizeMax : ℤ) ≤ i128Max := by decide
    omega
  have husize : (-shift).toNat ≤ usizeMax := by omega
  unfold shiftDigits
  rw [if_pos hneg,hin]
  simp only [Option.bind_some,if_pos husize,orError]
  show (if (decide (digits.length ≤ (-shift).toNat) ||
      !(digits.drop (digits.length-(-shift).toNat)).all (· = '0')) = true then
      Except.error "Runtime capability version must be an integer"
    else Except.ok (digits.take (digits.length-(-shift).toNat)) : Except String (List Char)).toOption = _
  split
  · rfl
  · rfl

theorem daemon_shift_far (hneg : shift < 0) (hfar : (usizeMax : ℤ) < -shift) :
    (shiftDigits digits shift).toOption = none := by
  have hnone : (inI128 (-shift)).bind (fun n =>
      if n.toNat ≤ usizeMax then some n.toNat else none) = none := by
    cases hin : inI128 (-shift) with
    | none => rfl
    | some n =>
      have hn := inI128_some hin
      rw [hn]
      exact if_neg (by omega)
  unfold shiftDigits
  rw [if_pos hneg,hnone]
  rfl

theorem daemon_shift_append {appended : ℕ} (hfits : appended ≤ usizeMax) :
    (shiftDigits digits appended).toOption =
      if 16 < (trimZeros digits).length+appended then none
      else some (digits ++ List.replicate appended '0') := by
  have hsaturated : 16 < min ((trimZeros digits).length+appended) usizeMax ↔
      16 < (trimZeros digits).length+appended := by
    have hmax : 16 < usizeMax := by decide
    omega
  unfold shiftDigits
  rw [if_neg (by omega),show (appended : ℤ).toNat = appended from rfl,if_pos hfits]
  show (if 16 < min ((trimZeros digits).length+appended) usizeMax then Except.error exceedsMaximum
    else Except.ok (digits ++ List.replicate appended '0') : Except String (List Char)).toOption = _
  by_cases hlong : 16 < (trimZeros digits).length+appended
  · rw [if_pos (hsaturated.mpr hlong),if_pos hlong]
    rfl
  · rw [if_neg (fun h => hlong (hsaturated.mp h)),if_neg hlong]
    rfl

theorem daemon_shift_above {appended : ℕ} (hfar : usizeMax < appended) :
    (shiftDigits digits appended).toOption = none := by
  unfold shiftDigits
  rw [if_neg (by omega),show (appended : ℤ).toNat = appended from rfl,if_neg (by omega)]
  rfl

theorem daemon_shifted (h : IsDigits digits) (hpos : 0 < spelled digits)
    (hlength : digits.length ≤ usizeMax) (shift : ℤ) :
    Shifted digits shift (shiftDigits digits shift).toOption := by
  by_cases hneg : shift < 0
  · by_cases hfits : -shift ≤ usizeMax
    · rw [daemon_shift_cut hneg hfits]
      exact shifted_cut h (by omega)
    · rw [daemon_shift_far hneg (by omega)]
      exact fun x hx => not_version_of_small (Decimal.spelled_lt h) (by omega) hx
  · obtain ⟨appended,rfl⟩ := Int.eq_ofNat_of_zero_le (by omega : 0 ≤ shift)
    by_cases hfits : appended ≤ usizeMax
    · show Shifted digits appended (shiftDigits digits appended).toOption
      rw [daemon_shift_append hfits]
      split
      · next hlong => exact fun x hx => not_version_of_long h hpos hlong hx
      · next hshort =>
        refine ⟨digits_zeros h appended,?_,?_⟩
        · rw [spelled_appended]
          exact spells_scaled _ appended
        · rw [List.length_append,List.length_replicate]
          omega
    · show Shifted digits appended (shiftDigits digits appended).toOption
      rw [daemon_shift_above (by omega)]
      have hmax : 16 < usizeMax := by decide
      exact fun x hx => not_version_of_large hpos (by omega) hx

end Shift

section Finish

variable {out : List Char}

/-- The last step of the daemon: the digits as a number, within the range. -/
def finish (integerDigits : List Char) : Except String ℕ := do
  let version ← orError (parseU64 (trimZeros integerDigits)) exceedsMaximum
  validateRuntimeCapabilityVersion version
  return version

theorem parseU64_digits (h : IsDigits out) (hne : out ≠ []) :
    parseU64 out = if spelled out ≤ u64Max then some (spelled out) else none := by
  unfold parseU64
  cases out with
  | nil => exact absurd rfl hne
  | cons c rest =>
    have hc : c ≠ '+' := digit_ne (h c List.mem_cons_self) rfl
    dsimp only
    split
    · next hplus => exact absurd (List.cons.inj hplus).1 hc
    · rw [parseDigits_eq h hne]
      rfl

theorem validate_ok (version : ℕ) :
    validateRuntimeCapabilityVersion version = .ok () ↔ IsVersion version := by
  unfold validateRuntimeCapabilityVersion IsVersion
  split
  · next hzero =>
    constructor
    · intro h
      cases h
    · intro h
      omega
  · next hpos =>
    split
    · next hlarge =>
      constructor
      · intro h
        cases h
      · intro h
        omega
    · next hsmall =>
      constructor
      · intro _
        omega
      · exact fun _ => rfl

theorem finish_ok (h : IsDigits out) (x : ℕ) :
    finish out = .ok x ↔ spelled out = x ∧ IsVersion x := by
  have hspelled := Decimal.spelled_trimZeros out
  unfold finish
  by_cases hne : trimZeros out = []
  · rw [hne] at hspelled ⊢
    constructor
    · intro hx
      cases hx
    · rintro ⟨hx,hone,-⟩
      rw [← hspelled] at hx
      rw [← hx] at hone
      exact absurd hone (by decide)
  · rw [parseU64_digits (Decimal.trimZeros_digits h) hne,hspelled]
    by_cases hfits : spelled out ≤ u64Max
    · rw [if_pos hfits]
      show (validateRuntimeCapabilityVersion (spelled out)).bind
        (fun _ => Except.ok (spelled out)) = _ ↔ _
      cases hv : validateRuntimeCapabilityVersion (spelled out) with
      | ok u =>
        have hversion := (validate_ok _).mp hv
        constructor
        · intro hx
          cases hx
          exact ⟨rfl,hversion⟩
        · rintro ⟨rfl,-⟩
          rfl
      | error e =>
        constructor
        · intro hx
          cases hx
        · rintro ⟨rfl,hversion⟩
          rw [(validate_ok _).mpr hversion] at hv
          cases hv
    · rw [if_neg hfits]
      constructor
      · intro hx
        cases hx
      · rintro ⟨rfl,-,hle⟩
        have hmax : maxRuntimeCapabilityVersion ≤ u64Max := by decide
        omega

theorem isRuntimeCapabilityVersion_number (n : ℕ) :
    Sdk.isRuntimeCapabilityVersion (Sdk.number n) = true ↔ IsVersion n := by
  unfold Sdk.isRuntimeCapabilityVersion IsVersion
  rw [Bool.and_eq_true,Bool.and_eq_true,safe_number,decide_eq_true_eq,decide_eq_true_eq]
  have hmax : maxRuntimeCapabilityVersion = 2^53-1 := rfl
  constructor
  · rintro ⟨⟨hsafe,hpos⟩,-⟩
    rw [number_small hsafe] at hpos
    omega
  · rintro ⟨hone,hle⟩
    have hsafe : n ≤ 2^53-1 := by omega
    rw [number_small hsafe]
    omega

theorem sdk_finish (x : ℕ) :
    (if Sdk.isRuntimeCapabilityVersion (Sdk.number (spelled (trimZeros out))) then
      some (Sdk.number (spelled (trimZeros out))) else none) = some x ↔
      spelled out = x ∧ IsVersion x := by
  rw [Decimal.spelled_trimZeros]
  have hversion := isRuntimeCapabilityVersion_number (spelled out)
  by_cases hv : IsVersion (spelled out)
  · have hsafe : spelled out ≤ 2^53-1 := hv.2
    rw [if_pos (hversion.mpr hv),number_small hsafe]
    constructor
    · intro hx
      cases hx
      exact ⟨rfl,hv⟩
    · rintro ⟨rfl,-⟩
      rfl
  · rw [if_neg (fun h => hv (hversion.mp h))]
    constructor
    · intro hx
      cases hx
    · rintro ⟨rfl,hx⟩
      exact absurd hx hv

end Finish

section Token

variable {t : NumberToken}

/-- The version that a token spells. -/
def NumberToken.IsValue (t : NumberToken) (x : ℕ) : Prop := t.value = x ∧ IsVersion x

theorem value_plus (h : t.negative = false) (x : ℕ) :
    t.IsValue x ↔ Spells (spelled t.digits) t.shift x ∧ IsVersion x := by
  unfold NumberToken.IsValue NumberToken.value Spells NumberToken.digits NumberToken.shift
  rw [h]
  rfl

theorem value_negative (h : t.negative = true) (x : ℕ) : ¬t.IsValue x := by
  rintro ⟨hvalue,hone,-⟩
  unfold NumberToken.value at hvalue
  rw [h] at hvalue
  have hmagnitude : (0 : ℚ) ≤ (spelled (t.integer ++ t.fractionPart) : ℚ) *
      (10 : ℚ)^(t.exponentValue-t.fractionPart.length) := by positivity
  have hx : (1 : ℚ) ≤ x := by exact_mod_cast hone
  simp only [if_true] at hvalue
  linarith

theorem value_zero (h : spelled t.digits = 0) (x : ℕ) :
    ¬(Spells (spelled t.digits) t.shift x ∧ IsVersion x) := by
  rintro ⟨hspells,hone,-⟩
  unfold Spells at hspells
  rw [h] at hspells
  have hx : (1 : ℚ) ≤ x := by exact_mod_cast hone
  simp only [Nat.cast_zero,zero_mul] at hspells
  linarith

/-- An exponent that is far from the length of a frame leaves no version. -/
theorem value_far (hlength : t.source.length ≤ Wire.maxFrameBytes)
    (hfar : (2^53 : ℤ) ≤ t.exponentValue ∨ t.exponentValue ≤ -2^53) (x : ℕ) :
    ¬(Spells (spelled t.digits) t.shift x ∧ IsVersion x) := by
  have hdigits : t.digits.length ≤ Wire.maxFrameBytes := t.digits_length.trans hlength
  have hfraction : t.fractionPart.length ≤ t.digits.length := by
    unfold NumberToken.digits
    rw [List.length_append]
    exact Nat.le_add_left _ _
  have hframe : Wire.maxFrameBytes = 1048576 := rfl
  have hshift : t.shift = t.exponentValue-t.fractionPart.length := rfl
  rintro ⟨hspells,hversion⟩
  rcases hfar with hlarge | hsmall
  · by_cases hzero : spelled t.digits = 0
    · exact value_zero hzero x ⟨hspells,hversion⟩
    · exact not_version_of_large (Nat.pos_of_ne_zero hzero) (by omega) hspells hversion
  · exact not_version_of_small (Decimal.spelled_lt NumberToken.digits_digits) (by omega) hspells
      hversion

theorem inI128_none {n : ℤ} (h : inI128 n = none) : 2^100 ≤ n ∨ n ≤ -2^100 := by
  unfold inI128 at h
  split at h
  · cases h
  · next hout =>
    have hmax : (i128Max : ℤ) = 2^127-1 := by decide
    omega

/-- The daemon returns exactly the version that the token spells. -/
theorem daemon_parses (hlength : t.source.length ≤ Wire.maxFrameBytes) (x : ℕ) :
    parseRuntimeCapabilityVersion t.source = .ok x ↔ t.IsValue x := by
  have hparse : parseRuntimeCapabilityVersion t.source =
      (scanVersion t.source).bind fun scanned =>
        (shiftDigits scanned.1 scanned.2).bind finish := rfl
  rw [hparse]
  cases hneg : t.negative with
  | true =>
    obtain ⟨e,he⟩ := NumberToken.scan_negative hneg
    rw [he]
    constructor
    · intro hx
      cases hx
    · exact fun hx => absurd hx (value_negative hneg x)
  | false =>
    rw [value_plus hneg]
    have hframe : Wire.maxFrameBytes = 1048576 := rfl
    have hdigits : t.digits.length ≤ Wire.maxFrameBytes := t.digits_length.trans hlength
    rcases NumberToken.scan_plus hneg with ⟨e,he,hwhy⟩ | ⟨hpos,hscan⟩
    · rw [he]
      constructor
      · intro hx
        cases hx
      · intro hx
        exfalso
        rcases hwhy with hzero | hexponent | hshift
        · exact value_zero hzero x hx
        · have hfar := inI128_none hexponent
          exact value_far hlength (by omega) x hx
        · have hfar := inI128_none hshift
          have hfraction : t.fractionPart.length ≤ t.digits.length := by
            unfold NumberToken.digits
            rw [List.length_append]
            exact Nat.le_add_left _ _
          have hsum : t.shift = t.exponentValue-t.fractionPart.length := rfl
          exact value_far hlength (by omega) x hx
    · rw [hscan]
      have husize : t.digits.length ≤ usizeMax := hdigits.trans (by decide)
      have hshifted := daemon_shifted NumberToken.digits_digits hpos husize t.shift
      show (shiftDigits t.digits t.shift).bind finish = .ok x ↔ _
      cases hs : shiftDigits t.digits t.shift with
      | error e =>
        rw [hs] at hshifted
        constructor
        · intro hx
          cases hx
        · exact fun hx => absurd hx.2 (hshifted x hx.1)
      | ok out =>
        rw [hs] at hshifted
        obtain ⟨hout,hspells,-⟩ := hshifted
        show finish out = .ok x ↔ _
        rw [finish_ok hout]
        constructor
        · rintro ⟨rfl,hversion⟩
          exact ⟨hspells,hversion⟩
        · rintro ⟨hx,hversion⟩
          exact ⟨hspells.unique hx,hversion⟩

theorem sdk_parses (hlength : t.source.length ≤ Wire.maxFrameBytes) (x : ℕ) :
    Sdk.parseRuntimeCapabilityVersionSource t.source = some x ↔ t.IsValue x := by
  have hparse : Sdk.parseRuntimeCapabilityVersionSource t.source =
      (Sdk.scanVersion t.source).bind fun scanned =>
        (Sdk.shiftDigits scanned.1 scanned.2).bind fun out =>
          if Sdk.isRuntimeCapabilityVersion (Sdk.number (spelled (trimZeros out))) then
            some (Sdk.number (spelled (trimZeros out))) else none := rfl
  rw [hparse]
  cases hneg : t.negative with
  | true =>
    have hnone : Sdk.scanVersion t.source = none := by
      unfold Sdk.scanVersion
      rw [NumberToken.matchNumber_negative hneg]
      rfl
    rw [hnone]
    constructor
    · intro hx
      cases hx
    · exact fun hx => absurd hx (value_negative hneg x)
  | false =>
    rw [value_plus hneg]
    rcases NumberToken.sdk_scan_plus hneg with ⟨hnone,hwhy⟩ | ⟨hpos,hscan⟩
    · rw [hnone]
      constructor
      · intro hx
        cases hx
      · intro hx
        exfalso
        rcases hwhy with hzero | hfar
        · exact value_zero hzero x hx
        · exact value_far hlength hfar x hx
    · rw [hscan]
      have hshifted := sdk_shifted NumberToken.digits_digits hpos t.shift
      show (Sdk.shiftDigits t.digits t.shift).bind _ = some x ↔ _
      cases hs : Sdk.shiftDigits t.digits t.shift with
      | none =>
        rw [hs] at hshifted
        constructor
        · intro hx
          cases hx
        · exact fun hx => absurd hx.2 (hshifted x hx.1)
      | some out =>
        rw [hs] at hshifted
        obtain ⟨hout,hspells,-⟩ := hshifted
        rw [Option.bind_some,sdk_finish]
        constructor
        · rintro ⟨rfl,hversion⟩
          exact ⟨hspells,hversion⟩
        · rintro ⟨hx,hversion⟩
          exact ⟨hspells.unique hx,hversion⟩

/-- The digit strings that a parser builds: the significand's, and the shifted one. -/
def Bounded (source : List Char) (scanned : Option (List Char × ℤ))
    (shift : List Char → ℤ → Option (List Char)) : Prop :=
  ∀ digits decimalShift, scanned = some (digits,decimalShift) →
    digits.length ≤ source.length ∧
      ∀ out, shift digits decimalShift = some out → out.length ≤ source.length+16

theorem daemon_bounded (hlength : t.source.length ≤ Wire.maxFrameBytes) :
    Bounded t.source (scanVersion t.source).toOption fun digits shift =>
      (shiftDigits digits shift).toOption := by
  intro digits decimalShift hscanned
  cases hneg : t.negative with
  | true =>
    obtain ⟨e,he⟩ := NumberToken.scan_negative hneg
    rw [he] at hscanned
    cases hscanned
  | false =>
    rcases NumberToken.scan_plus hneg with ⟨e,he,-⟩ | ⟨hpos,hscan⟩
    · rw [he] at hscanned
      cases hscanned
    · rw [hscan] at hscanned
      cases hscanned
      refine ⟨t.digits_length,?_⟩
      intro out hout
      have husize : t.digits.length ≤ usizeMax := (t.digits_length.trans hlength).trans (by decide)
      have hshifted := daemon_shifted NumberToken.digits_digits hpos husize t.shift
      rw [show (shiftDigits t.digits t.shift).toOption = some out from hout] at hshifted
      exact hshifted.2.2.trans (Nat.add_le_add_right t.digits_length 16)

theorem sdk_bounded : Bounded t.source (Sdk.scanVersion t.source) Sdk.shiftDigits := by
  intro digits decimalShift hscanned
  cases hneg : t.negative with
  | true =>
    unfold Sdk.scanVersion at hscanned
    rw [NumberToken.matchNumber_negative hneg] at hscanned
    cases hscanned
  | false =>
    rcases NumberToken.sdk_scan_plus hneg with ⟨hnone,-⟩ | ⟨hpos,hscan⟩
    · rw [hnone] at hscanned
      cases hscanned
    · rw [hscan] at hscanned
      cases hscanned
      refine ⟨t.digits_length,?_⟩
      intro out hout
      have hshifted := sdk_shifted NumberToken.digits_digits hpos t.shift
      rw [hout] at hshifted
      exact hshifted.2.2.trans (Nat.add_le_add_right t.digits_length 16)

end Token

/-- Every number token that fits in a frame: both parsers return the version that it
spells, exactly if it spells one, from digit strings that are hardly longer than it is. -/
theorem versions_parsed_exactly (t : NumberToken) (hlength : t.source.length ≤ Wire.maxFrameBytes) :
    (∀ x : ℕ, parseRuntimeCapabilityVersion t.source = .ok x ↔
      t.value = x ∧ 1 ≤ x ∧ x ≤ 2^53-1) ∧
    (∀ x : ℕ, Sdk.parseRuntimeCapabilityVersionSource t.source = some x ↔
      t.value = x ∧ 1 ≤ x ∧ x ≤ 2^53-1) ∧
    (Bounded t.source (scanVersion t.source).toOption fun digits shift =>
      (shiftDigits digits shift).toOption) ∧
    Bounded t.source (Sdk.scanVersion t.source) Sdk.shiftDigits :=
  ⟨daemon_parses hlength,sdk_parses hlength,daemon_bounded hlength,sdk_bounded⟩

/-- `12.30e+2` -/
def exampleToken : NumberToken where
  negative := false
  integer := ['1','2']
  fraction := some ['3','0']
  exponent := some ('e',some '+',['2'])
  integer_digits := by decide
  integer_plain := Or.inr ⟨'1',['2'],rfl,by decide⟩
  fraction_digits := by
    rintro digits ⟨⟩
    exact ⟨by decide,by decide⟩
  exponent_digits := by
    rintro e ⟨⟩
    refine ⟨Or.inl rfl,?_,by decide,by decide⟩
    rintro sign ⟨⟩
    exact Or.inl rfl

theorem example_parsed : exampleToken.value = (1230 : ℕ) ∧ 1 ≤ 1230 ∧ 1230 ≤ 2^53-1 :=
  ((versions_parsed_exactly exampleToken (by decide)).1 1230).mp (by decide)
end Version
end Ctxmux
