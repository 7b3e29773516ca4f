import Ctxmux.VersionToken

/-!
# What the two parsers read of a number token

Both find the same digits and the same power of ten, unless the token is negative, spells
zero, or has an exponent that neither can hold.
-/

namespace Ctxmux
namespace Version

open Decimal (IsDigits spelled trimZeros)

theorem digit_ne {c d : Char} (h : c.isDigit = true) (hd : d.isDigit = false) : c ≠ d := by
  rintro rfl
  rw [h] at hd
  cases hd

section Split

variable {pattern : Char → Bool} {xs ys : List Char} {c : Char}

theorem span_append (h : ∀ x ∈ xs, pattern x = false) (ys : List Char) :
    (xs ++ ys).dropWhile (!pattern ·) = ys.dropWhile (!pattern ·) ∧
      (xs ++ ys).takeWhile (!pattern ·) = xs ++ ys.takeWhile (!pattern ·) := by
  induction xs with
  | nil => exact ⟨rfl,rfl⟩
  | cons x xs ih =>
    have hx := h x List.mem_cons_self
    obtain ⟨hdrop,htake⟩ := ih fun y hy => h y (List.mem_cons_of_mem _ hy)
    rw [List.cons_append,List.dropWhile_cons,List.takeWhile_cons,hx]
    exact ⟨hdrop,congrArg (x::·) htake⟩

theorem splitOnce_none (h : ∀ x ∈ xs, pattern x = false) : splitOnce pattern xs = none := by
  have hspan := (span_append h []).1
  rw [List.append_nil] at hspan
  unfold splitOnce
  rw [hspan]
  rfl

theorem splitOnce_append (h : ∀ x ∈ xs, pattern x = false) (hc : pattern c = true) :
    splitOnce pattern (xs ++ c::ys) = some (xs,ys) := by
  obtain ⟨hdrop,htake⟩ := span_append h (c::ys)
  unfold splitOnce
  rw [hdrop,htake,List.dropWhile_cons,List.takeWhile_cons,hc]
  simp

end Split

theorem inI128_some {n m : ℤ} (h : inI128 n = some m) : m = n := by
  unfold inI128 at h
  split at h
  · exact (Option.some.inj h).symm
  · cases h

theorem parseDigits_eq {digits : List Char} (h : IsDigits digits) (hne : digits ≠ []) :
    parseDigits digits = some (spelled digits) :=
  if_pos ⟨hne,h⟩

namespace NumberToken

variable (t : NumberToken)

def digits : List Char := t.integer ++ t.fractionPart

def shift : ℤ := t.exponentValue-t.fractionPart.length

/-- The text of the exponent after its letter. -/
def exponentText : List Char := t.exponent.elim ['0'] fun e => e.2.1.toList ++ e.2.2

variable {t}

theorem fractionPart_digits : IsDigits t.fractionPart := by
  unfold fractionPart
  cases hf : t.fraction with
  | none => exact fun c hc => (nomatch hc)
  | some digits => exact (t.fraction_digits digits hf).1

theorem digits_digits : IsDigits t.digits := by
  intro c hc
  rcases List.mem_append.mp hc with hc | hc
  · exact t.integer_digits c hc
  · exact fractionPart_digits c hc

theorem integer_ne_nil : t.integer ≠ [] := by
  rcases t.integer_plain with h | ⟨c,rest,h,-⟩
  · rw [h]
    exact List.cons_ne_nil _ _
  · rw [h]
    exact List.cons_ne_nil _ _

theorem digits_length : t.digits.length ≤ t.source.length := by
  have hfraction : t.fractionPart.length ≤ t.fractionSource.length := by
    unfold fractionPart fractionSource
    cases t.fraction with
    | none => exact Nat.zero_le _
    | some digits => exact Nat.le_succ _
  unfold digits source
  simp only [List.length_append]
  omega

theorem parseI128_exponent : parseI128 t.exponentText = inI128 t.exponentValue := by
  unfold exponentText exponentValue
  cases he : t.exponent with
  | none => rfl
  | some e =>
    obtain ⟨-,hsign,hdigits,hne⟩ := t.exponent_digits e he
    rcases e with ⟨letter,sign,digits⟩
    have hparse := parseDigits_eq hdigits hne
    dsimp only at hsign hdigits hne hparse ⊢
    simp only [Option.elim_some]
    cases sign with
    | some s =>
      rcases hsign s rfl with rfl | rfl
      · show (parseDigits digits).bind _ = _
        rw [hparse]
        rfl
      · show (parseDigits digits).bind _ = _
        rw [hparse]
        rfl
    | none =>
      cases digits with
      | nil => exact absurd rfl hne
      | cons c rest =>
        have hc := hdigits c List.mem_cons_self
        have hplus : c ≠ '+' := digit_ne hc rfl
        have hminus : c ≠ '-' := digit_ne hc rfl
        have hplain : parseI128 (c::rest) = (parseDigits (c::rest)).bind fun n => inI128 n := by
          unfold parseI128
          split
          · next h => exact absurd (List.cons.inj h).1 hplus
          · next h => exact absurd (List.cons.inj h).1 hminus
          · rfl
        show parseI128 (c::rest) = _
        rw [hplain,hparse]
        rfl

theorem splitOnce_exponent (hplus : t.negative = false) :
    (splitOnce (fun c => c = 'e' || c = 'E') t.source).getD (t.source,['0']) =
      (t.integer ++ t.fractionSource,t.exponentText) := by
  have hfront : ∀ c ∈ t.integer ++ t.fractionSource, (decide (c = 'e') || decide (c = 'E')) = false := by
    have hdigit : ∀ c : Char, c.isDigit = true → (decide (c = 'e') || decide (c = 'E')) = false := by
      intro c hc
      simp [digit_ne hc (show 'e'.isDigit = false from rfl),digit_ne hc (show 'E'.isDigit = false from rfl)]
    intro c hc
    rcases List.mem_append.mp hc with hc | hc
    · exact hdigit c (t.integer_digits c hc)
    · unfold fractionSource at hc
      cases hf : t.fraction with
      | none =>
        rw [hf] at hc
        cases hc
      | some digits =>
        rw [hf] at hc
        rcases List.mem_cons.mp hc with rfl | hc
        · rfl
        · exact hdigit c ((t.fraction_digits digits hf).1 c hc)
  unfold source exponentText exponentSource
  rw [hplus,if_neg Bool.false_ne_true,List.nil_append]
  cases he : t.exponent with
  | none =>
    simp only [Option.elim_none,List.append_nil]
    rw [splitOnce_none hfront]
    rfl
  | some e =>
    obtain ⟨hletter,-⟩ := t.exponent_digits e he
    simp only [Option.elim_some]
    rw [← List.append_assoc,splitOnce_append hfront]
    · rfl
    · rcases hletter with h | h
      · simp [h]
      · simp [h]

theorem splitOnce_fraction :
    (splitOnce (· = '.') (t.integer ++ t.fractionSource)).getD (t.integer ++ t.fractionSource,[]) =
      (t.integer,t.fractionPart) := by
  have hfront : ∀ c ∈ t.integer, decide (c = '.') = false := by
    intro c hc
    exact decide_eq_false (digit_ne (t.integer_digits c hc) rfl)
  unfold fractionSource fractionPart
  cases hf : t.fraction with
  | none =>
    simp only [Option.elim_none,List.append_nil]
    rw [splitOnce_none hfront]
    rfl
  | some digits =>
    simp only [Option.elim_some]
    rw [splitOnce_append hfront rfl]
    rfl

theorem all_zeros : t.digits.all (· = '0') = true ↔ spelled t.digits = 0 := by
  rw [Decimal.spelled_zero_iff digits_digits]
  simp

theorem source_head_negative (h : t.negative = true) : t.source.head? = some '-' := by
  unfold source
  rw [h]
  rfl

theorem source_head_plus (h : t.negative = false) : t.source.head? ≠ some '-' := by
  unfold source
  rw [h]
  cases hi : t.integer with
  | nil => exact absurd hi integer_ne_nil
  | cons c rest =>
    have hc := t.integer_digits c (by rw [hi]; exact List.mem_cons_self)
    intro hhead
    exact digit_ne hc (show '-'.isDigit = false from rfl) (Option.some.inj hhead)

theorem scan_negative (h : t.negative = true) : ∃ e, scanVersion t.source = .error e := by
  unfold scanVersion
  rw [if_pos (source_head_negative h)]
  exact ⟨_,rfl⟩

/-- What the daemon reads of a token that is not negative. -/
theorem scan_plus (h : t.negative = false) :
    (∃ e, scanVersion t.source = .error e ∧
      (spelled t.digits = 0 ∨ inI128 t.exponentValue = none ∨ inI128 t.shift = none)) ∨
    (0 < spelled t.digits ∧ scanVersion t.source = .ok (t.digits,t.shift)) := by
  unfold scanVersion
  rw [if_neg (source_head_plus h),splitOnce_exponent h]
  dsimp only
  rw [parseI128_exponent,splitOnce_fraction]
  dsimp only
  have hinteger : t.integer.isEmpty = false := by
    cases hi : t.integer with
    | nil => exact absurd hi integer_ne_nil
    | cons c rest => rfl
  rw [hinteger,decide_eq_true t.integer_digits,decide_eq_true fractionPart_digits]
  cases he : inI128 t.exponentValue with
  | none => exact Or.inl ⟨_,rfl,Or.inr (Or.inl rfl)⟩
  | some exponent =>
    have hexponent := inI128_some he
    subst hexponent
    simp only [orError,Bool.not_true,Bool.or_false,Bool.false_eq_true,if_false]
    by_cases hzero : t.digits.all (· = '0') = true
    · exact Or.inl ⟨_,if_pos hzero,Or.inl (all_zeros.mp hzero)⟩
    · have hpos : 0 < spelled t.digits := by
        rw [Nat.pos_iff_ne_zero]
        exact fun h => hzero (all_zeros.mpr h)
      cases hs : inI128 t.shift with
      | none =>
        left
        refine ⟨"Runtime capability version is outside the supported domain",?_,Or.inr (Or.inr rfl)⟩
        show (if t.digits.all (· = '0') = true then _ else _ : Except String (List Char × ℤ)) = _
        rw [if_neg hzero]
        rw [show inI128 (t.exponentValue-t.fractionPart.length) = _ from hs]
        rfl
      | some shift =>
        have hshift := inI128_some hs
        subst hshift
        right
        refine ⟨hpos,?_⟩
        show (if t.digits.all (· = '0') = true then _ else _ : Except String (List Char × ℤ)) = _
        rw [if_neg hzero]
        rw [show inI128 (t.exponentValue-t.fractionPart.length) = _ from hs]
        rfl

theorem takeWhile_digits {xs ys : List Char} (h : IsDigits xs)
    (hys : ∀ c, ys.head? = some c → c.isDigit = false) :
    (xs ++ ys).takeWhile Char.isDigit = xs ∧ (xs ++ ys).dropWhile Char.isDigit = ys := by
  induction xs with
  | nil =>
    cases ys with
    | nil => exact ⟨rfl,rfl⟩
    | cons c ys =>
      have hc := hys c rfl
      rw [List.nil_append,List.takeWhile_cons,List.dropWhile_cons,hc]
      exact ⟨rfl,rfl⟩
  | cons x xs ih =>
    have hx := h x List.mem_cons_self
    obtain ⟨htake,hdrop⟩ := ih fun y hy => h y (List.mem_cons_of_mem _ hy)
    rw [List.cons_append,List.takeWhile_cons,List.dropWhile_cons,hx]
    exact ⟨congrArg (x::·) htake,hdrop⟩

theorem exponentSource_head {c : Char} (h : t.exponentSource.head? = some c) :
    c.isDigit = false ∧ c ≠ '.' := by
  unfold exponentSource at h
  cases he : t.exponent with
  | none =>
    rw [he] at h
    cases h
  | some e =>
    obtain ⟨hletter,-⟩ := t.exponent_digits e he
    rw [he] at h
    have hc : e.1 = c := Option.some.inj h
    rcases hletter with hl | hl
    · rw [← hc,hl]
      decide
    · rw [← hc,hl]
      decide

theorem matchFraction_source :
    Sdk.matchFraction (t.fractionSource ++ t.exponentSource) =
      some (t.fraction,t.exponentSource) := by
  unfold fractionSource
  cases hf : t.fraction with
  | none =>
    simp only [Option.elim_none,List.nil_append]
    unfold Sdk.matchFraction
    split
    · next rest hrest =>
      have hhead : t.exponentSource.head? = some '.' := by rw [hrest]; rfl
      exact absurd rfl (exponentSource_head hhead).2
    · rfl
  | some digits =>
    obtain ⟨hdigits,hne⟩ := t.fraction_digits digits hf
    have hafter : ∀ c, t.exponentSource.head? = some c → c.isDigit = false :=
      fun c hc => (exponentSource_head hc).1
    obtain ⟨htake,hdrop⟩ := takeWhile_digits hdigits hafter
    show (if (digits ++ t.exponentSource).takeWhile Char.isDigit = [] then none
      else some (some ((digits ++ t.exponentSource).takeWhile Char.isDigit),
        (digits ++ t.exponentSource).dropWhile Char.isDigit)) = _
    rw [htake,hdrop,if_neg hne]

theorem matchExponent_source :
    Sdk.matchExponent t.exponentSource =
      some (t.exponent.bind (·.2.1),t.exponent.map (·.2.2)) := by
  unfold exponentSource
  cases he : t.exponent with
  | none => rfl
  | some e =>
    obtain ⟨hletter,hsign,hdigits,hne⟩ := t.exponent_digits e he
    rcases e with ⟨letter,sign,digits⟩
    dsimp only at hletter hsign hdigits hne
    simp only [Option.elim_some,Option.bind_some,Option.map_some]
    unfold Sdk.matchExponent
    dsimp only
    rw [if_pos hletter]
    cases sign with
    | some s =>
      have hs : (decide (s = '+') || decide (s = '-')) = true := by
        rcases hsign s rfl with rfl | rfl <;> rfl
      have hfilter : (Option.some s).filter (fun s => decide (s = '+') || decide (s = '-')) =
          some s := by
        rw [Option.filter_some,if_pos hs]
      simp only [Option.toList_some,List.cons_append,List.nil_append,List.head?_cons,
        List.tail_cons,hfilter,Option.isSome_some,if_true]
      rw [if_pos ⟨hne,hdigits⟩]
    | none =>
      cases digits with
      | nil => exact absurd rfl hne
      | cons c rest =>
        have hc := hdigits c List.mem_cons_self
        have hs : (decide (c = '+') || decide (c = '-')) = false := by
          simp [digit_ne hc (show '+'.isDigit = false from rfl),
            digit_ne hc (show '-'.isDigit = false from rfl)]
        have hfilter : (Option.some c).filter (fun s => decide (s = '+') || decide (s = '-')) =
            none := by
          rw [Option.filter_some,hs]
          rfl
        simp only [Option.toList_none,List.nil_append,List.head?_cons,hfilter,
          Option.isSome_none,Bool.false_eq_true,if_false]
        rw [if_pos ⟨hne,hdigits⟩]

theorem matchNumber_plus (h : t.negative = false) :
    Sdk.matchNumber t.source =
      some ⟨t.integer,t.fraction,t.exponent.bind (·.2.1),t.exponent.map (·.2.2)⟩ := by
  have hafter : ∀ c, (t.fractionSource ++ t.exponentSource).head? = some c → c.isDigit = false := by
    intro c hc
    unfold fractionSource at hc
    cases hf : t.fraction with
    | none =>
      rw [hf] at hc
      exact (exponentSource_head hc).1
    | some digits =>
      rw [hf] at hc
      cases hc
      rfl
  obtain ⟨htake,hdrop⟩ := takeWhile_digits t.integer_digits hafter
  have hplain : t.integer = ['0'] ∨ (t.integer ≠ [] ∧ t.integer.head? ≠ some '0') := by
    rcases t.integer_plain with hz | ⟨c,rest,hi,hc⟩
    · exact Or.inl hz
    · right
      rw [hi]
      exact ⟨List.cons_ne_nil _ _,fun hh => hc (Option.some.inj hh)⟩
  unfold Sdk.matchNumber source
  rw [h,if_neg Bool.false_ne_true,List.nil_append,htake,hdrop]
  simp only [guard,if_pos hplain,matchFraction_source]
  show (Sdk.matchExponent t.exponentSource).bind _ = _
  rw [matchExponent_source]
  rfl

theorem matchNumber_negative (h : t.negative = true) : Sdk.matchNumber t.source = none := by
  unfold Sdk.matchNumber source
  rw [h]
  rfl

end NumberToken

theorem number_small {n : ℕ} (h : n ≤ 2^53-1) : Sdk.number n = n :=
  if_pos (by omega)

/-- Rounding keeps what has more than 53 bits above the safe integers. -/
theorem number_large {n : ℕ} (h : 2^53 ≤ n) : 2^53 ≤ Sdk.number n := by
  unfold Sdk.number
  rw [if_neg (by omega)]
  dsimp only
  have hlog : 53 ≤ n.log2 := (Nat.le_log2 (by omega)).mpr h
  have hself : 2^n.log2 ≤ n := Nat.log2_self_le (by omega)
  have hexponent : n.log2 = 52+(n.log2-52) := by omega
  have hsignificand : 2^52 ≤ n / 2^(n.log2-52) := by
    rw [Nat.le_div_iff_mul_le (Nat.pow_pos (by decide)),← pow_add,← hexponent]
    exact hself
  have htwo : 2 ≤ 2^(n.log2-52) := by
    calc 2 = 2^1 := rfl
      _ ≤ 2^(n.log2-52) := Nat.pow_le_pow_right (by decide) (by omega)
  calc 2^53 = 2^52*2 := rfl
    _ ≤ n / 2^(n.log2-52) * 2^(n.log2-52) := Nat.mul_le_mul hsignificand htwo
    _ ≤ _ := by
      apply Nat.mul_le_mul_right
      split
      · exact Nat.le_succ _
      · exact le_rfl

theorem safe_number {n : ℕ} : Sdk.isSafeInteger (Sdk.number n) = true ↔ n ≤ 2^53-1 := by
  unfold Sdk.isSafeInteger
  rw [decide_eq_true_eq]
  constructor
  · intro h
    by_contra hlarge
    have := number_large (n := n) (by omega)
    omega
  · intro h
    rw [number_small h]
    exact h

namespace NumberToken

variable {t : NumberToken}

theorem any_nonzero : (t.digits.any fun c => decide ('1' ≤ c) && decide (c ≤ '9')) = true ↔
    0 < spelled t.digits := by
  have hone : ∀ c : Char, c.isDigit = true → ((decide ('1' ≤ c) && decide (c ≤ '9')) = true ↔
      c ≠ '0') := by
    intro c hc
    simp only [Char.isDigit,Bool.and_eq_true,decide_eq_true_eq] at hc
    have hge : 48 ≤ c.toNat := hc.1
    have hle : c.toNat ≤ 57 := hc.2
    rw [Bool.and_eq_true,decide_eq_true_eq,decide_eq_true_eq]
    constructor
    · rintro ⟨hlow,-⟩ rfl
      exact absurd hlow (by decide)
    · intro hne
      have hne' : c.toNat ≠ 48 := fun h => hne (Char.toNat_inj.mp h)
      constructor
      · show 49 ≤ c.toNat
        omega
      · exact hc.2
  rw [Nat.pos_iff_ne_zero,Ne,Decimal.spelled_zero_iff digits_digits,List.any_eq_true]
  constructor
  · rintro ⟨c,hc,hnonzero⟩ hall
    exact (hone c (digits_digits c hc)).mp hnonzero (hall c hc)
  · intro hnot
    by_contra hnone
    apply hnot
    intro c hc
    by_contra hne
    exact hnone ⟨c,hc,(hone c (digits_digits c hc)).mpr hne⟩

/-- The magnitude of the exponent, as the SDK captures it. -/
def magnitude (t : NumberToken) : ℕ := spelled ((t.exponent.map (·.2.2)).getD ['0'])

theorem exponentValue_eq : t.exponentValue =
    if t.exponent.bind (·.2.1) = some '-' then -(t.magnitude : ℤ) else (t.magnitude : ℤ) := by
  unfold exponentValue magnitude
  cases t.exponent with
  | none => rfl
  | some e => rfl

/-- What the SDK reads of a token that is not negative. -/
theorem sdk_scan_plus (h : t.negative = false) :
    (Sdk.scanVersion t.source = none ∧
      (spelled t.digits = 0 ∨ 2^53 ≤ t.exponentValue ∨ t.exponentValue ≤ -2^53)) ∨
    (0 < spelled t.digits ∧ Sdk.scanVersion t.source = some (t.digits,t.shift)) := by
  have hscan : Sdk.scanVersion t.source =
      if Sdk.isSafeInteger (Sdk.number t.magnitude) = true then
        if (t.digits.any fun c => decide ('1' ≤ c) && decide (c ≤ '9')) = true then
          some (t.digits,(if t.exponent.bind (·.2.1) = some '-' then
            -(Sdk.number t.magnitude : ℤ) else (Sdk.number t.magnitude : ℤ))-t.fractionPart.length)
        else none
      else none := by
    unfold Sdk.scanVersion
    rw [matchNumber_plus h]
    show (guard (Sdk.isSafeInteger (Sdk.number t.magnitude) = true) : Option Unit).bind _ = _
    unfold guard
    split
    · show (guard ((t.digits.any fun c => decide ('1' ≤ c) && decide (c ≤ '9')) = true) :
        Option Unit).bind _ = _
      unfold guard
      split
      · rfl
      · rfl
    · rfl
  by_cases hsafe : t.magnitude ≤ 2^53-1
  · by_cases hzero : spelled t.digits = 0
    · left
      refine ⟨?_,Or.inl hzero⟩
      rw [hscan,if_pos (safe_number.mpr hsafe),if_neg]
      intro hany
      exact absurd hzero (any_nonzero.mp hany).ne'
    · right
      have hpos := Nat.pos_of_ne_zero hzero
      refine ⟨hpos,?_⟩
      rw [hscan,if_pos (safe_number.mpr hsafe),if_pos (any_nonzero.mpr hpos),number_small hsafe,
        ← exponentValue_eq]
      rfl
  · left
    have hlarge : (2^53 : ℤ) ≤ (t.magnitude : ℤ) := by
      have hnat : 2^53 ≤ t.magnitude := by omega
      exact_mod_cast hnat
    refine ⟨?_,Or.inr ?_⟩
    · rw [hscan,if_neg (fun hs => hsafe (safe_number.mp hs))]
    · rw [exponentValue_eq]
      split
      · exact Or.inr (neg_le_neg hlarge)
      · exact Or.inl hlarge

end NumberToken
end Version
end Ctxmux
