import TransportSystem.JsonDouble

namespace TransportSystem.Json

open Library.Rounding IStream

theorem exists_digitChar {c : Char} (h : c.isDigit = true) : ∃ d, d < 10 ∧ c = Nat.digitChar d := by
  have hrange : 48 ≤ c.toNat ∧ c.toNat ≤ 57 := by
    simp only [Char.isDigit, Bool.and_eq_true, decide_eq_true_eq] at h
    exact ⟨h.1, h.2⟩
  refine ⟨c.toNat - 48, by omega, Char.toNat_inj.mp ?_⟩
  rw [Nat.toNat_digitChar_of_lt_ten (by omega)]
  omega

/-- Digits without a zero in front are those of their number. -/
theorem toDigits_ofDigitChars {digits : Str} (hdigits : ∀ c ∈ digits, c.isDigit = true)
    (hhead : digits.head? ≠ some '0') (hne : digits ≠ []) :
    Nat.toDigits 10 (Nat.ofDigitChars 10 digits 0) = digits := by
  induction digits using List.reverseRecOn with
  | nil => exact absurd rfl hne
  | append_singleton before c ih =>
      obtain ⟨d, hd, rfl⟩ := exists_digitChar (hdigits c (by simp))
      have hvalue : Nat.ofDigitChars 10 (before ++ [Nat.digitChar d]) 0 =
          10 * Nat.ofDigitChars 10 before 0 + d := by
        rw [Nat.ofDigitChars_append, Nat.ofDigitChars_cons_digitChar_of_lt_ten hd,
          Nat.ofDigitChars_nil]
      rw [hvalue]
      rcases eq_or_ne before [] with rfl | hbefore
      · simpa using Nat.toDigits_of_lt_base hd
      · have hdigits' : ∀ c ∈ before, c.isDigit = true := fun c hc => hdigits c (by simp [hc])
        rw [List.head?_append_of_ne_nil _ hbefore] at hhead
        have ih' := ih hdigits' hhead hbefore
        have hpos : 0 < Nat.ofDigitChars 10 before 0 := by
          apply Nat.pos_of_ne_zero
          intro hzero
          rw [hzero, Nat.toDigits_zero] at ih'
          rw [← ih'] at hhead
          exact hhead rfl
        rw [Nat.toDigits_of_base_le (by decide) (by omega),
          show (10 * Nat.ofDigitChars 10 before 0 + d) / 10 = Nat.ofDigitChars 10 before 0 by omega,
          show (10 * Nat.ofDigitChars 10 before 0 + d) % 10 = d by omega, ih']

theorem Number.toDigits_int (n : Number) :
    Nat.toDigits 10 (Nat.ofDigitChars 10 n.int 0) = n.int := by
  rcases n.int_ok with hzero | ⟨⟨hne, hdigits⟩, hhead⟩
  · rw [hzero]
    rfl
  · exact toDigits_ofDigitChars hdigits hhead hne

/-- An integer is printed as it was written, unless it was written `-0`. -/
theorem Number.printInt_value {n : Number} {value : Int32} (hint : n.isInt = true)
    (hvalue : n.value = value.toInt) (hzero : n.value = 0 → n.sign = []) :
    printInt value = n.text := by
  obtain ⟨hfrac, hexp⟩ := n.isInt_iff.mp hint
  have htext : n.text = n.sign ++ n.int := by simp [Number.text, hfrac, hexp]
  rw [htext, printInt, ← hvalue]
  rcases n.sign_ok with hsign | hsign
  · have heq : n.value = Nat.ofDigitChars 10 n.int 0 := if_pos hsign
    rw [if_neg (by omega), heq, Int.natAbs_natCast, n.toDigits_int, hsign, List.nil_append]
  · have heq : n.value = -Nat.ofDigitChars 10 n.int 0 := if_neg (by simp [hsign])
    have hneg : n.value < 0 := by
      have hne : n.value ≠ 0 := fun h => by simp [hzero h] at hsign
      omega
    rw [if_pos hneg, heq, Int.natAbs_neg, Int.natAbs_natCast, n.toDigits_int, hsign]
    rfl

/-- The characters of an integer. -/
def InInteger (c : Char) : Prop := c.isDigit = true ∨ c = '-'

theorem not_inInteger {c : Char} (hdigit : c.isDigit = false) (hminus : c ≠ '-') :
    ¬ InInteger c := by
  rintro (h | h)
  · rw [hdigit] at h
    cases h
  · exact hminus h

theorem Number.isInt_iff_text (n : Number) : n.isInt = true ↔ ∀ c ∈ n.text, InInteger c := by
  rw [n.isInt_iff]
  constructor
  · rintro ⟨hfrac, hexp⟩ c hc
    simp only [Number.text, hfrac, hexp, List.append_nil, List.mem_append] at hc
    rcases hc with hc | hc
    · rcases n.sign_ok with hsign | hsign
      · simp [hsign] at hc
      · exact .inr (by simpa [hsign] using hc)
    · exact .inl (n.digits_int.2 c hc)
  · intro h
    constructor
    · rcases n.frac_ok with hfrac | ⟨digits, -, hfrac⟩
      · exact hfrac
      · exact absurd (h '.' (by simp [Number.text, hfrac])) (not_inInteger rfl (by decide))
    · rcases n.exp_ok with hexp | ⟨e, power, he, -, hexp⟩
      · exact hexp
      · have hmem := h e (by simp [Number.text, hexp])
        rcases he with rfl | rfl
        · exact absurd hmem (not_inInteger rfl (by decide))
        · exact absurd hmem (not_inInteger rfl (by decide))

/-- A fraction is left out exactly if it is 0. -/
theorem printFraction_inInteger_iff {digits : Str} (hdigits : ∀ c ∈ digits, c.isDigit = true) :
    (∀ c ∈ printFraction digits, InInteger c) ↔ Nat.ofDigitChars 10 digits 0 = 0 := by
  obtain ⟨zeros, hzeros⟩ := printFraction_eq digits
  have hvalue : Nat.ofDigitChars 10 digits 0 =
      10 ^ zeros * Nat.ofDigitChars 10 (digits.rdropWhile (· = '0')) 0 := by
    conv_lhs => rw [hzeros]
    rw [ofDigitChars_append_zeros]
  have hkept : digits.rdropWhile (· = '0') <+: digits := List.rdropWhile_prefix _ _
  unfold printFraction
  dsimp only
  rw [hvalue]
  split
  · rename_i hnil
    simp [hnil]
  · rename_i hne
    constructor
    · intro h
      exact absurd (h '.' (by simp)) (not_inInteger rfl (by decide))
    · -- the last digit that is kept is not 0
      intro hzero
      obtain ⟨d, hd, hlast⟩ := exists_digitChar (hdigits _ (hkept.subset (List.getLast_mem hne)))
      have hnot : d ≠ 0 := by
        rintro rfl
        exact List.rdropWhile_last_not _ _ hne (by rw [hlast]; rfl)
      rw [← List.dropLast_append_getLast hne, hlast, Nat.ofDigitChars_append,
        Nat.ofDigitChars_cons_digitChar_of_lt_ten hd, Nat.ofDigitChars_nil] at hzero
      have hpow : 0 < 10 ^ zeros := by positivity
      rcases Nat.mul_eq_zero.mp hzero with h | h <;> omega

theorem ofDigitChars_lt_pow {digits : Str} (hdigits : ∀ c ∈ digits, c.isDigit = true) :
    Nat.ofDigitChars 10 digits 0 < 10 ^ digits.length := by
  induction digits using List.reverseRecOn with
  | nil => simp
  | append_singleton before c ih =>
      obtain ⟨d, hd, rfl⟩ := exists_digitChar (hdigits c (by simp))
      have ih' := ih fun c hc => hdigits c (by simp [hc])
      rw [Nat.ofDigitChars_append, Nat.ofDigitChars_cons_digitChar_of_lt_ten hd,
        Nat.ofDigitChars_nil, List.length_append, List.length_singleton, Nat.pow_succ]
      omega

/-- The last digits are 0 exactly if the number is divided by the power of ten. -/
theorem ofDigitChars_drop_eq_zero_iff {digits : Str} (hdigits : ∀ c ∈ digits, c.isDigit = true)
    (k : ℕ) :
    Nat.ofDigitChars 10 (digits.drop k) 0 = 0 ↔
      10 ^ (digits.length - k) ∣ Nat.ofDigitChars 10 digits 0 := by
  have hlt : Nat.ofDigitChars 10 (digits.drop k) 0 < 10 ^ (digits.drop k).length :=
    ofDigitChars_lt_pow fun c hc => hdigits c (List.mem_of_mem_drop hc)
  have hvalue : Nat.ofDigitChars 10 digits 0 =
      10 ^ (digits.length - k) * Nat.ofDigitChars 10 (digits.take k) 0 +
        Nat.ofDigitChars 10 (digits.drop k) 0 := by
    conv_lhs => rw [← List.take_append_drop k digits, Nat.ofDigitChars_append,
      Nat.ofDigitChars_eq_ofDigitChars_zero, List.length_drop]
  rw [List.length_drop] at hlt
  rw [hvalue, Nat.dvd_add_right (Nat.dvd_mul_right _ _)]
  constructor
  · intro hzero
    rw [hzero]
    exact Nat.dvd_zero _
  · exact fun hdvd => Nat.eq_zero_of_dvd_of_lt hdvd hlt

section Integers

variable {s : Scientific}

theorem value_bounds (hlow : 100000 ≤ s.significand) (hhigh : s.significand < 1000000) :
    (10 : ℚ) ^ s.exponent ≤ s.value 10 6 ∧ s.value 10 6 < 10 ^ (s.exponent + 1) := by
  have hunit : (0 : ℚ) < 10 ^ (s.exponent + 1 - (6 : ℕ)) := zpow_pos (by norm_num) _
  have hsplit (k : ℕ) : (10 : ℚ) ^ (s.exponent + 1 - (6 : ℕ) + k) =
      10 ^ k * 10 ^ (s.exponent + 1 - (6 : ℕ)) := by
    rw [zpow_add₀ (by norm_num), zpow_natCast, mul_comm]
  have hfirst := hsplit 5
  have hnext := hsplit 6
  rw [show s.exponent + 1 - (6 : ℕ) + (5 : ℕ) = s.exponent by omega] at hfirst
  rw [show s.exponent + 1 - (6 : ℕ) + (6 : ℕ) = s.exponent + 1 by omega] at hnext
  rw [Scientific.value, hfirst, hnext]
  constructor
  · apply mul_le_mul_of_nonneg_right _ hunit.le
    exact_mod_cast hlow
  · apply mul_lt_mul_of_pos_right _ hunit
    exact_mod_cast hhigh

/-- The numbers with six digits that are integers below a million. -/
theorem value_eq_intCast_iff (hlow : 100000 ≤ s.significand) (hhigh : s.significand < 1000000) :
    (∃ k : ℤ, k < 1000000 ∧ s.value 10 6 = k) ↔
      0 ≤ s.exponent ∧ s.exponent < 6 ∧ (10 : ℤ) ^ (5 - s.exponent).toNat ∣ s.significand := by
  obtain ⟨hbelow, habove⟩ := value_bounds hlow hhigh
  have hscale (j : ℕ) (hj : s.exponent = 5 - j) :
      (s.significand : ℚ) = s.value 10 6 * 10 ^ j := by
    have hone : (10 : ℚ) ^ (s.exponent + 1 - (6 : ℕ)) * 10 ^ j = 1 := by
      rw [← zpow_natCast, ← zpow_add₀ (by norm_num),
        show s.exponent + 1 - (6 : ℕ) + (j : ℤ) = 0 by omega, zpow_zero]
    rw [Scientific.value, Nat.cast_ofNat, mul_assoc, hone, mul_one]
  constructor
  · rintro ⟨k, hk, hvalue⟩
    rw [hvalue] at hbelow habove
    have hpos : 0 < k := by
      have hpow : (0 : ℚ) < 10 ^ s.exponent := zpow_pos (by norm_num) _
      exact_mod_cast hpow.trans_le hbelow
    have hexponent : 0 ≤ s.exponent := by
      by_contra hneg
      have hle : (10 : ℚ) ^ (s.exponent + 1) ≤ 1 :=
        zpow_le_one_of_nonpos₀ (by norm_num) (by omega)
      have hlt : k < 1 := by exact_mod_cast habove.trans_le hle
      omega
    have hsix : s.exponent < 6 := by
      by_contra hge
      have hle : (10 : ℚ) ^ (6 : ℤ) ≤ 10 ^ s.exponent :=
        zpow_le_zpow_right₀ (by norm_num) (by omega)
      have hlt : (10 : ℤ) ^ 6 ≤ k := by exact_mod_cast hle.trans hbelow
      omega
    refine ⟨hexponent, hsix, k, ?_⟩
    have heq := hscale (5 - s.exponent).toNat (by omega)
    rw [hvalue, mul_comm] at heq
    exact_mod_cast heq
  · rintro ⟨hexponent, hsix, k, hk⟩
    have heq := hscale (5 - s.exponent).toNat (by omega)
    rw [hk, mul_comm] at heq
    push_cast at heq
    have hvalue : s.value 10 6 = k :=
      (mul_right_cancel₀ (by positivity) heq).symm
    refine ⟨k, ?_, hvalue⟩
    rw [hvalue] at habove
    have hle : (10 : ℚ) ^ (s.exponent + 1) ≤ 10 ^ (6 : ℤ) :=
      zpow_le_zpow_right₀ (by norm_num) (by omega)
    exact_mod_cast habove.trans_le hle

/-- The digits of a number stand alone exactly if it is an integer below a million. -/
theorem printScientific_inInteger_iff (hlow : 100000 ≤ s.significand)
    (hhigh : s.significand < 1000000) :
    (∀ c ∈ printScientific s, InInteger c) ↔ ∃ k : ℤ, k < 1000000 ∧ s.value 10 6 = k := by
  obtain ⟨hlength, hvalue, -⟩ := digits_significand hlow hhigh
  obtain ⟨-, hdigits⟩ := digits_toDigits s.significand.toNat
  rw [value_eq_intCast_iff hlow hhigh]
  unfold printScientific
  dsimp only
  generalize Nat.toDigits 10 s.significand.toNat = digits at hlength hvalue hdigits
  split
  · constructor
    · intro h
      exact absurd (h 'e' (by simp [printExponent])) (not_inInteger rfl (by decide))
    · rintro ⟨hexponent, hsix, -⟩
      omega
  · split
    · have hfrac : ∀ c ∈ List.replicate (-s.exponent - 1).toNat '0' ++ digits,
          c.isDigit = true := by
        intro c hc
        rcases List.mem_append.mp hc with hc | hc
        · rw [(List.mem_replicate.mp hc).2]
          rfl
        · exact hdigits c hc
      rw [List.forall_mem_cons, printFraction_inInteger_iff hfrac, Nat.ofDigitChars_append,
        Nat.ofDigitChars_replicate_zero, Nat.mul_zero, hvalue]
      constructor
      · rintro ⟨-, hzero⟩
        omega
      · rintro ⟨hexponent, -, -⟩
        omega
    · have hdrop : ∀ c ∈ digits.drop (s.exponent + 1).toNat, c.isDigit = true :=
        fun c hc => hdigits c (List.mem_of_mem_drop hc)
      have htake : ∀ c ∈ digits.take (s.exponent + 1).toNat, c.isDigit = true :=
        fun c hc => hdigits c (List.mem_of_mem_take hc)
      rw [List.forall_mem_append, printFraction_inInteger_iff hdrop,
        ofDigitChars_drop_eq_zero_iff hdigits, hlength, hvalue, ← Int.natCast_dvd_natCast,
        Int.toNat_of_nonneg (by omega)]
      have hpower : 6 - (s.exponent + 1).toNat = (5 - s.exponent).toNat := by omega
      rw [hpower]
      constructor
      · rintro ⟨-, hdvd⟩
        exact ⟨by omega, by omega, by exact_mod_cast hdvd⟩
      · rintro ⟨-, -, hdvd⟩
        exact ⟨fun c hc => .inl (htake c hc), by exact_mod_cast hdvd⟩

end Integers

theorem printDouble_inInteger_iff (value : Double) :
    (∀ c ∈ printDouble value, InInteger c) ↔
      (rounded value).den = 1 ∧ |rounded value| < 1000000 := by
  unfold printDouble rounded
  split
  · simp [InInteger]
  · rename_i hne
    obtain ⟨hlow, hhigh⟩ := scientific_bounds (b := 10) (d := 6) (by decide) (by decide)
      (abs_pos.mpr hne)
    generalize scientific 10 6 |value| = s at hlow hhigh
    obtain ⟨hbelow, -⟩ := value_bounds hlow hhigh
    have hpos : 0 < s.value 10 6 := (zpow_pos (by norm_num) _).trans_le hbelow
    have hsign : ∀ c ∈ (if value < 0 then ['-'] else [] : Str), InInteger c := by
      split <;> simp [InInteger]
    rw [List.forall_mem_append, printScientific_inInteger_iff hlow hhigh, and_iff_right hsign]
    have habs : |(if value < 0 then -1 else 1 : ℚ) * s.value 10 6| = s.value 10 6 := by
      split <;> simp [abs_of_pos hpos]
    have hden : ((if value < 0 then -1 else 1 : ℚ) * s.value 10 6).den = (s.value 10 6).den := by
      split <;> simp
    rw [habs, hden, Rat.den_eq_one_iff]
    constructor
    · rintro ⟨k, hk, hvalue⟩
      rw [hvalue]
      exact ⟨rfl, by exact_mod_cast hk⟩
    · rintro ⟨hnum, hlt⟩
      refine ⟨(s.value 10 6).num, ?_, hnum.symm⟩
      rw [← hnum] at hlt
      exact_mod_cast hlt

theorem rounded_neg {value : Double} (h : value < 0) :
    rounded value = -(scientific 10 6 |value|).value 10 6 := by
  rw [rounded, if_neg h.ne, if_pos h, neg_one_mul]

theorem rounded_pos {value : Double} (h : 0 < value) :
    rounded value = (scientific 10 6 |value|).value 10 6 := by
  rw [rounded, if_neg h.ne', if_neg h.not_gt, one_mul]

theorem rounded_eq_zero_iff {value : Double} : rounded value = 0 ↔ value = 0 := by
  rcases lt_trichotomy value 0 with h | rfl | h
  · have hpos := scientific_value_pos (b := 10) (d := 6) (by decide) (by decide) (abs_pos.mpr h.ne)
    simp [rounded_neg h, hpos.ne', h.ne]
  · simp [rounded]
  · have hpos := scientific_value_pos (b := 10) (d := 6) (by decide) (by decide) (abs_pos.mpr h.ne')
    simp [rounded_pos h, hpos.ne', h.ne']

/-- The `double` that is nearest to a number with six digits is rounded to it. -/
theorem scientific_nearest {s : Scientific} (hlow : 100000 ≤ s.significand)
    (hhigh : s.significand < 1000000) :
    scientific 10 6 ((scientific 2 53 (s.value 10 6)).value 2 53) = s := by
  obtain ⟨hbelow, habove⟩ := value_bounds hlow hhigh
  have hunit : (0 : ℚ) < 10 ^ (s.exponent - (6 : ℕ)) := zpow_pos (by norm_num) _
  have hpos : 0 < s.value 10 6 := (zpow_pos (by norm_num) _).trans_le hbelow
  apply scientific_of_close (by decide) (by decide) hlow hhigh
  have hnear := abs_scientific_value_sub_le (b := 2) (d := 53) (by decide) (by decide) hpos
  have hseven : (10 : ℚ) ^ (s.exponent + 1) = 10 ^ 7 * 10 ^ (s.exponent - (6 : ℕ)) := by
    rw [← zpow_natCast, ← zpow_add₀ (by norm_num)]
    congr 1
    omega
  have hsmall : ((2 : ℕ) : ℚ) ^ (1 - (53 : ℕ) : ℤ) / 2 * 10 ^ 7 < 1 / 2 := by norm_num
  refine hnear.trans_lt ?_
  calc ((2 : ℕ) : ℚ) ^ (1 - (53 : ℕ) : ℤ) / 2 * s.value 10 6
      ≤ ((2 : ℕ) : ℚ) ^ (1 - (53 : ℕ) : ℤ) / 2 * 10 ^ (s.exponent + 1) :=
        mul_le_mul_of_nonneg_left habove.le (by positivity)
    _ = ((2 : ℕ) : ℚ) ^ (1 - (53 : ℕ) : ℤ) / 2 * 10 ^ 7 * 10 ^ (s.exponent - (6 : ℕ)) := by
        rw [hseven, mul_assoc]
    _ < 1 / 2 * 10 ^ (s.exponent - (6 : ℕ)) := mul_lt_mul_of_pos_right hsmall hunit
    _ = ((10 : ℕ) : ℚ) ^ (s.exponent - (6 : ℕ)) / 2 := one_div_mul_eq_div _ _

theorem toDouble_eq_some {x nearest : ℚ} (hx : x ≠ 0) (h : toDouble x = some nearest) :
    nearest = (if x < 0 then -1 else 1) * (scientific 2 53 |x|).value 2 53 := by
  unfold toDouble at h
  rw [if_neg hx] at h
  dsimp only at h
  split at h
  · exact (Option.some.inj h).symm
  · cases h

theorem printDouble_neg {value : Double} (h : value < 0) :
    printDouble value = '-' :: printScientific (scientific 10 6 |value|) := by
  rw [printDouble, if_neg h.ne, if_pos h]
  rfl

theorem printDouble_pos {value : Double} (h : 0 < value) :
    printDouble value = printScientific (scientific 10 6 |value|) := by
  rw [printDouble, if_neg h.ne', if_neg h.not_gt]
  rfl

/-- The `double` that is read is printed as the one that was printed. -/
theorem printDouble_nearest {value nearest : Double}
    (h : toDouble (rounded value) = some nearest) : printDouble nearest = printDouble value := by
  rcases eq_or_ne value 0 with rfl | hne
  · have hzero : rounded 0 = 0 := rfl
    rw [hzero] at h
    rw [← Option.some.inj h]
  · have hpos := abs_pos.mpr hne
    obtain ⟨hlow, hhigh⟩ := scientific_bounds (b := 10) (d := 6) (by decide) (by decide) hpos
    have hsix := scientific_value_pos (b := 10) (d := 6) (by decide) (by decide) hpos
    have hnear := scientific_value_pos (b := 2) (d := 53) (by decide) (by decide) hsix
    have hback := scientific_nearest hlow hhigh
    rcases hne.lt_or_gt with hneg | hgt
    · rw [rounded_neg hneg] at h
      have heq := toDouble_eq_some (neg_ne_zero.mpr hsix.ne') h
      rw [if_pos (neg_lt_zero.mpr hsix), abs_neg, abs_of_pos hsix, neg_one_mul] at heq
      rw [heq, printDouble_neg (neg_lt_zero.mpr hnear), abs_neg, abs_of_pos hnear, hback,
        printDouble_neg hneg]
    · rw [rounded_pos hgt] at h
      have heq := toDouble_eq_some hsix.ne' h
      rw [if_neg hsix.not_gt, abs_of_pos hsix, one_mul] at heq
      rw [heq, printDouble_pos hnear, abs_of_pos hnear, hback, printDouble_pos hgt]

/-- What `Load` makes of the text of a `double`: an integer of at most six digits is
an `int`. -/
def rereadDouble (value : Double) : Node Double :=
  if (rounded value).den = 1 ∧ |rounded value| < 1000000 then
    .int (Int32.ofInt (rounded value).num)
  else .double ((toDouble (rounded value)).getD 0)

/-- The text of a `double` is read as `rereadDouble` says, and that is printed as before. -/
theorem grammarOf_rereadDouble (strings : Str → Str → Prop) {value : Double}
    (h : toDouble (rounded value) ≠ none) :
    GrammarOf strings stod (.value (rereadDouble value)) (printDouble value) ∧
      ∀ ctx, printNode printDouble ctx (rereadDouble value) = printDouble value := by
  obtain ⟨nearest, hnearest⟩ := Option.ne_none_iff_exists'.mp h
  obtain ⟨n, htext, hvalue⟩ := exists_number_printDouble value
  have hint := n.isInt_iff_text
  rw [htext, printDouble_inInteger_iff] at hint
  unfold rereadDouble
  split
  · rename_i hinteger
    have hisInt := hint.mpr hinteger
    have hrounded : rounded value = n.value := by rw [← hvalue, Number.decimal_of_isInt hisInt]
    have hnum : (rounded value).num = n.value := by rw [hrounded, Rat.num_intCast]
    have hsmall : |n.value| < 1000000 := by
      have habs := hinteger.2
      rw [hrounded] at habs
      exact_mod_cast habs
    rw [abs_lt] at hsmall
    have htoInt : n.value = (Int32.ofInt n.value).toInt :=
      (Int32.toInt_ofInt_of_le (by omega) (by omega)).symm
    have hdenotes : n.Denotes stod (.int (Int32.ofInt n.value)) := ⟨hisInt, htoInt⟩
    rw [hnum, ← htext]
    refine ⟨.number hdenotes, fun ctx => Number.printInt_value hisInt htoInt fun hzero => ?_⟩
    have hvalue0 : value = 0 := by
      rw [← rounded_eq_zero_iff, hrounded, hzero, Int.cast_zero]
    -- the text of 0 has no sign
    rcases n.sign_ok with hsign | hsign
    · exact hsign
    · rw [hvalue0, printDouble, if_pos rfl, Number.text, hsign] at htext
      cases htext
  · rename_i hinteger
    rw [hnearest, Option.getD_some]
    have hdenotes : n.Denotes stod (.double nearest) := by
      refine ⟨fun hisInt => absurd (hint.mp hisInt) hinteger, ?_⟩
      rw [n.stod_text, hvalue, hnearest]
    exact ⟨htext ▸ .number hdenotes, fun ctx => printDouble_nearest hnearest⟩

section Map

variable {D : Type} (f : D → Node D)

mutual

/-- A node with another one in the place of each `double`. -/
def Node.mapDoubles : Node D → Node D
  | .double value => f value
  | .array items => .array (mapItems items)
  | .dict members => .dict (mapMembers members)
  | node => node

def mapItems : List (Node D) → List (Node D)
  | [] => []
  | node :: nodes => node.mapDoubles :: mapItems nodes

def mapMembers : List (Str × Node D) → List (Str × Node D)
  | [] => []
  | (key, node) :: nodes => (key, node.mapDoubles) :: mapMembers nodes

end

theorem mapItems_eq_map (items : List (Node D)) :
    mapItems f items = items.map (·.mapDoubles f) := by
  induction items with
  | nil => rfl
  | cons node nodes ih => rw [mapItems, ih, List.map_cons]

theorem mapMembers_eq_map (members : List (Str × Node D)) :
    mapMembers f members = members.map fun member => (member.1, member.2.mapDoubles f) := by
  induction members with
  | nil => rfl
  | cons member nodes ih => rw [mapMembers, ih, List.map_cons]

variable {f} {p q : Node D → Prop} {node : Node D}

/-- What holds of the nodes that are put in, and of each other node after it. -/
theorem Node.Everywhere.mapDoubles (h : node.Everywhere p)
    (hdouble : ∀ value, p (.double value) → (f value).Everywhere q)
    (hother : ∀ node, p node → (∀ value, node ≠ .double value) → q (node.mapDoubles f)) :
    (node.mapDoubles f).Everywhere q := by
  induction h with
  | @intro node hnode _ ih =>
      cases node with
      | double value => exact hdouble value hnode
      | array items =>
          refine .intro (hother _ hnode (by simp)) fun child hc => ?_
          simp only [Node.mapDoubles, Node.children, mapItems_eq_map] at hc
          obtain ⟨item, hitem, rfl⟩ := List.mem_map.mp hc
          exact ih item hitem
      | dict members =>
          refine .intro (hother _ hnode (by simp)) fun child hc => ?_
          simp only [Node.mapDoubles, Node.children, mapMembers_eq_map, List.map_map] at hc
          obtain ⟨member, hmember, rfl⟩ := List.mem_map.mp hc
          exact ih member.2 (List.mem_map_of_mem hmember)
      | _ => exact .leaf rfl (hother _ hnode (by simp))

theorem sortedMembers_mapDoubles (h : node.SortedMembers) (hne : ∀ value, node ≠ .double value) :
    (node.mapDoubles f).SortedMembers := by
  cases node with
  | double value => exact absurd rfl (hne value)
  | dict members =>
      rw [Node.mapDoubles, mapMembers_eq_map]
      exact List.pairwise_map.mpr h
  | _ => trivial

theorem printItems_map {printDouble : D → Str} {ctx : PrintContext} (g : Node D → Node D)
    (items : List (Node D))
    (h : ∀ item ∈ items, printNode printDouble ctx (g item) = printNode printDouble ctx item)
    (first : Bool) :
    printItems printDouble ctx first (items.map g) = printItems printDouble ctx first items := by
  induction items generalizing first with
  | nil => rfl
  | cons item items ih =>
      rw [List.map_cons, printItems, printItems, h item (by simp),
        ih (fun item' hm => h item' (List.mem_cons_of_mem item hm)) false]

theorem printMembers_map {printDouble : D → Str} {ctx : PrintContext} (g : Node D → Node D)
    (members : List (Str × Node D))
    (h : ∀ m ∈ members, printNode printDouble ctx (g m.2) = printNode printDouble ctx m.2)
    (first : Bool) :
    printMembers printDouble ctx first (members.map fun m => (m.1, g m.2)) =
      printMembers printDouble ctx first members := by
  induction members generalizing first with
  | nil => rfl
  | cons member members ih =>
      rw [List.map_cons, printMembers, printMembers, h member (by simp),
        ih (fun m hm => h m (List.mem_cons_of_mem member hm)) false]

theorem printNode_mapDoubles {printDouble : D → Str}
    (h : node.Everywhere (Node.Doubles fun value =>
      ∀ ctx, printNode printDouble ctx (f value) = printDouble value)) (ctx : PrintContext) :
    printNode printDouble ctx (node.mapDoubles f) = printNode printDouble ctx node := by
  induction h generalizing ctx with
  | @intro node hnode _ ih =>
      cases node with
      | double value => exact hnode ctx
      | array items =>
          rw [Node.mapDoubles, mapItems_eq_map, printNode, printNode,
            printItems_map _ items fun item hm => ih item hm ctx.indented]
      | dict members =>
          rw [Node.mapDoubles, mapMembers_eq_map, printNode, printNode,
            printMembers_map _ members
              fun m hm => ih m.2 (List.mem_map_of_mem hm) ctx.indented]
      | _ => rfl

end Map

theorem rereadDouble_leaf (value : Double) : (rereadDouble value).children = [] := by
  unfold rereadDouble
  split <;> rfl

/-- What `Load` makes of a printed document. -/
def Document.reread (document : Document Double) : Document Double where
  root := document.root.mapDoubles rereadDouble
  sorted := by
    refine document.sorted.mapDoubles (fun value _ => .leaf (rereadDouble_leaf value) ?_)
      fun node h hne => sortedMembers_mapDoubles h hne
    unfold rereadDouble
    split <;> trivial

/-- Each `double` is printed as a number in the range of `double`. -/
def Document.InRange (document : Document Double) : Prop :=
  document.root.Everywhere (Node.Doubles fun value => toDouble (rounded value) ≠ none)

theorem Document.print_reread {document : Document Double} (h : document.InRange) :
    print printDouble document.reread = print printDouble document := by
  refine printNode_mapDoubles (h.imp fun node hnode => ?_) {}
  cases node with
  | double value => exact (grammarOf_rereadDouble Written hnode).2
  | _ => trivial

theorem Document.grammar_reread {document : Document Double} (h : document.InRange) :
    Grammar stod (.value document.reread.root) (print printDouble document) := by
  rw [← print_reread h]
  refine grammarOf_printNode_of_doubles (h.mapDoubles (fun value hvalue => ?_) ?_)
    document.reread.sorted ?_ {}
  · obtain ⟨hgrammar, hprint⟩ := grammarOf_rereadDouble Written hvalue
    apply Node.Everywhere.leaf (rereadDouble_leaf value)
    cases hnode : rereadDouble value with
    | double nearest =>
        rw [hnode] at hgrammar hprint
        rw [← hprint {}] at hgrammar
        exact hgrammar
    | _ => trivial
  · intro node _ hne
    cases node with
    | double value => exact absurd rfl (hne value)
    | _ => trivial
  · exact document.reread.sorted.imp fun node _ => Node.strings_of_forall written_printString node

theorem Document.exists_load_print {document : Document Double} (h : document.InRange) :
    ∃ input, load stod (ofText (print printDouble document)) = .ok (document.reread, input) := by
  obtain ⟨⟨root, sorted⟩, input, hload, hroot⟩ := exists_load_of_value (Document.grammar_reread h)
  cases hroot
  exact ⟨input, hload⟩

theorem toDouble_rounded_nearest {value nearest : Double}
    (h : toDouble (rounded value) = some nearest) : toDouble (rounded nearest) = some nearest := by
  obtain ⟨n, htext, hvalue⟩ := exists_number_printDouble value
  obtain ⟨n', htext', hvalue'⟩ := exists_number_printDouble nearest
  rw [printDouble_nearest h] at htext'
  rw [← hvalue', ← n'.stod_text, htext', ← htext, n.stod_text, hvalue, h]

theorem Document.reread_inRange {document : Document Double} (h : document.InRange) :
    document.reread.InRange := by
  refine h.mapDoubles (fun value hvalue => .leaf (rereadDouble_leaf value) ?_) ?_
  · unfold rereadDouble
    split
    · trivial
    · obtain ⟨nearest, hnearest⟩ := Option.ne_none_iff_exists'.mp hvalue
      rw [hnearest]
      intro hnone
      rw [Option.getD_some, toDouble_rounded_nearest hnearest] at hnone
      cases hnone
  · intro node _ hne
    cases node with
    | double value => exact absurd rfl (hne value)
    | _ => trivial

theorem Document.reread_reread {document : Document Double} (h : document.InRange) :
    document.reread.reread = document.reread := by
  obtain ⟨input, hload⟩ := Document.exists_load_print h
  obtain ⟨input', hload'⟩ := Document.exists_load_print (Document.reread_inRange h)
  rw [Document.print_reread h, hload] at hload'
  exact (Prod.mk.inj (Except.ok.inj hload')).1.symm

/-- A printed document is read, with the `double`s that its text has, and the document
that is read is printed as it was and read back as it is. -/
theorem Document.load_print_stable {document : Document Double} (h : document.InRange) :
    ∃ input input', load stod (ofText (print printDouble document)) = .ok (document.reread, input) ∧
      print printDouble document.reread = print printDouble document ∧
      load stod (ofText (print printDouble document.reread)) = .ok (document.reread, input') := by
  obtain ⟨input, hload⟩ := Document.exists_load_print h
  have hprint := Document.print_reread h
  exact ⟨input, input, hload, hprint, hprint ▸ hload⟩

/-- Of `1234567`, `0.1` and `7` as `double`s the first loses a digit and the last is read
as an `int`. -/
theorem Document.load_print_stable_times :
    ∃ (document : Document Double) (nearest : Double),
      document.root = .array [.double 1234567, .double nearest, .double 7] ∧
      toDouble (1 / 10) = some nearest ∧
      document.reread.root = .array [.double 1234570, .double nearest, .int 7] ∧
      ∃ input input', load stod (ofText (print printDouble document)) =
          .ok (document.reread, input) ∧
        print printDouble document.reread = print printDouble document ∧
        load stod (ofText (print printDouble document.reread)) = .ok (document.reread, input') := by
  let nearest : Double := (scientific 2 53 (1 / 10)).value 2 53
  have hinner : ∀ child ∈ (Node.array [.double 1234567, .double nearest, .double 7]).children,
      child.children = [] := by
    simp [Node.children]
  let document : Document Double :=
    ⟨.array [.double 1234567, .double nearest, .double 7],
      .intro trivial fun child hc => .leaf (hinner child hc) (by
        simp only [Node.children, List.mem_cons, List.not_mem_nil, or_false] at hc
        rcases hc with rfl | rfl | rfl <;> trivial)⟩
  have hlong : toDouble (rounded 1234567) = some 1234570 := by decide +kernel
  have htenth : toDouble (rounded nearest) = some nearest := by decide +kernel
  have hseven : toDouble (rounded 7) = some 7 := by decide +kernel
  have hnum : (rounded 7).num = 7 := by decide +kernel
  refine ⟨document, nearest, rfl, by decide +kernel, ?_, Document.load_print_stable ?_⟩
  · have hroot : document.reread.root =
        .array [rereadDouble 1234567, rereadDouble nearest, rereadDouble 7] := rfl
    rw [hroot, rereadDouble, if_neg (by decide +kernel), hlong, rereadDouble,
      if_neg (by decide +kernel), htenth, rereadDouble, if_pos (by decide +kernel), hnum]
    rfl
  · refine .intro trivial fun child hc => .leaf (hinner child hc) ?_
    simp only [document, Node.children, List.mem_cons, List.not_mem_nil, or_false] at hc
    rcases hc with rfl | rfl | rfl
    · exact Option.ne_none_iff_exists'.mpr ⟨_, hlong⟩
    · exact Option.ne_none_iff_exists'.mpr ⟨_, htenth⟩
    · exact Option.ne_none_iff_exists'.mpr ⟨_, hseven⟩

end TransportSystem.Json
