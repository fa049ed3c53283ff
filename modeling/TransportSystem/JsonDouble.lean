import Mathlib.Data.List.DropRight
import TransportSystem.JsonPrint
import TransportSystem.Library.Rounding

namespace TransportSystem.Json

open Library.Rounding Library.Lists IStream

/-- The digits after the point, less the zeros at their end. -/
def printFraction (digits : Str) : Str :=
  let kept := digits.rdropWhile (· = '0')
  if kept = [] then [] else '.' :: kept

def printExponent (exponent : ℤ) : Str :=
  let digits := Nat.toDigits 10 exponent.natAbs
  'e' :: (if exponent < 0 then '-' else '+') ::
    (if digits.length < 2 then '0' :: digits else digits)

/-- The format `%g` of a positive number with six digits. -/
def printScientific (s : Scientific) : Str :=
  let digits := Nat.toDigits 10 s.significand.toNat
  if s.exponent < -4 ∨ 6 ≤ s.exponent then
    digits.take 1 ++ (printFraction (digits.drop 1) ++ printExponent s.exponent)
  else if s.exponent < 0 then
    '0' :: printFraction (List.replicate (-s.exponent - 1).toNat '0' ++ digits)
  else
    digits.take (s.exponent + 1).toNat ++ printFraction (digits.drop (s.exponent + 1).toNat)

/-- `out << value` for a `double`, with the precision 6 that a stream begins with. -/
def printDouble (value : Double) : Str :=
  if value = 0 then ['0']
  else (if value < 0 then ['-'] else []) ++ printScientific (scientific 10 6 |value|)

/-- The value that is printed for a `double`. -/
def rounded (value : Double) : Double :=
  if value = 0 then 0
  else (if value < 0 then -1 else 1) * (scientific 10 6 |value|).value 10 6

def powerValue : Str → ℤ
  | '-' :: digits => -Nat.ofDigitChars 10 digits 0
  | '+' :: digits => Nat.ofDigitChars 10 digits 0
  | digits => Nat.ofDigitChars 10 digits 0

/-- The `double` that is nearest to a number. There is none for a number that is
too large or, unless it is 0, too small to have 53 binary digits. -/
def toDouble (x : ℚ) : Option Double :=
  if x = 0 then some 0
  else
    let s := scientific 2 53 |x|
    if -1022 ≤ s.exponent ∧ s.exponent < 1024 then
      some ((if x < 0 then -1 else 1) * s.value 2 53)
    else none

/-- `std::stod` on the text of a number, `none` for `std::out_of_range`. -/
def stod (text : Str) : Option Double :=
  let negative := text.head? = some '-'
  let unsigned := if negative then text.drop 1 else text
  let int := unsigned.takeWhile Char.isDigit
  let after := unsigned.dropWhile Char.isDigit
  let hasPoint := after.head? = some '.'
  let frac := if hasPoint then (after.drop 1).takeWhile Char.isDigit else []
  let exp := if hasPoint then (after.drop 1).dropWhile Char.isDigit else after
  toDouble ((if negative then -1 else 1) * Nat.ofDigitChars 10 (int ++ frac) 0 *
    10 ^ (powerValue (exp.drop 1) - frac.length))

example : printDouble 1234567 = "1.23457e+06".toList := by decide +kernel

example : stod "-1.5e3".toList = some (-1500) := by decide +kernel

namespace Number

/-- The value of a number with its fraction and its exponent. -/
def decimal (n : Number) : ℚ :=
  (if n.sign = [] then 1 else -1) * Nat.ofDigitChars 10 (n.int ++ n.frac.drop 1) 0 *
    10 ^ (powerValue (n.exp.drop 1) - (n.frac.drop 1).length)

theorem head_exp {n : Number} (p : Char → Bool) (he : p 'e' = false) (hE : p 'E' = false) :
    n.exp.head?.any p = false := by
  have h := n.head_exp_append p he hE fun _ => (rfl : ([] : Str).head?.any p = false)
  rwa [List.append_nil] at h

theorem head_frac_exp {n : Number} : (n.frac ++ n.exp).head?.any Char.isDigit = false := by
  have h := n.head_frac_append fun _ => (rfl : ([] : Str).head?.any Char.isDigit = false)
  rwa [List.append_nil] at h

theorem unsigned_text (n : Number) :
    (if n.text.head? = some '-' then n.text.drop 1 else n.text) = n.int ++ (n.frac ++ n.exp) ∧
      (n.text.head? = some '-' ↔ n.sign ≠ []) := by
  have hhead := n.head_not_sign (n.frac ++ n.exp)
  rcases n.sign_ok with h | h
  · have hne : (n.int ++ (n.frac ++ n.exp)).head? ≠ some '-' := by
      intro heq
      simp [heq] at hhead
    rw [text, h, List.nil_append, if_neg hne]
    exact ⟨rfl, fun heq => absurd heq hne, fun heq => absurd rfl heq⟩
  · simp [text, h]

theorem stod_text (n : Number) : stod n.text = toDouble n.decimal := by
  obtain ⟨hunsigned, hsign⟩ := n.unsigned_text
  obtain ⟨hint, hafter⟩ := append_eq_span_iff.mp ⟨rfl, n.digits_int.2, n.head_frac_exp⟩
  unfold stod
  dsimp only
  rw [hunsigned, ← hint, ← hafter, decimal]
  have hneg : (if n.text.head? = some '-' then (-1 : ℚ) else 1) =
      if n.sign = [] then 1 else -1 := by
    simp [hsign]
  rw [hneg]
  rcases n.frac_ok with h | ⟨digits, hdigits, h⟩
  · have hpoint : n.exp.head? ≠ some '.' := by
      intro heq
      have := head_exp (n := n) (· = '.') rfl rfl
      simp [heq] at this
    simp [h, hpoint]
  · obtain ⟨htake, hdrop⟩ :=
      append_eq_span_iff.mp ⟨rfl, hdigits.2, head_exp (n := n) Char.isDigit rfl rfl⟩
    simp [h, ← htake, ← hdrop]

theorem decimal_of_isInt {n : Number} (h : n.isInt = true) : n.decimal = n.value := by
  obtain ⟨hfrac, hexp⟩ := n.isInt_iff.mp h
  simp only [value, decimal, hfrac, hexp]
  split <;> simp [powerValue]

/-- A number in the range of `double` is read as its value if it is an `int`, and else as the
`double` nearest to it. -/
theorem exists_denotes (n : Number) {nearest : Double} (h : toDouble n.decimal = some nearest) :
    ∃ (node : Node Double) (value : Double), n.Denotes stod node ∧ node.asDouble = .ok value ∧
      (value = n.decimal ∨ value = nearest) := by
  by_cases hint : n.isInt = true ∧ -2147483648 ≤ n.value ∧ n.value < 2147483648
  · obtain ⟨hint, hlow, hhigh⟩ := hint
    have hvalue : (Int32.ofInt n.value).toInt = n.value :=
      Int32.toInt_ofInt_of_le (by omega) (by omega)
    refine ⟨.int (Int32.ofInt n.value), n.decimal, ⟨hint, hvalue.symm⟩, ?_, .inl rfl⟩
    rw [Node.asDouble, hvalue, decimal_of_isInt hint]
  · refine ⟨.double nearest, nearest, ⟨fun hi hr => hint ⟨hi, hr⟩, ?_⟩, rfl, .inr rfl⟩
    rw [n.stod_text, h]

end Number

theorem printFraction_eq (digits : Str) :
    ∃ zeros, digits = digits.rdropWhile (· = '0') ++ List.replicate zeros '0' := by
  refine ⟨(digits.rtakeWhile (· = '0')).length, ?_⟩
  conv_lhs => rw [← List.rdropWhile_append_rtakeWhile (p := (· = '0')) (l := digits)]
  congr 1
  exact List.eq_replicate_iff.mpr ⟨rfl, fun c hc => by simpa using List.mem_rtakeWhile_imp hc⟩

theorem ofDigitChars_append_zeros (digits : Str) (zeros : ℕ) :
    Nat.ofDigitChars 10 (digits ++ List.replicate zeros '0') 0 =
      10 ^ zeros * Nat.ofDigitChars 10 digits 0 := by
  rw [Nat.ofDigitChars_append, Nat.ofDigitChars_replicate_zero]

theorem exists_number {sign int digits exp : Str} (hsign : sign = [] ∨ sign = ['-'])
    (hint : int = ['0'] ∨ Digits int ∧ int.head? ≠ some '0')
    (hdigits : ∀ c ∈ digits, c.isDigit = true)
    (hexp : exp = [] ∨ ∃ e power, (e = 'e' ∨ e = 'E') ∧ Power power ∧ exp = e :: power) :
    ∃ n : Number, n.text = sign ++ (int ++ (printFraction digits ++ exp)) ∧
      n.decimal = (if sign = [] then 1 else -1) * Nat.ofDigitChars 10 (int ++ digits) 0 *
        10 ^ (powerValue (exp.drop 1) - digits.length) := by
  obtain ⟨zeros, hzeros⟩ := printFraction_eq digits
  have hkept : ∀ c ∈ digits.rdropWhile (· = '0'), c.isDigit = true :=
    fun c hc => hdigits c ((List.rdropWhile_prefix _ _).subset hc)
  have hfrac : printFraction digits = [] ∨
      ∃ kept, Digits kept ∧ printFraction digits = '.' :: kept := by
    unfold printFraction
    dsimp only
    split
    · exact .inl rfl
    · rename_i hne
      exact .inr ⟨_, ⟨hne, hkept⟩, rfl⟩
  have hdrop : (printFraction digits).drop 1 = digits.rdropWhile (· = '0') := by
    unfold printFraction
    dsimp only
    split
    · rename_i hnil
      rw [hnil]
      rfl
    · rfl
  refine ⟨⟨sign, int, printFraction digits, exp, hsign, hint, hfrac, hexp⟩, rfl, ?_⟩
  generalize hk : digits.rdropWhile (· = '0') = kept at hzeros hdrop
  have hlength : (digits.length : ℤ) = kept.length + zeros := by
    rw [hzeros]
    simp
  have hdigits' : Nat.ofDigitChars 10 (int ++ digits) 0 =
      10 ^ zeros * Nat.ofDigitChars 10 (int ++ kept) 0 := by
    rw [hzeros, ← List.append_assoc, ofDigitChars_append_zeros]
  rw [Number.decimal, hdrop, hlength, hdigits']
  have hpow : (10 : ℚ) ^ (powerValue (exp.drop 1) - kept.length) =
      10 ^ zeros * 10 ^ (powerValue (exp.drop 1) - (kept.length + zeros)) := by
    rw [← zpow_natCast, ← zpow_add₀ (by norm_num)]
    congr 1
    ring
  rw [hpow]
  push_cast
  ring

theorem powerValue_printExponent (exponent : ℤ) :
    (∃ e power, (e = 'e' ∨ e = 'E') ∧ Power power ∧ printExponent exponent = e :: power) ∧
      powerValue ((printExponent exponent).drop 1) = exponent := by
  unfold printExponent
  dsimp only
  generalize hdigits : (if (Nat.toDigits 10 exponent.natAbs).length < 2 then
    '0' :: Nat.toDigits 10 exponent.natAbs else Nat.toDigits 10 exponent.natAbs) = digits
  have hvalue : Nat.ofDigitChars 10 digits 0 = exponent.natAbs := by
    rw [← hdigits]
    split
    · rw [← List.singleton_append, Nat.ofDigitChars_append]
      exact Nat.ofDigitChars_ten_toDigits
    · exact Nat.ofDigitChars_ten_toDigits
  have hall : Digits digits := by
    obtain ⟨hne, hdigit⟩ := digits_toDigits exponent.natAbs
    rw [← hdigits]
    split
    · exact ⟨by simp, List.forall_mem_cons.mpr ⟨rfl, hdigit⟩⟩
    · exact ⟨hne, hdigit⟩
  constructor
  · refine ⟨'e', _, .inl rfl, ⟨[if exponent < 0 then '-' else '+'], digits, ?_, hall, rfl⟩, rfl⟩
    split
    · exact .inr (.inr rfl)
    · exact .inr (.inl rfl)
  · split
    · simp only [List.drop_succ_cons, List.drop_zero, powerValue, hvalue]
      omega
    · simp only [List.drop_succ_cons, List.drop_zero, powerValue, hvalue]
      omega

section Scientific

variable {s : Scientific} {sign : Str}

theorem digits_significand (hlow : 100000 ≤ s.significand) (hhigh : s.significand < 1000000) :
    (Nat.toDigits 10 s.significand.toNat).length = 6 ∧
      Nat.ofDigitChars 10 (Nat.toDigits 10 s.significand.toNat) 0 = s.significand.toNat ∧
      (Nat.toDigits 10 s.significand.toNat).head? ≠ some '0' := by
  refine ⟨?_, Nat.ofDigitChars_ten_toDigits, head_toDigits (by omega)⟩
  have hle := (Nat.length_toDigits_le_iff (b := 10) (n := s.significand.toNat) (k := 6)
    (by decide) (by decide)).mpr (by omega)
  have hgt := (Nat.length_toDigits_le_iff (b := 10) (n := s.significand.toNat) (k := 5)
    (by decide) (by decide)).not.mpr (by omega)
  omega

theorem digits_take {digits : Str} {k : ℕ} (hdigits : Digits digits)
    (hhead : digits.head? ≠ some '0') (hk : 0 < k) :
    Digits (digits.take k) ∧ (digits.take k).head? ≠ some '0' := by
  obtain ⟨hne, hall⟩ := hdigits
  refine ⟨⟨?_, fun c hc => hall c (List.mem_of_mem_take hc)⟩, ?_⟩
  · simp [hne, hk.ne']
  · rwa [List.head?_take, if_neg hk.ne']

theorem exists_number_printScientific (hsign : sign = [] ∨ sign = ['-'])
    (hlow : 100000 ≤ s.significand) (hhigh : s.significand < 1000000) :
    ∃ n : Number, n.text = sign ++ printScientific s ∧
      n.decimal = (if sign = [] then 1 else -1) * s.value 10 6 := by
  obtain ⟨hlength, hvalue, hhead⟩ := digits_significand hlow hhigh
  have hdigits := digits_toDigits s.significand.toNat
  have hcast : ((s.significand.toNat : ℕ) : ℚ) = s.significand := by
    exact_mod_cast Int.toNat_of_nonneg (by omega)
  unfold printScientific
  dsimp only
  generalize Nat.toDigits 10 s.significand.toNat = digits at hlength hvalue hhead hdigits
  have hdrop (k : ℕ) : ∀ c ∈ digits.drop k, c.isDigit = true :=
    fun c hc => hdigits.2 c (List.mem_of_mem_drop hc)
  split
  · obtain ⟨hexp, hpower⟩ := powerValue_printExponent s.exponent
    obtain ⟨n, htext, hn⟩ := exists_number hsign
      (.inr (digits_take hdigits hhead Nat.one_pos)) (hdrop 1) (.inr hexp)
    refine ⟨n, htext, ?_⟩
    rw [hn, List.take_append_drop, hvalue, hcast, hpower, List.length_drop, hlength,
      Scientific.value, mul_assoc]
    congr 3
    omega
  · split
    · have hfrac : ∀ c ∈ List.replicate (-s.exponent - 1).toNat '0' ++ digits,
          c.isDigit = true := by
        intro c hc
        rcases List.mem_append.mp hc with hc | hc
        · rw [(List.mem_replicate.mp hc).2]
          rfl
        · exact hdigits.2 c hc
      obtain ⟨n, htext, hn⟩ := exists_number hsign (.inl rfl) hfrac (.inl rfl)
      refine ⟨n, by simpa using htext, ?_⟩
      have hzeros : Nat.ofDigitChars 10
          (['0'] ++ (List.replicate (-s.exponent - 1).toNat '0' ++ digits)) 0 =
            Nat.ofDigitChars 10 digits 0 := by
        rw [Nat.ofDigitChars_append, Nat.ofDigitChars_append, Nat.ofDigitChars_replicate_zero]
        exact congrArg (Nat.ofDigitChars 10 digits) (Nat.mul_zero _)
      rw [hn, hzeros, hvalue, hcast, List.length_append, List.length_replicate, hlength,
        Scientific.value, mul_assoc]
      congr 3
      simp only [List.drop_nil, powerValue, Nat.ofDigitChars_nil]
      omega
    · obtain ⟨n, htext, hn⟩ := exists_number hsign
        (.inr (digits_take (k := (s.exponent + 1).toNat) hdigits hhead (by omega)))
        (hdrop (s.exponent + 1).toNat) (.inl rfl)
      refine ⟨n, by simpa using htext, ?_⟩
      rw [hn, List.take_append_drop, hvalue, hcast, List.length_drop, hlength,
        Scientific.value, mul_assoc]
      congr 3
      simp only [List.drop_nil, powerValue, Nat.ofDigitChars_nil]
      omega

end Scientific

theorem exists_number_printDouble (value : Double) :
    ∃ n : Number, n.text = printDouble value ∧ n.decimal = rounded value := by
  unfold printDouble rounded
  split
  · exact ⟨⟨[], ['0'], [], [], .inl rfl, .inl rfl, .inl rfl, .inl rfl⟩, rfl,
      by simp [Number.decimal, powerValue, Nat.ofDigitChars]⟩
  · rename_i hne
    obtain ⟨hlow, hhigh⟩ := scientific_bounds (b := 10) (d := 6) (by decide) (by decide)
      (abs_pos.mpr hne)
    have hsign : (if value < 0 then ['-'] else []) = [] ∨
        (if value < 0 then ['-'] else []) = ['-'] := by
      split <;> simp
    obtain ⟨n, htext, hn⟩ := exists_number_printScientific hsign hlow hhigh
    refine ⟨n, htext, hn.trans ?_⟩
    split <;> simp

def doubleDocument (value : Double) : Document Double :=
  ⟨.double value, .leaf rfl trivial⟩

/-- What is printed for a `double` is read, if it is in the range of `double` itself. -/
theorem exists_load_printDouble {value nearest : Double}
    (h : toDouble (rounded value) = some nearest) :
    ∃ document input read, load stod (ofText (print printDouble (doubleDocument value))) =
        .ok (document, input) ∧ document.root.asDouble = .ok read ∧
          (read = rounded value ∨ read = nearest) := by
  obtain ⟨n, htext, hn⟩ := exists_number_printDouble value
  obtain ⟨node, read, hnode, hdouble, hread⟩ := n.exists_denotes (hn ▸ h)
  obtain ⟨document, input, hload, hroot⟩ := exists_load_of_value (.number hnode)
  rw [htext] at hload
  exact ⟨document, input, read, hload, by rw [hroot, hdouble], hn ▸ hread⟩

theorem load_printDouble {value : Double} (h : toDouble (rounded value) = some (rounded value)) :
    ∃ document input, load stod (ofText (print printDouble (doubleDocument value))) =
        .ok (document, input) ∧ document.root.asDouble = .ok (rounded value) := by
  obtain ⟨document, input, read, hload, hdouble, hread⟩ := exists_load_printDouble h
  rw [or_self] at hread
  exact ⟨document, input, hload, hread ▸ hdouble⟩

section Integers

variable {n : ℕ}

theorem toDouble_natCast (h : n < 2 ^ 53) : toDouble (n : ℚ) = some (n : ℚ) := by
  unfold toDouble
  split
  · rename_i hzero
    rw [hzero]
  · rename_i hne
    have hpos : (0 : ℚ) < n := by positivity
    have hvalue : (scientific 2 53 (n : ℚ)).value 2 53 = n :=
      (scientific_value_eq_iff (by decide) (by decide) hpos).mpr ⟨n, 0, h, by simp⟩
    have hlog : Int.log 2 (n : ℚ) = Nat.log 2 n := Int.log_natCast 2 n
    have hlt : Nat.log 2 n < 53 := Nat.log_lt_of_lt_pow (by exact_mod_cast hne) h
    have hexponent := scientific_exponent (b := 2) (d := 53) (x := n)
    rw [abs_of_pos hpos]
    dsimp only
    rw [if_pos (by omega), if_neg hpos.le.not_gt, hvalue, one_mul]

theorem rounded_natCast (h : n ≠ 0) : rounded n = (scientific 10 6 (n : ℚ)).value 10 6 := by
  have hpos : (0 : ℚ) < n := by positivity
  rw [rounded, if_neg hpos.ne', if_neg hpos.le.not_gt, abs_of_pos hpos, one_mul]

/-- Decimal numbers with at most six significant digits. -/
def SixDigits (n : ℕ) : Prop := ∃ m k : ℕ, m < 1000000 ∧ n = m * 10 ^ k

theorem rounded_eq_iff (n : ℕ) : rounded n = n ↔ SixDigits n := by
  rcases Nat.eq_zero_or_pos n with rfl | hn
  · simp only [Nat.cast_zero]
    exact ⟨fun _ => ⟨0, 0, by decide, rfl⟩, fun _ => if_pos rfl⟩
  · have hpos : (0 : ℚ) < n := by exact_mod_cast hn
    rw [rounded_natCast hn.ne', scientific_value_eq_iff (by decide) (by decide) hpos]
    constructor
    · rintro ⟨m, k, hm, heq⟩
      rcases lt_or_ge k 0 with hk | hk
      · refine ⟨n, 0, ?_, by simp⟩
        have hle : (n : ℚ) ≤ m := by
          rw [heq]
          exact mul_le_of_le_one_right (by positivity) (zpow_le_one_of_nonpos₀ (by norm_num) hk.le)
        exact (by exact_mod_cast hle : n ≤ m).trans_lt hm
      · obtain ⟨k, rfl⟩ := Int.eq_ofNat_of_zero_le hk
        refine ⟨m, k, hm, ?_⟩
        rw [zpow_natCast] at heq
        exact_mod_cast heq
    · rintro ⟨m, k, hm, rfl⟩
      exact ⟨m, k, hm, by push_cast; rw [zpow_natCast]⟩

/-- An integer is rounded to an integer. -/
theorem exists_rounded_natCast (h : n < 2 ^ 31) : ∃ m : ℕ, m < 2 ^ 53 ∧ rounded n = m := by
  rcases lt_or_ge n 1000000 with hlt | hge
  · exact ⟨n, by omega, (rounded_eq_iff n).mpr ⟨n, 0, hlt, by simp⟩⟩
  · have hpos : (0 : ℚ) < n := by exact_mod_cast (by omega : 0 < n)
    rw [rounded_natCast (by omega)]
    have hle := scientific_value_le (b := 10) (d := 6) (by decide) (by decide) hpos
    obtain ⟨hlow, -⟩ := scientific_bounds (b := 10) (d := 6) (by decide) (by decide) hpos
    have hlog : Int.log 10 (n : ℚ) = Nat.log 10 n := Int.log_natCast 10 n
    have hsix : 6 ≤ Nat.log 10 n := Nat.le_log_of_pow_le (by decide) hge
    have hexponent := scientific_exponent (b := 10) (d := 6) (x := n)
    generalize scientific 10 6 (n : ℚ) = s at hle hlow hexponent
    obtain ⟨m, hm⟩ := Int.eq_ofNat_of_zero_le ((by decide : (0 : ℤ) ≤ 10 ^ (6 - 1)).trans hlow)
    obtain ⟨j, hj⟩ := Int.eq_ofNat_of_zero_le (by omega : 0 ≤ s.exponent + 1 - (6 : ℕ))
    have hvalue : s.value 10 6 = (m * 10 ^ j : ℕ) := by
      rw [Scientific.value, hm, hj, zpow_natCast]
      push_cast
      rfl
    rw [hvalue] at hle ⊢
    have hbound : m * 10 ^ j ≤ 10 * n := by exact_mod_cast hle
    exact ⟨m * 10 ^ j, by omega, rfl⟩

end Integers

/-- An integer is read back as it was. -/
def ReadsBack (n : ℕ) : Prop :=
  ∃ document input, load stod (ofText (print printDouble (doubleDocument n))) =
    .ok (document, input) ∧ document.root.asDouble = .ok (n : Double)

/-- Exactly the integers with six significant digits are read back. -/
theorem readsBack_iff {n : ℕ} (h : n < 2 ^ 31) : ReadsBack n ↔ SixDigits n := by
  obtain ⟨m, hm, hrounded⟩ := exists_rounded_natCast h
  obtain ⟨document, input, hload, hdouble⟩ :=
    load_printDouble (hrounded ▸ toDouble_natCast hm : toDouble (rounded n) = some (rounded n))
  rw [← rounded_eq_iff]
  constructor
  · rintro ⟨document', input', hload', hdouble'⟩
    rw [hload] at hload'
    cases hload'
    exact Except.ok.inj (hdouble.symm.trans hdouble')
  · intro heq
    exact ⟨document, input, hload, heq ▸ hdouble⟩

theorem readsBack_iff_long : ReadsBack 1234500 :=
  (readsBack_iff (by decide)).mpr ⟨12345, 2, by decide, rfl⟩

/-- The integer 1234567 is printed as `1.23457e+06`. -/
theorem not_readsBack : ¬ ∀ n : ℕ, n < 2 ^ 31 → ReadsBack n := by
  intro h
  have hrounded : rounded 1234567 = (1234570 : ℕ) := by decide +kernel
  obtain ⟨document, input, hload, hdouble⟩ := load_printDouble
    (show toDouble (rounded 1234567) = _ from hrounded ▸ toDouble_natCast (by decide))
  obtain ⟨document', input', hload', hdouble'⟩ := h 1234567 (by decide)
  rw [Nat.cast_ofNat, hload] at hload'
  cases hload'
  rw [hdouble, hrounded] at hdouble'
  exact absurd (Except.ok.inj hdouble') (by decide)

end TransportSystem.Json
