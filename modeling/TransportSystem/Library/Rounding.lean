import Mathlib.Algebra.Order.Archimedean.Basic
import Mathlib.Data.Int.Log
import Mathlib.Data.Rat.Floor
import Mathlib.Tactic.Positivity
import Mathlib.Tactic.FieldSimp
import Mathlib.Tactic.Linarith

/-!
Rounding to a number of significant digits, halves to even.
-/

namespace TransportSystem.Library.Rounding

/-- The nearest integer, the even one of two. -/
def roundHalfEven (x : ℚ) : ℤ :=
  let below := ⌊x⌋
  if x - below < 1 / 2 ∨ x - below = 1 / 2 ∧ below % 2 = 0 then below else below + 1

@[simp] theorem roundHalfEven_intCast (n : ℤ) : roundHalfEven n = n := by
  simp [roundHalfEven]

theorem roundHalfEven_cases (x : ℚ) :
    roundHalfEven x = ⌊x⌋ ∨ roundHalfEven x = ⌊x⌋ + 1 ∧ (⌊x⌋ : ℚ) < x := by
  unfold roundHalfEven
  dsimp only
  split
  · exact Or.inl rfl
  · rename_i h
    refine Or.inr ⟨rfl, lt_of_not_ge fun hle => h (Or.inl ?_)⟩
    linarith

theorem le_roundHalfEven {n : ℤ} {x : ℚ} (h : n ≤ x) : n ≤ roundHalfEven x := by
  have hfloor : n ≤ ⌊x⌋ := Int.le_floor.mpr h
  rcases roundHalfEven_cases x with heq | ⟨heq, -⟩ <;> omega

theorem roundHalfEven_le {n : ℤ} {x : ℚ} (h : x ≤ n) : roundHalfEven x ≤ n := by
  rcases roundHalfEven_cases x with heq | ⟨heq, hlt⟩
  · rw [heq]
    exact_mod_cast (Int.floor_le x).trans h
  · have hfloor : ⌊x⌋ < n := by exact_mod_cast hlt.trans_le h
    omega

theorem abs_roundHalfEven_sub_le (x : ℚ) : |roundHalfEven x - x| ≤ 1 / 2 := by
  have hlow := Int.floor_le x
  have hhigh := Int.lt_floor_add_one x
  unfold roundHalfEven
  dsimp only
  split
  · rename_i h
    rw [abs_le]
    constructor
    · rcases h with h | ⟨h, -⟩ <;> linarith
    · linarith
  · rename_i h
    have hhalf : 1 / 2 ≤ x - ⌊x⌋ := le_of_not_gt fun hlt => h (.inl hlt)
    push_cast
    rw [abs_le]
    constructor <;> linarith

/-- A number that is less than half away from an integer is rounded to it. -/
theorem roundHalfEven_of_close {x : ℚ} {n : ℤ} (h : |x - n| < 1 / 2) : roundHalfEven x = n := by
  have hround := abs_le.mp (abs_roundHalfEven_sub_le x)
  obtain ⟨hlow, hhigh⟩ := abs_lt.mp h
  have hlt : ((roundHalfEven x - n : ℤ) : ℚ) < 1 := by
    push_cast
    linarith
  have hgt : (-1 : ℚ) < ((roundHalfEven x - n : ℤ) : ℚ) := by
    push_cast
    linarith
  have hlt' : roundHalfEven x - n < 1 := by exact_mod_cast hlt
  have hgt' : -1 < roundHalfEven x - n := by exact_mod_cast hgt
  omega

/-- A significand and the exponent of its first digit. -/
structure Scientific where
  significand : ℤ
  exponent : ℤ
  deriving DecidableEq, Repr

/-- A positive number rounded to `d` significant digits in base `b`. -/
def scientific (b d : ℕ) (x : ℚ) : Scientific :=
  let exponent := Int.log b x
  let significand := roundHalfEven (x / b ^ (exponent + 1 - d))
  if significand = b ^ d then ⟨b ^ (d - 1), exponent + 1⟩
  else ⟨significand, exponent⟩

/-- The number that a significand of `d` digits and an exponent stand for. -/
def Scientific.value (b d : ℕ) (s : Scientific) : ℚ :=
  s.significand * b ^ (s.exponent + 1 - d)

section Scientific

variable {b d : ℕ} {x : ℚ}

theorem base_zpow_pos (hb : 1 < b) (k : ℤ) : (0 : ℚ) < b ^ k :=
  zpow_pos (by exact_mod_cast Nat.zero_lt_of_lt hb) k

theorem scaled_bounds (hb : 1 < b) (hx : 0 < x) :
    (b : ℚ) ^ ((d : ℤ) - 1) ≤ x / b ^ (Int.log b x + 1 - d) ∧
      x / b ^ (Int.log b x + 1 - d) < b ^ (d : ℤ) := by
  have hpos := base_zpow_pos hb (Int.log b x + 1 - d)
  have hne : (b : ℚ) ≠ 0 := by exact_mod_cast Nat.ne_zero_of_lt hb
  constructor
  · rw [le_div_iff₀ hpos, ← zpow_add₀ hne]
    rw [show (d : ℤ) - 1 + (Int.log b x + 1 - d) = Int.log b x by ring]
    exact Int.zpow_log_le_self hb hx
  · rw [div_lt_iff₀ hpos, ← zpow_add₀ hne]
    rw [show (d : ℤ) + (Int.log b x + 1 - d) = Int.log b x + 1 by ring]
    exact Int.lt_zpow_succ_log_self hb x

theorem scientific_bounds (hb : 1 < b) (hdigits : 0 < d) (hx : 0 < x) :
    (b : ℤ) ^ (d - 1) ≤ (scientific b d x).significand ∧
      (scientific b d x).significand < (b : ℤ) ^ d := by
  obtain ⟨hlow, hhigh⟩ := scaled_bounds (d := d) hb hx
  have hcast : (b : ℚ) ^ ((d : ℤ) - 1) = (((b : ℤ) ^ (d - 1) : ℤ) : ℚ) := by
    rw [show (d : ℤ) - 1 = ((d - 1 : ℕ) : ℤ) by omega, zpow_natCast]
    push_cast
    rfl
  have hge := le_roundHalfEven (hcast ▸ hlow)
  have hle : roundHalfEven (x / b ^ (Int.log b x + 1 - d)) ≤ (b : ℤ) ^ d :=
    roundHalfEven_le (by exact_mod_cast hhigh.le)
  unfold scientific
  dsimp only
  split
  · exact ⟨le_rfl, pow_lt_pow_right₀ (by exact_mod_cast hb) (by omega)⟩
  · rename_i hne
    exact ⟨hge, lt_of_le_of_ne hle hne⟩

theorem scientific_value_pos (hb : 1 < b) (hdigits : 0 < d) (hx : 0 < x) :
    0 < (scientific b d x).value b d := by
  obtain ⟨hlow, -⟩ := scientific_bounds hb hdigits hx
  have hsignificand : 0 < (scientific b d x).significand :=
    (pow_pos (by omega) _).trans_le hlow
  exact mul_pos (by exact_mod_cast hsignificand) (base_zpow_pos hb _)

theorem scientific_value (hb : 1 < b) (hdigits : 0 < d) :
    (scientific b d x).value b d =
      roundHalfEven (x / b ^ (Int.log b x + 1 - d)) * b ^ (Int.log b x + 1 - d) := by
  have hne : (b : ℚ) ≠ 0 := by exact_mod_cast Nat.ne_zero_of_lt hb
  unfold scientific
  dsimp only
  split
  · rename_i heq
    rw [Scientific.value, heq]
    push_cast
    rw [← zpow_natCast, ← zpow_natCast, ← zpow_add₀ hne, ← zpow_add₀ hne]
    congr 1
    omega
  · rfl

theorem scientific_exponent :
    (scientific b d x).exponent = Int.log b x ∨
      (scientific b d x).exponent = Int.log b x + 1 := by
  unfold scientific
  dsimp only
  split
  · exact Or.inr rfl
  · exact Or.inl rfl

/-- Rounding makes a number at most `b` times as large. -/
theorem scientific_value_le (hb : 1 < b) (hdigits : 0 < d) (hx : 0 < x) :
    (scientific b d x).value b d ≤ b * x := by
  have hne : (b : ℚ) ≠ 0 := by exact_mod_cast Nat.ne_zero_of_lt hb
  have hle : roundHalfEven (x / b ^ (Int.log b x + 1 - d)) ≤ (b : ℤ) ^ d :=
    roundHalfEven_le (by exact_mod_cast (scaled_bounds hb hx).2.le)
  calc (scientific b d x).value b d
      = roundHalfEven (x / b ^ (Int.log b x + 1 - d)) * b ^ (Int.log b x + 1 - d) :=
        scientific_value hb hdigits
    _ ≤ b ^ (d : ℤ) * b ^ (Int.log b x + 1 - d) := by
        refine mul_le_mul_of_nonneg_right ?_ (base_zpow_pos hb _).le
        rw [zpow_natCast]
        exact_mod_cast hle
    _ = b * b ^ Int.log b x := by
        rw [← zpow_add₀ hne, ← zpow_one_add₀ hne]
        congr 1
        ring
    _ ≤ b * x := mul_le_mul_of_nonneg_left (Int.zpow_log_le_self hb hx) (Nat.cast_nonneg b)

/-- Rounding changes exactly the numbers with more significant digits. -/
theorem scientific_value_eq_iff (hb : 1 < b) (hdigits : 0 < d) (hx : 0 < x) :
    (scientific b d x).value b d = x ↔
      ∃ (n : ℕ) (k : ℤ), n < b ^ d ∧ x = n * b ^ k := by
  have hne : (b : ℚ) ≠ 0 := by exact_mod_cast Nat.ne_zero_of_lt hb
  constructor
  · intro h
    obtain ⟨hlow, hhigh⟩ := scientific_bounds hb hdigits hx
    have hpos : 0 < (scientific b d x).significand :=
      (pow_pos (by exact_mod_cast Nat.zero_lt_of_lt hb) _).trans_le hlow
    obtain ⟨n, hn⟩ := Int.eq_ofNat_of_zero_le hpos.le
    rw [hn] at hhigh
    rw [Scientific.value, hn, Int.cast_natCast] at h
    exact ⟨n, _, by exact_mod_cast hhigh, h.symm⟩
  · rintro ⟨n, k, hn, hxn⟩
    rw [scientific_value hb hdigits]
    -- the last digit of `n` is not below the last digit kept
    have hlog : Int.log b x + 1 ≤ k + d := by
      have hhigh : x < b ^ (k + d) := by
        rw [hxn, zpow_add₀ hne, mul_comm, zpow_natCast]
        exact mul_lt_mul_of_pos_left (by exact_mod_cast hn) (base_zpow_pos hb k)
      have hlow := Int.zpow_log_le_self hb hx
      have := (zpow_lt_zpow_iff_right₀ (by exact_mod_cast hb : (1 : ℚ) < b)).mp
        (hlow.trans_lt hhigh)
      omega
    obtain ⟨j, hj⟩ : ∃ j : ℕ, k = Int.log b x + 1 - d + j :=
      ⟨(k - (Int.log b x + 1 - d)).toNat, by omega⟩
    have hscaled : x / b ^ (Int.log b x + 1 - d) = ((n * b ^ j : ℤ) : ℚ) := by
      rw [div_eq_iff (base_zpow_pos hb _).ne']
      conv_lhs => rw [hxn, hj]
      rw [zpow_add₀ hne, zpow_natCast]
      push_cast
      ring
    rw [hscaled, roundHalfEven_intCast, ← hscaled, div_mul_cancel₀ _ (base_zpow_pos hb _).ne']

end Scientific

section Close

variable {b d : ℕ} {x : ℚ} {s : Scientific}

theorem log_eq_of_bounds (hb : 1 < b) (hx : 0 < x) {k : ℤ} (hlow : (b : ℚ) ^ k ≤ x)
    (hhigh : x < (b : ℚ) ^ (k + 1)) : Int.log b x = k := by
  have hle := (Int.zpow_le_iff_le_log hb hx).mp hlow
  have hlt := (Int.lt_zpow_iff_log_lt hb hx).mp hhigh
  omega

theorem scientific_of_log (hb : 1 < b) (hlog : Int.log b x = s.exponent)
    (hhigh : s.significand < (b : ℤ) ^ d)
    (hclose : |x - s.value b d| < b ^ (s.exponent + 1 - d) / 2) : scientific b d x = s := by
  have hunit := base_zpow_pos (b := b) hb (s.exponent + 1 - d)
  have hround : roundHalfEven (x / b ^ (s.exponent + 1 - d)) = s.significand := by
    apply roundHalfEven_of_close
    have hscaled : x / b ^ (s.exponent + 1 - d) - s.significand =
        (x - s.value b d) / b ^ (s.exponent + 1 - d) := by
      rw [Scientific.value, sub_div, mul_div_cancel_right₀ _ hunit.ne']
    rw [hscaled, abs_div, abs_of_pos hunit, div_lt_iff₀ hunit]
    linarith
  unfold scientific
  dsimp only
  rw [hlog, hround, if_neg hhigh.ne]

/-- A number near enough to one with `d` digits is rounded to it. The step
below a power of the base is the smaller one. -/
theorem scientific_of_close (hb : 1 < b) (hd : 0 < d) (hlow : (b : ℤ) ^ (d - 1) ≤ s.significand)
    (hhigh : s.significand < (b : ℤ) ^ d)
    (hclose : |x - s.value b d| < b ^ (s.exponent - d) / 2) : scientific b d x = s := by
  have hne : (b : ℚ) ≠ 0 := by exact_mod_cast Nat.ne_zero_of_lt hb
  have hbig : (1 : ℚ) < b := by exact_mod_cast hb
  set unit : ℚ := b ^ (s.exponent + 1 - d) with hunit
  have hunitpos : 0 < unit := base_zpow_pos hb _
  have hsmall : (b : ℚ) ^ (s.exponent - d) * b = unit := by
    rw [hunit, ← zpow_add_one₀ hne]
    congr 1
    ring
  have hstep : (b : ℚ) ^ (s.exponent - d) < unit := by
    have hpos := base_zpow_pos (b := b) hb (s.exponent - d)
    nlinarith
  have hpower : (((b : ℤ) ^ (d - 1) : ℤ) : ℚ) * unit = b ^ s.exponent := by
    rw [hunit]
    push_cast
    rw [← zpow_natCast, ← zpow_add₀ hne]
    congr 1
    omega
  have hnext : (((b : ℤ) ^ d : ℤ) : ℚ) * unit = b ^ (s.exponent + 1) := by
    rw [hunit]
    push_cast
    rw [← zpow_natCast, ← zpow_add₀ hne]
    congr 1
    omega
  have hvalue : s.value b d = s.significand * unit := rfl
  obtain ⟨hbelow, habove⟩ := abs_lt.mp hclose
  have hlow' : (b : ℚ) ^ s.exponent ≤ s.value b d := by
    rw [hvalue, ← hpower]
    exact mul_le_mul_of_nonneg_right (by exact_mod_cast hlow) hunitpos.le
  have hhigh' : s.value b d + unit ≤ b ^ (s.exponent + 1) := by
    rw [hvalue, ← hnext, ← add_one_mul]
    exact mul_le_mul_of_nonneg_right (by exact_mod_cast hhigh) hunitpos.le
  have hxhigh : x < b ^ (s.exponent + 1) := by linarith
  by_cases hx : (b : ℚ) ^ s.exponent ≤ x
  · have hxpos : 0 < x := (base_zpow_pos hb _).trans_le hx
    refine scientific_of_log hb (log_eq_of_bounds hb hxpos hx hxhigh) hhigh (hclose.trans ?_)
    linarith
  · rw [not_le] at hx
    -- the number is below the power of the base that it is rounded to
    have hsignificand : s.significand = (b : ℤ) ^ (d - 1) := by
      refine le_antisymm (le_of_not_gt fun hlt => ?_) hlow
      have hge : (((b : ℤ) ^ (d - 1) : ℤ) : ℚ) + 1 ≤ s.significand := by exact_mod_cast hlt
      have hmul := mul_le_mul_of_nonneg_right hge hunitpos.le
      rw [add_one_mul, hpower, ← hvalue] at hmul
      linarith
    have hexact : s.value b d = b ^ s.exponent := by rw [hvalue, hsignificand, hpower]
    rw [hexact] at hbelow habove
    have hprev : (b : ℚ) ^ (s.exponent - 1) * b = b ^ s.exponent := by
      rw [← zpow_add_one₀ hne]
      congr 1
      ring
    have hprevpos := base_zpow_pos (b := b) hb (s.exponent - 1)
    have hsmallpos := base_zpow_pos (b := b) hb (s.exponent - d)
    have hle : (b : ℚ) ^ (s.exponent - d) ≤ b ^ (s.exponent - 1) :=
      zpow_le_zpow_right₀ hbig.le (by omega)
    have htwo : (2 : ℚ) ≤ b := by exact_mod_cast hb
    have hxlow : (b : ℚ) ^ (s.exponent - 1) ≤ x := by nlinarith
    have hlog : Int.log b x = s.exponent - 1 :=
      log_eq_of_bounds hb (hprevpos.trans_le hxlow) hxlow (by rwa [sub_add_cancel])
    have hround : roundHalfEven (x / b ^ (s.exponent - 1 + 1 - d)) = (b : ℤ) ^ d := by
      rw [sub_add_cancel]
      apply roundHalfEven_of_close
      have hscaled : x / b ^ (s.exponent - d) - (((b : ℤ) ^ d : ℤ) : ℚ) =
          (x - b ^ s.exponent) / b ^ (s.exponent - d) := by
        rw [sub_div, ← zpow_sub₀ hne, sub_sub_cancel, zpow_natCast]
        push_cast
        rfl
      rw [hscaled, abs_div, abs_of_pos hsmallpos, div_lt_iff₀ hsmallpos, abs_lt]
      constructor <;> linarith
    unfold scientific
    dsimp only
    rw [hlog, hround, if_pos rfl, sub_add_cancel, ← hsignificand]

theorem abs_scientific_value_sub_le (hb : 1 < b) (hd : 0 < d) (hx : 0 < x) :
    |(scientific b d x).value b d - x| ≤ b ^ (1 - d : ℤ) / 2 * x := by
  have hne : (b : ℚ) ≠ 0 := by exact_mod_cast Nat.ne_zero_of_lt hb
  have hunit := base_zpow_pos (b := b) hb (Int.log b x + 1 - d)
  have hsplit : (b : ℚ) ^ (Int.log b x + 1 - d) = b ^ (1 - d : ℤ) * b ^ Int.log b x := by
    rw [← zpow_add₀ hne]
    congr 1
    ring
  have hscale : (b : ℚ) ^ (Int.log b x + 1 - d) ≤ b ^ (1 - d : ℤ) * x := by
    rw [hsplit]
    exact mul_le_mul_of_nonneg_left (Int.zpow_log_le_self hb hx) (base_zpow_pos hb _).le
  have herror := abs_roundHalfEven_sub_le (x / b ^ (Int.log b x + 1 - d))
  rw [scientific_value hb hd]
  calc |(roundHalfEven (x / b ^ (Int.log b x + 1 - d)) : ℚ) * b ^ (Int.log b x + 1 - d) - x|
      = |roundHalfEven (x / b ^ (Int.log b x + 1 - d)) - x / b ^ (Int.log b x + 1 - d)| *
          b ^ (Int.log b x + 1 - d) := by
        rw [← abs_of_pos hunit, ← abs_mul, abs_of_pos hunit, sub_mul, div_mul_cancel₀ _ hunit.ne']
    _ ≤ 1 / 2 * b ^ (Int.log b x + 1 - d) := mul_le_mul_of_nonneg_right herror hunit.le
    _ ≤ b ^ (1 - d : ℤ) / 2 * x := by linarith

end Close

end TransportSystem.Library.Rounding
