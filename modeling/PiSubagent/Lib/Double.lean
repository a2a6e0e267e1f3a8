import PiSubagent.Lib.Decimal
import Mathlib.Data.Int.Log
import Mathlib.Data.Rat.Floor
import Mathlib.Algebra.Order.Floor.Semiring
import Mathlib.Tactic.FieldSimp
import Mathlib.Tactic.Linarith
import Mathlib.Tactic.NormNum
import Mathlib.Tactic.Positivity

/-!
# Double-precision numbers and their decimal form

* `Double`: a finite number of IEEE 754 binary64; `-0` is one of them.
* `Double.round`: the double nearest to a rational, ties to even, if it is in range.
* `Double.rounded`: what addition, subtraction, multiplication and division make of the exact result;
  it keeps the order (**`Double.rounded_mono`**) and the size (**`Double.rounded_error`**).
* `Double.Within`: a number up to so many roundings (**`Double.Within.rounded`**).
* `Double.toDecimal`: the shortest decimal that rounds to a double, as ECMAScript writes it.
* **`Double.ofDecimal_toDecimal`**: the decimal of a double reads back as that double, but `-0` as
  `0`.
-/

/-- A finite double `± mant · 2 ^ exp`; a number below `2 ^ -1022` has the least exponent. -/
@[ext] structure Double where
  neg : Bool
  mant : ℕ
  exp : ℤ
  digits : mant < 2 ^ 53
  least : -1074 ≤ exp
  most : exp ≤ 971
  normal : exp ≠ -1074 → 2 ^ 52 ≤ mant
deriving DecidableEq, Repr

namespace Double

/-- The number `0`. -/
def zero : Double where
  neg := false
  mant := 0
  exp := -1074
  digits := by norm_num
  least := le_rfl
  most := by norm_num
  normal h := absurd rfl h

/-- The number `-0`. -/
def negZero : Double := { zero with neg := true }

/-- The absolute value. -/
def abs (x : Double) : ℚ := x.mant * 2 ^ x.exp

/-- `-0` is `0`. -/
def posZero (x : Double) : Double := if x = negZero then zero else x

/-! ## Rounding -/

/-- The nearest natural number; the even one of two. -/
def nearest (q : ℚ) : ℕ :=
  let f := ⌊q⌋₊
  if q - f < 1 / 2 ∨ q - f = 1 / 2 ∧ f % 2 = 0 then f else f + 1

/-- The exponent of the doubles around a number. -/
def unit (q : ℚ) : ℤ := max (-1074) (Int.log 2 q - 52)

theorem nearest_natCast (n : ℕ) : nearest n = n := by
  rw [nearest]
  simp only [Nat.floor_natCast, sub_self]
  rw [if_pos (.inl (by norm_num))]

theorem nearest_le {q : ℚ} {n : ℕ} (h0 : 0 ≤ q) (h : q < n) : nearest q ≤ n := by
  have hf : ⌊q⌋₊ < n := (Nat.floor_lt h0).mpr h
  unfold nearest
  dsimp only
  split
  · exact hf.le
  · exact hf

theorem le_nearest {q : ℚ} {n : ℕ} (h : (n : ℚ) ≤ q) : n ≤ nearest q := by
  have hf : n ≤ ⌊q⌋₊ := Nat.le_floor h
  unfold nearest
  dsimp only
  split
  · exact hf
  · exact hf.trans (Nat.le_succ _)

theorem two_zpow_pos (e : ℤ) : (0 : ℚ) < 2 ^ e := zpow_pos (by norm_num) e

theorem quotient_lt {q : ℚ} : q / 2 ^ unit q < (2 ^ 53 : ℕ) := by
  have hlog : q < 2 ^ (Int.log 2 q + 1) := by
    simpa using Int.lt_zpow_succ_log_self (b := 2) (by norm_num) q
  have hle : (2 : ℚ) ^ (Int.log 2 q + 1) ≤ 2 ^ (unit q + 53) :=
    zpow_le_zpow_right₀ (by norm_num) (by unfold unit; omega)
  rw [div_lt_iff₀ (two_zpow_pos _)]
  refine (hlog.trans_le hle).trans_eq ?_
  rw [zpow_add₀ (by norm_num), mul_comm]
  norm_num

theorem le_quotient {q : ℚ} (h : 0 < q) (hu : unit q ≠ -1074) :
    ((2 ^ 52 : ℕ) : ℚ) ≤ q / 2 ^ unit q := by
  have hlog : (2 : ℚ) ^ Int.log 2 q ≤ q := by
    simpa using Int.zpow_log_le_self (b := 2) (by norm_num) h
  have hle : (2 : ℚ) ^ (unit q + 52) ≤ 2 ^ Int.log 2 q :=
    zpow_le_zpow_right₀ (by norm_num) (by unfold unit at hu ⊢; omega)
  rw [le_div_iff₀ (two_zpow_pos _)]
  refine Eq.trans_le ?_ (hle.trans hlog)
  rw [zpow_add₀ (by norm_num), mul_comm]
  norm_num

/-- The double nearest to a number that is not negative; none where it is out of range. -/
def round (neg : Bool) (q : ℚ) : Option Double :=
  if h0 : q ≤ 0 then some { zero with neg := neg }
  else if h : nearest (q / 2 ^ unit q) < 2 ^ 53 then
    if hmost : unit q ≤ 971 then
      some ⟨neg, nearest (q / 2 ^ unit q), unit q, h, le_max_left _ _, hmost,
        fun hu => le_nearest (le_quotient (not_le.mp h0) hu)⟩
    else none
  -- the number is rounded up to a power of two
  else if hmost : unit q + 1 ≤ 971 then
    some ⟨neg, 2 ^ 52, unit q + 1, by norm_num, (le_max_left _ _).trans (Int.le_add_one le_rfl),
      hmost, fun _ => le_rfl⟩
  else none

theorem round_isSome (neg : Bool) {q : ℚ} (h : q < 2 ^ 1023) : (round neg q).isSome := by
  by_cases h0 : q ≤ 0
  · rw [round, dif_pos h0]
    rfl
  · have hlog : Int.log 2 q < 1023 :=
      (Int.lt_zpow_iff_log_lt (by norm_num) (not_le.mp h0)).mp (by exact_mod_cast h)
    have hunit : unit q + 1 ≤ 971 := by
      rw [unit]
      omega
    rw [round, dif_neg h0]
    split_ifs
    · rfl
    · omega
    · rfl

theorem abs_pos {x : Double} (h : x.mant ≠ 0) : 0 < x.abs :=
  mul_pos (Nat.cast_pos.mpr (Nat.pos_of_ne_zero h)) (two_zpow_pos _)

theorem log_abs {x : Double} (h : x.mant ≠ 0) : Int.log 2 x.abs = Nat.log 2 x.mant + x.exp := by
  have hle : (2 : ℚ) ^ Nat.log 2 x.mant ≤ x.mant := by exact_mod_cast Nat.pow_log_le_self 2 h
  have hlt : (x.mant : ℚ) < 2 ^ (Nat.log 2 x.mant + 1) := by
    exact_mod_cast Nat.lt_pow_succ_log_self (by norm_num) x.mant
  have hpow := two_zpow_pos x.exp
  apply le_antisymm
  · rw [← Int.lt_add_one_iff, ← Int.lt_zpow_iff_log_lt (by norm_num) (abs_pos h), abs,
      add_right_comm, Nat.cast_two, zpow_add₀ (by norm_num)]
    exact mul_lt_mul_of_pos_right (by exact_mod_cast hlt) hpow
  · rw [← Int.zpow_le_iff_le_log (by norm_num) (abs_pos h), abs, Nat.cast_two,
      zpow_add₀ (by norm_num)]
    exact mul_le_mul_of_nonneg_right (by exact_mod_cast hle) hpow.le

theorem unit_abs {x : Double} (h : x.mant ≠ 0) : unit x.abs = x.exp := by
  have hlt : Nat.log 2 x.mant < 53 := Nat.log_lt_of_lt_pow h x.digits
  rw [unit, log_abs h]
  by_cases he : x.exp = -1074
  · omega
  · have hle : 52 ≤ Nat.log 2 x.mant := Nat.le_log_of_pow_le (by norm_num) (x.normal he)
    have := x.least
    omega

/-- **A double is the one nearest to itself.** -/
theorem round_abs (x : Double) : round x.neg x.abs = some x := by
  by_cases h : x.mant = 0
  · have he : x.exp = -1074 := by
      by_contra he
      have := x.normal he
      omega
    have hz : x.abs = 0 := by rw [abs, h, Nat.cast_zero, zero_mul]
    rw [round, dif_pos hz.le]
    congr 1
    ext
    · rfl
    · exact h.symm
    · exact he.symm
  · have hm : nearest (x.abs / 2 ^ unit x.abs) = x.mant := by
      rw [unit_abs h, abs, mul_div_cancel_right₀ _ (two_zpow_pos _).ne', nearest_natCast]
    have hdigits := x.digits
    have hmost := x.most
    rw [round, dif_neg (not_le.mpr (abs_pos h)), dif_pos (by rw [hm]; exact hdigits),
      dif_pos (by rw [unit_abs h]; exact hmost)]
    congr 1
    ext
    · rfl
    · exact hm
    · exact unit_abs h

/-! ## Arithmetic -/

/-- The value. -/
def value (x : Double) : ℚ := if x.neg then -x.abs else x.abs

/-- A number that is not negative, rounded. -/
def roundedAbs (q : ℚ) : ℚ := nearest (q / 2 ^ unit q) * 2 ^ unit q

/-- What an operation makes of its exact result, when that is in range. -/
def rounded (q : ℚ) : ℚ := if q < 0 then -roundedAbs (-q) else roundedAbs q

theorem abs_nonneg (x : Double) : 0 ≤ x.abs := mul_nonneg (Nat.cast_nonneg _) (two_zpow_pos _).le

theorem roundedAbs_nonneg (q : ℚ) : 0 ≤ roundedAbs q :=
  mul_nonneg (Nat.cast_nonneg _) (two_zpow_pos _).le

theorem rounded_of_nonneg {q : ℚ} (h : 0 ≤ q) : rounded q = roundedAbs q := if_neg (not_lt.mpr h)

/-- **The rounding is the nearest double**, where there is one. -/
theorem abs_round {neg : Bool} {q : ℚ} {x : Double} (hq : 0 < q) (h : round neg q = some x) :
    x.abs = rounded q := by
  rw [rounded_of_nonneg hq.le, roundedAbs]
  rw [round, dif_neg (not_le.mpr hq)] at h
  split_ifs at h with hdigits
  · cases h
    rfl
  · cases h
    have hle : nearest (q / 2 ^ unit q) ≤ 2 ^ 53 :=
      nearest_le (div_nonneg hq.le (two_zpow_pos _).le) quotient_lt
    rw [le_antisymm hle (not_lt.mp hdigits)]
    show ((2 ^ 52 : ℕ) : ℚ) * 2 ^ (unit q + 1) = _
    rw [zpow_add₀ (by norm_num)]
    push_cast
    ring

theorem rounded_nonneg {q : ℚ} (h : 0 ≤ q) : 0 ≤ rounded q := by
  rw [rounded_of_nonneg h]
  exact roundedAbs_nonneg q

theorem rounded_nonpos {q : ℚ} (h : q ≤ 0) : rounded q ≤ 0 := by
  unfold rounded
  split_ifs with hneg
  · exact neg_nonpos.mpr (roundedAbs_nonneg _)
  · have hzero : q = 0 := le_antisymm h (not_lt.mp hneg)
    rw [hzero]
    simp [roundedAbs, nearest]

theorem rounded_zero : rounded 0 = 0 := le_antisymm (rounded_nonpos le_rfl) (rounded_nonneg le_rfl)

theorem unit_mono {a b : ℚ} (ha : 0 < a) (h : a ≤ b) : unit a ≤ unit b :=
  max_le_max le_rfl (sub_le_sub_right (Int.log_mono_right ha h) 52)

theorem nearest_mono {a b : ℚ} (ha : 0 ≤ a) (h : a ≤ b) : nearest a ≤ nearest b := by
  have hfloor : ⌊a⌋₊ ≤ ⌊b⌋₊ := Nat.floor_mono h
  rcases hfloor.eq_or_lt with heq | hlt
  · unfold nearest
    rw [heq]
    dsimp only
    split_ifs with h1 h2 h2
    · exact le_rfl
    · exact Nat.le_succ _
    · refine absurd ?_ h1
      rcases h2 with h2 | ⟨h2, heven⟩
      · exact Or.inl (by linarith)
      · rcases h.eq_or_lt with rfl | hlt
        · exact Or.inr ⟨h2, heven⟩
        · exact Or.inl (by linarith)
    · exact le_rfl
  · have hnext : a < (⌊b⌋₊ : ℕ) := (Nat.floor_lt ha).mp hlt
    exact (nearest_le ha hnext).trans (le_nearest (Nat.floor_le (ha.trans h)))

/-- **Rounding keeps the order.** -/
theorem rounded_mono {a b : ℚ} (ha : 0 ≤ a) (h : a ≤ b) : rounded a ≤ rounded b := by
  rcases ha.eq_or_lt with rfl | hpos
  · rw [rounded_zero]
    exact rounded_nonneg h
  have hb := hpos.trans_le h
  rw [rounded_of_nonneg ha, rounded_of_nonneg hb.le, roundedAbs, roundedAbs]
  rcases (unit_mono hpos h).eq_or_lt with hunit | hunit
  · rw [hunit]
    refine mul_le_mul_of_nonneg_right ?_ (two_zpow_pos _).le
    exact_mod_cast nearest_mono (div_nonneg ha (two_zpow_pos _).le)
      (div_le_div_of_nonneg_right h (two_zpow_pos _).le)
  · -- a power of two lies between the two
    have hlow : nearest (a / 2 ^ unit a) ≤ 2 ^ 53 :=
      nearest_le (div_nonneg ha (two_zpow_pos _).le) quotient_lt
    have hleast : unit b ≠ -1074 := by
      have hle : -1074 ≤ unit a := le_max_left _ _
      omega
    have hhigh : 2 ^ 52 ≤ nearest (b / 2 ^ unit b) := le_nearest (le_quotient hb hleast)
    calc (nearest (a / 2 ^ unit a) : ℚ) * 2 ^ unit a ≤ (2 ^ 53 : ℕ) * 2 ^ unit a :=
          mul_le_mul_of_nonneg_right (by exact_mod_cast hlow) (two_zpow_pos _).le
      _ = (2 ^ 52 : ℕ) * 2 ^ (unit a + 1) := by
          rw [zpow_add₀ (by norm_num)]
          push_cast
          ring
      _ ≤ (2 ^ 52 : ℕ) * 2 ^ unit b :=
          mul_le_mul_of_nonneg_left (zpow_le_zpow_right₀ (by norm_num) (by omega)) (by positivity)
      _ ≤ nearest (b / 2 ^ unit b) * 2 ^ unit b :=
          mul_le_mul_of_nonneg_right (by exact_mod_cast hhigh) (two_zpow_pos _).le

theorem rounded_digits {n : ℕ} {e : ℤ} (hn : n < 2 ^ 53) (he : -1074 ≤ e) :
    rounded (n * 2 ^ e) = n * 2 ^ e := by
  rcases Nat.eq_zero_or_pos n with rfl | hpos
  · rw [Nat.cast_zero, zero_mul, rounded_zero]
  have hq : (0 : ℚ) < n * 2 ^ e := mul_pos (Nat.cast_pos.mpr hpos) (two_zpow_pos _)
  have hunit : unit ((n : ℚ) * 2 ^ e) ≤ e := by
    have hlt : (n : ℚ) * 2 ^ e < 2 ^ (e + 53) := by
      rw [add_comm, zpow_add₀ (by norm_num)]
      exact mul_lt_mul_of_pos_right (by exact_mod_cast hn) (two_zpow_pos _)
    have hlog : Int.log 2 ((n : ℚ) * 2 ^ e) < e + 53 :=
      (Int.lt_zpow_iff_log_lt (by norm_num) hq).mp (by simpa using hlt)
    unfold unit
    omega
  obtain ⟨k, hk⟩ := Int.le.dest hunit
  have hquotient : (n : ℚ) * 2 ^ e / 2 ^ unit ((n : ℚ) * 2 ^ e) = (n * 2 ^ k : ℕ) := by
    rw [div_eq_iff (two_zpow_pos _).ne']
    generalize unit ((n : ℚ) * 2 ^ e) = u at hk
    rw [← hk, zpow_add₀ (by norm_num), zpow_natCast]
    push_cast
    ring
  rw [rounded_of_nonneg hq.le, roundedAbs, hquotient, nearest_natCast, ← hquotient,
    div_mul_cancel₀ _ (two_zpow_pos _).ne']

theorem rounded_rounded {q : ℚ} (h : 0 ≤ q) : rounded (rounded q) = rounded q := by
  rw [rounded_of_nonneg h, roundedAbs]
  have hle : nearest (q / 2 ^ unit q) ≤ 2 ^ 53 :=
    nearest_le (div_nonneg h (two_zpow_pos _).le) quotient_lt
  have hleast : -1074 ≤ unit q := le_max_left _ _
  rcases hle.eq_or_lt with heq | hlt
  · have hpower : ((2 ^ 53 : ℕ) : ℚ) * 2 ^ unit q = (2 ^ 52 : ℕ) * 2 ^ (unit q + 1) := by
      rw [zpow_add₀ (by norm_num)]
      push_cast
      ring
    rw [heq, hpower]
    exact rounded_digits (by norm_num) (by omega)
  · exact rounded_digits hlt hleast

/-- **A double is not rounded.** -/
theorem rounded_value (x : Double) : rounded x.value = x.value := by
  have hmag : roundedAbs x.abs = x.abs := by
    rw [← rounded_of_nonneg x.abs_nonneg]
    exact rounded_digits x.digits x.least
  unfold value
  cases x.neg with
  | false =>
    rw [if_neg Bool.false_ne_true, rounded_of_nonneg x.abs_nonneg]
    exact hmag
  | true =>
    rw [if_pos rfl]
    rcases x.abs_nonneg.eq_or_lt with hzero | hpos
    · rw [← hzero, neg_zero, rounded_zero]
    · rw [rounded, if_pos (neg_neg_of_pos hpos), neg_neg, hmag]

theorem nearest_error {q : ℚ} (h : 0 ≤ q) : |(nearest q : ℚ) - q| ≤ 1 / 2 := by
  have hle := Nat.floor_le h
  have hlt := Nat.lt_floor_add_one q
  unfold nearest
  dsimp only
  split_ifs with hc
  · have hhalf : q - ⌊q⌋₊ ≤ 1 / 2 := hc.elim le_of_lt fun he => he.1.le
    rw [abs_le]
    constructor <;> linarith
  · have hhalf : 1 / 2 ≤ q - ⌊q⌋₊ := by
      by_contra hn
      exact hc (Or.inl (not_le.mp hn))
    push_cast
    rw [abs_le]
    constructor <;> linarith

/-- **A positive result is rounded by `2 ^ -53` of it at most**, or by half the least double. -/
theorem rounded_error {q : ℚ} (hq : 0 < q) :
    |rounded q - q| ≤ max (q / 2 ^ 53) (2 ^ (-1075 : ℤ)) := by
  have hunit := two_zpow_pos (unit q)
  have hhalf : 1 / 2 * (2 : ℚ) ^ unit q ≤ max (q / 2 ^ 53) (2 ^ (-1075 : ℤ)) := by
    by_cases hleast : unit q = -1074
    · rw [hleast]
      refine le_max_of_le_right (le_of_eq ?_)
      rw [show (-1074 : ℤ) = 1 + -1075 from rfl, zpow_add₀ (by norm_num), zpow_one, ← mul_assoc]
      norm_num
    · have hlog : (2 : ℚ) ^ Int.log 2 q ≤ q := by
        simpa using Int.zpow_log_le_self (b := 2) (by norm_num) hq
      have hexp : unit q + 52 = Int.log 2 q := by
        unfold unit at hleast ⊢
        omega
      refine le_max_of_le_left ?_
      calc 1 / 2 * (2 : ℚ) ^ unit q = 2 ^ (unit q + 52) / 2 ^ 53 := by
            rw [zpow_add₀ (by norm_num)]
            norm_num
            ring
        _ ≤ q / 2 ^ 53 := by
            rw [hexp]
            exact div_le_div_of_nonneg_right hlog (by positivity)
  have herror := nearest_error (div_nonneg hq.le hunit.le)
  have hsplit : (nearest (q / 2 ^ unit q) : ℚ) * 2 ^ unit q - q =
      (nearest (q / 2 ^ unit q) - q / 2 ^ unit q) * 2 ^ unit q := by
    rw [sub_mul, div_mul_cancel₀ _ hunit.ne']
  rw [rounded_of_nonneg hq.le, roundedAbs, hsplit, abs_mul, abs_of_pos hunit]
  exact (mul_le_mul_of_nonneg_right herror hunit.le).trans hhalf

/-- A result that is no subnormal is rounded by `2 ^ -53` of it at most. -/
theorem rounded_error_of_le {q : ℚ} (h : (2 : ℚ) ^ (-1022 : ℤ) ≤ q) : |rounded q - q| ≤ q / 2 ^ 53 := by
  refine (rounded_error ((two_zpow_pos _).trans_le h)).trans_eq (max_eq_left ?_)
  rw [le_div_iff₀ (by positivity)]
  refine le_trans (le_of_eq ?_) h
  rw [show (-1022 : ℤ) = -1075 + (53 : ℕ) from rfl, zpow_add₀ (by norm_num), zpow_natCast]

/-! ## Sums of roundings -/

/-- A multiple of the least double, as every double is one. -/
def Grid (q : ℚ) : Prop := ∃ m : ℤ, q = m * 2 ^ (-1074 : ℤ)

theorem Grid.add {a b : ℚ} (ha : Grid a) (hb : Grid b) : Grid (a + b) := by
  obtain ⟨m, rfl⟩ := ha
  obtain ⟨n, rfl⟩ := hb
  exact ⟨m + n, by rw [Int.cast_add, add_mul]⟩

theorem Grid.sub {a b : ℚ} (ha : Grid a) (hb : Grid b) : Grid (a - b) := by
  obtain ⟨m, rfl⟩ := ha
  obtain ⟨n, rfl⟩ := hb
  exact ⟨m - n, by rw [Int.cast_sub, sub_mul]⟩

theorem grid_zpow {e : ℤ} (n : ℕ) (he : -1074 ≤ e) : Grid (n * 2 ^ e) := by
  obtain ⟨k, rfl⟩ := Int.le.dest he
  refine ⟨n * 2 ^ k, ?_⟩
  rw [zpow_add₀ (by norm_num), zpow_natCast, mul_left_comm, mul_comm, Int.cast_mul, Int.cast_pow,
    Int.cast_natCast, Int.cast_ofNat]

theorem grid_natCast (n : ℕ) : Grid n := by
  have hgrid := grid_zpow n (e := 0) (by norm_num)
  rwa [zpow_zero, mul_one] at hgrid

theorem grid_rounded {q : ℚ} (h : 0 ≤ q) : Grid (rounded q) := by
  rw [rounded_of_nonneg h]
  exact grid_zpow _ (le_max_left _ _)

/-- Multiples of the least double are rounded by `2 ^ -53` of themselves at most. -/
theorem Grid.error {q : ℚ} (h : Grid q) (hq : 0 ≤ q) : |rounded q - q| ≤ q / 2 ^ 53 := by
  by_cases hsmall : q < 2 ^ (-1022 : ℤ)
  · -- a subnormal number is a double
    obtain ⟨m, rfl⟩ := h
    have hpow := two_zpow_pos (-1074)
    have hm : 0 ≤ m := by
      by_contra hneg
      have hlt : (m : ℚ) < 0 := by exact_mod_cast not_le.mp hneg
      exact absurd hq (not_le.mpr (mul_neg_of_neg_of_pos hlt hpow))
    obtain ⟨n, rfl⟩ := Int.eq_ofNat_of_zero_le hm
    have hn : n < 2 ^ 53 := by
      rw [show (-1022 : ℤ) = 52 + -1074 from rfl, zpow_add₀ (by norm_num)] at hsmall
      have hlt := lt_of_mul_lt_mul_right hsmall hpow.le
      have hlt' : n < 2 ^ 52 := by exact_mod_cast hlt
      omega
    have hexact : rounded ((n : ℤ) * 2 ^ (-1074 : ℤ)) = (n : ℤ) * 2 ^ (-1074 : ℤ) := by
      rw [Int.cast_natCast]
      exact rounded_digits hn le_rfl
    rw [hexact, sub_self, abs_zero]
    positivity
  · exact rounded_error_of_le (not_lt.mp hsmall)

/-- A number is that of so many roundings. -/
structure Within (n : ℕ) (exact found : ℚ) : Prop where
  nonneg : 0 ≤ exact
  lower : exact * (1 - 1 / 2 ^ 53) ^ n ≤ found
  upper : found ≤ exact * (1 + 1 / 2 ^ 53) ^ n

theorem Within.refl {q : ℚ} (h : 0 ≤ q) : Within 0 q q := by
  refine ⟨h, ?_, ?_⟩ <;> rw [pow_zero, mul_one]

theorem Within.zero (n : ℕ) : Within n 0 0 := by
  refine ⟨le_rfl, ?_, ?_⟩ <;> rw [zero_mul]

theorem Within.mono {n m : ℕ} {q r : ℚ} (h : Within n q r) (hnm : n ≤ m) : Within m q r := by
  refine ⟨h.nonneg, le_trans ?_ h.lower, h.upper.trans ?_⟩
  · exact mul_le_mul_of_nonneg_left
      (pow_le_pow_of_le_one (by norm_num) (by norm_num) hnm) h.nonneg
  · exact mul_le_mul_of_nonneg_left (pow_le_pow_right₀ (by norm_num) hnm) h.nonneg

theorem Within.found_nonneg {n : ℕ} {q r : ℚ} (h : Within n q r) : 0 ≤ r :=
  (mul_nonneg h.nonneg (pow_nonneg (by norm_num) n)).trans h.lower

theorem Within.add {n : ℕ} {q r x y : ℚ} (h : Within n q r) (h' : Within n x y) :
    Within n (q + x) (r + y) := by
  refine ⟨add_nonneg h.nonneg h'.nonneg, ?_, ?_⟩
  · rw [add_mul]
    exact add_le_add h.lower h'.lower
  · rw [add_mul]
    exact add_le_add h.upper h'.upper

/-- **One more rounding.** -/
theorem Within.rounded {n : ℕ} {q r : ℚ} (h : Within n q r) (hg : Grid r) :
    Within (n + 1) q (rounded r) := by
  have herror := abs_le.mp (hg.error h.found_nonneg)
  refine ⟨h.nonneg, ?_, ?_⟩
  · calc q * (1 - 1 / 2 ^ 53) ^ (n + 1) = q * (1 - 1 / 2 ^ 53) ^ n * (1 - 1 / 2 ^ 53) := by
          rw [pow_succ]
          ring
      _ ≤ r * (1 - 1 / 2 ^ 53) := mul_le_mul_of_nonneg_right h.lower (by norm_num)
      _ ≤ Double.rounded r := by linarith [herror.1]
  · calc Double.rounded r ≤ r * (1 + 1 / 2 ^ 53) := by linarith [herror.2]
      _ ≤ q * (1 + 1 / 2 ^ 53) ^ n * (1 + 1 / 2 ^ 53) :=
          mul_le_mul_of_nonneg_right h.upper (by norm_num)
      _ = q * (1 + 1 / 2 ^ 53) ^ (n + 1) := by
          rw [pow_succ]
          ring

example : rounded (rounded (3 / 10) + rounded (6 / 10)) < rounded (9 / 10) := by decide +kernel

end Double

/-! ## Decimals -/

/-- The absolute value of a decimal. -/
def Decimal.abs (d : Decimal) : ℚ := d.mant * 10 ^ d.exp

theorem Decimal.strip_value (fuel m : ℕ) (e : ℤ) :
    ((strip fuel m e).1 : ℚ) * 10 ^ (strip fuel m e).2 = m * 10 ^ e := by
  induction fuel generalizing m e with
  | zero => rfl
  | succ fuel ih =>
    rw [strip]
    split_ifs with h10
    · obtain ⟨n, rfl⟩ := Nat.dvd_of_mod_eq_zero h10
      rw [Nat.mul_div_cancel_left n (by norm_num), ih, zpow_add₀ (by norm_num)]
      push_cast
      ring
    · rfl

theorem Decimal.abs_ofParts (neg : Bool) (m : ℕ) (e : ℤ) :
    (Decimal.ofParts neg m e).abs = m * 10 ^ e := by
  unfold ofParts Decimal.abs
  by_cases h : m = 0
  · rw [dif_pos h, h]
    simp
  · rw [dif_neg h]
    exact strip_value m m e

theorem Decimal.neg_ofParts {neg : Bool} {m : ℕ} {e : ℤ} (h : m ≠ 0) :
    (Decimal.ofParts neg m e).neg = neg := by
  unfold ofParts
  rw [dif_neg h]

namespace Double

/-- The double a decimal is read as; none where it is out of range. -/
def ofDecimal (d : Decimal) : Option Double := round d.neg d.abs

/-- All digits of a double. -/
def exact (x : Double) : Decimal :=
  if 0 ≤ x.exp then Decimal.ofParts x.neg (x.mant * 2 ^ x.exp.toNat) 0
  else Decimal.ofParts x.neg (x.mant * 5 ^ (-x.exp).toNat) x.exp

/-- The two decimals with last place `e` around a number, the closer one first. -/
def around (neg : Bool) (q : ℚ) (e : ℤ) : List Decimal :=
  let s := ⌊q / 10 ^ e⌋₊
  if q / 10 ^ e - s ≤ 1 / 2 then [Decimal.ofParts neg s e, Decimal.ofParts neg (s + 1) e]
  else [Decimal.ofParts neg (s + 1) e, Decimal.ofParts neg s e]

/-- A decimal with the fewest digits that is read as a double; 17 digits are enough. -/
def shortest (x : Double) : Option Decimal :=
  (List.range 17).findSome? fun k : ℕ =>
    (around x.neg x.abs (Int.log 10 x.abs - k)).find? fun d => ofDecimal d = some x

/-- The number as ECMAScript writes it. -/
def toDecimal (x : Double) : Decimal :=
  if x.mant = 0 then Decimal.nought else x.shortest.getD x.exact

theorem abs_exact (x : Double) : x.exact.abs = x.abs := by
  unfold exact
  split_ifs with h
  · rw [Decimal.abs_ofParts, abs, zpow_zero, mul_one]
    push_cast
    rw [← zpow_natCast, Int.toNat_of_nonneg h]
  · rw [Decimal.abs_ofParts, abs]
    push_cast
    rw [← zpow_natCast, Int.toNat_of_nonneg (by omega), mul_assoc, zpow_neg, ← div_eq_inv_mul,
      ← div_zpow]
    norm_num

theorem ofDecimal_exact {x : Double} (h : x.mant ≠ 0) : ofDecimal x.exact = some x := by
  have hneg : x.exact.neg = x.neg := by
    unfold exact
    split_ifs
    · exact Decimal.neg_ofParts (by positivity)
    · exact Decimal.neg_ofParts (by positivity)
  rw [ofDecimal, hneg, abs_exact]
  exact round_abs x

theorem ofDecimal_shortest {x : Double} {d : Decimal} (h : x.shortest = some d) :
    ofDecimal d = some x := by
  obtain ⟨k, -, hk⟩ := List.exists_of_findSome?_eq_some h
  have hd := List.find?_some hk
  exact of_decide_eq_true hd

theorem posZero_of_mant {x : Double} (h : x.mant = 0) : x.posZero = zero := by
  have he : x.exp = -1074 := by
    by_contra he
    have := x.normal he
    omega
  unfold posZero
  split
  · rfl
  · rename_i hx
    cases hneg : x.neg with
    | false => exact Double.ext hneg h he
    | true => exact absurd (Double.ext hneg h he) hx

theorem posZero_posZero (x : Double) : x.posZero.posZero = x.posZero := by
  by_cases h : x = negZero
  · have hz : x.posZero = zero := if_pos h
    have hne : zero ≠ negZero := by decide
    rw [hz, posZero, if_neg hne]
  · have hx : x.posZero = x := if_neg h
    rw [hx, hx]

theorem toDecimal_posZero (x : Double) : x.posZero.toDecimal = x.toDecimal := by
  by_cases h : x.mant = 0
  · rw [posZero_of_mant h, toDecimal, toDecimal, if_pos h]
    exact if_pos rfl
  · rw [posZero, if_neg fun hx => h (by rw [hx]; rfl)]

/-- **The decimal of a double reads back** as that double, but `-0` as `0`. -/
theorem ofDecimal_toDecimal (x : Double) : ofDecimal x.toDecimal = some x.posZero := by
  by_cases h : x.mant = 0
  · rw [toDecimal, if_pos h, posZero_of_mant h, ofDecimal]
    exact dif_pos (by simp [Decimal.abs, Decimal.nought, Decimal.ofParts])
  · have hz : x.posZero = x := if_neg fun hx => h (by rw [hx]; rfl)
    rw [toDecimal, if_neg h, hz]
    cases hs : x.shortest with
    | none => exact ofDecimal_exact h
    | some d => exact ofDecimal_shortest hs

example : (toDecimal ⟨false, 3 * 2 ^ 51, -52, by norm_num, by norm_num, by norm_num, by norm_num⟩) =
    Decimal.ofParts false 15 (-1) := by decide +kernel

end Double
