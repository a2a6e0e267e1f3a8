import Mathlib.Data.Nat.Digits.Defs
import Mathlib.Data.Nat.Digits.Lemmas
import Mathlib.Tactic.Ring

/-!
# Decimal numbers and their JSON text

* `Decimal`: a decimal number in lowest terms, so that equal numbers are equal values; `ofParts`
  brings any digits and exponent to that form.
* `Decimal.toText`: the text ECMAScript writes for a number (plain, fractional or exponent form by
  the position of the point).
* `Numeral`: the reader of a JSON numeral, one character at a time.
* **`Numeral.read_toText`**: the text of a number reads back as that number.
-/

/-- A decimal number `± mant · 10 ^ exp`, in lowest terms. -/
@[ext] structure Decimal where
  neg : Bool
  mant : ℕ
  exp : ℤ
  zero : mant = 0 → neg = false ∧ exp = 0
  lowest : mant ≠ 0 → mant % 10 ≠ 0
deriving DecidableEq, Repr

namespace Decimal

/-! ## Lowest terms -/

/-- Strip trailing zeros, at most `fuel` of them. -/
def strip : ℕ → ℕ → ℤ → ℕ × ℤ
  | 0, m, e => (m, e)
  | fuel + 1, m, e => if m % 10 = 0 then strip fuel (m / 10) (e + 1) else (m, e)

theorem strip_ne_zero : ∀ (fuel m : ℕ) (e : ℤ), m ≠ 0 → (strip fuel m e).1 ≠ 0
  | 0, _, _, h => h
  | fuel + 1, m, e, h => by
    unfold strip
    split_ifs with h10
    · exact strip_ne_zero fuel _ _ (by omega)
    · exact h

theorem strip_lowest : ∀ (fuel m : ℕ) (e : ℤ), m ≠ 0 → m ≤ fuel → (strip fuel m e).1 % 10 ≠ 0
  | 0, m, _, h, hf => absurd (Nat.le_zero.mp hf) h
  | fuel + 1, m, e, h, hf => by
    unfold strip
    split_ifs with h10
    · exact strip_lowest fuel _ _ (by omega) (by omega)
    · exact h10

theorem strip_fuel : ∀ (f g m : ℕ) (e : ℤ), m ≠ 0 → m ≤ f → m ≤ g → strip f m e = strip g m e
  | 0, _, m, _, h, hf, _ => absurd (Nat.le_zero.mp hf) h
  | _, 0, m, _, h, _, hg => absurd (Nat.le_zero.mp hg) h
  | f + 1, g + 1, m, e, h, hf, hg => by
    unfold strip
    split_ifs with h10
    · exact strip_fuel f g _ _ (by omega) (by omega) (by omega)
    · rfl

/-- The number with digits `m` and exponent `e`. -/
def ofParts (neg : Bool) (m : ℕ) (e : ℤ) : Decimal :=
  if h : m = 0 then ⟨false, 0, 0, fun _ => ⟨rfl, rfl⟩, fun h0 => absurd rfl h0⟩
  else ⟨neg, (strip m m e).1, (strip m m e).2, fun h0 => absurd h0 (strip_ne_zero m m e h),
    fun _ => strip_lowest m m e h le_rfl⟩

/-- The number zero. -/
def nought : Decimal := ofParts false 0 0

/-- The number of a natural number. -/
def ofNat (n : ℕ) : Decimal := ofParts false n 0

/-- The number as a multiple of `10 ^ e`, for an `e` that is not above its exponent. -/
def scaled (d : Decimal) (e : ℤ) : ℤ :=
  (if d.neg then -1 else 1) * ((d.mant * 10 ^ (d.exp - e).toNat : ℕ) : ℤ)

/-- The first number is less than the second. -/
def less (a b : Decimal) : Bool := a.scaled (min a.exp b.exp) < b.scaled (min a.exp b.exp)

theorem ofParts_ten (neg : Bool) (m : ℕ) (e : ℤ) :
    ofParts neg (m * 10) (e - 1) = ofParts neg m e := by
  unfold ofParts
  by_cases hm : m = 0
  · rw [dif_pos hm, dif_pos (by omega)]
  · have h : strip (m * 10) (m * 10) (e - 1) = strip m m e := by
      conv_lhs => rw [show m * 10 = (m * 10 - 1) + 1 by omega]
      rw [strip, if_pos (by omega), show ((m * 10 - 1) + 1) / 10 = m by omega,
        show e - 1 + 1 = e by ring]
      exact strip_fuel _ _ _ _ hm (by omega) le_rfl
    rw [dif_neg hm, dif_neg (by omega)]
    ext <;> simp only [h]

/-- **Trailing zeros may be traded for the exponent.** -/
theorem ofParts_shift (neg : Bool) (m j : ℕ) (e : ℤ) :
    ofParts neg (m * 10 ^ j) (e - j) = ofParts neg m e := by
  induction j with
  | zero => simp
  | succ j ih =>
    rw [pow_succ, ← Nat.mul_assoc, show e - ((j + 1 : ℕ) : ℤ) = (e - j) - 1 by push_cast; ring,
      ofParts_ten, ih]

theorem ofParts_self (d : Decimal) : ofParts d.neg d.mant d.exp = d := by
  unfold ofParts
  by_cases hm : d.mant = 0
  · rw [dif_pos hm]
    obtain ⟨h1, h2⟩ := d.zero hm
    ext <;> simp [h1, h2, hm]
  · have h : strip d.mant d.mant d.exp = (d.mant, d.exp) := by
      conv_lhs => rw [show d.mant = (d.mant - 1) + 1 by omega]
      rw [strip, if_neg (by rw [show d.mant - 1 + 1 = d.mant by omega]; exact d.lowest hm),
        show d.mant - 1 + 1 = d.mant by omega]
    rw [dif_neg hm]
    ext <;> simp only [h]

/-- The natural number a decimal is, if it is one. -/
def toNat? (d : Decimal) : Option ℕ :=
  if d.neg = false ∧ 0 ≤ d.exp then some (d.mant * 10 ^ d.exp.toNat) else none

theorem strip_mul_pow : ∀ (fuel m k : ℕ), m ≠ 0 → ∃ j : ℕ,
    (strip fuel m k).2 = ((k + j : ℕ) : ℤ) ∧ (strip fuel m k).1 * 10 ^ j = m
  | 0, m, k, _ => ⟨0, by simp [strip]⟩
  | fuel + 1, m, k, h => by
    rw [strip]
    split_ifs with h10
    · obtain ⟨j, h1, h2⟩ := strip_mul_pow fuel (m / 10) (k + 1) (by omega)
      refine ⟨j + 1, ?_, ?_⟩
      · rw [← Nat.cast_succ, h1]; push_cast; ring
      · rw [← Nat.cast_succ, pow_succ, ← Nat.mul_assoc, h2]; omega
    · exact ⟨0, by simp⟩

@[simp] theorem toNat?_ofNat (n : ℕ) : toNat? (ofNat n) = some n := by
  unfold ofNat ofParts
  by_cases hn : n = 0
  · rw [dif_pos hn]; simp [toNat?, hn]
  · rw [dif_neg hn]
    obtain ⟨j, h1, h2⟩ := strip_mul_pow n n 0 hn
    simp only [Nat.cast_zero, Nat.zero_add] at h1 h2
    simp only [toNat?, h1, h2, Nat.cast_nonneg, and_self, if_true, Int.toNat_natCast]

/-! ## Text -/

/-- The character of a digit. -/
def digitChar (d : ℕ) : Char := Char.ofNat (48 + d)

/-- The decimal digits of a positive number, most significant first. -/
def digits (m : ℕ) : List ℕ := (Nat.digits 10 m).reverse

/-- The text of a natural number. -/
def natText (n : ℕ) : List Char := if n = 0 then ['0'] else (digits n).map digitChar

/-- The text of a positive number with digits `ds` and exponent `e`: `n` is where the point goes. -/
def bodyText (ds : List ℕ) (e : ℤ) : List Char :=
  let n := ds.length + e
  if (ds.length : ℤ) ≤ n ∧ n ≤ 21 then ds.map digitChar ++ List.replicate e.toNat '0'
  else if 0 < n ∧ n ≤ 21 then
    (ds.take n.toNat).map digitChar ++ '.' :: (ds.drop n.toNat).map digitChar
  else if -6 < n ∧ n ≤ 0 then
    '0' :: '.' :: (List.replicate (-n).toNat '0' ++ ds.map digitChar)
  else
    (ds.take 1).map digitChar ++ (if ds.length = 1 then [] else '.' :: (ds.drop 1).map digitChar) ++
      'e' :: (if 0 ≤ n - 1 then '+' else '-') :: natText (n - 1).natAbs

/-- The text of a number. -/
def toText (d : Decimal) : List Char :=
  if d.mant = 0 then ['0'] else (if d.neg then ['-'] else []) ++ bodyText (digits d.mant) d.exp

/-- The number a list of digits spells, after `a`. -/
def spell (a : ℕ) (ds : List ℕ) : ℕ := ds.foldl (fun a d => a * 10 + d) a

@[simp] theorem spell_nil (a : ℕ) : spell a [] = a := rfl
@[simp] theorem spell_cons (a d : ℕ) (ds : List ℕ) : spell a (d :: ds) = spell (a * 10 + d) ds := rfl

theorem spell_append (a : ℕ) (xs ys : List ℕ) : spell a (xs ++ ys) = spell (spell a xs) ys :=
  List.foldl_append

theorem spell_replicate_zero (a n : ℕ) : spell a (List.replicate n 0) = a * 10 ^ n := by
  induction n generalizing a with
  | zero => simp
  | succ n ih => rw [List.replicate_succ, spell_cons, ih, pow_succ]; ring

theorem spell_reverse (ds : List ℕ) : spell 0 ds.reverse = Nat.ofDigits 10 ds := by
  induction ds with
  | nil => rfl
  | cons d ds ih =>
    rw [List.reverse_cons, spell_append, ih, spell_cons, spell_nil, Nat.ofDigits_cons]
    ring

theorem spell_digits (m : ℕ) : spell 0 (digits m) = m := by
  rw [digits, spell_reverse, Nat.ofDigits_digits]

theorem digits_lt {m d : ℕ} (h : d ∈ digits m) : d < 10 :=
  Nat.digits_lt_base (by norm_num) (List.mem_reverse.mp h)

/-- The digits of a positive number start with one that is not zero. -/
theorem digits_eq_cons {m : ℕ} (h : m ≠ 0) : ∃ d ds, digits m = d :: ds ∧ d ≠ 0 ∧ d < 10 := by
  have hne : digits m ≠ [] := by simpa [digits] using Nat.digits_ne_nil_iff_ne_zero.mpr h
  obtain ⟨d, ds, hd⟩ := List.exists_cons_of_ne_nil hne
  refine ⟨d, ds, hd, ?_, digits_lt (hd ▸ List.mem_cons_self)⟩
  have hl := Nat.getLast_digit_ne_zero 10 h
  have hlast : (Nat.digits 10 m).getLast (Nat.digits_ne_nil_iff_ne_zero.mpr h) = d := by
    have : Nat.digits 10 m = ds.reverse ++ [d] := by
      rw [← List.reverse_reverse (Nat.digits 10 m)]
      change (digits m).reverse = _
      rw [hd, List.reverse_cons]
    simp only [this, List.getLast_append_singleton]
  rwa [hlast] at hl

theorem digitChar_zero : digitChar 0 = '0' := by decide

theorem digitChar_toNat_sub : ∀ d < 10, (digitChar d).toNat - 48 = d := by decide

theorem digitChar_isDigit : ∀ d < 10, (digitChar d).isDigit = true := by decide

theorem digitChar_eq_zero_iff : ∀ d < 10, (digitChar d = '0') = (d = 0) := by decide

end Decimal

/-! ## Reading a numeral -/

/-- Which part of a numeral has been read. -/
inductive NumeralPhase where
  | begin | minus | zero | int | point | frac | e | sign | exp
deriving DecidableEq, Repr

/-- A numeral read in part: its sign, digits, digits after the point, and exponent. -/
structure Numeral where
  phase : NumeralPhase := .begin
  neg : Bool := false
  mant : ℕ := 0
  frac : ℕ := 0
  eneg : Bool := false
  exp : ℕ := 0
deriving DecidableEq, Repr

namespace Numeral

open Decimal

/-- The first digit of the integer part: a leading `0` ends it. -/
def leadDigit (n : Numeral) (c : Char) : Option Numeral :=
  if c = '0' then some { n with phase := .zero }
  else if c.isDigit then some { n with phase := .int, mant := c.toNat - 48 }
  else none

/-- What may follow a complete integer part. -/
def afterInt (n : Numeral) (c : Char) : Option Numeral :=
  if c = '.' then some { n with phase := .point }
  else if c = 'e' ∨ c = 'E' then some { n with phase := .e }
  else none

/-- One digit of the fraction. -/
def fracDigit (n : Numeral) (c : Char) : Option Numeral :=
  if c.isDigit then
    some { n with phase := .frac, mant := n.mant * 10 + (c.toNat - 48), frac := n.frac + 1 }
  else none

/-- One digit of the exponent. -/
def expDigit (n : Numeral) (c : Char) : Option Numeral :=
  if c.isDigit then some { n with phase := .exp, exp := n.exp * 10 + (c.toNat - 48) } else none

/-- One character of a numeral, or none when the numeral does not go on with it. -/
def step (n : Numeral) (c : Char) : Option Numeral :=
  match n.phase with
  | .begin => if c = '-' then some { n with phase := .minus, neg := true } else n.leadDigit c
  | .minus => n.leadDigit c
  | .zero => n.afterInt c
  | .int =>
    if c.isDigit then some { n with mant := n.mant * 10 + (c.toNat - 48) } else n.afterInt c
  | .point => n.fracDigit c
  | .frac =>
    if c.isDigit then n.fracDigit c
    else if c = 'e' ∨ c = 'E' then some { n with phase := .e } else none
  | .e =>
    if c = '+' then some { n with phase := .sign }
    else if c = '-' then some { n with phase := .sign, eneg := true } else n.expDigit c
  | .sign => n.expDigit c
  | .exp => n.expDigit c

/-- The characters of a text, one after the other. -/
def read (n : Numeral) : List Char → Option Numeral
  | [] => some n
  | c :: t => (n.step c).bind fun n' => n'.read t

theorem step_char {n n' : Numeral} {c : Char} (h : n.step c = some n') :
    c.isDigit = true ∨ c ∈ ['-', '+', '.', 'e', 'E'] := by
  by_contra hc
  simp only [List.mem_cons, List.not_mem_nil, or_false, not_or, Bool.not_eq_true] at hc
  obtain ⟨hd, h1, h2, h3, h4, h5⟩ := hc
  have h0 : c ≠ '0' := by
    rintro rfl
    exact absurd hd (by decide)
  cases hp : n.phase <;>
    simp [step, hp, leadDigit, afterInt, fracDigit, expDigit, hd, h0, h1, h2, h3, h4, h5] at h

/-- Whether the numeral may end here. -/
def complete (n : Numeral) : Bool :=
  match n.phase with
  | .zero | .int | .frac | .exp => true
  | _ => false

/-- The number of a numeral. -/
def value (n : Numeral) : Decimal :=
  ofParts n.neg n.mant ((if n.eneg then -(n.exp : ℤ) else n.exp) - n.frac)

theorem read_append (n : Numeral) (s t : List Char) :
    n.read (s ++ t) = (n.read s).bind fun n' => n'.read t := by
  induction s generalizing n with
  | nil => rfl
  | cons c s ih =>
    rw [List.cons_append, read, read]
    cases n.step c with
    | none => rfl
    | some n' => exact ih n'

theorem read_int {n : Numeral} (hn : n.phase = .int) {ds : List ℕ} (hd : ∀ d ∈ ds, d < 10) :
    n.read (ds.map digitChar) = some { n with mant := spell n.mant ds } := by
  induction ds generalizing n with
  | nil => rfl
  | cons d ds ih =>
    have h := hd d List.mem_cons_self
    rw [List.map_cons, read, step, hn]
    simp only [digitChar_isDigit d h, if_true, digitChar_toNat_sub d h, Option.bind_some]
    rw [ih rfl fun x hx => hd x (List.mem_cons_of_mem _ hx)]
    simp only [spell_cons]

theorem read_frac {n : Numeral} (hn : n.phase = .frac) {ds : List ℕ} (hd : ∀ d ∈ ds, d < 10) :
    n.read (ds.map digitChar) =
      some { n with mant := spell n.mant ds, frac := n.frac + ds.length } := by
  induction ds generalizing n with
  | nil => rfl
  | cons d ds ih =>
    have h := hd d List.mem_cons_self
    rw [List.map_cons, read, step, hn]
    simp only [fracDigit, digitChar_isDigit d h, if_true, digitChar_toNat_sub d h, Option.bind_some]
    rw [ih rfl fun x hx => hd x (List.mem_cons_of_mem _ hx)]
    simp only [spell_cons, List.length_cons, Nat.add_assoc, Nat.add_comm 1]

theorem read_exp {n : Numeral} (hn : n.phase = .exp) {ds : List ℕ} (hd : ∀ d ∈ ds, d < 10) :
    n.read (ds.map digitChar) = some { n with exp := spell n.exp ds } := by
  induction ds generalizing n with
  | nil => rfl
  | cons d ds ih =>
    have h := hd d List.mem_cons_self
    rw [List.map_cons, read, step, hn]
    simp only [expDigit, digitChar_isDigit d h, if_true, digitChar_toNat_sub d h, Option.bind_some]
    rw [ih rfl fun x hx => hd x (List.mem_cons_of_mem _ hx)]
    simp only [spell_cons]

/-- Before the integer part: at the start of the numeral or after its sign. -/
def Leading (n : Numeral) : Prop := (n.phase = .begin ∨ n.phase = .minus) ∧ n.mant = 0

theorem step_lead {n : Numeral} (hn : n.Leading) {d : ℕ} (h0 : d ≠ 0) (hd : d < 10) :
    n.step (digitChar d) = some { n with phase := .int, mant := d } := by
  have h1 : digitChar d ≠ '0' := fun e => h0 ((digitChar_eq_zero_iff d hd).mp e)
  have h2 : digitChar d ≠ '-' := fun e => by
    have := digitChar_isDigit d hd
    rw [e] at this
    exact absurd this (by decide)
  rcases hn.1 with hp | hp
  · simp only [step, hp, if_neg h2, leadDigit, if_neg h1, digitChar_isDigit d hd, if_true,
      digitChar_toNat_sub d hd]
  · simp only [step, hp, leadDigit, if_neg h1, digitChar_isDigit d hd, if_true,
      digitChar_toNat_sub d hd]

theorem step_lead_zero {n : Numeral} (hn : n.Leading) : n.step '0' = some { n with phase := .zero } := by
  rcases hn.1 with hp | hp <;> simp [step, hp, leadDigit]

theorem read_lead {n : Numeral} (hn : n.Leading) {d : ℕ} {ds : List ℕ} (h0 : d ≠ 0)
    (hd : ∀ x ∈ d :: ds, x < 10) :
    n.read ((d :: ds).map digitChar) = some { n with phase := .int, mant := spell 0 (d :: ds) } := by
  rw [List.map_cons, read, step_lead hn h0 (hd d List.mem_cons_self), Option.bind_some,
    read_int rfl fun x hx => hd x (List.mem_cons_of_mem _ hx)]
  simp

theorem read_point {n : Numeral} (hn : n.phase = .int ∨ n.phase = .zero) {ds : List ℕ}
    (hne : ds ≠ []) (hd : ∀ d ∈ ds, d < 10) :
    n.read ('.' :: ds.map digitChar) =
      some { n with phase := .frac, mant := spell n.mant ds, frac := n.frac + ds.length } := by
  obtain ⟨d, ds, rfl⟩ := List.exists_cons_of_ne_nil hne
  have h := hd d List.mem_cons_self
  have hp : n.step '.' = some { n with phase := .point } := by
    rcases hn with hn | hn <;> simp [step, hn, afterInt, show Char.isDigit '.' = false by decide]
  rw [read, hp, Option.bind_some, List.map_cons, read]
  simp only [step, fracDigit, digitChar_isDigit d h, if_true, digitChar_toNat_sub d h,
    Option.bind_some]
  rw [read_frac rfl fun x hx => hd x (List.mem_cons_of_mem _ hx)]
  simp only [spell_cons, List.length_cons, Nat.add_assoc, Nat.add_comm 1]

theorem read_exponent {n : Numeral} (hn : n.phase = .int ∨ n.phase = .frac) (hx : n.exp = 0)
    (hneg : n.eneg = false) (pos : Bool) (k : ℕ) :
    n.read ('e' :: (if pos then '+' else '-') :: natText k) =
      some { n with phase := .exp, eneg := !pos, exp := k } := by
  have h1 : n.step 'e' = some { n with phase := .e } := by
    rcases hn with hn | hn <;> simp [step, hn, afterInt, show Char.isDigit 'e' = false by decide]
  have h2 : ({ n with phase := .e } : Numeral).step (if pos then '+' else '-') =
      some { n with phase := .sign, eneg := !pos } := by
    cases pos <;> simp [step, hneg]
  rw [read, h1, Option.bind_some, read, h2, Option.bind_some]
  unfold natText
  by_cases hk : k = 0
  · simp [hk, read, step, expDigit, show Char.isDigit '0' = true by decide, hx]
  · obtain ⟨d, ds, hds, -, hd⟩ := digits_eq_cons hk
    have hall : ∀ x ∈ d :: ds, x < 10 := fun x hx => digits_lt (hds ▸ hx)
    have hs := spell_digits k
    rw [if_neg hk, hds, List.map_cons, read]
    simp only [step, expDigit, digitChar_isDigit d hd, if_true, digitChar_toNat_sub d hd, hx,
      Option.bind_some]
    rw [read_exp rfl fun x hx => hall x (List.mem_cons_of_mem _ hx)]
    rw [hds] at hs
    simpa using hs

theorem read_bodyText {n : Numeral} (hn : n.Leading) (hf : n.frac = 0) (he : n.eneg = false)
    (hx : n.exp = 0) {m : ℕ} (hm : m ≠ 0) (e : ℤ) :
    ∃ r, n.read (bodyText (digits m) e) = some r ∧ r.complete = true ∧
      r.value = ofParts n.neg m e := by
  obtain ⟨d, ds, hds, h0, hd⟩ := digits_eq_cons hm
  have hall : ∀ x ∈ d :: ds, x < 10 := fun x hx => digits_lt (hds ▸ hx)
  have hs : spell 0 (d :: ds) = m := hds ▸ spell_digits m
  rw [hds]
  unfold bodyText
  dsimp only
  have hlen : (d :: ds).length = ds.length + 1 := rfl
  generalize hN : ((d :: ds).length : ℤ) + e = N
  by_cases c1 : ((d :: ds).length : ℤ) ≤ N ∧ N ≤ 21
  · -- an integer: the exponent is spelled as zeros
    rw [if_pos c1]
    refine ⟨{ n with phase := .int, mant := m * 10 ^ e.toNat }, ?_, rfl, ?_⟩
    · rw [read_append, read_lead hn h0 hall, Option.bind_some, hs, ← digitChar_zero,
        ← List.map_replicate, read_int rfl (by simp +contextual), spell_replicate_zero]
    · have hv := ofParts_shift n.neg m e.toNat e
      rw [Int.toNat_of_nonneg (by omega), sub_self] at hv
      simpa [value, he, hx, hf] using hv
  rw [if_neg c1]
  by_cases c2 : 0 < N ∧ N ≤ 21
  · -- the point falls inside the digits
    rw [if_pos c2]
    obtain ⟨k, hk⟩ : ∃ k, N.toNat = k + 1 := ⟨N.toNat - 1, by omega⟩
    refine ⟨{ n with phase := .frac, mant := m, frac := (ds.drop k).length }, ?_, rfl, ?_⟩
    · rw [hk, read_append, List.take_succ_cons, List.drop_succ_cons,
        read_lead hn h0 (fun x hx => hall x (by
          rcases List.mem_cons.mp hx with rfl | hx
          · exact List.mem_cons_self
          · exact List.mem_cons_of_mem _ (List.mem_of_mem_take hx))),
        Option.bind_some, read_point (Or.inl rfl) (by
          rw [ne_eq, List.drop_eq_nil_iff]; omega)
          (fun x hx => hall x (List.mem_cons_of_mem _ (List.mem_of_mem_drop hx)))]
      dsimp only
      rw [← spell_append, List.cons_append, List.take_append_drop, hs, hf, Nat.zero_add]
    · simp only [value, he, hx, Bool.false_eq_true, if_false, Nat.cast_zero, zero_sub]
      congr 1
      rw [List.length_drop]
      omega
  rw [if_neg c2]
  by_cases c3 : -6 < N ∧ N ≤ 0
  · -- a fraction below one
    rw [if_pos c3]
    refine ⟨{ n with phase := .frac, mant := m, frac := (-N).toNat + (d :: ds).length }, ?_, rfl, ?_⟩
    · rw [read, step_lead_zero hn, Option.bind_some, ← digitChar_zero, ← List.map_replicate,
        ← List.map_append, read_point (Or.inr rfl) (by simp) (fun x hx => by
          rcases List.mem_append.mp hx with hx | hx
          · rw [List.eq_of_mem_replicate hx]; norm_num
          · exact hall x hx)]
      simp only [spell_append, hn.2, spell_replicate_zero, Nat.zero_mul, hs, hf, Nat.zero_add,
        List.length_append, List.length_replicate]
    · simp only [value, he, hx, Bool.false_eq_true, if_false, Nat.cast_zero, zero_sub]
      congr 1
      omega
  -- exponent form
  rw [if_neg c3]
  have hone : n.read (((d :: ds).take 1).map digitChar) =
      some { n with phase := .int, mant := d } := by
    have := read_lead hn h0 (show ∀ x ∈ [d], x < 10 by simpa using hd)
    simpa using this
  have hsign : (if 0 ≤ N - 1 then '+' else '-') = if decide (0 ≤ N - 1) then '+' else '-' := by
    simp only [decide_eq_true_eq]
  have habs : (if (!decide (0 ≤ N - 1)) = true then -((N - 1).natAbs : ℤ) else (N - 1).natAbs) =
      N - 1 := by
    by_cases h : 0 ≤ N - 1
    · simp only [h, decide_true, Bool.not_true, Bool.false_eq_true, if_false]; omega
    · simp only [h, decide_false, Bool.not_false, if_true]; omega
  rw [hsign, List.append_assoc, read_append, hone, Option.bind_some]
  by_cases hl : (d :: ds).length = 1
  · rw [if_pos hl, List.nil_append,
      read_exponent (n := { n with phase := .int, mant := d }) (Or.inl rfl) hx he]
    obtain rfl : ds = [] := List.length_eq_zero_iff.mp (by omega)
    refine ⟨_, rfl, rfl, ?_⟩
    simp only [spell_cons, Nat.zero_mul, Nat.zero_add, spell_nil] at hs
    simp only [value, habs, hf, Nat.cast_zero, sub_zero, hs]
    congr 1
    omega
  · have hne : ds ≠ [] := fun e => hl (by rw [e]; rfl)
    rw [if_neg hl, List.cons_append, List.drop_succ_cons, List.drop_zero, ← List.cons_append,
      read_append,
      read_point (Or.inl rfl) hne (fun x hx => hall x (List.mem_cons_of_mem _ hx)),
      Option.bind_some,
      read_exponent (n := { n with phase := .frac, mant := spell d ds, frac := n.frac + ds.length })
        (Or.inr rfl) hx he]
    refine ⟨_, rfl, rfl, ?_⟩
    simp only [spell_cons, Nat.zero_mul, Nat.zero_add] at hs
    simp only [value, habs, hf, Nat.zero_add, hs]
    congr 1
    omega

/-- **The text of a number reads back as that number.** -/
theorem read_toText (d : Decimal) :
    ∃ r, ({} : Numeral).read d.toText = some r ∧ r.complete = true ∧ r.value = d := by
  unfold toText
  by_cases hm : d.mant = 0
  · obtain ⟨h1, h2⟩ := d.zero hm
    refine ⟨{ phase := .zero }, ?_, rfl, ?_⟩
    · rw [if_pos hm]; rfl
    · rw [← ofParts_self d, h1, h2, hm]; rfl
  · rw [if_neg hm]
    cases hneg : d.neg
    · obtain ⟨r, h1, h2, h3⟩ := read_bodyText (n := {}) ⟨Or.inl rfl, rfl⟩ rfl rfl rfl hm d.exp
      refine ⟨r, by simpa using h1, h2, ?_⟩
      rw [h3, ← hneg, ofParts_self]
    · obtain ⟨r, h1, h2, h3⟩ := read_bodyText (n := { phase := .minus, neg := true })
        ⟨Or.inr rfl, rfl⟩ rfl rfl rfl hm d.exp
      refine ⟨r, ?_, h2, ?_⟩
      · rw [if_pos rfl, List.singleton_append, read]
        simpa [step] using h1
      · rw [h3, ← hneg, ofParts_self]

end Numeral
