import Mathlib.Data.List.Basic
import Mathlib.Tactic.Ring
import Mathlib.Tactic.SplitIfs

/-!
# UTF-8 text and its lossy decoder

* `encode`: the bytes of a text.
* `decode`: the decoder every input has an answer from. A byte that cannot continue the character
  being read yields one `U+FFFD` and is read again as a first byte (`step`, `leadByte`).
* **`decode_encode_append`**: well-formed bytes decode to their text, whatever follows them.
* **`decodeFrom_append_ascii`**: an ASCII byte ends whatever was being read, so decoding splits
  there; `newline_mem_decodeFrom`: a newline is decoded only from a newline byte.
-/

namespace Utf8

/-- The bytes of a text. -/
def encode (t : List Char) : List UInt8 := t.flatMap String.utf8EncodeChar

/-- What stands for bytes that are no character. -/
def replacement : Char := '\uFFFD'

/-- Where the decoder stands: between characters, or with `k + 1` bytes of a character owed, the
next of them between `lo` and `hi`, and the bits `cp` read so far. -/
inductive State where
  | start
  | more (k lo hi cp : ℕ)
deriving DecidableEq, Repr

/-- A byte read as the first byte of a character. -/
def leadByte (b : ℕ) : List Char × State :=
  if b ≤ 0x7F then ([Char.ofNat b], .start)
  else if b < 0xC2 then ([replacement], .start)
  else if b ≤ 0xDF then ([], .more 0 0x80 0xBF (b - 0xC0))
  else if b ≤ 0xEF then
    ([], .more 1 (if b = 0xE0 then 0xA0 else 0x80) (if b = 0xED then 0x9F else 0xBF) (b - 0xE0))
  else if b ≤ 0xF4 then
    ([], .more 2 (if b = 0xF0 then 0x90 else 0x80) (if b = 0xF4 then 0x8F else 0xBF) (b - 0xF0))
  else ([replacement], .start)

/-- One byte: the characters it completes, and the state after it. -/
def step : State → UInt8 → List Char × State
  | .start, b => leadByte b.toNat
  | .more k lo hi cp, b =>
    if 0x80 ≤ b.toNat ∧ lo ≤ b.toNat ∧ b.toNat ≤ hi then
      match k with
      | 0 => ([Char.ofNat (cp * 64 + (b.toNat - 0x80))], .start)
      | k + 1 => ([], .more k 0x80 0xBF (cp * 64 + (b.toNat - 0x80)))
    else (replacement :: (leadByte b.toNat).1, (leadByte b.toNat).2)

/-- Decoding from a state; a character cut off at the end is one replacement. -/
def decodeFrom : State → List UInt8 → List Char
  | .start, [] => []
  | .more _ _ _ _, [] => [replacement]
  | st, b :: bs => (step st b).1 ++ decodeFrom (step st b).2 bs

/-- The text of a list of bytes. -/
def decode (bs : List UInt8) : List Char := decodeFrom .start bs

@[simp] theorem encode_nil : encode [] = [] := rfl

theorem encode_cons (c : Char) (t : List Char) :
    encode (c :: t) = String.utf8EncodeChar c ++ encode t := rfl

theorem encode_append (s t : List Char) : encode (s ++ t) = encode s ++ encode t :=
  List.flatMap_append

@[simp] theorem decode_nil : decode [] = [] := rfl

theorem decodeFrom_cons (st : State) (b : UInt8) (bs : List UInt8) :
    decodeFrom st (b :: bs) = (step st b).1 ++ decodeFrom (step st b).2 bs := by
  cases st <;> rfl

/-! ## Well-formed bytes -/

theorem toNat_ofNat_of_lt {n : ℕ} (h : n < 256) : (UInt8.ofNat n).toNat = n := by
  simp [Nat.mod_eq_of_lt h]

theorem step_start {b : ℕ} (h : b < 256) : step .start (UInt8.ofNat b) = leadByte b := by
  simp only [step, toNat_ofNat_of_lt h]

theorem step_last {lo hi cp x : ℕ} (hx : x < 64) (hlo : lo ≤ x + 0x80) (hhi : x + 0x80 ≤ hi) :
    step (.more 0 lo hi cp) (UInt8.ofNat (x + 0x80)) = ([Char.ofNat (cp * 64 + x)], .start) := by
  simp only [step, toNat_ofNat_of_lt (show x + 0x80 < 256 by omega), Nat.add_sub_cancel]
  rw [if_pos ⟨by omega, hlo, hhi⟩]

theorem step_inner {k lo hi cp x : ℕ} (hx : x < 64) (hlo : lo ≤ x + 0x80) (hhi : x + 0x80 ≤ hi) :
    step (.more (k + 1) lo hi cp) (UInt8.ofNat (x + 0x80)) =
      ([], .more k 0x80 0xBF (cp * 64 + x)) := by
  simp only [step, toNat_ofNat_of_lt (show x + 0x80 < 256 by omega), Nat.add_sub_cancel]
  rw [if_pos ⟨by omega, hlo, hhi⟩]

theorem leadByte_two {x : ℕ} (h1 : 2 ≤ x) (h2 : x < 0x20) :
    leadByte (x + 0xC0) = ([], .more 0 0x80 0xBF x) := by
  unfold leadByte
  rw [if_neg (by omega), if_neg (by omega), if_pos (by omega), Nat.add_sub_cancel]

theorem leadByte_three {x : ℕ} (h : x < 0x10) :
    leadByte (x + 0xE0) =
      ([], .more 1 (if x = 0 then 0xA0 else 0x80) (if x = 0xD then 0x9F else 0xBF) x) := by
  unfold leadByte
  rw [if_neg (by omega), if_neg (by omega), if_neg (by omega), if_pos (by omega),
    Nat.add_sub_cancel]
  simp only [show (x + 0xE0 = 0xE0) = (x = 0) by simp, show (x + 0xE0 = 0xED) = (x = 0xD) by
    simp only [eq_iff_iff]; omega]

theorem leadByte_four {x : ℕ} (h : x ≤ 4) :
    leadByte (x + 0xF0) =
      ([], .more 2 (if x = 0 then 0x90 else 0x80) (if x = 4 then 0x8F else 0xBF) x) := by
  unfold leadByte
  rw [if_neg (by omega), if_neg (by omega), if_neg (by omega), if_neg (by omega),
    if_pos (by omega), Nat.add_sub_cancel]
  simp only [show (x + 0xF0 = 0xF0) = (x = 0) by simp, show (x + 0xF0 = 0xF4) = (x = 4) by
    simp only [eq_iff_iff]; omega]

theorem toNat_cases (c : Char) : c.toNat < 0xD800 ∨ 0xDFFF < c.toNat ∧ c.toNat < 0x110000 :=
  c.valid

/-- **A character's bytes decode to it**, whatever follows. -/
theorem decode_encodeChar_append (c : Char) (bs : List UInt8) :
    decode (String.utf8EncodeChar c ++ bs) = c :: decode bs := by
  have hv := toNat_cases c
  have hc : Char.ofNat c.toNat = c := Char.ofNat_toNat c
  have hval : c.val.toNat = c.toNat := rfl
  generalize c.toNat = n at hv hc hval
  unfold String.utf8EncodeChar decode
  simp only [hval]
  split_ifs with h1 h2 h3
  · rw [List.cons_append, decodeFrom_cons, step_start (by omega), leadByte, if_pos h1, hc]
    rfl
  · rw [List.cons_append, decodeFrom_cons, step_start (by omega),
      leadByte_two (by omega) (by omega), List.cons_append, decodeFrom_cons,
      step_last (by omega) (by omega) (by omega),
      show n / 64 % 32 * 64 + n % 64 = n by omega, hc]
    rfl
  · rw [List.cons_append, decodeFrom_cons, step_start (by omega), leadByte_three (by omega),
      List.cons_append, decodeFrom_cons,
      step_inner (by omega) (by split_ifs <;> omega) (by split_ifs <;> omega),
      List.cons_append, decodeFrom_cons, step_last (by omega) (by omega) (by omega),
      show (n / 4096 % 16 * 64 + n / 64 % 64) * 64 + n % 64 = n by omega, hc]
    rfl
  · rw [List.cons_append, decodeFrom_cons, step_start (by omega), leadByte_four (by omega),
      List.cons_append, decodeFrom_cons,
      step_inner (by omega) (by split_ifs <;> omega) (by split_ifs <;> omega),
      List.cons_append, decodeFrom_cons, step_inner (by omega) (by omega) (by omega),
      List.cons_append, decodeFrom_cons, step_last (by omega) (by omega) (by omega),
      show ((n / 262144 % 8 * 64 + n / 4096 % 64) * 64 + n / 64 % 64) * 64 + n % 64 = n by omega, hc]
    rfl

/-- **Well-formed bytes decode to their text**, whatever follows. -/
theorem decode_encode_append (t : List Char) (bs : List UInt8) :
    decode (encode t ++ bs) = t ++ decode bs := by
  induction t with
  | nil => rfl
  | cons c t ih => rw [encode_cons, List.append_assoc, decode_encodeChar_append, ih, List.cons_append]

theorem decode_encode (t : List Char) : decode (encode t) = t := by
  simpa using decode_encode_append t []

theorem encode_injective : Function.Injective encode := fun s t h => by
  rw [← decode_encode s, h, decode_encode]

/-! ## ASCII bytes -/

theorem encodeChar_ascii {c : Char} (h : c.toNat ≤ 0x7F) :
    String.utf8EncodeChar c = [UInt8.ofNat c.toNat] := by
  have hval : c.val.toNat = c.toNat := rfl
  unfold String.utf8EncodeChar
  simp only [hval, if_pos h]

/-- **Decoding splits at an ASCII byte.** -/
theorem decodeFrom_append_ascii (st : State) (xs ys : List UInt8) (b : UInt8) (hb : b.toNat ≤ 0x7F) :
    decodeFrom st (xs ++ b :: ys) = decodeFrom st xs ++ Char.ofNat b.toNat :: decode ys := by
  induction xs generalizing st with
  | nil =>
    rw [List.nil_append, decodeFrom_cons]
    cases st with
    | start => simp [step, leadByte, hb, decodeFrom, decode]
    | more k lo hi cp =>
      simp only [step]
      rw [if_neg (by omega)]
      simp [leadByte, hb, decodeFrom, decode]
  | cons x xs ih => rw [List.cons_append, decodeFrom_cons, decodeFrom_cons, ih, List.append_assoc]

theorem decode_append_ascii (xs ys : List UInt8) (b : UInt8) (hb : b.toNat ≤ 0x7F) :
    decode (xs ++ b :: ys) = decode xs ++ Char.ofNat b.toNat :: decode ys :=
  decodeFrom_append_ascii .start xs ys b hb

theorem leadByte_progress (b : ℕ) : (leadByte b).1 ≠ [] ∨ (leadByte b).2 ≠ .start := by
  unfold leadByte
  split_ifs <;> simp

theorem step_progress (st : State) (b : UInt8) : (step st b).1 ≠ [] ∨ (step st b).2 ≠ .start := by
  cases st with
  | start => exact leadByte_progress _
  | more k lo hi cp =>
    simp only [step]
    split_ifs
    · cases k <;> simp
    · exact Or.inl (List.cons_ne_nil _ _)

theorem decodeFrom_ne_nil {st : State} {bs : List UInt8} (h : st ≠ .start ∨ bs ≠ []) :
    decodeFrom st bs ≠ [] := by
  induction bs generalizing st with
  | nil =>
    cases st with
    | start => simp at h
    | more k lo hi cp => exact List.cons_ne_nil _ _
  | cons b bs ih =>
    rw [decodeFrom_cons]
    rcases step_progress st b with hs | hs
    · exact fun e => hs (List.append_eq_nil_iff.mp e).1
    · exact fun e => ih (Or.inl hs) (List.append_eq_nil_iff.mp e).2

theorem decode_ne_nil {bs : List UInt8} (h : bs ≠ []) : decode bs ≠ [] := decodeFrom_ne_nil (Or.inr h)

/-- The characters a state owes. -/
def State.owed : State → ℕ
  | .start => 0
  | .more .. => 1

theorem leadByte_length_le (b : ℕ) : (leadByte b).1.length + (leadByte b).2.owed ≤ 1 := by
  unfold leadByte
  split_ifs <;> exact le_rfl

/-- A byte owes at most one character, and pays at most one owed before it. -/
theorem step_length_le (st : State) (b : UInt8) :
    (step st b).1.length + (step st b).2.owed ≤ 1 + st.owed := by
  cases st with
  | start => exact leadByte_length_le _
  | more k lo hi cp =>
    simp only [step]
    by_cases hb : 0x80 ≤ b.toNat ∧ lo ≤ b.toNat ∧ b.toNat ≤ hi
    · rw [if_pos hb]
      cases k <;> simp [State.owed]
    · have := leadByte_length_le b.toNat
      rw [if_neg hb]
      change (leadByte b.toNat).1.length + 1 + (leadByte b.toNat).2.owed ≤ 1 + 1
      omega

theorem decodeFrom_length_le (st : State) (bs : List UInt8) :
    (decodeFrom st bs).length ≤ bs.length + st.owed := by
  induction bs generalizing st with
  | nil => cases st <;> simp [decodeFrom, State.owed]
  | cons b bs ih =>
    have h1 := step_length_le st b
    have h2 := ih (step st b).2
    rw [decodeFrom_cons, List.length_append, List.length_cons]
    omega

theorem decode_length_le (bs : List UInt8) : (decode bs).length ≤ bs.length :=
  decodeFrom_length_le .start bs

theorem length_le_encode (t : List Char) : t.length ≤ (encode t).length := by
  simpa only [decode_encode] using decode_length_le (encode t)

/-- What the bits read so far promise: the character they begin is no ASCII character. -/
def Wide : State → Prop
  | .start => True
  | .more k lo _ cp => 0x80 ≤ (cp * 64 + (max lo 0x80 - 0x80)) * 64 ^ k

theorem wide_leadByte (b : ℕ) : Wide (leadByte b).2 := by
  unfold leadByte
  split_ifs <;> simp only [Wide] <;> omega

theorem wide_step (st : State) (h : Wide st) (b : UInt8) : Wide (step st b).2 := by
  cases st with
  | start => exact wide_leadByte _
  | more k lo hi cp =>
    simp only [step]
    by_cases hb : 0x80 ≤ b.toNat ∧ lo ≤ b.toNat ∧ b.toNat ≤ hi
    · rw [if_pos hb]
      cases k with
      | zero => trivial
      | succ k =>
        simp only [Wide] at h ⊢
        have h1 : cp * 64 + (max lo 0x80 - 0x80) ≤ cp * 64 + (b.toNat - 0x80) := by omega
        calc 0x80 ≤ (cp * 64 + (max lo 0x80 - 0x80)) * 64 ^ (k + 1) := h
          _ ≤ (cp * 64 + (b.toNat - 0x80)) * 64 ^ (k + 1) := Nat.mul_le_mul_right _ h1
          _ = ((cp * 64 + (b.toNat - 0x80)) * 64 + (max 0x80 0x80 - 0x80)) * 64 ^ k := by
              rw [pow_succ]; simp only [max_self, Nat.sub_self, Nat.add_zero]; ring
    · rw [if_neg hb]
      exact wide_leadByte _

theorem ofNat_ne_newline {n : ℕ} (h : n ≠ 10) : Char.ofNat n ≠ '\n' := by
  intro e
  have hn := congrArg Char.toNat e
  by_cases hv : n.isValidChar
  · rw [Char.ofNat, dif_pos hv] at hn
    exact h hn
  · rw [Char.ofNat, dif_neg hv] at hn
    exact absurd hn (by decide)

theorem newline_mem_leadByte {b : ℕ} (h : '\n' ∈ (leadByte b).1) : b = 10 := by
  unfold leadByte at h
  split_ifs at h <;> simp only [List.mem_singleton, List.not_mem_nil] at h
  · by_contra hb
    exact ofNat_ne_newline hb h.symm
  · exact absurd h (by decide)
  · exact absurd h (by decide)

theorem newline_mem_step {st : State} (hw : Wide st) {b : UInt8} (h : '\n' ∈ (step st b).1) :
    b.toNat = 10 := by
  cases st with
  | start => exact newline_mem_leadByte h
  | more k lo hi cp =>
    simp only [step] at h
    split_ifs at h with hb
    · cases k with
      | zero =>
        simp only [List.mem_singleton] at h
        simp only [Wide, pow_zero, Nat.mul_one] at hw
        exact absurd h.symm (ofNat_ne_newline (by omega))
      | succ k => simp at h
    · rcases List.mem_cons.mp h with h | h
      · exact absurd h (by decide)
      · exact newline_mem_leadByte h

theorem newline_mem_decodeFrom (st : State) (hw : Wide st) {bs : List UInt8}
    (h : '\n' ∈ decodeFrom st bs) : (10 : UInt8) ∈ bs := by
  induction bs generalizing st with
  | nil =>
    cases st with
    | start => simp [decodeFrom] at h
    | more k lo hi cp => exact absurd (List.mem_singleton.mp h) (by decide)
  | cons b bs ih =>
    rw [decodeFrom_cons, List.mem_append] at h
    rcases h with h | h
    · have hb : b = 10 := UInt8.toNat_inj.mp (newline_mem_step hw h)
      rw [hb]; exact List.mem_cons_self
    · exact List.mem_cons_of_mem _ (ih (step st b).2 (wide_step st hw b) h)

/-- **A newline is decoded only from a newline byte.** -/
theorem newline_not_mem_decode {bs : List UInt8} (h : (10 : UInt8) ∉ bs) : '\n' ∉ decode bs :=
  fun hd => h (newline_mem_decodeFrom .start trivial hd)

theorem newline_not_mem_encodeChar {c : Char} (h : c ≠ '\n') :
    (10 : UInt8) ∉ String.utf8EncodeChar c := by
  intro hm
  obtain ⟨xs, ys, e⟩ := List.append_of_mem hm
  have hd := decode_encodeChar_append c []
  rw [List.append_nil, e, decode_append_ascii xs ys 10 (by decide)] at hd
  rcases List.append_eq_singleton_iff.mp hd with ⟨_, h2⟩ | ⟨_, h2⟩
  · exact h (List.cons.inj h2).1.symm
  · exact absurd h2 (List.cons_ne_nil _ _)

theorem newline_not_mem_encode {t : List Char} (h : '\n' ∉ t) : (10 : UInt8) ∉ encode t := by
  intro hm
  obtain ⟨c, hc, hb⟩ := List.mem_flatMap.mp hm
  exact newline_not_mem_encodeChar (fun e => h (e ▸ hc)) hb

theorem encode_newline : encode ['\n'] = [10] := by decide

end Utf8
