import PiSubagent.Lib.Fitting
import PiSubagent.Runtime.Attempt

/-!
# The bounds of an attempt's output

`boundAttemptOutput` cuts a string between code points, by the size of its UTF-8 encoding, in which
a lone surrogate is a replacement character.

* `codePoints_initial`: a string cut between code points has the code points before the cut.
* `boundAttemptOutput_eq`: the fast path and the loop are one loop over code points.
* **`boundAttemptOutput_longest`**: the longest beginning in whole code points within the limit,
  reported as cut exactly when the string is over the limit, and two bounds are the smaller one.
-/

namespace PiSubagent

open JsonText Utf8 Fitting

/-! ## Code points -/

section Units

variable {u v : UInt16} (us : JsString)

theorem codePoints_pair (h : (isHigh u && isLow v) = true) :
    codePoints (u :: v :: us) = [u, v] :: codePoints us := by
  rw [codePoints, if_pos h]

theorem codePoints_unit (h : ¬ (isHigh u && isLow v) = true) :
    codePoints (u :: v :: us) = [u] :: codePoints (v :: us) := by
  rw [codePoints, if_neg h]

theorem charsOf_pair (h : (isHigh u && isLow v) = true) :
    charsOf (u :: v :: us) = charsOf [u, v] ++ charsOf us := by
  rw [charsOf, if_pos h, charsOf, if_pos h]
  rfl

theorem charsOf_unit (h : ¬ (isHigh u && isLow v) = true) :
    charsOf (u :: v :: us) = charsOf [u] ++ charsOf (v :: us) := by
  conv_lhs => rw [charsOf, if_neg h]
  rfl

end Units

theorem byteLength_of_append {s t r : JsString} (h : charsOf s = charsOf t ++ charsOf r) :
    byteLength s = byteLength t + byteLength r := by
  rw [byteLength, h, encode_append, List.length_append]
  rfl

theorem codePoints_flatten (s : JsString) : (codePoints s).flatten = s := by
  induction s using codePoints.induct with
  | case1 => rfl
  | case2 u => rfl
  | case3 u v us h ih =>
    rw [codePoints_pair us h, List.flatten_cons, ih]
    rfl
  | case4 u v us h ih =>
    rw [codePoints_unit us h, List.flatten_cons, ih]
    rfl

/-- The first code point of a string begins with its first code unit. -/
theorem codePoints_cons (u : UInt16) (us : JsString) :
    ∃ c cs, codePoints (u :: us) = (u :: c) :: cs := by
  cases us with
  | nil => exact ⟨[], [], rfl⟩
  | cons v us =>
    rw [codePoints]
    split_ifs
    · exact ⟨[v], _, rfl⟩
    · exact ⟨[], _, rfl⟩

/-- The code points of a string that is cut after some of them are these. -/
theorem codePoints_take (s : JsString) (k : ℕ) :
    codePoints ((codePoints s).take k).flatten = (codePoints s).take k := by
  induction s using codePoints.induct generalizing k with
  | case1 => simp [codePoints]
  | case2 u => cases k <;> simp [codePoints]
  | case3 u v us h ih =>
    cases k with
    | zero => rfl
    | succ k =>
      have hcut : (([u, v] :: codePoints us).take (k + 1)).flatten =
          u :: v :: ((codePoints us).take k).flatten := rfl
      rw [codePoints_pair us h, hcut, codePoints_pair _ h, ih, List.take_succ_cons]
  | case4 u v us h ih =>
    cases k with
    | zero => rfl
    | succ k =>
      have hcut : (([u] :: codePoints (v :: us)).take (k + 1)).flatten =
          u :: ((codePoints (v :: us)).take k).flatten := rfl
      have hrest := ih k
      rw [codePoints_unit us h, hcut, List.take_succ_cons]
      cases k with
      | zero => rfl
      | succ k =>
        -- What is left still begins with `v`, so the first code unit stays alone.
        obtain ⟨c, cs, hc⟩ := codePoints_cons v us
        have hv : ((codePoints (v :: us)).take (k + 1)).flatten =
            v :: (c ++ (cs.take k).flatten) := by
          rw [hc]
          rfl
        rw [hv] at hrest ⊢
        rw [codePoints_unit _ h, hrest]

theorem codePoints_initial {s : JsString} {cs : List JsString} (h : cs <+: codePoints s) :
    codePoints cs.flatten = cs := by
  rw [List.prefix_iff_eq_take.mp h]
  exact codePoints_take s _

/-! ## Sizes -/

theorem byteLength_codePoints (s : JsString) : byteLength s = total byteLength (codePoints s) := by
  induction s using codePoints.induct with
  | case1 => rfl
  | case2 u => rfl
  | case3 u v us h ih =>
    rw [codePoints_pair us h, total_cons, byteLength_of_append (charsOf_pair us h), ih]
  | case4 u v us h ih =>
    rw [codePoints_unit us h, total_cons, byteLength_of_append (charsOf_unit us h), ih]

/-- The size of a string that is cut between code points is the sum of theirs. -/
theorem byteLength_initial {s : JsString} {cs : List JsString} (h : cs <+: codePoints s) :
    byteLength cs.flatten = total byteLength cs := by
  rw [byteLength_codePoints, codePoints_initial h]

theorem charsOf_codePoints (s : JsString) : charsOf s = ((codePoints s).map charsOf).flatten := by
  induction s using codePoints.induct with
  | case1 => rfl
  | case2 u => rfl
  | case3 u v us h ih =>
    rw [codePoints_pair us h, List.map_cons, List.flatten_cons, ← ih, charsOf_pair us h]
  | case4 u v us h ih =>
    rw [codePoints_unit us h, List.map_cons, List.flatten_cons, ← ih, charsOf_unit us h]

/-- The bytes of a string that is cut between code points are a beginning of its bytes. -/
theorem encode_prefix {s : JsString} {cs : List JsString} (h : cs <+: codePoints s) :
    encode (charsOf cs.flatten) <+: encode (charsOf s) := by
  rw [charsOf_codePoints cs.flatten, codePoints_initial h, charsOf_codePoints s]
  obtain ⟨rest, hrest⟩ := h
  rw [← hrest, List.map_append, List.flatten_append, encode_append]
  exact List.prefix_append _ _

/-! ## The bound -/

theorem takeBytes_eq (limit bytes : ℕ) (cs : List JsString) :
    takeBytes limit bytes cs = (fittingFrom byteLength limit bytes cs).flatten := by
  induction cs generalizing bytes with
  | nil => rfl
  | cons c cs ih =>
    rw [takeBytes, fittingFrom]
    split_ifs
    · rfl
    · rw [List.flatten_cons, ih]

/-- **The fast path and the loop are one loop over code points.** -/
theorem boundAttemptOutput_eq (s : JsString) (limit : ℕ) :
    (boundAttemptOutput s limit).1 = (fitting byteLength limit (codePoints s)).flatten := by
  unfold boundAttemptOutput
  split_ifs with h
  · rw [byteLength_codePoints] at h
    rw [fitting_eq_self_iff.mpr h, codePoints_flatten]
  · exact takeBytes_eq limit 0 (codePoints s)

theorem codePoints_boundAttemptOutput (s : JsString) (limit : ℕ) :
    codePoints (boundAttemptOutput s limit).1 = fitting byteLength limit (codePoints s) := by
  rw [boundAttemptOutput_eq]
  exact codePoints_initial (fitting_initial limit _)

theorem boundAttemptOutput_truncated (s : JsString) (limit : ℕ) :
    (boundAttemptOutput s limit).2 = true ↔ limit < byteLength s := by
  unfold boundAttemptOutput
  split_ifs with h
  · simp [h]
  · simp [lt_of_not_ge h]

theorem boundAttemptOutput_bound (s : JsString) (m n : ℕ) :
    (boundAttemptOutput (boundAttemptOutput s m).1 n).1 = (boundAttemptOutput s (min m n)).1 := by
  rw [boundAttemptOutput_eq _ n, codePoints_boundAttemptOutput, fitting_fitting,
    boundAttemptOutput_eq]

theorem boundAttemptOutput_prefix (s : JsString) (limit : ℕ) :
    (boundAttemptOutput s limit).1 <+: s ∧
      encode (charsOf (boundAttemptOutput s limit).1) <+: encode (charsOf s) := by
  have h : fitting byteLength limit (codePoints s) <+: codePoints s := fitting_initial limit _
  rw [boundAttemptOutput_eq]
  constructor
  · obtain ⟨rest, hrest⟩ := h
    refine ⟨rest.flatten, ?_⟩
    rw [← List.flatten_append, hrest, codePoints_flatten]
  · exact encode_prefix h

/-- **A string is bounded to its longest beginning in whole code points within the limit, and is
reported as cut exactly when it is over the limit; a second bound acts as the smaller of the two, so
that the inline output is a beginning of the stored one, as text and as bytes.** -/
theorem boundAttemptOutput_longest (s : JsString) (m n : ℕ) :
    (∃ k, (boundAttemptOutput s n).1 = ((codePoints s).take k).flatten) ∧
      byteLength (boundAttemptOutput s n).1 ≤ n ∧
      (∀ k, byteLength ((codePoints s).take k).flatten ≤ n →
        ((codePoints s).take k).flatten <+: (boundAttemptOutput s n).1) ∧
      ((boundAttemptOutput s n).2 = true ↔ n < byteLength s) ∧
      (boundAttemptOutput (boundAttemptOutput s m).1 n).1 = (boundAttemptOutput s (min m n)).1 ∧
      (boundAttemptOutput (boundAttemptOutput s m).1 n).1 <+: (boundAttemptOutput s m).1 ∧
      encode (charsOf (boundAttemptOutput (boundAttemptOutput s m).1 n).1) <+:
        encode (charsOf (boundAttemptOutput s m).1) := by
  have hfit : fitting byteLength n (codePoints s) <+: codePoints s := fitting_initial n _
  have hinline := boundAttemptOutput_prefix (boundAttemptOutput s m).1 n
  refine ⟨⟨(fitting byteLength n (codePoints s)).length, ?_⟩, ?_, ?_,
    boundAttemptOutput_truncated s n, boundAttemptOutput_bound s m n, hinline.1, hinline.2⟩
  · rw [← List.prefix_iff_eq_take.mp hfit, boundAttemptOutput_eq]
  · rw [boundAttemptOutput_eq, byteLength_initial hfit]
    exact total_fitting_le n _
  · intro k hk
    have hcut : (codePoints s).take k <+: codePoints s := List.take_prefix k _
    rw [byteLength_initial hcut] at hk
    obtain ⟨rest, hrest⟩ := (prefix_fitting_iff hcut).mpr hk
    rw [boundAttemptOutput_eq, ← hrest, List.flatten_append]
    exact List.prefix_append _ _

end PiSubagent
