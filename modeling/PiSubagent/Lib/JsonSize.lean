import PiSubagent.Lib.Json
import PiSubagent.Lib.Utf8

/-!
# The size of JSON text

* `growth`: the bytes a string takes more in quotes than in UTF-8, and **`growth_le`**, its bound.
* `Json.pretty`: the text with a line for each member and element.
* `textSize`, `prettySize`: the bytes of a text in UTF-8, with a rule for objects.
-/

namespace JsonText

open Utf8

/-! ## Strings -/

/-- The bytes a code unit on its own takes more in a quoted string than in UTF-8. -/
def unitGrowth (u : UInt16) : ℕ :=
  if isHigh u || isLow u then 3
  else if (shortEscape u).isSome then 1
  else if u.toNat < 32 then 5
  else 0

/-- The bytes a string takes more in quotes than in UTF-8, the quotes left out. -/
def growth : JsString → ℕ
  | [] => 0
  | [u] => unitGrowth u
  | u :: v :: us =>
    if isHigh u && isLow v then growth us else unitGrowth u + growth (v :: us)

theorem length_encode_append (s t : List Char) :
    (encode (s ++ t)).length = (encode s).length + (encode t).length := by
  rw [encode_append, List.length_append]

theorem length_encode_cons (c : Char) (t : List Char) :
    (encode (c :: t)).length = (encode [c]).length + (encode t).length :=
  length_encode_append [c] t

theorem length_encode_ascii {c : Char} (h : c.toNat ≤ 0x7F) : (encode [c]).length = 1 := by
  rw [encode, List.flatMap_singleton, encodeChar_ascii h]
  rfl

theorem length_encode_asciis {t : List Char} (h : ∀ c ∈ t, c.toNat ≤ 0x7F) :
    (encode t).length = t.length := by
  induction t with
  | nil => rfl
  | cons c t ih =>
    rw [length_encode_cons, length_encode_ascii (h c List.mem_cons_self),
      ih fun d hd => h d (List.mem_cons_of_mem _ hd), List.length_cons, Nat.add_comm]

theorem length_encode_pos (c : Char) : 1 ≤ (encode [c]).length := length_le_encode [c]

theorem hexChar_ascii : ∀ d < 16, (hexChar d).toNat ≤ 0x7F := by decide

theorem length_encode_escapeUnit (u : UInt16) : (encode (escapeUnit u)).length = 6 := by
  have hu := unit_lt u
  have hhex (n : ℕ) : (hexChar (n % 16)).toNat ≤ 0x7F := hexChar_ascii _ (Nat.mod_lt _ (by decide))
  have hfirst : (hexChar (u.toNat / 4096)).toNat ≤ 0x7F := hexChar_ascii _ (by omega)
  rw [length_encode_asciis]
  · rfl
  · intro c hc
    simp only [escapeUnit, List.mem_cons, List.not_mem_nil, or_false] at hc
    rcases hc with rfl | rfl | rfl | rfl | rfl | rfl
    · decide
    · decide
    · exact hfirst
    · exact hhex _
    · exact hhex _
    · exact hhex _

theorem length_encode_quoteUnit {u : UInt16} (h : (isHigh u || isLow u) = false) :
    (encode (quoteUnit u)).length = (encode [unitChar u]).length + unitGrowth u := by
  have hlone : ¬ (isHigh u || isLow u) = true := by
    rw [h]
    exact Bool.false_ne_true
  have hchar : unitChar u = Char.ofNat u.toNat := by rw [unitChar, if_neg hlone]
  have hnat : (Char.ofNat u.toNat).toNat = u.toNat := char_toNat_ofNat (unit_isValidChar h)
  have hgrowth : unitGrowth u =
      if (shortEscape u).isSome then 1 else if u.toNat < 32 then 5 else 0 := by
    rw [unitGrowth, if_neg hlone]
  rw [hchar, hgrowth, quoteUnit]
  cases hs : shortEscape u with
  | some c =>
    have hsmall : u.toNat ≤ 0x7F ∧ c.toNat ≤ 0x7F := by
      unfold shortEscape at hs
      split_ifs at hs <;> cases hs <;> subst_vars <;> decide
    rw [Option.isSome_some, if_pos rfl, length_encode_ascii (hnat.trans_le hsmall.1),
      length_encode_cons, length_encode_ascii (by decide), length_encode_ascii hsmall.2]
  | none =>
    rw [Option.isSome_none, if_neg Bool.false_ne_true]
    dsimp only
    by_cases hc : u.toNat < 32
    · rw [if_pos hc, if_pos hc, length_encode_escapeUnit, length_encode_ascii (by omega)]
    · rw [if_neg hc, if_neg hc, Nat.add_zero]

theorem length_encode_lone {u : UInt16} (h : (isHigh u || isLow u) = true) :
    (encode (escapeUnit u)).length = (encode [unitChar u]).length + unitGrowth u := by
  rw [length_encode_escapeUnit, unitChar, unitGrowth, if_pos h, if_pos h]
  rfl

/-- **A string takes as many bytes in quotes as in UTF-8, its growth and the quotes.** -/
theorem length_encode_quote (s : JsString) :
    (encode (quote s)).length = (encode (charsOf s)).length + growth s + 2 := by
  have hinside : (encode (quoteUnits s)).length = (encode (charsOf s)).length + growth s := by
    induction s using growth.induct with
    | case1 => rfl
    | case2 u =>
      rw [quoteUnits, charsOf, growth]
      cases h : isHigh u || isLow u with
      | true =>
        rw [if_pos rfl]
        exact length_encode_lone h
      | false =>
        rw [if_neg Bool.false_ne_true]
        exact length_encode_quoteUnit h
    | case3 u v us h ih =>
      rw [quoteUnits, charsOf, growth, if_pos h, if_pos h, if_pos h,
        length_encode_cons _ (quoteUnits us), ih, length_encode_cons _ (charsOf us), Nat.add_assoc]
    | case4 u v us hp ih =>
      rw [quoteUnits, charsOf, growth, if_neg hp, if_neg hp, if_neg hp,
        length_encode_cons _ (charsOf (v :: us))]
      cases h : isHigh u || isLow u with
      | true =>
        rw [if_pos rfl, length_encode_append, length_encode_lone h, ih]
        omega
      | false =>
        rw [if_neg Bool.false_ne_true, length_encode_append, length_encode_quoteUnit h, ih]
        omega
  have hquote : (encode ['"']).length = 1 := by decide
  rw [quote, length_encode_cons, length_encode_append, hinside, hquote]
  omega

theorem unitGrowth_le (u : UInt16) : unitGrowth u ≤ 5 := by
  unfold unitGrowth
  split_ifs <;> omega

/-- **A string grows by five times its bytes at most.** -/
theorem growth_le (s : JsString) : growth s ≤ 5 * (encode (charsOf s)).length := by
  induction s using growth.induct with
  | case1 => exact Nat.zero_le _
  | case2 u =>
    have hu := unitGrowth_le u
    have hc := length_encode_pos (unitChar u)
    rw [growth, charsOf]
    omega
  | case3 u v us h ih =>
    rw [growth, charsOf, if_pos h, if_pos h, length_encode_cons]
    omega
  | case4 u v us h ih =>
    have hu := unitGrowth_le u
    have hc := length_encode_pos (unitChar u)
    rw [growth, charsOf, if_neg h, if_neg h, length_encode_cons]
    omega

/-- A code unit that grows, repeated: the bound is reached by control characters. -/
theorem growth_replicate {u : UInt16} (h : (isHigh u || isLow u) = false) (n : ℕ) :
    growth (List.replicate n u) = n * unitGrowth u := by
  induction n with
  | zero => rw [Nat.zero_mul]; rfl
  | succ n ih =>
    cases n with
    | zero => rw [Nat.one_mul]; rfl
    | succ n =>
      rw [Bool.or_eq_false_iff] at h
      rw [List.replicate_succ, List.replicate_succ, growth, if_neg (by simp [h.1]),
        ← List.replicate_succ, ih]
      ring

/-! ## Text with a line for each member -/

/-- A new line and its indentation. -/
def newLine (depth : ℕ) : List Char := '\n' :: List.replicate (2 * depth) ' '

mutual

/-- The text of a value with a line for each member and element (`JSON.stringify(v, null, 2)`), in
lines that are indented so deep. -/
def Json.pretty (depth : ℕ) : Json → List Char
  | .arr [] => ['[', ']']
  | .arr (x :: xs) => '[' :: (newLine (depth + 1) ++ (x.pretty (depth + 1) ++ elemsPretty depth xs))
  | .obj [] => ['{', '}']
  | .obj ((k, v) :: ms) => '{' :: (newLine (depth + 1) ++ (quote k ++ ':' :: ' ' ::
      (v.pretty (depth + 1) ++ membersPretty depth ms)))
  | v => v.stringify

/-- The elements of an array after its first, and its end. -/
def elemsPretty (depth : ℕ) : List Json → List Char
  | [] => newLine depth ++ [']']
  | x :: xs => ',' :: (newLine (depth + 1) ++ (x.pretty (depth + 1) ++ elemsPretty depth xs))

/-- The members of an object after its first, and its end. -/
def membersPretty (depth : ℕ) : List (JsString × Json) → List Char
  | [] => newLine depth ++ ['}']
  | (k, v) :: ms => ',' :: (newLine (depth + 1) ++ (quote k ++ ':' :: ' ' ::
      (v.pretty (depth + 1) ++ membersPretty depth ms)))

end

/-! ## Sizes -/

/-- The bytes of the text of a value. -/
def textSize (v : Json) : ℕ := (encode v.stringify).length

/-- The bytes of the text of a value with a line for each member, in lines indented so deep. -/
def prettySize (depth : ℕ) (v : Json) : ℕ := (encode (v.pretty depth)).length

/-- The bytes of the members of an object, each with what separates it from the next. -/
def membersSize (ms : List (JsString × Json)) : ℕ :=
  (ms.map fun m => textSize (.str m.1) + textSize m.2 + 2).sum

/-- The bytes of the members of an object, each on its line. -/
def membersPrettySize (depth : ℕ) (ms : List (JsString × Json)) : ℕ :=
  (ms.map fun m => textSize (.str m.1) + prettySize (depth + 1) m.2 + (2 * depth + 6)).sum

@[simp] theorem membersSize_nil : membersSize [] = 0 := rfl

@[simp] theorem membersSize_cons (k : JsString) (v : Json) (ms : List (JsString × Json)) :
    membersSize ((k, v) :: ms) = textSize (.str k) + textSize v + 2 + membersSize ms :=
  List.sum_cons

@[simp] theorem membersPrettySize_nil (depth : ℕ) : membersPrettySize depth [] = 0 := rfl

@[simp] theorem membersPrettySize_cons (depth : ℕ) (k : JsString) (v : Json)
    (ms : List (JsString × Json)) :
    membersPrettySize depth ((k, v) :: ms) =
      textSize (.str k) + prettySize (depth + 1) v + (2 * depth + 6) + membersPrettySize depth ms :=
  List.sum_cons

theorem textSize_str (s : JsString) :
    textSize (.str s) = (encode (charsOf s)).length + growth s + 2 := by
  rw [textSize, Json.stringify, length_encode_quote]

theorem prettySize_str (depth : ℕ) (s : JsString) : prettySize depth (.str s) = textSize (.str s) := by
  rw [prettySize, Json.pretty, textSize]
  all_goals simp

theorem length_encode_newLine (depth : ℕ) : (encode (newLine depth)).length = 2 * depth + 1 := by
  rw [length_encode_asciis, newLine, List.length_cons, List.length_replicate]
  intro c hc
  rcases List.mem_cons.mp hc with rfl | hc
  · decide
  · rw [(List.mem_replicate.mp hc).2]
    decide

theorem length_encode_membersTail (ms : List (JsString × Json)) :
    (encode (membersTail ms)).length = membersSize ms + 1 := by
  induction ms with
  | nil => decide
  | cons m ms ih =>
    obtain ⟨k, v⟩ := m
    have hcomma : (encode [',']).length = 1 := by decide
    have hcolon : (encode [':']).length = 1 := by decide
    rw [membersTail, length_encode_cons, length_encode_append, length_encode_cons ':',
      length_encode_append, ih, hcomma, hcolon, membersSize_cons, textSize, textSize,
      Json.stringify]
    omega

/-- **The bytes of an object are those of its members and one more.** -/
theorem textSize_obj {ms : List (JsString × Json)} (h : ms ≠ []) :
    textSize (.obj ms) = membersSize ms + 1 := by
  cases ms with
  | nil => exact absurd rfl h
  | cons m ms =>
    obtain ⟨k, v⟩ := m
    have hbrace : (encode ['{']).length = 1 := by decide
    have hcolon : (encode [':']).length = 1 := by decide
    rw [textSize, Json.stringify, length_encode_cons, length_encode_append, length_encode_cons ':',
      length_encode_append, length_encode_membersTail, hbrace, hcolon, membersSize_cons, textSize,
      textSize, Json.stringify]
    omega

theorem length_encode_membersPretty (depth : ℕ) (ms : List (JsString × Json)) :
    (encode (membersPretty depth ms)).length = membersPrettySize depth ms + (2 * depth + 2) := by
  induction ms with
  | nil =>
    have hbrace : (encode ['}']).length = 1 := by decide
    rw [membersPretty, length_encode_append, length_encode_newLine, hbrace]
    exact (Nat.zero_add _).symm
  | cons m ms ih =>
    obtain ⟨k, v⟩ := m
    have hcomma : (encode [',']).length = 1 := by decide
    have hcolon : (encode [':']).length = 1 := by decide
    have hspace : (encode [' ']).length = 1 := by decide
    rw [membersPretty, length_encode_cons, length_encode_append, length_encode_newLine,
      length_encode_append, length_encode_cons ':', length_encode_cons ' ', length_encode_append, ih,
      hcomma, hcolon, hspace, membersPrettySize_cons, textSize, prettySize, Json.stringify]
    omega

/-- **The bytes of an object with a line for each member.** -/
theorem prettySize_obj (depth : ℕ) {ms : List (JsString × Json)} (h : ms ≠ []) :
    prettySize depth (.obj ms) = membersPrettySize depth ms + (2 * depth + 2) := by
  cases ms with
  | nil => exact absurd rfl h
  | cons m ms =>
    obtain ⟨k, v⟩ := m
    have hbrace : (encode ['{']).length = 1 := by decide
    have hcolon : (encode [':']).length = 1 := by decide
    have hspace : (encode [' ']).length = 1 := by decide
    rw [prettySize, Json.pretty, length_encode_cons, length_encode_append, length_encode_newLine,
      length_encode_append, length_encode_cons ':', length_encode_cons ' ', length_encode_append,
      length_encode_membersPretty, hbrace, hcolon, hspace, membersPrettySize_cons, textSize,
      prettySize, Json.stringify]
    omega

end JsonText
