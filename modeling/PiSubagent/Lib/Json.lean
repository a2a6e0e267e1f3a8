import PiSubagent.Lib.Decimal
import Mathlib.Data.List.Nodup

/-!
# JSON values and their text

* `Json`: JSON values; strings are lists of UTF-16 code units, as in ECMAScript, and `trim` takes
  white space off them.
* `Json.stringify`: the compact text of a value.
* `parse`: the reader, a machine that takes one character at a time (`step`) and keeps the open
  arrays and objects on a stack.
* **`parse_stringify`**: a value whose objects have distinct keys reads back from its text.
* **`parse_glued`**: a text that opens an object and has the whole text of another object at its
  end is no JSON text.
-/

namespace JsonText

/-- An ECMAScript string: its UTF-16 code units. -/
abbrev JsString := List UInt16

instance : LawfulBEq JsString := List.instLawfulBEq

instance : LawfulBEq (List JsString) := List.instLawfulBEq

/-- The code units of a character. -/
def unitsOf (c : Char) : JsString :=
  if c.toNat < 0x10000 then [UInt16.ofNat c.toNat]
  else [UInt16.ofNat (0xD800 + (c.toNat - 0x10000) / 0x400),
    UInt16.ofNat (0xDC00 + (c.toNat - 0x10000) % 0x400)]

/-- The ECMAScript string of a Lean one. -/
def ofString (s : String) : JsString := s.toList.flatMap unitsOf

/-- White space and line terminators of ECMAScript. -/
def isSpaceUnit (u : UInt16) : Bool :=
  u = 0x20 || (9 ≤ u && u ≤ 13) || u = 0xA0 || u = 0x1680 || (0x2000 ≤ u && u ≤ 0x200A) ||
    u = 0x2028 || u = 0x2029 || u = 0x202F || u = 0x205F || u = 0x3000 || u = 0xFEFF

/-- A list without what meets a condition at its ends. -/
def trimBy {α : Type} (p : α → Bool) (l : List α) : List α :=
  ((l.dropWhile p).reverse.dropWhile p).reverse

/-- `String.prototype.trim`. -/
def trim (s : JsString) : JsString := trimBy isSpaceUnit s

/-- A JSON value; `obj` lists the members in order. -/
inductive Json where
  | null
  | bool (b : Bool)
  | num (n : Decimal)
  | str (s : JsString)
  | arr (xs : List Json)
  | obj (members : List (JsString × Json))

/-! ## Writing -/

/-- The first half of a surrogate pair. -/
def isHigh (u : UInt16) : Bool := 0xD800 ≤ u.toNat ∧ u.toNat < 0xDC00

/-- The second half of a surrogate pair. -/
def isLow (u : UInt16) : Bool := 0xDC00 ≤ u.toNat ∧ u.toNat < 0xE000

/-- The character of a surrogate pair. -/
def pairChar (u v : UInt16) : Char :=
  Char.ofNat (0x10000 + (u.toNat - 0xD800) * 0x400 + (v.toNat - 0xDC00))

/-- The character of a code unit on its own; a lone surrogate is none and becomes `U+FFFD`. -/
def unitChar (u : UInt16) : Char := if isHigh u || isLow u then '\uFFFD' else Char.ofNat u.toNat

/-- The characters of a string, as an encoder reads them. -/
def charsOf : JsString → List Char
  | [] => []
  | [u] => [unitChar u]
  | u :: v :: us =>
    if isHigh u && isLow v then pairChar u v :: charsOf us else unitChar u :: charsOf (v :: us)

/-- A hexadecimal digit, in lower case. -/
def hexChar (d : ℕ) : Char := if d < 10 then Char.ofNat (48 + d) else Char.ofNat (87 + d)

/-- The escape `\uXXXX` of a code unit. -/
def escapeUnit (u : UInt16) : List Char :=
  ['\\', 'u', hexChar (u.toNat / 4096), hexChar (u.toNat / 256 % 16), hexChar (u.toNat / 16 % 16),
    hexChar (u.toNat % 16)]

/-- The code units with an escape of one character. -/
def shortEscape (u : UInt16) : Option Char :=
  if u = 34 then some '"'
  else if u = 92 then some '\\'
  else if u = 8 then some 'b'
  else if u = 12 then some 'f'
  else if u = 10 then some 'n'
  else if u = 13 then some 'r'
  else if u = 9 then some 't'
  else none

/-- A code unit that is no half of a pair, as it stands in a quoted string. -/
def quoteUnit (u : UInt16) : List Char :=
  match shortEscape u with
  | some c => ['\\', c]
  | none => if u.toNat < 32 then escapeUnit u else [Char.ofNat u.toNat]

/-- The inside of a quoted string: pairs become their character, lone halves are escaped. -/
def quoteUnits : JsString → List Char
  | [] => []
  | [u] => if isHigh u || isLow u then escapeUnit u else quoteUnit u
  | u :: v :: us =>
    if isHigh u && isLow v then pairChar u v :: quoteUnits us
    else if isHigh u || isLow u then escapeUnit u ++ quoteUnits (v :: us)
    else quoteUnit u ++ quoteUnits (v :: us)

/-- A quoted string. -/
def quote (s : JsString) : List Char := '"' :: (quoteUnits s ++ ['"'])

mutual

/-- The text of a value (`JSON.stringify`). -/
def Json.stringify : Json → List Char
  | .null => ['n', 'u', 'l', 'l']
  | .bool true => ['t', 'r', 'u', 'e']
  | .bool false => ['f', 'a', 'l', 's', 'e']
  | .num n => n.toText
  | .str s => quote s
  | .arr [] => ['[', ']']
  | .arr (x :: xs) => '[' :: (x.stringify ++ elemsTail xs)
  | .obj [] => ['{', '}']
  | .obj ((k, v) :: ms) => '{' :: (quote k ++ ':' :: (v.stringify ++ membersTail ms))

/-- The elements of an array after its first, and its end. -/
def elemsTail : List Json → List Char
  | [] => [']']
  | x :: xs => ',' :: (x.stringify ++ elemsTail xs)

/-- The members of an object after its first, and its end. -/
def membersTail : List (JsString × Json) → List Char
  | [] => ['}']
  | (k, v) :: ms => ',' :: (quote k ++ ':' :: (v.stringify ++ membersTail ms))

end

mutual

/-- No object in the value has a key twice. -/
def Json.Proper : Json → Prop
  | .arr xs => ElemsProper xs
  | .obj ms => (ms.map Prod.fst).Nodup ∧ MembersProper ms
  | _ => True

/-- Every element is proper. -/
def ElemsProper : List Json → Prop
  | [] => True
  | x :: xs => x.Proper ∧ ElemsProper xs

/-- Every member's value is proper. -/
def MembersProper : List (JsString × Json) → Prop
  | [] => True
  | (_, v) :: ms => v.Proper ∧ MembersProper ms

end

/-! ## Reading -/

/-- An array or object that is still open: the elements read, the members read, or the members
read and the key of the value being read. -/
inductive Frame where
  | elems (done : List Json)
  | members (done : List (JsString × Json))
  | value (done : List (JsString × Json)) (key : JsString)

/-- The three literals. -/
inductive Literal where
  | null | true | false
deriving DecidableEq, Repr

/-- What the reader is in the middle of. -/
inductive Mode where
  | value
  | firstElem
  | firstKey
  | key
  | colon
  | after (v : Json)
  | str (isKey : Bool) (acc : JsString)
  | esc (isKey : Bool) (acc : JsString)
  | hex (isKey : Bool) (acc : JsString) (left code : ℕ)
  | num (n : Numeral)
  | lit (l : Literal) (i : ℕ)

/-- The reader's state: what it is in the middle of, and what is open around it. -/
abbrev State := Mode × List Frame

/-- Set a member: a key that is there keeps its place. -/
def put (ms : List (JsString × Json)) (k : JsString) (v : Json) : List (JsString × Json) :=
  if k ∈ ms.map Prod.fst then ms.map fun m => if m.1 = k then (k, v) else m else ms ++ [(k, v)]

/-- White space between tokens. -/
def isSpace (c : Char) : Bool := c = ' ' ∨ c = '\t' ∨ c = '\n' ∨ c = '\r'

/-- The text of a literal. -/
def Literal.text : Literal → List Char
  | .null => ['n', 'u', 'l', 'l']
  | .true => ['t', 'r', 'u', 'e']
  | .false => ['f', 'a', 'l', 's', 'e']

/-- The value of a literal. -/
def Literal.json : Literal → Json
  | .null => .null
  | .true => .bool Bool.true
  | .false => .bool Bool.false

/-- The value of a hexadecimal digit. -/
def hexValue (c : Char) : Option ℕ :=
  if '0' ≤ c ∧ c ≤ '9' then some (c.toNat - 48)
  else if 'a' ≤ c ∧ c ≤ 'f' then some (c.toNat - 87)
  else if 'A' ≤ c ∧ c ≤ 'F' then some (c.toNat - 55)
  else none

/-- The first character of a value. -/
def startValue (stk : List Frame) (c : Char) : Option State :=
  if c = '{' then some (.firstKey, .members [] :: stk)
  else if c = '[' then some (.firstElem, .elems [] :: stk)
  else if c = '"' then some (.str false [], stk)
  else if c = 'n' then some (.lit .null 1, stk)
  else if c = 't' then some (.lit .true 1, stk)
  else if c = 'f' then some (.lit .false 1, stk)
  else (({} : Numeral).step c).map fun n => (.num n, stk)

/-- A character after a value. -/
def afterValue (v : Json) : List Frame → Char → Option State
  | .elems done :: stk, c =>
    if isSpace c then some (.after v, .elems done :: stk)
    else if c = ',' then some (.value, .elems (done ++ [v]) :: stk)
    else if c = ']' then some (.after (.arr (done ++ [v])), stk)
    else none
  | .value done k :: stk, c =>
    if isSpace c then some (.after v, .value done k :: stk)
    else if c = ',' then some (.key, .members (put done k v) :: stk)
    else if c = '}' then some (.after (.obj (put done k v)), stk)
    else none
  | .members done :: stk, c =>
    if isSpace c then some (.after v, .members done :: stk) else none
  | [], c => if isSpace c then some (.after v, []) else none

/-- The end of a string, which is a key or a value. -/
def endString : Bool → JsString → List Frame → Option State
  | false, s, stk => some (.after (.str s), stk)
  | true, s, .members done :: stk => some (.colon, .value done s :: stk)
  | true, _, _ => none

/-- The end of an array that has no element. -/
def closeArray : List Frame → Option State
  | .elems done :: stk => some (.after (.arr done), stk)
  | _ => none

/-- The end of an object that has no member. -/
def closeObject : List Frame → Option State
  | .members done :: stk => some (.after (.obj done), stk)
  | _ => none

/-- The code unit of a one-character escape. -/
def escapeCode (c : Char) : Option UInt16 :=
  if c = '"' then some 34
  else if c = '\\' then some 92
  else if c = '/' then some 47
  else if c = 'b' then some 8
  else if c = 'f' then some 12
  else if c = 'n' then some 10
  else if c = 'r' then some 13
  else if c = 't' then some 9
  else none

/-- One character. -/
def step : State → Char → Option State
  | (.value, stk), c => if isSpace c then some (.value, stk) else startValue stk c
  | (.firstElem, stk), c =>
    if isSpace c then some (.firstElem, stk)
    else if c = ']' then closeArray stk
    else startValue stk c
  | (.firstKey, stk), c =>
    if isSpace c then some (.firstKey, stk)
    else if c = '}' then closeObject stk
    else if c = '"' then some (.str true [], stk)
    else none
  | (.key, stk), c =>
    if isSpace c then some (.key, stk)
    else if c = '"' then some (.str true [], stk)
    else none
  | (.colon, stk), c =>
    if isSpace c then some (.colon, stk)
    else if c = ':' then some (.value, stk)
    else none
  | (.after v, stk), c => afterValue v stk c
  | (.str k acc, stk), c =>
    if c = '"' then endString k acc stk
    else if c = '\\' then some (.esc k acc, stk)
    else if c.toNat < 32 then none
    else some (.str k (acc ++ unitsOf c), stk)
  | (.esc k acc, stk), c =>
    if c = 'u' then some (.hex k acc 3 0, stk)
    else (escapeCode c).map fun u => (.str k (acc ++ [u]), stk)
  | (.hex k acc left code, stk), c =>
    (hexValue c).map fun d =>
      match left with
      | 0 => (.str k (acc ++ [UInt16.ofNat (code * 16 + d)]), stk)
      | left + 1 => (.hex k acc left (code * 16 + d), stk)
  | (.num n, stk), c =>
    match n.step c with
    | some n' => some (.num n', stk)
    | none => if n.complete then afterValue (.num n.value) stk c else none
  | (.lit l i, stk), c =>
    if l.text[i]? = some c then
      some (if i + 1 = l.text.length then .after l.json else .lit l (i + 1), stk)
    else none

/-- The characters of a text, one after the other. -/
def run (st : State) : List Char → Option State
  | [] => some st
  | c :: t => (step st c).bind fun st' => run st' t

/-- The value read when the text ends here. -/
def finish : State → Option Json
  | (.after v, []) => some v
  | (.num n, []) => if n.complete then some (.num n.value) else none
  | _ => none

/-- The value of a text (`JSON.parse`). -/
def parse (t : List Char) : Option Json := (run (.value, []) t).bind finish

theorem run_append (st : State) (s t : List Char) :
    run st (s ++ t) = (run st s).bind fun st' => run st' t := by
  induction s generalizing st with
  | nil => rfl
  | cons c s ih =>
    rw [List.cons_append, run, run]
    cases step st c with
    | none => rfl
    | some st' => exact ih st'

/-! ## Reading a quoted string -/

theorem char_toNat_ofNat {n : ℕ} (h : n.isValidChar) : (Char.ofNat n).toNat = n := by
  rw [Char.ofNat, dif_pos h]
  rfl

theorem unit_lt (u : UInt16) : u.toNat < 65536 := u.toNat_lt

theorem unit_isValidChar {u : UInt16} (h : (isHigh u || isLow u) = false) : u.toNat.isValidChar := by
  have hu := unit_lt u
  simp only [isHigh, isLow, Bool.or_eq_false_iff, decide_eq_false_iff_not] at h
  unfold Nat.isValidChar
  omega

theorem unitsOf_unit {u : UInt16} (h : (isHigh u || isLow u) = false) :
    unitsOf (Char.ofNat u.toNat) = [u] := by
  rw [unitsOf, char_toNat_ofNat (unit_isValidChar h), if_pos (unit_lt u), UInt16.ofNat_toNat]

theorem unitsOf_pairChar {u v : UInt16} (hu : isHigh u = true) (hv : isLow v = true) :
    unitsOf (pairChar u v) = [u, v] := by
  simp only [isHigh, isLow, decide_eq_true_eq] at hu hv
  have hval : (0x10000 + (u.toNat - 0xD800) * 0x400 + (v.toNat - 0xDC00)).isValidChar := by
    unfold Nat.isValidChar
    omega
  rw [unitsOf, pairChar, char_toNat_ofNat hval, if_neg (by omega),
    show 0xD800 + (0x10000 + (u.toNat - 0xD800) * 0x400 + (v.toNat - 0xDC00) - 0x10000) / 0x400 =
      u.toNat by omega,
    show 0xDC00 + (0x10000 + (u.toNat - 0xD800) * 0x400 + (v.toNat - 0xDC00) - 0x10000) % 0x400 =
      v.toNat by omega, UInt16.ofNat_toNat, UInt16.ofNat_toNat]

theorem isHigh_unit_of_lt {n : ℕ} (h : n < 0xD800 ∨ (0xDFFF < n ∧ n < 0x10000)) :
    isHigh (UInt16.ofNat n) = false ∧ isLow (UInt16.ofNat n) = false := by
  simp only [isHigh, isLow, decide_eq_false_iff_not, UInt16.toNat_ofNat']
  omega

/-- **The characters of a text's code units are the text.** -/
theorem charsOf_flatMap (t : List Char) : charsOf (t.flatMap unitsOf) = t := by
  induction t with
  | nil => rfl
  | cons c t ih =>
    have hc : c.toNat < 0xD800 ∨ (0xDFFF < c.toNat ∧ c.toNat < 0x110000) := c.valid
    rw [List.flatMap_cons, unitsOf]
    split_ifs with h
    · have hs := isHigh_unit_of_lt (n := c.toNat) (by omega)
      have hu : unitChar (UInt16.ofNat c.toNat) = c := by
        rw [unitChar, hs.1, hs.2, UInt16.toNat_ofNat', Nat.mod_eq_of_lt h]
        exact Char.ofNat_toNat c
      cases hr : t.flatMap unitsOf with
      | nil =>
        rw [hr] at ih
        rw [← ih, List.append_nil]
        change [unitChar (UInt16.ofNat c.toNat)] = [c]
        rw [hu]
      | cons v us =>
        rw [← ih, hr, List.cons_append, List.nil_append, charsOf, hs.1, hu]
        rfl
    · have hp : pairChar (UInt16.ofNat (0xD800 + (c.toNat - 0x10000) / 0x400))
          (UInt16.ofNat (0xDC00 + (c.toNat - 0x10000) % 0x400)) = c := by
        rw [pairChar, UInt16.toNat_ofNat', UInt16.toNat_ofNat',
          show 0x10000 + ((0xD800 + (c.toNat - 0x10000) / 0x400) % 2 ^ 16 - 0xD800) * 0x400 +
            ((0xDC00 + (c.toNat - 0x10000) % 0x400) % 2 ^ 16 - 0xDC00) = c.toNat by omega]
        exact Char.ofNat_toNat c
      have hh : isHigh (UInt16.ofNat (0xD800 + (c.toNat - 0x10000) / 0x400)) = true := by
        rw [isHigh, decide_eq_true_eq, UInt16.toNat_ofNat']
        omega
      have hl : isLow (UInt16.ofNat (0xDC00 + (c.toNat - 0x10000) % 0x400)) = true := by
        rw [isLow, decide_eq_true_eq, UInt16.toNat_ofNat']
        omega
      rw [List.cons_append, List.cons_append, List.nil_append, charsOf, hh, hl, hp, ih]
      rfl

theorem char_eq_of_toNat {c d : Char} (h : c.toNat = d.toNat) : c = d :=
  Char.ext (UInt32.toNat_inj.mp h)

/-- The code units of a character tell it from every other, whatever follows. -/
theorem unitsOf_append_inj {c d : Char} {s t : JsString} (h : unitsOf c ++ s = unitsOf d ++ t) :
    c = d ∧ s = t := by
  have hc : c.toNat < 0xD800 ∨ (0xDFFF < c.toNat ∧ c.toNat < 0x110000) := c.valid
  have hd : d.toNat < 0xD800 ∨ (0xDFFF < d.toNat ∧ d.toNat < 0x110000) := d.valid
  unfold unitsOf at h
  split_ifs at h with h1 h2 h2 <;> simp only [List.cons_append, List.nil_append, List.cons.injEq,
    ← UInt16.toNat_inj, UInt16.toNat_ofNat'] at h
  · exact ⟨char_eq_of_toNat (by omega), h.2⟩
  · omega
  · omega
  · exact ⟨char_eq_of_toNat (by omega), h.2.2⟩

theorem unitsOf_ne_nil (c : Char) : unitsOf c ≠ [] := by
  unfold unitsOf
  split_ifs <;> exact List.cons_ne_nil _ _

theorem ofString_injective : Function.Injective ofString := by
  intro s t h
  apply String.ext_iff.mpr
  unfold ofString at h
  generalize s.toList = xs at h ⊢
  generalize t.toList = ys at h ⊢
  induction xs generalizing ys with
  | nil =>
    cases ys with
    | nil => rfl
    | cons d ys =>
      exact absurd (List.append_eq_nil_iff.mp h.symm).1 (unitsOf_ne_nil d)
  | cons c xs ih =>
    cases ys with
    | nil => exact absurd (List.append_eq_nil_iff.mp h).1 (unitsOf_ne_nil c)
    | cons d ys =>
      obtain ⟨rfl, h'⟩ := unitsOf_append_inj h
      rw [ih ys h']

@[simp] theorem ofString_inj {s t : String} : ofString s = ofString t ↔ s = t :=
  ofString_injective.eq_iff

theorem hexValue_hexChar : ∀ d < 16, hexValue (hexChar d) = some d := by decide

/-- A character of a string that is neither its end nor an escape. -/
theorem step_str {c : Char} (h1 : c ≠ '"') (h2 : c ≠ '\\') (h3 : 32 ≤ c.toNat) (k : Bool)
    (acc : JsString) (stk : List Frame) :
    step (.str k acc, stk) c = some (.str k (acc ++ unitsOf c), stk) := by
  simp only [step, if_neg h1, if_neg h2, if_neg (Nat.not_lt.mpr h3)]

theorem run_escapeUnit (u : UInt16) (k : Bool) (acc : JsString) (stk : List Frame) :
    run (.str k acc, stk) (escapeUnit u) = some (.str k (acc ++ [u]), stk) := by
  have hu := unit_lt u
  have hcode : ((u.toNat / 4096 * 16 + u.toNat / 256 % 16) * 16 + u.toNat / 16 % 16) * 16 +
      u.toNat % 16 = u.toNat := by omega
  simp only [escapeUnit, run, step, Char.reduceEq, if_true, if_false, Option.bind_some,
    hexValue_hexChar _ (show u.toNat / 4096 < 16 by omega),
    hexValue_hexChar _ (show u.toNat / 256 % 16 < 16 by omega),
    hexValue_hexChar _ (show u.toNat / 16 % 16 < 16 by omega),
    hexValue_hexChar _ (show u.toNat % 16 < 16 by omega), Option.map_some, Nat.zero_mul,
    Nat.zero_add, hcode, UInt16.ofNat_toNat]

theorem escapeCode_shortEscape {u : UInt16} {c : Char} (h : shortEscape u = some c) :
    c ≠ 'u' ∧ escapeCode c = some u := by
  unfold shortEscape at h
  split_ifs at h with h1 h2 h3 h4 h5 h6 h7 <;>
    (obtain rfl := Option.some.inj h; subst u; decide)

theorem shortEscape_eq_none {u : UInt16} (h : shortEscape u = none) :
    u.toNat ≠ 34 ∧ u.toNat ≠ 92 := by
  constructor <;> intro e
  · rw [show u = 34 from UInt16.toNat_inj.mp e] at h
    exact absurd h (by decide)
  · rw [show u = 92 from UInt16.toNat_inj.mp e] at h
    exact absurd h (by decide)

theorem run_quoteUnit {u : UInt16} (h : (isHigh u || isLow u) = false) (k : Bool) (acc : JsString)
    (stk : List Frame) : run (.str k acc, stk) (quoteUnit u) = some (.str k (acc ++ [u]), stk) := by
  have hval := unit_isValidChar h
  unfold quoteUnit
  cases he : shortEscape u with
  | some c =>
    obtain ⟨hc, hu⟩ := escapeCode_shortEscape he
    simp only [run, step, Char.reduceEq, if_true, if_false, Option.bind_some, if_neg hc, hu,
      Option.map_some]
  | none =>
    dsimp only
    split_ifs with h32
    · exact run_escapeUnit u k acc stk
    · obtain ⟨h34, h92⟩ := shortEscape_eq_none he
      have hne : ∀ c : Char, c.toNat ≠ u.toNat → Char.ofNat u.toNat ≠ c := by
        rintro c hn rfl
        exact hn (char_toNat_ofNat hval)
      rw [run, step_str (hne _ fun e => h34 e.symm) (hne _ fun e => h92 e.symm)
        (by rw [char_toNat_ofNat hval]; omega), unitsOf_unit h]
      rfl

/-- **A quoted string is read back, code unit by code unit.** -/
theorem run_quoteUnits (s : JsString) (k : Bool) (acc : JsString) (stk : List Frame) :
    run (.str k acc, stk) (quoteUnits s) = some (.str k (acc ++ s), stk) := by
  fun_induction quoteUnits s generalizing acc with
  | case1 => simp [run]
  | case2 u h => exact run_escapeUnit u k acc stk
  | case3 u h => exact run_quoteUnit (Bool.eq_false_iff.mpr h) k acc stk
  | case4 u v us h ih =>
    obtain ⟨hu, hv⟩ := Bool.and_eq_true_iff.mp h
    have hval : 0x10000 ≤ (pairChar u v).toNat := by
      simp only [isHigh, isLow, decide_eq_true_eq] at hu hv
      rw [pairChar, char_toNat_ofNat (by unfold Nat.isValidChar; omega)]
      omega
    have hne : ∀ c : Char, c.toNat < 0x10000 → pairChar u v ≠ c := fun c hc e => by
      rw [e] at hval; omega
    rw [run, step_str (hne _ (by decide)) (hne _ (by decide)) (by omega), Option.bind_some, ih,
      unitsOf_pairChar hu hv, List.append_assoc]
    rfl
  | case5 u v us h1 h2 ih =>
    rw [run_append, run_escapeUnit, Option.bind_some, ih, List.append_assoc]
    rfl
  | case6 u v us h1 h2 ih =>
    rw [run_append, run_quoteUnit (Bool.eq_false_iff.mpr h2), Option.bind_some, ih,
      List.append_assoc]
    rfl

theorem run_string (s : JsString) (k : Bool) (stk : List Frame) :
    run (.str k [], stk) (quoteUnits s ++ ['"']) = endString k s stk := by
  rw [run_append, run_quoteUnits, Option.bind_some, List.nil_append, run]
  simp only [step, if_true]
  cases endString k s stk <;> rfl

/-! ## The round trip -/

/-- The reader has read `v`, or a numeral that may end as `v`. -/
def Holds (v : Json) : Mode → Prop
  | .after w => w = v
  | .num n => n.complete = true ∧ .num n.value = v
  | _ => False

/-- The characters that may stand right after a value in compact text. -/
def isDelimiter (c : Char) : Bool := c = ',' ∨ c = ']' ∨ c = '}'

theorem numeral_step_delimiter (n : Numeral) {c : Char} (hc : isDelimiter c = true) :
    n.step c = none := by
  simp only [isDelimiter, decide_eq_true_eq] at hc
  by_contra h
  obtain ⟨n', hn⟩ := Option.ne_none_iff_exists'.mp h
  rcases hc with rfl | rfl | rfl <;> exact absurd (Numeral.step_char hn) (by decide)

theorem step_delimiter {v : Json} {m : Mode} (h : Holds v m) (stk : List Frame) {c : Char}
    (hc : isDelimiter c = true) : step (m, stk) c = afterValue v stk c := by
  cases m with
  | after w => rw [show w = v from h]; rfl
  | num n =>
    obtain ⟨h1, rfl⟩ := h
    simp only [step, numeral_step_delimiter n hc, h1, if_true]
  | _ => exact h.elim

theorem finish_holds {v : Json} {m : Mode} (h : Holds v m) : finish (m, []) = some v := by
  cases m with
  | after w => rw [show w = v from h]; rfl
  | num n =>
    obtain ⟨h1, rfl⟩ := h
    simp only [finish, h1, if_true]
  | _ => exact h.elim

theorem numeral_step_begin {n : Numeral} {c : Char} (h : ({} : Numeral).step c = some n) :
    c = '-' ∨ c.isDigit = true := by
  simp only [Numeral.step, Numeral.leadDigit] at h
  split_ifs at h with h1 h2 h3
  · exact Or.inl h1
  · exact Or.inr (h2 ▸ rfl)
  · exact Or.inr h3

theorem toText_eq_cons (d : Decimal) :
    ∃ c t, d.toText = c :: t ∧ (c = '-' ∨ c.isDigit = true) := by
  obtain ⟨r, hr, hc, -⟩ := Numeral.read_toText d
  cases ht : d.toText with
  | nil =>
    rw [ht, Numeral.read] at hr
    obtain rfl := Option.some.inj hr
    exact absurd hc (by decide)
  | cons c t =>
    rw [ht, Numeral.read] at hr
    obtain ⟨n, hn, -⟩ := Option.bind_eq_some_iff.mp hr
    exact ⟨c, t, rfl, numeral_step_begin hn⟩

theorem ne_of_numeral_start {c : Char} (h : c = '-' ∨ c.isDigit = true) {d : Char}
    (hd : d ≠ '-' ∧ d.isDigit = false) : c ≠ d := by
  rintro rfl
  rcases h with h | h
  · exact hd.1 h
  · rw [hd.2] at h
    exact Bool.false_ne_true h

theorem stringify_eq_cons (v : Json) : ∃ c t, v.stringify = c :: t ∧ isSpace c = false ∧ c ≠ ']' := by
  cases v with
  | num n =>
    obtain ⟨c, t, ht, hc⟩ := toText_eq_cons n
    refine ⟨c, t, by rw [Json.stringify, ht], ?_, ne_of_numeral_start hc (by decide)⟩
    have hne : ∀ d : Char, d ≠ '-' ∧ d.isDigit = false → c ≠ d := fun d => ne_of_numeral_start hc
    simp only [isSpace, decide_eq_false_iff_not, not_or]
    exact ⟨hne _ (by decide), hne _ (by decide), hne _ (by decide), hne _ (by decide)⟩
  | bool b => cases b <;> exact ⟨_, _, rfl, rfl, by decide⟩
  | arr xs => cases xs <;> exact ⟨_, _, rfl, rfl, by decide⟩
  | obj ms => cases ms <;> exact ⟨_, _, rfl, rfl, by decide⟩
  | null => exact ⟨_, _, rfl, rfl, by decide⟩
  | str s => exact ⟨_, _, rfl, rfl, by decide⟩

theorem run_firstElem (v : Json) (t : List Char) (done : List Json) (stk : List Frame) :
    run (.firstElem, .elems done :: stk) (v.stringify ++ t) =
      run (.value, .elems done :: stk) (v.stringify ++ t) := by
  obtain ⟨c, u, hu, hs, hc⟩ := stringify_eq_cons v
  simp only [hu, List.cons_append, run, step, hs, Bool.false_eq_true, if_false, if_neg hc]

theorem run_numeral {n r : Numeral} {t : List Char} (h : n.read t = some r) (stk : List Frame) :
    run (.num n, stk) t = some (.num r, stk) := by
  induction t generalizing n with
  | nil => rw [← Option.some.inj h]; rfl
  | cons c t ih =>
    rw [Numeral.read] at h
    obtain ⟨n', hn, hr⟩ := Option.bind_eq_some_iff.mp h
    simp only [run, step, hn, Option.bind_some]
    exact ih hr

theorem run_toText (d : Decimal) (stk : List Frame) :
    ∃ m, run (.value, stk) d.toText = some (m, stk) ∧ Holds (.num d) m := by
  obtain ⟨r, hr, hc, hv⟩ := Numeral.read_toText d
  obtain ⟨c, t, ht, hd⟩ := toText_eq_cons d
  have hne : ∀ x : Char, x ≠ '-' ∧ x.isDigit = false → c ≠ x := fun x => ne_of_numeral_start hd
  rw [ht, Numeral.read] at hr
  obtain ⟨n, hn, hr⟩ := Option.bind_eq_some_iff.mp hr
  refine ⟨.num r, ?_, hc, by rw [hv]⟩
  have hs : isSpace c = false := by
    simp only [isSpace, decide_eq_false_iff_not, not_or]
    exact ⟨hne _ (by decide), hne _ (by decide), hne _ (by decide), hne _ (by decide)⟩
  have hstart : startValue stk c = some (.num n, stk) := by
    simp only [startValue, if_neg (hne '{' (by decide)), if_neg (hne '[' (by decide)),
      if_neg (hne '"' (by decide)), if_neg (hne 'n' (by decide)), if_neg (hne 't' (by decide)),
      if_neg (hne 'f' (by decide)), hn, Option.map_some]
  simp only [ht, run, step, hs, Bool.false_eq_true, if_false, hstart, Option.bind_some]
  exact run_numeral hr stk

theorem put_of_notMem {ms : List (JsString × Json)} {k : JsString} (h : k ∉ ms.map Prod.fst)
    (v : Json) : put ms k v = ms ++ [(k, v)] := if_neg h

theorem run_key (k : JsString) (t : List Char) (done : List (JsString × Json)) (stk : List Frame) :
    run (.key, .members done :: stk) (quote k ++ ':' :: t) =
      run (.value, .value done k :: stk) t := by
  rw [quote, List.cons_append, run, show step (.key, .members done :: stk) '"' =
    some (.str true [], .members done :: stk) from rfl, Option.bind_some, run_append, run_string]
  simp only [endString, Option.bind_some, run, step, isSpace, Char.reduceEq, or_self, decide_false,
    Bool.false_eq_true, if_false, if_true]

theorem run_firstKey (k : JsString) (t : List Char) (done : List (JsString × Json))
    (stk : List Frame) :
    run (.firstKey, .members done :: stk) (quote k ++ ':' :: t) =
      run (.value, .value done k :: stk) t := by
  rw [← run_key]
  rfl

mutual

/-- **A value is read from its text**, wherever the text stands. -/
theorem run_stringify : ∀ (v : Json), v.Proper → ∀ stk : List Frame,
    ∃ m, run (.value, stk) v.stringify = some (m, stk) ∧ Holds v m
  | .null, _, stk => ⟨.after .null, rfl, rfl⟩
  | .bool true, _, stk => ⟨.after (.bool true), rfl, rfl⟩
  | .bool false, _, stk => ⟨.after (.bool false), rfl, rfl⟩
  | .num n, _, stk => run_toText n stk
  | .str s, _, stk => by
    refine ⟨.after (.str s), ?_, rfl⟩
    rw [Json.stringify, quote, run, show step (.value, stk) '"' = some (.str false [], stk) from rfl,
      Option.bind_some, run_string]
    rfl
  | .arr [], _, stk => ⟨.after (.arr []), rfl, rfl⟩
  | .arr (x :: xs), h, stk => by
    obtain ⟨hx, hxs⟩ : x.Proper ∧ ElemsProper xs := by simpa only [Json.Proper, ElemsProper] using h
    obtain ⟨m, hm, hv⟩ := run_stringify x hx (.elems [] :: stk)
    refine ⟨.after (.arr (x :: xs)), ?_, rfl⟩
    rw [Json.stringify, run,
      show step (.value, stk) '[' = some (.firstElem, .elems [] :: stk) from rfl, Option.bind_some,
      run_firstElem, run_append, hm, Option.bind_some, run_elemsTail xs hxs x m hv, List.nil_append]
  | .obj [], _, stk => ⟨.after (.obj []), rfl, rfl⟩
  | .obj ((k, v) :: ms), h, stk => by
    obtain ⟨hk, hv, hms⟩ : (((k, v) :: ms).map Prod.fst).Nodup ∧ v.Proper ∧ MembersProper ms := by
      simpa only [Json.Proper, MembersProper] using h
    obtain ⟨m, hm, hh⟩ := run_stringify v hv (.value [] k :: stk)
    refine ⟨.after (.obj ((k, v) :: ms)), ?_, rfl⟩
    rw [Json.stringify, run,
      show step (.value, stk) '{' = some (.firstKey, .members [] :: stk) from rfl, Option.bind_some,
      run_firstKey, run_append, hm, Option.bind_some,
      run_membersTail ms hms k v m hh [] (by simpa using hk), List.nil_append]

theorem run_elemsTail : ∀ (xs : List Json), ElemsProper xs → ∀ (v : Json) (m : Mode), Holds v m →
    ∀ (done : List Json) (stk : List Frame),
      run (m, .elems done :: stk) (elemsTail xs) = some (.after (.arr (done ++ v :: xs)), stk)
  | [], _, v, m, hm, done, stk => by
    rw [elemsTail, run, step_delimiter hm _ (by decide)]
    rfl
  | x :: xs, h, v, m, hm, done, stk => by
    obtain ⟨hx, hxs⟩ : x.Proper ∧ ElemsProper xs := by simpa only [ElemsProper] using h
    obtain ⟨m', hr, hv⟩ := run_stringify x hx (.elems (done ++ [v]) :: stk)
    rw [elemsTail, run, step_delimiter hm _ (by decide),
      show afterValue v (.elems done :: stk) ',' = some (.value, .elems (done ++ [v]) :: stk) from
        rfl,
      Option.bind_some, run_append, hr, Option.bind_some, run_elemsTail xs hxs x m' hv,
      List.append_assoc]
    rfl

theorem run_membersTail : ∀ (ms : List (JsString × Json)), MembersProper ms →
    ∀ (k : JsString) (v : Json) (m : Mode), Holds v m → ∀ (done : List (JsString × Json)),
      ((done ++ (k, v) :: ms).map Prod.fst).Nodup → ∀ stk : List Frame,
        run (m, .value done k :: stk) (membersTail ms) =
          some (.after (.obj (done ++ (k, v) :: ms)), stk)
  | [], _, k, v, m, hm, done, hk, stk => by
    have hnot : k ∉ done.map Prod.fst := by
      rw [List.map_append, List.nodup_append] at hk
      exact fun hin => hk.2.2 k hin k List.mem_cons_self rfl
    rw [membersTail, run, step_delimiter hm _ (by decide), show afterValue v (.value done k :: stk) '}'
      = some (.after (.obj (put done k v)), stk) from rfl, put_of_notMem hnot]
    rfl
  | (k', v') :: ms, h, k, v, m, hm, done, hk, stk => by
    obtain ⟨hv, hms⟩ : v'.Proper ∧ MembersProper ms := by simpa only [MembersProper] using h
    have hnot : k ∉ done.map Prod.fst := by
      rw [List.map_append, List.nodup_append] at hk
      exact fun hin => hk.2.2 k hin k List.mem_cons_self rfl
    have hk' : (((done ++ [(k, v)]) ++ (k', v') :: ms).map Prod.fst).Nodup := by
      rwa [List.append_assoc]
    obtain ⟨m', hr, hh⟩ := run_stringify v' hv (.value (done ++ [(k, v)]) k' :: stk)
    rw [membersTail, run, step_delimiter hm _ (by decide), show afterValue v (.value done k :: stk) ','
      = some (.key, .members (put done k v) :: stk) from rfl, Option.bind_some, put_of_notMem hnot,
      run_key, run_append, hr, Option.bind_some,
      run_membersTail ms hms k' v' m' hh (done ++ [(k, v)]) hk' stk, List.append_assoc]
    rfl

end

/-- **A value reads back from its text.** -/
theorem parse_stringify {v : Json} (h : v.Proper) : parse v.stringify = some v := by
  obtain ⟨m, hm, hv⟩ := run_stringify v h []
  rw [parse, hm, Option.bind_some, finish_holds hv]

theorem step_newline {v : Json} {m : Mode} (h : Holds v m) (stk : List Frame) :
    step (m, stk) '\n' = some (.after v, stk) := by
  have hafter : afterValue v stk '\n' = some (.after v, stk) := by
    unfold afterValue
    split <;> rfl
  cases m with
  | after w => rw [show w = v from h]; exact hafter
  | num n =>
    obtain ⟨h1, rfl⟩ := h
    have hn : n.step '\n' = none := by
      by_contra hne
      obtain ⟨n', hn'⟩ := Option.ne_none_iff_exists'.mp hne
      exact absurd (Numeral.step_char hn') (by decide)
    simp only [step, hn, h1, if_true, hafter]
  | _ => exact h.elim

theorem parse_stringify_newline {v : Json} (h : v.Proper) :
    parse (v.stringify ++ ['\n']) = some v := by
  obtain ⟨m, hm, hv⟩ := run_stringify v h []
  rw [parse, run_append, hm, Option.bind_some, run, step_newline hv]
  rfl

/-! ## No control characters -/

/-- A text without control characters, so without line breaks. -/
def Printable (t : List Char) : Prop := ∀ c ∈ t, 32 ≤ c.toNat

theorem Printable.append {s t : List Char} (hs : Printable s) (ht : Printable t) :
    Printable (s ++ t) := fun c hc => (List.mem_append.mp hc).elim (hs c) (ht c)

theorem Printable.cons {c : Char} {t : List Char} (hc : 32 ≤ c.toNat) (ht : Printable t) :
    Printable (c :: t) := fun x hx => (List.mem_cons.mp hx).elim (fun e => e ▸ hc) (ht x)

theorem Printable.nil : Printable [] := fun _ h => absurd h List.not_mem_nil

theorem Printable.newline_notMem {t : List Char} (h : Printable t) : '\n' ∉ t := fun hm =>
  absurd (h _ hm) (by decide)

theorem isDigit_printable {c : Char} (h : c.isDigit = true) : 32 ≤ c.toNat := by
  simp only [Char.isDigit, Bool.and_eq_true, decide_eq_true_eq, ge_iff_le] at h
  have h1 : '0'.val.toNat ≤ c.val.toNat := h.1
  have h2 : c.toNat = c.val.toNat := rfl
  have h3 : '0'.val.toNat = 48 := rfl
  omega

theorem numeral_step_printable {n n' : Numeral} {c : Char} (h : n.step c = some n') :
    32 ≤ c.toNat := by
  rcases Numeral.step_char h with hd | hm
  · exact isDigit_printable hd
  · have hall : (['-', '+', '.', 'e', 'E'].all fun c => decide (32 ≤ c.toNat)) = true := by decide
    exact of_decide_eq_true (List.all_eq_true.mp hall c hm)

theorem numeral_read_printable {n n' : Numeral} {t : List Char} (h : n.read t = some n') :
    Printable t := by
  induction t generalizing n with
  | nil => exact Printable.nil
  | cons c t ih =>
    rw [Numeral.read] at h
    obtain ⟨m, hm, hr⟩ := Option.bind_eq_some_iff.mp h
    exact Printable.cons (numeral_step_printable hm) (ih hr)

theorem hexChar_printable : ∀ d < 16, 32 ≤ (hexChar d).toNat := by decide

theorem escapeUnit_printable (u : UInt16) : Printable (escapeUnit u) := by
  have hu := unit_lt u
  exact Printable.cons (by decide) (Printable.cons (by decide)
    (Printable.cons (hexChar_printable _ (by omega)) (Printable.cons (hexChar_printable _ (by omega))
      (Printable.cons (hexChar_printable _ (by omega))
        (Printable.cons (hexChar_printable _ (by omega)) Printable.nil)))))

theorem shortEscape_printable {u : UInt16} {c : Char} (h : shortEscape u = some c) :
    32 ≤ c.toNat := by
  unfold shortEscape at h
  split_ifs at h <;> (obtain rfl := Option.some.inj h; decide)

theorem quoteUnit_printable {u : UInt16} (h : (isHigh u || isLow u) = false) :
    Printable (quoteUnit u) := by
  unfold quoteUnit
  cases he : shortEscape u with
  | some c => exact Printable.cons (by decide) (Printable.cons (shortEscape_printable he) .nil)
  | none =>
    dsimp only
    split_ifs with h32
    · exact escapeUnit_printable u
    · refine Printable.cons ?_ Printable.nil
      rw [char_toNat_ofNat (unit_isValidChar h)]
      omega

theorem quoteUnits_printable (s : JsString) : Printable (quoteUnits s) := by
  fun_induction quoteUnits s with
  | case1 => exact Printable.nil
  | case2 u h => exact escapeUnit_printable u
  | case3 u h => exact quoteUnit_printable (Bool.eq_false_iff.mpr h)
  | case4 u v us h ih =>
    obtain ⟨hu, hv⟩ := Bool.and_eq_true_iff.mp h
    refine Printable.cons ?_ ih
    simp only [isHigh, isLow, decide_eq_true_eq] at hu hv
    rw [pairChar, char_toNat_ofNat (by unfold Nat.isValidChar; omega)]
    omega
  | case5 u v us h1 h2 ih => exact (escapeUnit_printable u).append ih
  | case6 u v us h1 h2 ih => exact (quoteUnit_printable (Bool.eq_false_iff.mpr h2)).append ih

theorem quote_printable (s : JsString) : Printable (quote s) :=
  Printable.cons (by decide)
    ((quoteUnits_printable s).append (Printable.cons (by decide) Printable.nil))

theorem literal_printable (l : Literal) : Printable l.text := by
  have hall : (l.text.all fun c => decide (32 ≤ c.toNat)) = true := by cases l <;> decide
  exact fun c hc => of_decide_eq_true (List.all_eq_true.mp hall c hc)

theorem literal_noBrace (l : Literal) : ∀ c ∈ l.text, c ≠ '{' := by
  have hall : (l.text.all fun c => decide (c ≠ '{')) = true := by cases l <;> decide
  exact fun c hc => of_decide_eq_true (List.all_eq_true.mp hall c hc)

mutual

/-- **The text of a value has no control character.** -/
theorem stringify_printable : ∀ v : Json, Printable v.stringify
  | .null => literal_printable .null
  | .bool true => literal_printable .true
  | .bool false => literal_printable .false
  | .num n => by
    obtain ⟨r, hr, -, -⟩ := Numeral.read_toText n
    exact numeral_read_printable hr
  | .str s => quote_printable s
  | .arr [] => .cons (by decide) (.cons (by decide) .nil)
  | .arr (x :: xs) => by
    rw [Json.stringify]
    exact .cons (by decide) ((stringify_printable x).append (elemsTail_printable xs))
  | .obj [] => .cons (by decide) (.cons (by decide) .nil)
  | .obj ((k, v) :: ms) => by
    rw [Json.stringify]
    exact .cons (by decide) ((quote_printable k).append (.cons (by decide)
      ((stringify_printable v).append (membersTail_printable ms))))

theorem elemsTail_printable : ∀ xs : List Json, Printable (elemsTail xs)
  | [] => .cons (by decide) .nil
  | x :: xs => by
    rw [elemsTail]
    exact .cons (by decide) ((stringify_printable x).append (elemsTail_printable xs))

theorem membersTail_printable : ∀ ms : List (JsString × Json), Printable (membersTail ms)
  | [] => .cons (by decide) .nil
  | (k, v) :: ms => by
    rw [membersTail]
    exact .cons (by decide) ((quote_printable k).append (.cons (by decide)
      ((stringify_printable v).append (membersTail_printable ms))))

end

/-! ## Glued texts -/

/-- The reader is inside something, or has read a whole value. -/
def Inside (st : State) : Prop := st.2 ≠ [] ∨ ∃ v, st.1 = .after v

theorem Inside.of_cons {m : Mode} {f : Frame} {stk : List Frame} : Inside (m, f :: stk) :=
  Or.inl (List.cons_ne_nil _ _)

theorem Inside.of_after {v : Json} {stk : List Frame} : Inside (.after v, stk) := Or.inr ⟨v, rfl⟩

theorem afterValue_inside {v : Json} {stk : List Frame} {c : Char} {st : State}
    (h : afterValue v stk c = some st) : Inside st := by
  unfold afterValue at h
  split at h <;> split_ifs at h <;> obtain rfl := Option.some.inj h
  all_goals first
    | exact .of_after
    | exact .of_cons

theorem startValue_inside {stk : List Frame} (hs : stk ≠ []) {c : Char} {st : State}
    (h : startValue stk c = some st) : Inside st := by
  have hstk : st.2 ≠ [] := by
    unfold startValue at h
    split_ifs at h
    case neg =>
      obtain ⟨n, -, rfl⟩ := Option.map_eq_some_iff.mp h
      exact hs
    all_goals obtain rfl := Option.some.inj h
    all_goals first
      | exact List.cons_ne_nil _ _
      | exact hs
  exact Or.inl hstk

theorem endString_inside {k : Bool} {s : JsString} {stk : List Frame} {st : State}
    (h : endString k s stk = some st) : Inside st := by
  unfold endString at h
  split at h
  · exact Option.some.inj h ▸ .of_after
  · exact Option.some.inj h ▸ .of_cons
  · cases h

theorem closeArray_inside {stk : List Frame} {st : State} (h : closeArray stk = some st) :
    Inside st := by
  unfold closeArray at h
  split at h
  · exact Option.some.inj h ▸ .of_after
  · cases h

theorem closeObject_inside {stk : List Frame} {st : State} (h : closeObject stk = some st) :
    Inside st := by
  unfold closeObject at h
  split at h
  · exact Option.some.inj h ▸ .of_after
  · cases h

/-- **Once inside, always inside**: only a whole value closes the outermost array or object. -/
theorem step_inside {st st' : State} {c : Char} (hi : Inside st) (h : step st c = some st') :
    Inside st' := by
  obtain ⟨m, stk⟩ := st
  rcases hi with hs | ⟨v, rfl⟩
  swap
  · exact afterValue_inside h
  replace hs : stk ≠ [] := hs
  have stay : ∀ {m : Mode}, some (m, stk) = some st' → Inside st' := fun e =>
    Option.some.inj e ▸ Or.inl hs
  cases m with
  | after v => exact afterValue_inside h
  | value =>
    simp only [step] at h
    split_ifs at h
    · exact stay h
    · exact startValue_inside hs h
  | firstElem =>
    simp only [step] at h
    split_ifs at h
    · exact stay h
    · exact closeArray_inside h
    · exact startValue_inside hs h
  | firstKey =>
    simp only [step] at h
    split_ifs at h
    · exact stay h
    · exact closeObject_inside h
    · exact stay h
  | key =>
    simp only [step] at h
    split_ifs at h
    · exact stay h
    · exact stay h
  | colon =>
    simp only [step] at h
    split_ifs at h
    · exact stay h
    · exact stay h
  | str k acc =>
    simp only [step] at h
    split_ifs at h
    · exact endString_inside h
    · exact stay h
    · exact stay h
  | esc k acc =>
    simp only [step] at h
    split_ifs at h
    · exact stay h
    · obtain ⟨u, -, hu⟩ := Option.map_eq_some_iff.mp h
      exact stay (congrArg some hu)
  | hex k acc left code =>
    simp only [step] at h
    obtain ⟨d, -, hd⟩ := Option.map_eq_some_iff.mp h
    cases left with
    | zero => exact stay (congrArg some hd)
    | succ left => exact stay (congrArg some hd)
  | num n =>
    simp only [step] at h
    split at h
    · exact stay h
    · split_ifs at h
      exact afterValue_inside h
  | lit l i =>
    simp only [step] at h
    split_ifs at h
    · exact Option.some.inj h ▸ .of_after
    · exact stay h

theorem run_inside {st st' : State} {t : List Char} (hi : Inside st) (h : run st t = some st') :
    Inside st' := by
  induction t generalizing st with
  | nil => exact Option.some.inj h ▸ hi
  | cons c t ih =>
    rw [run] at h
    obtain ⟨s, hs, hr⟩ := Option.bind_eq_some_iff.mp h
    exact ih (step_inside hi hs) hr

theorem endString_letter {k : Bool} {s : JsString} {stk : List Frame} {c : Char}
    (hc : c.isAlpha = true) : ((endString k s stk).bind fun st => step st c) = none := by
  have hne : ∀ d : Char, d.isAlpha = false → c ≠ d := by
    rintro d hd rfl
    exact Bool.false_ne_true (hd.symm.trans hc)
  have hspace : isSpace c = false := by
    simp only [isSpace, decide_eq_false_iff_not, not_or]
    exact ⟨hne _ (by decide), hne _ (by decide), hne _ (by decide), hne _ (by decide)⟩
  have hafter : ∀ v, afterValue v stk c = none := by
    intro v
    unfold afterValue
    split <;> simp only [hspace, Bool.false_eq_true, if_false, if_neg (hne ',' (by decide)),
      if_neg (hne ']' (by decide)), if_neg (hne '}' (by decide))]
  cases k with
  | false => exact hafter _
  | true =>
    unfold endString
    split
    · contradiction
    · simp only [Option.bind_some, step, hspace, Bool.false_eq_true, if_false,
        if_neg (hne ':' (by decide))]
    · rfl

/-- Where an object begins inside something, it is read as a value or not at all. -/
theorem step_object_inside {st : State} (hi : Inside st) {c : Char} (hc : c.isAlpha = true)
    (t : List Char) :
    run st ('{' :: '"' :: c :: t) = none ∨
      (st.2 ≠ [] ∧ run st ('{' :: '"' :: c :: t) = run (.value, st.2) ('{' :: '"' :: c :: t)) := by
  obtain ⟨m, stk⟩ := st
  have hafter : ∀ v, afterValue v stk '{' = none := by
    intro v
    unfold afterValue
    split <;> rfl
  cases m with
  | after v =>
    left
    rw [run, show step (.after v, stk) '{' = afterValue v stk '{' from rfl, hafter]
    rfl
  | value =>
    rcases hi with hs | ⟨v, hv⟩
    · exact Or.inr ⟨hs, rfl⟩
    · cases hv
  | firstElem =>
    rcases hi with hs | ⟨v, hv⟩
    · exact Or.inr ⟨hs, rfl⟩
    · cases hv
  | firstKey => exact Or.inl rfl
  | key => exact Or.inl rfl
  | colon => exact Or.inl rfl
  | str k acc =>
    left
    -- the brace joins the string, the quote ends it, and the letter cannot follow
    rw [run, show step (.str k acc, stk) '{' = some (.str k (acc ++ unitsOf '{'), stk) from rfl,
      Option.bind_some, run, show step (.str k (acc ++ unitsOf '{'), stk) '"' =
        endString k (acc ++ unitsOf '{') stk from rfl]
    have h : ((endString k (acc ++ unitsOf '{') stk).bind fun st => step st c) = none :=
      endString_letter hc
    cases he : endString k (acc ++ unitsOf '{') stk with
    | none => rfl
    | some s =>
      rw [he, Option.bind_some] at h
      rw [Option.bind_some, run, h]
      rfl
  | esc k acc => exact Or.inl rfl
  | hex k acc left code => exact Or.inl rfl
  | num n =>
    left
    have hn : n.step '{' = none := by
      by_contra h
      obtain ⟨n', hn⟩ := Option.ne_none_iff_exists'.mp h
      exact absurd (Numeral.step_char hn) (by decide)
    simp only [run, step, hn, hafter, ite_self, Option.bind_none]
  | lit l i =>
    left
    have hl : ¬ l.text[i]? = some '{' := by
      intro h
      exact absurd (literal_noBrace l _ (List.mem_of_getElem? h)) (by decide)
    simp only [run, step, if_neg hl, Option.bind_none]

/-- **A text that opens an object, breaks off anywhere and goes on with the whole text of another
object is no JSON text.** -/
theorem parse_glued (q : List Char) {k : JsString} {v : Json} {ms : List (JsString × Json)}
    (hp : (Json.obj ((k, v) :: ms)).Proper) {c : Char} {t : List Char} (hk : quoteUnits k = c :: t)
    (hc : c.isAlpha = true) :
    parse ('{' :: (q ++ (Json.obj ((k, v) :: ms)).stringify)) = none := by
  obtain ⟨u, hu⟩ : ∃ u, (Json.obj ((k, v) :: ms)).stringify = '{' :: '"' :: c :: u := by
    refine ⟨t ++ '"' :: ':' :: (v.stringify ++ membersTail ms), ?_⟩
    simp only [Json.stringify, quote, hk, List.cons_append, List.append_assoc, List.nil_append]
  unfold parse
  rw [run, show step (.value, []) '{' = some (.firstKey, [.members []]) from rfl, Option.bind_some,
    run_append]
  cases hq : run (.firstKey, [.members []]) q with
  | none => rfl
  | some st =>
    have hi : Inside st := run_inside .of_cons hq
    rw [Option.bind_some, hu]
    rcases step_object_inside hi hc u with h | ⟨hs, h⟩
    · rw [h]
      rfl
    · obtain ⟨m, hm, -⟩ := run_stringify _ hp st.2
      rw [h, ← hu, hm, Option.bind_some]
      cases hstk : st.2 with
      | nil => exact absurd hstk hs
      | cons f stk => cases m <;> rfl

end JsonText
