import PiSubagent.Lib.Double
import PiSubagent.Lib.Json
import PiSubagent.Lib.OrderedMap
import PiSubagent.Lib.Utf8
import PiSubagent.Preflight.Compile

/-!
# Canonical JSON

Values as `JSON.parse` returns them, with the order of their properties, and the canonical text that
all identities of plans, requests and resources are digests of.

* `Value`, `parse`, `Value.stringify`: ECMAScript values, `JSON.parse` and `JSON.stringify`.
* `normalize`, `canonicalJson`, `canonicalSha256`: as the code computes them.
* `Same`: equality of JSON values, objects as finite maps and `-0` as `0`.
* **`canonical_iff`**: the canonical text identifies two values and reads back as them exactly when
  no object in them has the key `__proto__` and their numbers are finite.
* **`canonical_proto`**: the member `__proto__` is lost.
-/

namespace PiSubagent

open JsonText

namespace Preflight.Canonical

open OrderedMap

/-! ## Values -/

/-- A number that `JSON.parse` can return. -/
inductive Number where
  | finite (x : Double)
  | infinity (neg : Bool)
deriving DecidableEq, Repr

/-- A value that `JSON.parse` can return; `obj` lists the properties in the order they were made. -/
inductive Value where
  | null
  | bool (b : Bool)
  | num (n : Number)
  | str (s : JsString)
  | arr (xs : List Value)
  | obj (members : List (JsString × Value))

/-- The array index that a key is, if it is one. -/
def arrayIndex (k : JsString) : Option ℕ :=
  let n := k.foldl (fun a u => a * 10 + (u.toNat - 48)) 0
  if k ≠ [] ∧ k.all isDigitUnit = true ∧ (k = [48] ∨ k.head? ≠ some 48) ∧ n < 2 ^ 32 - 1 then some n
  else none

/-- The members of an object in the order of `OrdinaryOwnPropertyKeys`: array indices first, in
ascending order, then the other keys as they were made. -/
def enumerate {α : Type} (ms : List (JsString × α)) : List (JsString × α) :=
  (ms.filter fun m => (arrayIndex m.1).isSome).insertionSort
      (fun a b => (arrayIndex a.1).getD 0 ≤ (arrayIndex b.1).getD 0) ++
    ms.filter fun m => !(arrayIndex m.1).isSome

/-- A number as `JSON.stringify` writes it. -/
def Number.toJson : Number → Json
  | .finite x => .num x.toDecimal
  | .infinity _ => .null

mutual

/-- A value as `JSON.stringify` goes through it. -/
def Value.toJson : Value → Json
  | .null => .null
  | .bool b => .bool b
  | .num n => n.toJson
  | .str s => .str s
  | .arr xs => .arr (elemsToJson xs)
  | .obj ms => .obj (enumerate (membersToJson ms))

/-- The elements of an array. -/
def elemsToJson : List Value → List Json
  | [] => []
  | x :: xs => x.toJson :: elemsToJson xs

/-- The members of an object. -/
def membersToJson : List (JsString × Value) → List (JsString × Json)
  | [] => []
  | (k, v) :: ms => (k, v.toJson) :: membersToJson ms

end

/-- `JSON.stringify`. -/
def Value.stringify (v : Value) : List Char := v.toJson.stringify

/-- The number a decimal is read as. -/
def Number.ofDecimal (d : Decimal) : Number :=
  match Double.ofDecimal d with
  | some x => .finite x
  | none => .infinity d.neg

mutual

/-- The value of a JSON text that has been read. -/
def ofJson : Json → Value
  | .null => .null
  | .bool b => .bool b
  | .num d => .num (.ofDecimal d)
  | .str s => .str s
  | .arr xs => .arr (ofElems xs)
  | .obj ms => .obj (ofMembers ms)

/-- The elements of an array. -/
def ofElems : List Json → List Value
  | [] => []
  | x :: xs => ofJson x :: ofElems xs

/-- The members of an object. -/
def ofMembers : List (JsString × Json) → List (JsString × Value)
  | [] => []
  | (k, v) :: ms => (k, ofJson v) :: ofMembers ms

end

/-- `JSON.parse`; `-0` is read as `0`, which is the same value. -/
def parse (t : List Char) : Option Value := (JsonText.parse t).map ofJson

/-! ## The canonical text -/

/-- The key that `Object.prototype` has a setter for. -/
def protoKey : JsString := ofString "__proto__"

/-- `result[key] = value`, on an object with the usual prototype: the setter of `__proto__` makes no
property. -/
def assign (result : List (JsString × Value)) (m : JsString × Value) : List (JsString × Value) :=
  if m.1 = protoKey then result else set m.1 m.2 result

/-- A number of the canonical text. -/
def normalizeNumber : Number → Except String Number
  | .infinity _ => .error "non-finite canonical number"
  | .finite x => .ok (.finite x.posZero)

mutual

/-- `normalize`; a parsed value is no part of itself and has no `undefined` fields. -/
def normalize : Value → Except String Value
  | .null => .ok .null
  | .bool b => .ok (.bool b)
  | .num n => (normalizeNumber n).map .num
  | .str s => .ok (.str s)
  | .arr xs => (normalizeAll xs).map .arr
  | .obj ms => (normalizeMembers ms).map fun ms => .obj ((sortBy Prod.fst ms).foldl assign [])

/-- `normalize`, for the elements of an array. -/
def normalizeAll : List Value → Except String (List Value)
  | [] => .ok []
  | x :: xs =>
    match normalize x, normalizeAll xs with
    | .ok x, .ok xs => .ok (x :: xs)
    | .error e, _ => .error e
    | _, .error e => .error e

/-- `normalize`, for the values of an object. -/
def normalizeMembers : List (JsString × Value) → Except String (List (JsString × Value))
  | [] => .ok []
  | (k, v) :: ms =>
    match normalize v, normalizeMembers ms with
    | .ok v, .ok ms => .ok ((k, v) :: ms)
    | .error e, _ => .error e
    | _, .error e => .error e

end

/-- `canonicalJson`. -/
def canonicalJson (v : Value) : Except String (List Char) := (normalize v).map Value.stringify

/-- `canonicalSha256`; `sha256` is the digest of bytes. -/
def canonicalSha256 {δ : Type} (sha256 : List UInt8 → δ) (v : Value) : Except String δ :=
  (canonicalJson v).map fun t => sha256 (Utf8.encode t)

/-! ## Equality of JSON values -/

/-- The same JSON value: objects are finite maps, and `-0` is `0`. -/
inductive Same : Value → Value → Prop
  | null : Same .null .null
  | bool (b : Bool) : Same (.bool b) (.bool b)
  | finite {x y : Double} (h : x.posZero = y.posZero) : Same (.num (.finite x)) (.num (.finite y))
  | infinity (neg : Bool) : Same (.num (.infinity neg)) (.num (.infinity neg))
  | str (s : JsString) : Same (.str s) (.str s)
  | arr {xs ys : List Value} (hlength : xs.length = ys.length)
      (h : ∀ (i : ℕ) v w, xs[i]? = some v → ys[i]? = some w → Same v w) : Same (.arr xs) (.arr ys)
  | obj {ms ns : List (JsString × Value)} (hkeys : ∀ k, k ∈ keys ms ↔ k ∈ keys ns)
      (h : ∀ k v w, (k, v) ∈ ms → (k, w) ∈ ns → Same v w) : Same (.obj ms) (.obj ns)

theorem Same.symm {u v : Value} (h : Same u v) : Same v u := by
  induction h with
  | null => exact .null
  | bool b => exact .bool b
  | finite h => exact .finite h.symm
  | infinity neg => exact .infinity neg
  | str s => exact .str s
  | arr hlength _ ih => exact .arr hlength.symm fun i v w hv hw => ih i w v hw hv
  | obj hkeys _ ih => exact .obj (fun k => (hkeys k).symm) fun k v w hv hw => ih k w v hw hv

theorem Same.trans {u v w : Value} (h : Same u v) (h' : Same v w) : Same u w := by
  induction h generalizing w with
  | null => exact h'
  | bool b => exact h'
  | finite h =>
    cases h' with
    | finite h' => exact .finite (h.trans h')
  | infinity neg => exact h'
  | str s => exact h'
  | arr hlength _ ih =>
    cases h' with
    | arr hlength' h' =>
      refine .arr (hlength.trans hlength') fun i a c ha hc => ?_
      have hi : i < _ := (List.getElem?_eq_some_iff.mp ha).1
      have hb := List.getElem?_eq_getElem (hlength ▸ hi)
      exact ih i a _ ha hb (h' i _ c hb hc)
  | obj hkeys _ ih =>
    cases h' with
    | obj hkeys' h' =>
      refine .obj (fun k => (hkeys k).trans (hkeys' k)) fun k a c ha hc => ?_
      obtain ⟨⟨_, b⟩, hb, rfl⟩ := List.mem_map.mp ((hkeys k).mp (List.mem_map_of_mem ha))
      exact ih _ a b ha hb (h' _ b c hb hc)

/-! ## Values of one kind -/

mutual

/-- Every number of a value and every key of its objects is of a kind. -/
def Value.Each (p : Number → Prop) (q : JsString → Prop) : Value → Prop
  | .num n => p n
  | .arr xs => EachElem p q xs
  | .obj ms => EachMember p q ms
  | _ => True

/-- In every element. -/
def EachElem (p : Number → Prop) (q : JsString → Prop) : List Value → Prop
  | [] => True
  | x :: xs => x.Each p q ∧ EachElem p q xs

/-- In every member. -/
def EachMember (p : Number → Prop) (q : JsString → Prop) : List (JsString × Value) → Prop
  | [] => True
  | (k, v) :: ms => (q k ∧ v.Each p q) ∧ EachMember p q ms

end

mutual

/-- No object in the value has a key twice. -/
def Value.Proper : Value → Prop
  | .arr xs => ElemsProper xs
  | .obj ms => (keys ms).Nodup ∧ MembersProper ms
  | _ => True

/-- Every element is proper. -/
def ElemsProper : List Value → Prop
  | [] => True
  | x :: xs => x.Proper ∧ ElemsProper xs

/-- The values of all members are proper. -/
def MembersProper : List (JsString × Value) → Prop
  | [] => True
  | (_, v) :: ms => v.Proper ∧ MembersProper ms

end

/-- A number in the range of the doubles. -/
def Number.IsFinite (n : Number) : Prop := ∃ x, n = .finite x

/-- All numbers are finite. -/
def Value.Finite (v : Value) : Prop := v.Each Number.IsFinite fun _ => True

/-- All numbers are finite, and no object has the key `__proto__`. -/
def Value.Plain (v : Value) : Prop := v.Each Number.IsFinite fun k => k ≠ protoKey

section Kinds

variable {p : Number → Prop} {q : JsString → Prop}

theorem eachElem_iff {xs : List Value} : EachElem p q xs ↔ ∀ x ∈ xs, x.Each p q := by
  induction xs with
  | nil => exact iff_of_true trivial fun _ h => absurd h List.not_mem_nil
  | cons x xs ih => rw [EachElem, ih, List.forall_mem_cons]

theorem eachMember_iff {ms : List (JsString × Value)} :
    EachMember p q ms ↔ ∀ m ∈ ms, q m.1 ∧ m.2.Each p q := by
  induction ms with
  | nil => exact iff_of_true trivial fun _ h => absurd h List.not_mem_nil
  | cons m ms ih => rw [EachMember, ih, List.forall_mem_cons]

theorem elemsProper_iff {xs : List Value} : ElemsProper xs ↔ ∀ x ∈ xs, x.Proper := by
  induction xs with
  | nil => exact iff_of_true trivial fun _ h => absurd h List.not_mem_nil
  | cons x xs ih => rw [ElemsProper, ih, List.forall_mem_cons]

theorem membersProper_iff {ms : List (JsString × Value)} :
    MembersProper ms ↔ ∀ m ∈ ms, m.2.Proper := by
  induction ms with
  | nil => exact iff_of_true trivial fun _ h => absurd h List.not_mem_nil
  | cons m ms ih => rw [MembersProper, ih, List.forall_mem_cons]

theorem Same.each (hp : ∀ x y : Double, x.posZero = y.posZero → p (.finite x) → p (.finite y))
    {u v : Value} (h : Same u v) (hu : u.Each p q) : v.Each p q := by
  induction h with
  | null => exact hu
  | bool b => exact hu
  | finite h => exact hp _ _ h hu
  | infinity neg => exact hu
  | str s => exact hu
  | arr hlength _ ih =>
    refine eachElem_iff.mpr fun w hw => ?_
    obtain ⟨i, hi, rfl⟩ := List.mem_iff_getElem.mp hw
    have hv := List.getElem?_eq_getElem (hlength.symm ▸ hi)
    exact ih i _ _ hv (List.getElem?_eq_getElem hi) (eachElem_iff.mp hu _ (List.getElem_mem _))
  | obj hkeys _ ih =>
    refine eachMember_iff.mpr fun ⟨k, w⟩ hw => ?_
    obtain ⟨⟨_, v⟩, hv, rfl⟩ := List.mem_map.mp ((hkeys k).mpr (List.mem_map_of_mem hw))
    obtain ⟨hq, hv'⟩ := eachMember_iff.mp hu _ hv
    exact ⟨hq, ih _ v w hv hw hv'⟩

mutual

theorem Value.Each.mono {q' : JsString → Prop} (h : ∀ k, q k → q' k) :
    ∀ v : Value, v.Each p q → v.Each p q'
  | .null, hv | .bool _, hv | .num _, hv | .str _, hv => hv
  | .arr xs, hv => EachElem.mono h xs hv
  | .obj ms, hv => EachMember.mono h ms hv

theorem EachElem.mono {q' : JsString → Prop} (h : ∀ k, q k → q' k) :
    ∀ xs : List Value, EachElem p q xs → EachElem p q' xs
  | [], _ => trivial
  | x :: xs, hxs => ⟨Value.Each.mono h x hxs.1, EachElem.mono h xs hxs.2⟩

theorem EachMember.mono {q' : JsString → Prop} (h : ∀ k, q k → q' k) :
    ∀ ms : List (JsString × Value), EachMember p q ms → EachMember p q' ms
  | [], _ => trivial
  | (_, v) :: ms, hms =>
    ⟨⟨h _ hms.1.1, Value.Each.mono h v hms.1.2⟩, EachMember.mono h ms hms.2⟩

end

theorem Value.Plain.finite {v : Value} (h : v.Plain) : v.Finite :=
  Value.Each.mono (fun _ _ => trivial) v h

end Kinds

/-! ## What is written -/

theorem enumerate_perm {α : Type} (ms : List (JsString × α)) : (enumerate ms).Perm ms :=
  ((List.perm_insertionSort _ _).append_right _).trans (List.filter_append_perm _ _)

/-- The members that are kept, in the order of the canonical text. -/
def canonicalOrder {α : Type} (ms : List (JsString × α)) : List (JsString × α) :=
  enumerate ((sortBy Prod.fst ms).filter fun m => m.1 ≠ protoKey)

mutual

/-- The canonical form of a value. -/
def Value.canonical : Value → Json
  | .null => .null
  | .bool b => .bool b
  | .num n => n.toJson
  | .str s => .str s
  | .arr xs => .arr (canonicalElems xs)
  | .obj ms => .obj (canonicalOrder (canonicalMembers ms))

/-- The elements of an array. -/
def canonicalElems : List Value → List Json
  | [] => []
  | x :: xs => x.canonical :: canonicalElems xs

/-- The members of an object, before they are sorted. -/
def canonicalMembers : List (JsString × Value) → List (JsString × Json)
  | [] => []
  | (k, v) :: ms => (k, v.canonical) :: canonicalMembers ms

end

theorem canonicalElems_eq (xs : List Value) : canonicalElems xs = xs.map Value.canonical := by
  induction xs with
  | nil => rfl
  | cons x xs ih => rw [canonicalElems, ih, List.map_cons]

theorem canonicalMembers_eq (ms : List (JsString × Value)) :
    canonicalMembers ms = ms.map fun m => (m.1, m.2.canonical) := by
  induction ms with
  | nil => rfl
  | cons m ms ih => rw [canonicalMembers, ih, List.map_cons]

theorem membersToJson_eq (ms : List (JsString × Value)) :
    membersToJson ms = ms.map fun m => (m.1, m.2.toJson) := by
  induction ms with
  | nil => rfl
  | cons m ms ih => rw [membersToJson, ih, List.map_cons]

theorem ofElems_eq (xs : List Json) : ofElems xs = xs.map ofJson := by
  induction xs with
  | nil => rfl
  | cons x xs ih => rw [ofElems, ih, List.map_cons]

theorem ofMembers_eq (ms : List (JsString × Json)) :
    ofMembers ms = ms.map fun m => (m.1, ofJson m.2) := by
  induction ms with
  | nil => rfl
  | cons m ms ih => rw [ofMembers, ih, List.map_cons]

theorem keys_canonicalMembers (ms : List (JsString × Value)) :
    keys (canonicalMembers ms) = keys ms := by
  rw [canonicalMembers_eq, keys, List.map_map]
  rfl

/-- Members with distinct keys are set one after the other, but for `__proto__`. -/
theorem foldl_assign {ms done : List (JsString × Value)} (h : (keys (done ++ ms)).Nodup) :
    ms.foldl assign done = done ++ ms.filter fun m => m.1 ≠ protoKey := by
  induction ms generalizing done with
  | nil => rw [List.foldl_nil, List.filter_nil, List.append_nil]
  | cons m ms ih =>
    have hkeys : keys (done ++ m :: ms) = keys done ++ m.1 :: keys ms := List.map_append
    rw [hkeys, List.nodup_append] at h
    rw [List.foldl_cons, assign]
    by_cases hm : m.1 = protoKey
    · rw [if_pos hm, List.filter_cons_of_neg (by simpa using hm)]
      refine ih ?_
      rw [keys, List.map_append, List.nodup_append]
      exact ⟨h.1, (List.nodup_cons.mp h.2.1).2, fun a ha b hb => h.2.2 a ha b (List.mem_cons_of_mem _ hb)⟩
    · have hnot : m.1 ∉ keys done := fun hd => h.2.2 _ hd _ List.mem_cons_self rfl
      rw [if_neg hm, set_of_notMem _ _ hnot, List.filter_cons_of_pos (by simpa using hm), ih]
      · rw [List.append_assoc]
        rfl
      · rw [List.append_assoc]
        change (keys (done ++ m :: ms)).Nodup
        rw [hkeys, List.nodup_append]
        exact h

/-- Sorting and dropping look at the keys only. -/
theorem enumerate_sorted (ns : List (JsString × Value)) :
    enumerate (membersToJson ((sortBy Prod.fst ns).filter fun m => m.1 ≠ protoKey)) =
      canonicalOrder (membersToJson ns) := by
  have hsort : sortBy Prod.fst (membersToJson ns) = membersToJson (sortBy Prod.fst ns) := by
    rw [membersToJson_eq, membersToJson_eq]
    exact (List.map_insertionSort (r := fun a b : JsString × Value => ¬ b.1 < a.1)
      (s := fun a b : JsString × Json => ¬ b.1 < a.1) (fun m => (m.1, m.2.toJson)) ns
      fun _ _ _ _ => Iff.rfl).symm
  rw [canonicalOrder, hsort, membersToJson_eq, membersToJson_eq, List.filter_map]
  rfl

mutual

/-- **The canonical text is that of the canonical form**, where the numbers are finite. -/
theorem normalize_ok : ∀ v : Value, v.Proper → v.Finite →
    ∃ w, normalize v = .ok w ∧ w.toJson = v.canonical
  | .null, _, _ => ⟨_, rfl, rfl⟩
  | .bool b, _, _ => ⟨_, rfl, rfl⟩
  | .num n, _, h => by
    obtain ⟨x, rfl⟩ := h
    refine ⟨_, rfl, ?_⟩
    change Json.num x.posZero.toDecimal = Json.num x.toDecimal
    rw [Double.toDecimal_posZero]
  | .str s, _, _ => ⟨_, rfl, rfl⟩
  | .arr xs, hp, h => by
    obtain ⟨ys, hys, hjson⟩ := normalizeAll_ok xs hp h
    refine ⟨.arr ys, ?_, congrArg Json.arr hjson⟩
    rw [normalize, hys]
    rfl
  | .obj ms, hp, h => by
    obtain ⟨ns, hns, hjson, hkeys⟩ := normalizeMembers_ok ms hp.2 h
    refine ⟨.obj ((sortBy Prod.fst ns).foldl assign []), by rw [normalize, hns]; rfl, ?_⟩
    have hnodup : (keys ([] ++ sortBy Prod.fst ns)).Nodup := by
      have hperm : (keys (sortBy Prod.fst ns)).Perm (keys ms) :=
        hkeys ▸ (List.perm_insertionSort _ ns).map Prod.fst
      exact hperm.nodup_iff.mpr hp.1
    rw [foldl_assign hnodup, List.nil_append, Value.toJson, Value.canonical, ← hjson]
    exact congrArg Json.obj (enumerate_sorted ns)

theorem normalizeAll_ok : ∀ xs : List Value, ElemsProper xs →
    EachElem Number.IsFinite (fun _ => True) xs →
    ∃ ys, normalizeAll xs = .ok ys ∧ elemsToJson ys = canonicalElems xs
  | [], _, _ => ⟨[], rfl, rfl⟩
  | x :: xs, hp, h => by
    obtain ⟨y, hy, hjson⟩ := normalize_ok x hp.1 h.1
    obtain ⟨ys, hys, hjsons⟩ := normalizeAll_ok xs hp.2 h.2
    refine ⟨y :: ys, by rw [normalizeAll, hy, hys], ?_⟩
    rw [elemsToJson, hjson, hjsons, canonicalElems]

theorem normalizeMembers_ok : ∀ ms : List (JsString × Value), MembersProper ms →
    EachMember Number.IsFinite (fun _ => True) ms →
    ∃ ns, normalizeMembers ms = .ok ns ∧ membersToJson ns = canonicalMembers ms ∧ keys ns = keys ms
  | [], _, _ => ⟨[], rfl, rfl, rfl⟩
  | (k, v) :: ms, hp, h => by
    obtain ⟨w, hw, hjson⟩ := normalize_ok v hp.1 h.1.2
    obtain ⟨ns, hns, hjsons, hkeys⟩ := normalizeMembers_ok ms hp.2 h.2
    refine ⟨(k, w) :: ns, by rw [normalizeMembers, hw, hns], ?_, congrArg (k :: ·) hkeys⟩
    rw [membersToJson, hjson, hjsons, canonicalMembers]

end

mutual

theorem finite_of_normalize : ∀ {v w : Value}, normalize v = .ok w → v.Finite
  | .null, _, _ | .bool _, _, _ | .str _, _, _ => trivial
  | .num (.finite x), _, _ => ⟨x, rfl⟩
  | .num (.infinity _), _, h => nomatch h
  | .arr xs, _, h => by
    cases hxs : normalizeAll xs with
    | ok ys => exact finite_of_normalizeAll hxs
    | error e =>
      rw [normalize, hxs] at h
      exact nomatch h
  | .obj ms, _, h => by
    cases hms : normalizeMembers ms with
    | ok ns => exact finite_of_normalizeMembers hms
    | error e =>
      rw [normalize, hms] at h
      exact nomatch h

theorem finite_of_normalizeAll : ∀ {xs ys : List Value}, normalizeAll xs = .ok ys →
    EachElem Number.IsFinite (fun _ => True) xs
  | [], _, _ => trivial
  | x :: xs, _, h => by
    cases hx : normalize x with
    | error e =>
      rw [normalizeAll, hx] at h
      exact nomatch h
    | ok y =>
      cases hxs : normalizeAll xs with
      | error e =>
        rw [normalizeAll, hx, hxs] at h
        exact nomatch h
      | ok ys => exact ⟨finite_of_normalize hx, finite_of_normalizeAll hxs⟩

theorem finite_of_normalizeMembers : ∀ {ms ns : List (JsString × Value)},
    normalizeMembers ms = .ok ns → EachMember Number.IsFinite (fun _ => True) ms
  | [], _, _ => trivial
  | (k, v) :: ms, _, h => by
    cases hv : normalize v with
    | error e =>
      rw [normalizeMembers, hv] at h
      exact nomatch h
    | ok w =>
      cases hms : normalizeMembers ms with
      | error e =>
        rw [normalizeMembers, hv, hms] at h
        exact nomatch h
      | ok ns => exact ⟨⟨trivial, finite_of_normalize hv⟩, finite_of_normalizeMembers hms⟩

end

theorem canonicalJson_ok_iff {v : Value} (hp : v.Proper) {t : List Char} :
    canonicalJson v = .ok t ↔ v.Finite ∧ t = v.canonical.stringify := by
  constructor
  · intro h
    cases hn : normalize v with
    | error e =>
      rw [canonicalJson, hn] at h
      exact nomatch h
    | ok w =>
      have hfinite := finite_of_normalize hn
      obtain ⟨w', hw', hjson⟩ := normalize_ok v hp hfinite
      obtain rfl := Except.ok.inj (hn.symm.trans hw')
      rw [canonicalJson, hn] at h
      refine ⟨hfinite, (Except.ok.inj h).symm.trans ?_⟩
      rw [Value.stringify, hjson]
  · rintro ⟨hfinite, rfl⟩
    obtain ⟨w, hw, hjson⟩ := normalize_ok v hp hfinite
    rw [canonicalJson, hw]
    exact congrArg (fun j => Except.ok (Json.stringify j)) hjson

/-! ## What is read back -/

theorem keys_canonicalOrder {α : Type} (ms : List (JsString × α)) :
    (canonicalOrder ms).Perm (ms.filter fun m => m.1 ≠ protoKey) :=
  (enumerate_perm _).trans ((List.perm_insertionSort _ _).filter _)

mutual

theorem canonical_proper : ∀ v : Value, v.Proper → v.canonical.Proper
  | .null, _ | .bool _, _ | .str _, _ => trivial
  | .num (.finite _), _ => trivial
  | .num (.infinity _), _ => trivial
  | .arr xs, h => canonicalElems_proper xs h
  | .obj ms, h => by
    have hperm := keys_canonicalOrder (canonicalMembers ms)
    refine ⟨?_, ?_⟩
    · refine (hperm.map Prod.fst).nodup_iff.mpr ?_
      refine List.Nodup.sublist (List.filter_sublist.map _) ?_
      change (keys (canonicalMembers ms)).Nodup
      rw [keys_canonicalMembers]
      exact h.1
    · refine (PiSubagent.membersProper_iff _).mpr fun m hm => ?_
      have hm' := (List.mem_filter.mp (hperm.mem_iff.mp hm)).1
      exact (PiSubagent.membersProper_iff _).mp (canonicalMembers_proper ms h.2) m hm'

theorem canonicalElems_proper : ∀ xs : List Value, ElemsProper xs →
    JsonText.ElemsProper (canonicalElems xs)
  | [], _ => trivial
  | x :: xs, h => ⟨canonical_proper x h.1, canonicalElems_proper xs h.2⟩

theorem canonicalMembers_proper : ∀ ms : List (JsString × Value), MembersProper ms →
    JsonText.MembersProper (canonicalMembers ms)
  | [], _ => trivial
  | (_, v) :: ms, h => ⟨canonical_proper v h.1, canonicalMembers_proper ms h.2⟩

end

theorem mem_ofMembers_canonical {ms : List (JsString × Value)} {k : JsString} {w : Value} :
    (k, w) ∈ ofMembers (canonicalOrder (canonicalMembers ms)) ↔
      k ≠ protoKey ∧ ∃ v, (k, v) ∈ ms ∧ ofJson v.canonical = w := by
  rw [ofMembers_eq, List.mem_map]
  constructor
  · rintro ⟨⟨k', j⟩, hm, he⟩
    obtain ⟨rfl, rfl⟩ := Prod.mk.inj he
    obtain ⟨hmem, hne⟩ := List.mem_filter.mp ((keys_canonicalOrder _).mem_iff.mp hm)
    rw [canonicalMembers_eq] at hmem
    obtain ⟨⟨k, v⟩, hv, he⟩ := List.mem_map.mp hmem
    obtain ⟨rfl, rfl⟩ := Prod.mk.inj he
    exact ⟨of_decide_eq_true hne, v, hv, rfl⟩
  · rintro ⟨hne, v, hv, rfl⟩
    refine ⟨(k, v.canonical), ?_, rfl⟩
    refine (keys_canonicalOrder _).mem_iff.mpr (List.mem_filter.mpr ⟨?_, decide_eq_true hne⟩)
    rw [canonicalMembers_eq]
    exact List.mem_map.mpr ⟨(k, v), hv, rfl⟩

theorem ofJson_number (x : Double) :
    ofJson (Number.finite x).toJson = .num (.finite x.posZero) := by
  change Value.num (Number.ofDecimal x.toDecimal) = _
  rw [Number.ofDecimal, Double.ofDecimal_toDecimal]

mutual

/-- **The canonical text of a plain value reads back as it.** -/
theorem same_ofJson : ∀ v : Value, v.Proper → v.Plain → Same (ofJson v.canonical) v
  | .null, _, _ => .null
  | .bool b, _, _ => .bool b
  | .num n, _, h => by
    obtain ⟨x, rfl⟩ := h
    change Same (ofJson (Number.finite x).toJson) _
    rw [ofJson_number]
    exact .finite x.posZero_posZero
  | .str s, _, _ => .str s
  | .arr xs, hp, h => by
    change Same (.arr (ofElems (canonicalElems xs))) (.arr xs)
    have helems := same_ofElems xs hp h
    rw [ofElems_eq, canonicalElems_eq, List.map_map]
    refine .arr (List.length_map _) fun i v w hv hw => ?_
    rw [List.getElem?_map, hw] at hv
    obtain rfl := Option.some.inj hv
    exact helems w (List.mem_of_getElem? hw)
  | .obj ms, hp, h => by
    change Same (.obj (ofMembers (canonicalOrder (canonicalMembers ms)))) (.obj ms)
    have hmembers := same_ofMembers ms hp.2 h
    refine .obj (fun k => ⟨fun hk => ?_, fun hk => ?_⟩) fun k v w hv hw => ?_
    · obtain ⟨⟨_, w⟩, hw, rfl⟩ := List.mem_map.mp hk
      obtain ⟨-, v, hv, -⟩ := mem_ofMembers_canonical.mp hw
      exact List.mem_map.mpr ⟨_, hv, rfl⟩
    · obtain ⟨⟨k, v⟩, hv, rfl⟩ := List.mem_map.mp hk
      have hne := (eachMember_iff.mp h _ hv).1
      exact List.mem_map.mpr ⟨_, mem_ofMembers_canonical.mpr ⟨hne, v, hv, rfl⟩, rfl⟩
    · obtain ⟨-, v', hv', rfl⟩ := mem_ofMembers_canonical.mp hv
      have hsame : v' = w :=
        Option.some.inj ((get_of_mem hp.1 hv').symm.trans (get_of_mem hp.1 hw))
      exact hsame ▸ hmembers _ hv'

theorem same_ofElems : ∀ xs : List Value, ElemsProper xs →
    EachElem Number.IsFinite (fun k => k ≠ protoKey) xs → ∀ x ∈ xs, Same (ofJson x.canonical) x
  | [], _, _ => fun _ h => absurd h List.not_mem_nil
  | x :: xs, hp, h =>
    List.forall_mem_cons.mpr ⟨same_ofJson x hp.1 h.1, same_ofElems xs hp.2 h.2⟩

theorem same_ofMembers : ∀ ms : List (JsString × Value), MembersProper ms →
    EachMember Number.IsFinite (fun k => k ≠ protoKey) ms →
    ∀ m ∈ ms, Same (ofJson m.2.canonical) m.2
  | [], _, _ => fun _ h => absurd h List.not_mem_nil
  | (_, v) :: ms, hp, h =>
    List.forall_mem_cons.mpr ⟨same_ofJson v hp.1 h.1.2, same_ofMembers ms hp.2 h.2⟩

end

mutual

theorem plain_ofJson : ∀ v : Value, v.Finite → (ofJson v.canonical).Plain
  | .null, _ | .bool _, _ | .str _, _ => trivial
  | .num n, h => by
    obtain ⟨x, rfl⟩ := h
    change (ofJson (Number.finite x).toJson).Plain
    rw [ofJson_number]
    exact ⟨_, rfl⟩
  | .arr xs, h => by
    change EachElem _ _ (ofElems (canonicalElems xs))
    rw [ofElems_eq, canonicalElems_eq, List.map_map]
    refine eachElem_iff.mpr fun w hw => ?_
    obtain ⟨x, hx, rfl⟩ := List.mem_map.mp hw
    exact plain_ofElems xs h x hx
  | .obj ms, h => by
    change EachMember _ _ (ofMembers (canonicalOrder (canonicalMembers ms)))
    refine eachMember_iff.mpr fun ⟨k, w⟩ hw => ?_
    obtain ⟨hne, v, hv, rfl⟩ := mem_ofMembers_canonical.mp hw
    exact ⟨hne, plain_ofMembers ms h _ hv⟩

theorem plain_ofElems : ∀ xs : List Value, EachElem Number.IsFinite (fun _ => True) xs →
    ∀ x ∈ xs, (ofJson x.canonical).Plain
  | [], _ => fun _ h => absurd h List.not_mem_nil
  | x :: xs, h => List.forall_mem_cons.mpr ⟨plain_ofJson x h.1, plain_ofElems xs h.2⟩

theorem plain_ofMembers : ∀ ms : List (JsString × Value),
    EachMember Number.IsFinite (fun _ => True) ms → ∀ m ∈ ms, (ofJson m.2.canonical).Plain
  | [], _ => fun _ h => absurd h List.not_mem_nil
  | (_, v) :: ms, h => List.forall_mem_cons.mpr ⟨plain_ofJson v h.1.2, plain_ofMembers ms h.2⟩

end

/-! ## One text for one value -/

/-- Lists with the same members, one for each key, are sorted to the same list. -/
theorem sortBy_eq {α : Type} {ms ns : List (JsString × α)} (hm : (keys ms).Nodup)
    (h : ms.Perm ns) : sortBy Prod.fst ms = sortBy Prod.fst ns := by
  refine List.Perm.eq_of_pairwise ?_ (sortBy_pairwise _ ms) (sortBy_pairwise _ ns)
    (((List.perm_insertionSort _ ms).trans h).trans (List.perm_insertionSort _ ns).symm)
  rintro ⟨k, a⟩ ⟨l, b⟩ ha hb hle hge
  obtain rfl : k = l := List.le_antisymm hle hge
  have hb' : (k, b) ∈ ms := h.mem_iff.mpr ((mem_sortBy _ _ _).mp hb)
  have he := (get_of_mem hm ((mem_sortBy _ _ _).mp ha)).symm.trans (get_of_mem hm hb')
  rw [Option.some.inj he]

/-- **The same value has the same canonical form.** -/
theorem Same.canonical_eq {u v : Value} (h : Same u v) (hu : u.Proper) (hv : v.Proper) :
    u.canonical = v.canonical := by
  induction h with
  | null => rfl
  | bool b => rfl
  | @finite x y h =>
    change Json.num x.toDecimal = Json.num y.toDecimal
    rw [← x.toDecimal_posZero, h, y.toDecimal_posZero]
  | infinity neg => rfl
  | str s => rfl
  | @arr xs ys hlength _ ih =>
    have hxs := elemsProper_iff.mp hu
    have hys := elemsProper_iff.mp hv
    rw [Value.canonical, Value.canonical, canonicalElems_eq, canonicalElems_eq]
    congr 1
    refine List.ext_getElem (by simpa using hlength) fun i hi hi' => ?_
    rw [List.length_map] at hi hi'
    rw [List.getElem_map, List.getElem_map]
    exact ih i _ _ (List.getElem?_eq_getElem hi) (List.getElem?_eq_getElem hi')
      (hxs _ (List.getElem_mem hi)) (hys _ (List.getElem_mem hi'))
  | @obj ms ns hkeys _ ih =>
    have hms := membersProper_iff.mp hu.2
    have hns := membersProper_iff.mp hv.2
    have hsub {ps qs : List (JsString × Value)} (hkeys : ∀ k, k ∈ keys ps → k ∈ keys qs)
        (h : ∀ k v w, (k, v) ∈ ps → (k, w) ∈ qs → v.canonical = w.canonical) {m : JsString × Json}
        (hm : m ∈ canonicalMembers ps) : m ∈ canonicalMembers qs := by
      rw [canonicalMembers_eq] at hm ⊢
      obtain ⟨⟨k, v⟩, hv, rfl⟩ := List.mem_map.mp hm
      obtain ⟨⟨_, w⟩, hw, rfl⟩ := List.mem_map.mp (hkeys k (List.mem_map_of_mem hv))
      exact List.mem_map.mpr ⟨_, hw, by rw [h _ v w hv hw]⟩
    have hkeysU := (keys_canonicalMembers ms).symm ▸ hu.1
    have hkeysV := (keys_canonicalMembers ns).symm ▸ hv.1
    have hperm : (canonicalMembers ms).Perm (canonicalMembers ns) := by
      refine (List.perm_ext_iff_of_nodup hkeysU.of_map hkeysV.of_map).mpr fun m => ⟨?_, ?_⟩
      · exact hsub (fun k => (hkeys k).mp) fun k v w hv hw =>
          ih k v w hv hw (hms _ hv) (hns _ hw)
      · exact hsub (fun k => (hkeys k).mpr) fun k w v hw hv =>
          (ih k v w hv hw (hms _ hv) (hns _ hw)).symm
    rw [Value.canonical, Value.canonical, canonicalOrder, canonicalOrder, sortBy_eq hkeysU hperm]

/-! ## Identity -/

/-- A value that `JSON.parse` can return: its objects have distinct keys. -/
structure ParsedValue where
  value : Value
  proper : value.Proper

/-- The canonical text of a value reads back as it. -/
def ReadsBack (v : Value) : Prop :=
  ∃ t w, canonicalJson v = .ok t ∧ parse t = some w ∧ Same w v

/-- What canonical texts and digests are for: they identify two values, and the texts read back as
them. -/
structure Identifies (a b : Value) : Prop where
  text : canonicalJson a = canonicalJson b ↔ Same a b
  first : ReadsBack a
  second : ReadsBack b
  digest : ∀ {δ : Type} (sha256 : List UInt8 → δ), Function.Injective sha256 →
    (canonicalSha256 sha256 a = canonicalSha256 sha256 b ↔ Same a b)

theorem readsBack_iff {v : Value} (hp : v.Proper) : ReadsBack v ↔ v.Plain := by
  constructor
  · rintro ⟨t, w, ht, hw, hsame⟩
    obtain ⟨hfinite, rfl⟩ := (canonicalJson_ok_iff hp).mp ht
    rw [parse, parse_stringify (canonical_proper v hp)] at hw
    obtain rfl := Option.some.inj hw
    exact hsame.each (fun x y _ _ => ⟨y, rfl⟩) (plain_ofJson v hfinite)
  · intro h
    refine ⟨_, _, (canonicalJson_ok_iff hp).mpr ⟨h.finite, rfl⟩, ?_, same_ofJson v hp h⟩
    rw [parse, parse_stringify (canonical_proper v hp)]
    rfl

theorem canonicalJson_eq_iff {a b : Value} (ha : a.Proper) (hb : b.Proper) (hpa : a.Plain)
    (hpb : b.Plain) : canonicalJson a = canonicalJson b ↔ Same a b := by
  have hta := (canonicalJson_ok_iff ha).mpr ⟨hpa.finite, rfl⟩
  have htb := (canonicalJson_ok_iff hb).mpr ⟨hpb.finite, rfl⟩
  constructor
  · intro h
    have htext : a.canonical.stringify = b.canonical.stringify :=
      Except.ok.inj (hta.symm.trans (h.trans htb))
    have hjson : a.canonical = b.canonical := by
      have hread := parse_stringify (canonical_proper a ha)
      rw [htext, parse_stringify (canonical_proper b hb)] at hread
      exact (Option.some.inj hread).symm
    have hsame := same_ofJson a ha hpa
    rw [hjson] at hsame
    exact hsame.symm.trans (same_ofJson b hb hpb)
  · intro h
    rw [hta, htb, h.canonical_eq ha hb]

/-- **Canonical JSON.** The canonical text and its digest identify two values that `JSON.parse` can
return, and the texts read back as them, exactly when no object in them has the key `__proto__` and
all their numbers are finite. -/
theorem canonical_iff (a b : ParsedValue) :
    Identifies a.value b.value ↔ a.value.Plain ∧ b.value.Plain := by
  constructor
  · intro h
    exact ⟨(readsBack_iff a.proper).mp h.first, (readsBack_iff b.proper).mp h.second⟩
  · rintro ⟨ha, hb⟩
    have htext := canonicalJson_eq_iff a.proper b.proper ha hb
    refine ⟨htext, (readsBack_iff a.proper).mpr ha, (readsBack_iff b.proper).mpr hb,
      fun sha256 hsha => ?_⟩
    rw [← htext]
    have hta := (canonicalJson_ok_iff a.proper).mpr ⟨ha.finite, rfl⟩
    have htb := (canonicalJson_ok_iff b.proper).mpr ⟨hb.finite, rfl⟩
    rw [canonicalSha256, canonicalSha256, hta, htb]
    refine ⟨fun h => ?_, fun h => by rw [Except.ok.inj h]⟩
    have hbytes := hsha (Except.ok.inj h)
    rw [← Utf8.decode_encode a.value.canonical.stringify, hbytes, Utf8.decode_encode]

/-- An object with one member, whose key is `__proto__`. -/
def hidden : ParsedValue where
  value := .obj [(protoKey, .bool true)]
  proper := ⟨List.nodup_singleton _, trivial, trivial⟩

/-- The object with no member. -/
def empty : ParsedValue where
  value := .obj []
  proper := ⟨List.nodup_nil, trivial⟩

/-- **The member `__proto__` is lost**: the object has the text of the one without it. -/
theorem canonical_proto : ¬ ∀ a b : ParsedValue, Identifies a.value b.value := by
  intro h
  have htext : canonicalJson hidden.value = canonicalJson empty.value := by
    rfl
  have hsame := (h hidden empty).text.mp htext
  cases hsame with
  | obj hkeys _ =>
    have hmem := (hkeys protoKey).mp List.mem_cons_self
    exact absurd hmem List.not_mem_nil

end Preflight.Canonical

end PiSubagent
