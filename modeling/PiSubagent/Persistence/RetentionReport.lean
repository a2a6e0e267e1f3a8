import PiSubagent.Persistence.Retention

/-!
# The report of a prune

What the two passes of a prune select, what the loop that applies it does to the running byte count,
and what the report says of both.

* `mark_spec`: the marked runs are a beginning of the runs in their order, and the count is the bytes
  of the others.
* `Eligible`, `Covers`, `Ordered`: which runs may go, when enough of them are marked, and their order.
* `applyAll_spec`: every selected run is moved or protected.
* **`retention_selection`**: what a report says, for all runs, pins, sizes, times and bounds.
-/

namespace PiSubagent

open JsonText

namespace Retention

open OrderedMap Shedding

/-! ## What is marked -/

section Mark

variable {now : ℤ} {maxAgeMs maxBytes : ℕ} {ordinary : List Item}

theorem mem_markAged_from {items : List Item} {selected : List (JsString × List String)}
    {id : JsString} :
    id ∈ keys (items.foldl (fun selected item =>
        if item.aged now maxAgeMs then set item.runId ["age"] selected else selected) selected) ↔
      (∃ item ∈ items, item.aged now maxAgeMs = true ∧ item.runId = id) ∨ id ∈ keys selected := by
  induction items generalizing selected with
  | nil => simp
  | cons item items ih =>
    rw [List.foldl_cons, ih]
    by_cases h : item.aged now maxAgeMs = true
    · rw [if_pos h, mem_keys_set, List.exists_mem_cons_iff, and_iff_right h, eq_comm (a := id)]
      exact or_left_comm.trans or_assoc.symm
    · rw [if_neg h, List.exists_mem_cons_iff]
      exact or_congr_left (or_iff_right fun hn => h hn.1).symm

theorem mem_markAged {id : JsString} : id ∈ keys (markAged now maxAgeMs ordinary) ↔
    ∃ item ∈ ordinary, item.aged now maxAgeMs = true ∧ item.runId = id :=
  mem_markAged_from.trans (or_iff_left List.not_mem_nil)

/-- Of runs with distinct ids, the ones marked for their age are the aged ones. -/
theorem mem_markAged_iff (h : (ordinary.map Item.runId).Nodup) {item : Item}
    (hitem : item ∈ ordinary) :
    item.runId ∈ keys (markAged now maxAgeMs ordinary) ↔ item.aged now maxAgeMs = true := by
  rw [mem_markAged]
  constructor
  · rintro ⟨item', hitem', haged, hid⟩
    rw [← List.inj_on_of_nodup_map h hitem' hitem hid]
    exact haged
  · exact fun haged => ⟨item, hitem, haged, rfl⟩

theorem filter_notMarked (h : (ordinary.map Item.runId).Nodup) :
    (ordinary.filter fun item => decide (item.runId ∉ keys (markAged now maxAgeMs ordinary))) =
      ordinary.filter fun item => !item.aged now maxAgeMs := by
  refine List.filter_congr fun item hitem => ?_
  have hmarked : item.runId ∈ keys (markAged now maxAgeMs ordinary) ↔
      item.aged now maxAgeMs = true := mem_markAged_iff h hitem
  cases haged : item.aged now maxAgeMs with
  | true => exact decide_eq_false (not_not.mpr (hmarked.mpr haged))
  | false =>
    refine decide_eq_true fun hn => ?_
    exact nomatch haged.symm.trans (hmarked.mp hn)

variable (maxBytes) in
/-- The pass for the byte budget sheds runs until the others are within the budget. -/
theorem markBudget_spec (skip : Item → Bool) (items : List Item) (marks : Marks)
    (h : (items.map Item.runId).Nodup)
    (hskip : ∀ item ∈ items, item.runId ∈ keys marks.selected ↔ skip item = true) :
    (∀ id, id ∈ keys (markBudget maxBytes items marks).selected ↔ id ∈ keys marks.selected ∨
      id ∈ (shed skip Item.bytes maxBytes items marks.after).map Item.runId) ∧
    (markBudget maxBytes items marks).after =
      marks.after - load Item.bytes (shed skip Item.bytes maxBytes items marks.after) := by
  induction items generalizing marks with
  | nil => simp [markBudget, shed]
  | cons item items ih =>
    rw [List.map_cons, List.nodup_cons] at h
    obtain ⟨hitem, hitems⟩ := List.forall_mem_cons.mp hskip
    rw [markBudget, shed]
    by_cases hle : marks.after ≤ maxBytes
    · rw [if_pos hle, if_pos hle]
      simp
    · rw [if_neg hle, if_neg hle]
      by_cases hmem : item.runId ∈ keys marks.selected
      · rw [if_pos hmem, if_pos (hitem.mp hmem)]
        exact ih marks h.2 hitems
      · rw [if_neg hmem, if_neg fun hs => hmem (hitem.mpr hs)]
        have hset : ∀ item' ∈ items,
            item'.runId ∈ keys (set item.runId ["budget"] marks.selected) ↔ skip item' = true := by
          intro item' hitem'
          rw [mem_keys_set, ← hitems item' hitem']
          exact or_iff_right fun he => h.1 (he ▸ List.mem_map_of_mem hitem')
        obtain ⟨hkeys, hafter⟩ :=
          ih ⟨set item.runId ["budget"] marks.selected, marks.after - item.bytes⟩ h.2 hset
        refine ⟨fun id => ?_, ?_⟩
        · rw [hkeys, mem_keys_set, List.map_cons, List.mem_cons]
          tauto
        · rw [hafter, load_cons]
          ring

/-- What holds of runs in their order: an aged run comes before those that are not. -/
def AgedFirst (now : ℤ) (maxAgeMs : ℕ) (ordinary : List Item) : Prop :=
  ordinary.Pairwise fun a b => b.aged now maxAgeMs = true → a.aged now maxAgeMs = true

theorem AgedFirst.eq_append (h : AgedFirst now maxAgeMs ordinary) :
    ordinary = ordinary.filter (Item.aged now maxAgeMs) ++
      ordinary.filter fun item => !item.aged now maxAgeMs := by
  induction ordinary with
  | nil => rfl
  | cons item items ih =>
    obtain ⟨hfirst, hrest⟩ := List.pairwise_cons.mp h
    cases haged : item.aged now maxAgeMs with
    | true =>
      rw [List.filter_cons_of_pos haged, List.filter_cons_of_neg (by rw [haged]; decide),
        List.cons_append, ← ih hrest]
    | false =>
      have hnone : items.filter (Item.aged now maxAgeMs) = [] := by
        refine List.filter_eq_nil_iff.mpr fun item' hitem' hn => ?_
        rw [hfirst item' hitem' hn] at haged
        exact nomatch haged
      rw [List.filter_cons_of_neg (by rw [haged]; decide),
        List.filter_cons_of_pos (by rw [haged]; decide), hnone, List.nil_append]
      have := ih hrest
      rw [hnone, List.nil_append] at this
      rw [← this]

/-- Enough of the runs are among the first `n`. -/
def Covers (now : ℤ) (maxAgeMs maxBytes : ℕ) (ordinary : List Item) (n : ℕ) : Prop :=
  (∀ item ∈ ordinary.drop n, item.aged now maxAgeMs = false) ∧
    load Item.bytes (ordinary.drop n) ≤ maxBytes

variable (now maxAgeMs maxBytes) in
/-- **What is marked** is the shortest beginning of the runs that has all that are old enough and
leaves no more bytes than the budget; the count is the bytes of the others. -/
theorem mark_spec (hids : (ordinary.map Item.runId).Nodup) (h : AgedFirst now maxAgeMs ordinary) :
    ∃ n ≤ ordinary.length, Covers now maxAgeMs maxBytes ordinary n ∧
      (∀ m < n, ¬ Covers now maxAgeMs maxBytes ordinary m) ∧
      (ordinary.filter fun item =>
        decide (item.runId ∈ keys (mark now maxAgeMs maxBytes ordinary).selected)) =
          ordinary.take n ∧
      (mark now maxAgeMs maxBytes ordinary).after = load Item.bytes (ordinary.drop n) := by
  let aged := ordinary.filter (Item.aged now maxAgeMs)
  let rest := ordinary.filter fun item => !item.aged now maxAgeMs
  have happend : ordinary = aged ++ rest := h.eq_append
  have hmarked (item : Item) (hitem : item ∈ ordinary) :
      item.runId ∈ keys (markAged now maxAgeMs ordinary) ↔ item.aged now maxAgeMs = true :=
    mem_markAged_iff hids hitem
  obtain ⟨hkeys, hafter⟩ := markBudget_spec maxBytes (Item.aged now maxAgeMs) ordinary
    ⟨markAged now maxAgeMs ordinary, load Item.bytes rest⟩ hids hmarked
  have hmark : mark now maxAgeMs maxBytes ordinary = markBudget maxBytes ordinary
      ⟨markAged now maxAgeMs ordinary, load Item.bytes rest⟩ := by
    rw [mark, filter_notMarked hids]
  rw [← hmark] at hkeys hafter
  dsimp only at hkeys hafter
  obtain ⟨k, hk, htake, hend, hmin⟩ := shed_spec (Item.aged now maxAgeMs) Item.bytes maxBytes ordinary
    (load Item.bytes rest)
  rw [htake] at hkeys hafter hend
  change ∀ id, _ ↔ _ ∨ id ∈ (rest.take k).map Item.runId at hkeys
  change _ = load Item.bytes rest - load Item.bytes (rest.take k) at hafter
  change load Item.bytes rest - load Item.bytes (rest.take k) ≤ maxBytes ∨ rest.take k = rest at hend
  change ∀ j < k, _ < load Item.bytes rest - load Item.bytes (rest.take j) at hmin
  rw [load_sub_take] at hafter hend
  change k ≤ rest.length at hk
  have hdrop (j : ℕ) : ordinary.drop (aged.length + j) = rest.drop j := by
    rw [happend]
    exact List.drop_length_add_append j
  have htake' : ordinary.take (aged.length + k) = aged ++ rest.take k := by
    rw [happend]
    exact List.take_length_add_append k
  refine ⟨aged.length + k, ?_, ⟨?_, ?_⟩, fun m hm hcovers => ?_, ?_, ?_⟩
  · rw [congrArg List.length happend, List.length_append]
    omega
  · intro item hitem
    rw [hdrop] at hitem
    have := (List.mem_filter.mp (List.mem_of_mem_drop hitem)).2
    rwa [Bool.not_eq_true'] at this
  · rw [hdrop]
    rcases hend with hend | hend
    · exact hend
    · have hlength := congrArg List.length hend
      rw [List.length_take] at hlength
      rw [List.drop_eq_nil_of_le (by omega)]
      exact Int.natCast_nonneg _
  · by_cases hlt : m < aged.length
    · -- an aged run would be left
      have hmem : aged[m] ∈ ordinary.drop m := by
        rw [happend, List.drop_append_of_le_length hlt.le]
        rw [List.drop_eq_getElem_cons hlt]
        exact List.mem_append_left _ List.mem_cons_self
      have haged : aged[m].aged now maxAgeMs = true := (List.mem_filter.mp (List.getElem_mem hlt)).2
      exact Bool.false_ne_true ((hcovers.1 _ hmem).symm.trans haged)
    · obtain ⟨j, rfl⟩ := Nat.exists_eq_add_of_le (not_lt.mp hlt)
      have hover := hmin j (by omega)
      rw [load_sub_take] at hover
      have hle := hcovers.2
      rw [hdrop] at hle
      omega
  · have hsub {item : Item} (hitem : item ∈ rest) : item ∈ ordinary := List.mem_of_mem_filter hitem
    have hkeptAged : ∀ item ∈ aged,
        decide (item.runId ∈ keys (mark now maxAgeMs maxBytes ordinary).selected) = true := by
      intro item hitem
      obtain ⟨hitem, haged⟩ := List.mem_filter.mp hitem
      exact decide_eq_true ((hkeys _).mpr (.inl ((hmarked item hitem).mpr haged)))
    have hkeptShed : ∀ item ∈ rest.take k,
        decide (item.runId ∈ keys (mark now maxAgeMs maxBytes ordinary).selected) = true :=
      fun item hitem => decide_eq_true ((hkeys _).mpr (.inr (List.mem_map_of_mem hitem)))
    have hleft : ∀ item ∈ rest.drop k,
        ¬ decide (item.runId ∈ keys (mark now maxAgeMs maxBytes ordinary).selected) = true := by
      intro item hitem hn
      have hrestItem := List.mem_of_mem_drop hitem
      rcases (hkeys _).mp (of_decide_eq_true hn) with hn | hn
      · have haged := (hmarked item (hsub hrestItem)).mp hn
        have hnot := (List.mem_filter.mp hrestItem).2
        rw [haged] at hnot
        exact Bool.false_ne_true hnot
      · obtain ⟨item', hitem', hid⟩ := List.mem_map.mp hn
        have hsame := List.inj_on_of_nodup_map hids (hsub (List.mem_of_mem_take hitem'))
          (hsub hrestItem) hid
        have hnodup : rest.Nodup := hids.of_map.sublist List.filter_sublist
        exact List.disjoint_take_drop hnodup le_rfl hitem' (hsame ▸ hitem)
    have hsplit : ordinary = aged ++ rest.take k ++ rest.drop k := by
      rw [List.append_assoc, List.take_append_drop]
      exact happend
    have hfilter : (aged ++ rest.take k ++ rest.drop k).filter (fun item =>
        decide (item.runId ∈ keys (mark now maxAgeMs maxBytes ordinary).selected)) =
          aged ++ rest.take k := by
      rw [List.filter_append, List.filter_append, List.filter_eq_self.mpr hkeptAged,
        List.filter_eq_self.mpr hkeptShed, List.filter_eq_nil_iff.mpr hleft, List.append_nil]
    rw [← hsplit] at hfilter
    rw [htake', hfilter]
  · rw [hafter, hdrop]

end Mark

/-! ## The order of the runs -/

section Order

variable {seen : Seen} {pinned : List JsString} {assessed : List Item} {now : ℤ} {maxAgeMs : ℕ}

theorem ordinary_perm : (seen.ordinary pinned assessed).Perm
    (assessed.filter fun item => (protectedReasons pinned item).isEmpty) :=
  List.mergeSort_perm _ _

variable [Std.TransCmp seen.localeCompare]

theorem before_trans (a b c : Item) (hab : seen.before a b = true) (hbc : seen.before b c = true) :
    seen.before a c = true := by
  simp only [Seen.before, Bool.or_eq_true, Bool.and_eq_true, decide_eq_true_eq, bne_iff_ne] at *
  rcases hab with hab | ⟨hab, hcab⟩
  · rcases hbc with hbc | ⟨hbc, -⟩
    · exact .inl (hab.trans hbc)
    · exact .inl (hbc ▸ hab)
  · rcases hbc with hbc | ⟨hbc, hcbc⟩
    · exact .inl (hab ▸ hbc)
    · refine .inr ⟨hab.trans hbc, ?_⟩
      exact Ordering.isLE_iff_ne_gt.mp (Std.TransCmp.isLE_trans
        (Ordering.isLE_iff_ne_gt.mpr hcab) (Ordering.isLE_iff_ne_gt.mpr hcbc))

theorem before_total (a b : Item) : (seen.before a b || seen.before b a) = true := by
  simp only [Seen.before, Bool.or_eq_true, Bool.and_eq_true, decide_eq_true_eq, bne_iff_ne]
  rcases lt_trichotomy (a.terminalTime.getD 0) (b.terminalTime.getD 0) with h | h | h
  · exact .inl (.inl h)
  · by_cases hgt : seen.localeCompare a.run.runId b.run.runId = .gt
    · refine .inr (.inr ⟨h.symm, ?_⟩)
      rw [Std.OrientedCmp.gt_iff_lt.mp hgt]
      decide
    · exact .inl (.inr ⟨h, hgt⟩)
  · exact .inr (.inl h)

theorem ordinary_pairwise :
    (seen.ordinary pinned assessed).Pairwise fun a b => seen.before a b = true :=
  List.pairwise_mergeSort before_trans before_total _

theorem ordinary_agedFirst : AgedFirst now maxAgeMs (seen.ordinary pinned assessed) := by
  refine ordinary_pairwise.imp_of_mem fun {a b} ha hb hbefore haged => ?_
  have hta := (protectedReasons_eq_nil.mp (mem_ordinary.mp ha).2).timed
  have htb := (protectedReasons_eq_nil.mp (mem_ordinary.mp hb).2).timed
  obtain ⟨ta, hta⟩ := Option.ne_none_iff_exists'.mp hta
  obtain ⟨tb, htb⟩ := Option.ne_none_iff_exists'.mp htb
  rw [Item.aged, htb, Option.getD_some, decide_eq_true_eq] at haged
  rw [Item.aged, hta, Option.getD_some, decide_eq_true_eq]
  rw [Seen.before, hta, htb] at hbefore
  simp only [Option.getD_some, Bool.or_eq_true, Bool.and_eq_true, decide_eq_true_eq] at hbefore
  omega

end Order

/-! ## The applied prune -/

section Apply

variable [SchemaText] {seen : Seen} {move : Removal → Option RetentionError} {ordinary : List Item}

/-- **Every selected run is moved or protected**, and the count goes up again by the bytes of those
that are protected. -/
theorem applyAll_spec {reports : List RunReport} {a b : Applied}
    (hids : (ordinary.map Item.runId).Nodup)
    (hreports : ∀ s ∈ reports, ∃ item ∈ ordinary, item.run = s.run ∧ item.bytes = s.bytes)
    (h : seen.applyAll move ordinary reports a = b) (hthrown : b.thrown = none) :
    ∃ pruned skipped moves, b.pruned = a.pruned ++ pruned ∧
      b.protectedRuns = a.protectedRuns ++ skipped ∧ b.moves = a.moves ++ moves ∧
      ((pruned ++ skipped).map RunReport.run).Perm (reports.map RunReport.run) ∧
      moves.map Removal.run = pruned.map RunReport.run ∧ (∀ r ∈ moves, move r = none) ∧
      (∀ s ∈ skipped, s.reasons ≠ []) ∧
      b.after = a.after + load RunReport.bytes reports - load RunReport.bytes pruned := by
  induction reports generalizing a with
  | nil =>
    subst h
    refine ⟨[], [], [], (List.append_nil _).symm, (List.append_nil _).symm,
      (List.append_nil _).symm, List.Perm.nil, rfl, fun _ hr => absurd hr List.not_mem_nil,
      fun _ hs => absurd hs List.not_mem_nil, ?_⟩
    rw [Seen.applyAll, load_nil, add_zero, sub_zero]
  | cons s reports ih =>
    obtain ⟨⟨item, hitem, hrun, hbytes⟩, hrest⟩ := List.forall_mem_cons.mp hreports
    have hfind : ordinary.find? (fun item => item.runId = s.run.runId) = some item := by
      have hsome : (ordinary.find? fun item => item.runId = s.run.runId).isSome = true :=
        List.find?_isSome.mpr ⟨item, hitem, decide_eq_true (congrArg RetentionRun.runId hrun)⟩
      obtain ⟨item', hfind⟩ := Option.isSome_iff_exists.mp hsome
      have hid := List.find?_some hfind
      rw [decide_eq_true_eq, ← hrun] at hid
      rw [hfind, List.inj_on_of_nodup_map hids (List.mem_of_find?_eq_some hfind) hitem hid]
    rw [Seen.applyAll, hfind] at h
    dsimp only at h
    cases hremoval : seen.removal item with
    | error e =>
      rw [hremoval] at h
      subst h
      cases hthrown
    | ok outcome =>
      rw [hremoval] at h
      cases outcome with
      | error reason =>
        obtain ⟨pruned, skipped, moves, hp, hq, hm, hperm, hruns, hmoved, hreasons, hafter⟩ :=
          ih hrest h
        refine ⟨pruned, { s with reasons := [reason] } :: skipped, moves, hp, ?_, hm, ?_, hruns,
          hmoved, ?_, ?_⟩
        · rw [hq, List.append_assoc]
          rfl
        · rw [List.map_append, List.map_cons, List.map_cons]
          rw [List.map_append] at hperm
          exact List.perm_middle.trans (hperm.cons _)
        · exact List.forall_mem_cons.mpr ⟨List.cons_ne_nil _ _, hreasons⟩
        · rw [hafter, load_cons, ← hbytes]
          ring
      | ok r =>
        dsimp only at h
        cases hmove : move r with
        | some e =>
          rw [hmove] at h
          subst h
          cases hthrown
        | none =>
          rw [hmove] at h
          obtain ⟨pruned, skipped, moves, hp, hq, hm, hperm, hruns, hmoved, hreasons, hafter⟩ :=
            ih hrest h
          refine ⟨s :: pruned, skipped, r :: moves, ?_, hq, ?_, ?_, ?_, ?_, hreasons, ?_⟩
          · rw [hp, List.append_assoc]
            rfl
          · rw [hm, List.append_assoc]
            rfl
          · rw [List.cons_append, List.map_cons, List.map_cons]
            exact hperm.cons _
          · rw [List.map_cons, List.map_cons, hruns, (removal_ok hremoval).1, hrun]
          · exact List.forall_mem_cons.mpr ⟨hmove, hmoved⟩
          · rw [hafter, load_cons, load_cons]
            ring

end Apply

/-! ## The report -/

/-- What the report of a prune says of the runs that were assessed. -/
structure Sound (seen : Seen) (now : ℤ) (pinned : List JsString) (assessed : List Item)
    (o : PruneOptions) (r : Report) : Prop where
  /-- Only runs that may go are selected. -/
  eligible : ∀ s ∈ r.selected, ∃ item ∈ assessed, item.run = s.run ∧ item.bytes = s.bytes ∧
    Eligible pinned item
  /-- They are the shortest beginning of the runs that may go, in their order, that has all runs of
  the age and leaves no more than the budget. -/
  shortest : ∃ ordinary n, ordinary.Perm (assessed.filter fun item =>
      (protectedReasons pinned item).isEmpty) ∧
    ordinary.Pairwise (fun a b => seen.before a b = true) ∧ n ≤ ordinary.length ∧
    r.selected.map RunReport.run = (ordinary.take n).map Item.run ∧
    Covers now o.maxAgeMs o.maxBytes ordinary n ∧
    ∀ m < n, ¬ Covers now o.maxAgeMs o.maxBytes ordinary m
  ordinaryBytesBefore : r.ordinaryBytesBefore = load Item.bytes (assessed.filter fun item =>
    (protectedReasons pinned item).isEmpty)
  ordinaryBytesAfter : r.ordinaryBytesAfter = r.ordinaryBytesBefore -
    load RunReport.bytes (if o.dryRun then r.selected else r.pruned)
  /-- An applied prune reports each selected run once. -/
  once : o.dryRun = false → ∀ s ∈ r.selected,
    ((r.pruned ++ r.protectedRuns).map fun s => s.run.runId).count s.run.runId = 1
  reasons : ∀ s ∈ r.protectedRuns, s.reasons ≠ []

/-- The pruned runs of a report are those that were moved, each without an error. -/
structure Moved (move : Removal → Option RetentionError) (moves : List Removal) (r : Report) :
    Prop where
  runs : r.pruned.map RunReport.run = moves.map Removal.run
  done : ∀ m ∈ moves, move m = none

section Report

variable [SchemaText] {seen : Seen} {move : Removal → Option RetentionError} {o : PruneOptions} {now : ℤ}
  {pinned recovered : List JsString} {assessed : List Item} {r : Report}

omit [SchemaText] in
/-- The runs of a prune that has gone through its checks are different. -/
theorem checkRuns_nodup {runs : List RetentionRun} {before : List JsString}
    (h : seen.checkRuns runs before = .ok ()) :
    (runs.map RetentionRun.runId).Nodup ∧ ∀ run ∈ runs, run.runId ∉ before := by
  induction runs generalizing before with
  | nil => exact ⟨List.nodup_nil, fun _ hr => absurd hr List.not_mem_nil⟩
  | cons run runs ih =>
    rw [Seen.checkRuns] at h
    split at h
    · cases h
    · rename_i hvalid
      split at h
      · cases h
      · obtain ⟨hnodup, hnot⟩ := ih h
        have hbefore : run.runId ∉ before := fun hn => hvalid (by simp [hn])
        refine ⟨List.nodup_cons.mpr ⟨fun hn => ?_, hnodup⟩,
          List.forall_mem_cons.mpr ⟨hbefore, fun run' hr hn => ?_⟩⟩
        · obtain ⟨run', hr, hid⟩ := List.mem_map.mp hn
          exact hnot run' hr (hid ▸ List.mem_cons_self)
        · exact hnot run' hr (List.mem_cons_of_mem _ hn)

omit [SchemaText] in
theorem map_run_selectedReports (marks : Marks) (ordinary : List Item) :
    (selectedReports marks ordinary).map RunReport.run =
      (ordinary.filter fun item => item.runId ∈ keys marks.selected).map Item.run := by
  rw [selectedReports, List.map_map]
  rfl

omit [SchemaText] in
theorem load_selectedReports (marks : Marks) (ordinary : List Item) :
    load RunReport.bytes (selectedReports marks ordinary) =
      load Item.bytes (ordinary.filter fun item => item.runId ∈ keys marks.selected) := by
  rw [load, load, selectedReports, List.map_map]
  rfl

variable (seen pinned assessed) in
omit [SchemaText] in
/-- The ids of the protected runs and of those that may go are those of all runs. -/
theorem ids_perm : ((protectedReports pinned assessed).map (fun s => s.run.runId) ++
    (seen.ordinary pinned assessed).map Item.runId).Perm (assessed.map Item.runId) := by
  have hprotected : (protectedReports pinned assessed).map (fun s => s.run.runId) =
      (assessed.filter fun item => !(protectedReasons pinned item).isEmpty).map Item.runId := by
    rw [protectedReports, List.map_map]
    rfl
  rw [hprotected]
  refine (List.Perm.append_left _ (ordinary_perm.map Item.runId)).trans ?_
  rw [← List.map_append]
  refine List.Perm.map _ (List.perm_append_comm.trans ?_)
  exact List.filter_append_perm (fun item => (protectedReasons pinned item).isEmpty) assessed

omit [SchemaText] in
theorem protectedReports_reasons : ∀ s ∈ protectedReports pinned assessed, s.reasons ≠ [] := by
  intro s hs
  obtain ⟨item, hitem, rfl⟩ := List.mem_map.mp hs
  have hn := (List.mem_filter.mp hitem).2
  rw [Bool.not_eq_true', List.isEmpty_eq_false_iff] at hn
  exact hn

/-- **What a report says**, once the runs have been assessed. -/
theorem pruneAssessed_sound [Std.TransCmp seen.localeCompare] (hids : (assessed.map Item.runId).Nodup)
    (h : (seen.pruneAssessed move o recovered now pinned assessed).report = .ok r) :
    Sound seen now pinned assessed o r ∧
      Moved move (seen.pruneAssessed move o recovered now pinned assessed).moves r := by
  have hperm := ids_perm seen pinned assessed
  have hall := hperm.nodup_iff.mpr hids
  have hordinary : ((seen.ordinary pinned assessed).map Item.runId).Nodup :=
    (List.nodup_append.mp hall).2.1
  obtain ⟨n, hn, hcovers, hmin, hmarked, hafter⟩ :=
    mark_spec now o.maxAgeMs o.maxBytes hordinary ordinary_agedFirst
  unfold Seen.pruneAssessed at h ⊢
  dsimp only at h ⊢
  generalize hmarks : mark now o.maxAgeMs o.maxBytes (seen.ordinary pinned assessed) = marks at *
  have hselected : ∀ s ∈ selectedReports marks (seen.ordinary pinned assessed),
      ∃ item ∈ seen.ordinary pinned assessed, item.run = s.run ∧ item.bytes = s.bytes := by
    intro s hs
    obtain ⟨item, hitem, rfl⟩ := List.mem_map.mp hs
    exact ⟨item, List.mem_of_mem_filter hitem, rfl, rfl⟩
  have heligible : ∀ s ∈ selectedReports marks (seen.ordinary pinned assessed),
      ∃ item ∈ assessed, item.run = s.run ∧ item.bytes = s.bytes ∧ Eligible pinned item := by
    intro s hs
    obtain ⟨item, hitem, hrun, hbytes⟩ := hselected s hs
    obtain ⟨hmem, hreasons⟩ := mem_ordinary.mp hitem
    exact ⟨item, hmem, hrun, hbytes, protectedReasons_eq_nil.mp hreasons⟩
  have hshortest : (selectedReports marks (seen.ordinary pinned assessed)).map RunReport.run =
      ((seen.ordinary pinned assessed).take n).map Item.run := by
    rw [map_run_selectedReports, hmarked]
  have hbytes : load Item.bytes (seen.ordinary pinned assessed) =
      load Item.bytes (assessed.filter fun item => (protectedReasons pinned item).isEmpty) :=
    load_perm _ ordinary_perm
  have hcount : marks.after = load Item.bytes (seen.ordinary pinned assessed) -
      load RunReport.bytes (selectedReports marks (seen.ordinary pinned assessed)) := by
    rw [hafter, load_selectedReports, hmarked, load_sub_take]
  cases hdry : o.dryRun with
  | true =>
    simp only [hdry, if_true] at h ⊢
    obtain rfl := Except.ok.inj h
    refine ⟨⟨heligible, ⟨_, n, ordinary_perm, ordinary_pairwise, hn, hshortest, hcovers, hmin⟩,
      hbytes, ?_, fun hd => ?_, protectedReports_reasons⟩, rfl, fun _ hm => absurd hm List.not_mem_nil⟩
    · rw [hdry, if_pos rfl]
      exact hcount
    · exact nomatch hdry.symm.trans hd
  | false =>
    simp only [hdry, Bool.false_eq_true, if_false] at h ⊢
    generalize happly : seen.applyAll move (seen.ordinary pinned assessed)
        (selectedReports marks (seen.ordinary pinned assessed))
        ⟨protectedReports pinned assessed, [], marks.after, [], none⟩ = applied at h ⊢
    cases hthrown : applied.thrown with
    | some e =>
      rw [hthrown] at h
      exact nomatch h
    | none =>
      rw [hthrown] at h
      obtain rfl := Except.ok.inj h
      obtain ⟨pruned, skipped, moves, hpruned, hprotected, hmoves, hruns, hsame, hmoved, hreasons,
        happlied⟩ := applyAll_spec hordinary hselected happly hthrown
      rw [List.nil_append] at hpruned hmoves
      refine ⟨⟨heligible, ⟨_, n, ordinary_perm, ordinary_pairwise, hn, hshortest, hcovers, hmin⟩,
        hbytes, ?_, fun _ s hs => ?_, fun s hs => ?_⟩, ?_, ?_⟩
      · rw [hdry, if_neg Bool.false_ne_true]
        dsimp only
        rw [happlied, hcount, hpruned]
        ring
      · dsimp only
        rw [hpruned, hprotected]
        have hreported : ((pruned ++ (protectedReports pinned assessed ++ skipped)).map
            fun s => s.run.runId).Perm ((protectedReports pinned assessed).map
              (fun s => s.run.runId) ++ (selectedReports marks
                (seen.ordinary pinned assessed)).map fun s => s.run.runId) := by
          refine ((List.perm_append_comm_assoc _ _ _).map _).trans ?_
          rw [List.map_append]
          refine List.Perm.append_left _ ?_
          have hids := hruns.map RetentionRun.runId
          rw [List.map_map, List.map_map] at hids
          exact hids
        have hsub : ((selectedReports marks (seen.ordinary pinned assessed)).map
            fun s => s.run.runId).Sublist ((seen.ordinary pinned assessed).map Item.runId) := by
          rw [selectedReports, List.map_map]
          exact List.filter_sublist.map _
        have hnodup := hreported.nodup_iff.mpr (hall.sublist (hsub.append_left _))
        refine List.count_eq_one_of_mem hnodup (hreported.mem_iff.mpr ?_)
        exact List.mem_append_right _ (List.mem_map.mpr ⟨s, hs, rfl⟩)
      · dsimp only at hs
        rw [hprotected] at hs
        rcases List.mem_append.mp hs with hs | hs
        · exact protectedReports_reasons s hs
        · exact hreasons s hs
      · rw [hpruned, hmoves]
        exact hsame.symm
      · rw [hmoves]
        exact hmoved

omit [SchemaText] in
theorem assessed_nodup {operations : Listing}
    (h : seen.checkRuns (o.runs.filter fun run => run.runId ∉ recovered) [] = .ok ()) :
    (((o.runs.filter fun run => run.runId ∉ recovered).map (seen.assess operations)).map
      Item.runId).Nodup := by
  rw [List.map_map]
  exact (checkRuns_nodup h).1

theorem selected_pruneAssessed
    (h : (seen.pruneAssessed move o recovered now pinned assessed).report = .ok r) :
    r.selected = selectedReports (mark now o.maxAgeMs o.maxBytes (seen.ordinary pinned assessed))
      (seen.ordinary pinned assessed) := by
  unfold Seen.pruneAssessed at h
  dsimp only at h
  split at h
  · exact nomatch h
  · obtain rfl := Except.ok.inj h
    rfl

theorem prune_report (h : (seen.prune move o).report = .ok r) :
    ∃ recovered now pinned assessed, seen.assessed o = .ok (recovered, now, pinned, assessed) ∧
      seen.prune move o = seen.pruneAssessed move o recovered now pinned assessed := by
  rw [Seen.prune] at h ⊢
  cases hassessed : seen.assessed o with
  | error e =>
    rw [hassessed] at h
    cases h
  | ok v => exact ⟨v.1, v.2.1, v.2.2.1, v.2.2.2, rfl, rfl⟩

/-- **Retention selection.** A report that a prune returns, dry or applied, is sound for the runs it
has assessed, and has pruned the runs it has moved, all of them without an error; and where no move
was interrupted, a dry prune selects what an applied one does. -/
theorem retention_selection (seen : Seen) [Std.TransCmp seen.localeCompare]
    (move : Removal → Option RetentionError) (o : PruneOptions) :
    (∀ r, (seen.prune move o).report = .ok r → ∃ recovered now pinned operations,
      seen.recover o = .ok recovered ∧ Seen.clock o = .ok now ∧ seen.pins = .ok pinned ∧
      seen.operations = .ok operations ∧
      Sound seen now pinned
        ((o.runs.filter fun run => run.runId ∉ recovered).map (seen.assess operations)) o r ∧
      Moved move (seen.prune move o).moves r) ∧
    (seen.recovered = .ok [] → ∀ dry applied,
      (seen.prune move { o with dryRun := true }).report = .ok dry →
      (seen.prune move { o with dryRun := false }).report = .ok applied →
      dry.selected = applied.selected) := by
  constructor
  · intro r h
    obtain ⟨recovered, now, pinned, assessed, hassessed, hprune⟩ := prune_report h
    obtain ⟨hrecovered, hnow, hpinned, operations, hoperations, rfl, hchecks⟩ :=
      assessed_ok hassessed
    rw [hprune] at h ⊢
    exact ⟨recovered, now, pinned, operations, hrecovered, hnow, hpinned, hoperations,
      pruneAssessed_sound (assessed_nodup hchecks) h⟩
  · intro hrecovered dry applied hdry happlied
    obtain ⟨recovered, now, pinned, assessed, hassessed, hprune⟩ := prune_report hdry
    obtain ⟨recovered', now', pinned', assessed', hassessed', hprune'⟩ := prune_report happlied
    rw [hprune] at hdry
    rw [hprune'] at happlied
    obtain ⟨hr, hn, hp, ops, ho, rfl, -⟩ := assessed_ok hassessed
    obtain ⟨hr', hn', hp', ops', ho', rfl, -⟩ := assessed_ok hassessed'
    obtain rfl : recovered = [] := (Except.ok.inj hr).symm
    obtain rfl : recovered' = [] := Except.ok.inj (hr'.symm.trans hrecovered)
    obtain rfl := Except.ok.inj (hn.symm.trans hn')
    obtain rfl := Except.ok.inj (hp.symm.trans hp')
    obtain rfl := Except.ok.inj (ho.symm.trans ho')
    rw [selected_pruneAssessed hdry, selected_pruneAssessed happlied]

end Report

section Both

local instance reportSchemaText : SchemaText := plainSchemaText

/-- A run that ended a day before the prune. -/
def secondRun : RetentionRun :=
  { steeredRun with
    runId := ofString "run_b"
    terminalAt := some (ofString "1970-01-30T00:00:00.000Z") }

/-- A store with two runs; the second is leased. -/
def orderedStore : Seen where
  pathExists _ := true
  recovered := .ok []
  pins := .ok []
  operations := .ok launchOperations
  treeBytes _ := 100
  parseDate := dateParse
  localeCompare := List.compareLex compare
  lease id := if id = secondRun.runId then .unavailable else .acquired
  recordFile _ := .absent
  inspectHandoffRef _ := none

/-- An applied prune of both runs, with a byte budget that none of them fits. -/
def pruneBoth : PruneOptions := { pruneSteered with runs := [steeredRun, secondRun], maxBytes := 50 }

/-- Both runs, assessed. -/
def assessedBoth : List Item := [steeredRun, secondRun].map (orderedStore.assess launchOperations)

theorem assessed_both : orderedStore.assessed pruneBoth = .ok ([], 2592000000, [], assessedBoth) := by
  have hfirst : descriptorValid steeredRun = true := by decide +kernel
  have hsecond : descriptorValid secondRun = true := by decide +kernel
  have hne : secondRun.runId ∉ [steeredRun.runId] := by decide
  have hchecks : orderedStore.checkRuns [steeredRun, secondRun] [] = .ok () := by
    rw [Seen.checkRuns, hfirst, Seen.checkRuns, hsecond, Seen.checkRuns, decide_eq_false hne]
    rfl
  change (orderedStore.checkRuns [steeredRun, secondRun] [] >>= fun _ => _) = _
  rw [hchecks]
  rfl

theorem ordinary_both : orderedStore.ordinary [] assessedBoth = assessedBoth := by
  have hall : (assessedBoth.filter fun item => (protectedReasons [] item).isEmpty) =
      assessedBoth := by
    refine List.filter_eq_self.mpr ?_
    decide +kernel
  rw [Seen.ordinary, hall]
  refine List.mergeSort_of_pairwise ?_
  decide +kernel

/-- The older run is pruned; the other is selected for its bytes, and skipped. -/
theorem retention_selection_both : Std.TransCmp orderedStore.localeCompare ∧ ∃ r,
    (orderedStore.prune (fun _ => none) pruneBoth).report = .ok r ∧
      r.pruned.map RunReport.run = [steeredRun] ∧
      r.protectedRuns.map (fun s => (s.run, s.reasons)) =
        [(secondRun, ["run-lease-unavailable"])] ∧
      ∃ recovered now pinned operations, orderedStore.recover pruneBoth = .ok recovered ∧
        Seen.clock pruneBoth = .ok now ∧ orderedStore.pins = .ok pinned ∧
        orderedStore.operations = .ok operations ∧
        Sound orderedStore now pinned ((pruneBoth.runs.filter fun run =>
          run.runId ∉ recovered).map (orderedStore.assess operations)) pruneBoth r ∧
        Moved (fun _ => none) (orderedStore.prune (fun _ => none) pruneBoth).moves r := by
  have htrans : Std.TransCmp orderedStore.localeCompare :=
    inferInstanceAs (Std.TransCmp (List.compareLex (compare (α := UInt16))))
  have hreport : ((orderedStore.prune (fun _ => none) pruneBoth).report.toOption.map fun r =>
      (r.pruned.map RunReport.run, r.protectedRuns.map fun s => (s.run, s.reasons))) =
      some ([steeredRun], [(secondRun, ["run-lease-unavailable"])]) := by
    rw [Seen.prune, assessed_both]
    dsimp only [Seen.pruneAssessed]
    rw [ordinary_both]
    decide +kernel
  obtain ⟨r, hr, hlists⟩ := Option.map_eq_some_iff.mp hreport
  have hok : (orderedStore.prune (fun _ => none) pruneBoth).report = .ok r := by
    cases h : (orderedStore.prune (fun _ => none) pruneBoth).report with
    | error e =>
      rw [h] at hr
      cases hr
    | ok r' =>
      rw [h] at hr
      exact congrArg Except.ok (Option.some.inj hr)
  obtain ⟨hpruned, hprotected⟩ := Prod.mk.inj hlists
  exact ⟨htrans, r, hok, hpruned, hprotected,
    (retention_selection orderedStore (fun _ => none) pruneBoth).1 r hok⟩

end Both

end Retention

end PiSubagent
