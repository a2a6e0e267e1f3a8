import PiSubagent.Service.Control

/-!
# The turns of controls

* `TurnHistory`: the calls that have had their turn on a run without a receipt of their operation, and
  the operations that ended without a receipt before a session had queued their text.
* `Uninterrupted`: the journal takes what a session has accepted, and the turns of an operation are
  on one run in memory, unless no session has been handed its text and none can be.
* **`controls_delivered`**: then a text is handed over at most once, there is one receipt for each
  operation, and it says `accepted-by-session` exactly when a session has queued the text.
* **`controls_redelivered`**: after a retry the same call hands the same text over again.
-/

namespace PiSubagent

open JsonText Calls Runs

namespace Control

variable {δ : Type}

/-! ## Histories -/

/-- A call has had its turn on a run in memory that had no receipt of its operation; `delivered` says
whether it was handed to the run's session or missed. -/
structure Turn where
  call : ℕ
  run : ℕ
  pair : OperationIndex.Pair
  delivered : Bool

/-- The turns so far, and the operations whose delivery has ended without a receipt, before a session
had queued the text: by the append of `control-failed` failing or by the death of the seat. -/
structure TurnHistory where
  turns : List Turn
  lost : OperationIndex.Pair → Bool

namespace TurnHistory

/-- Before anything has happened. -/
def empty : TurnHistory := ⟨[], fun _ => false⟩

/-- Operations are lost. -/
def lose (h : TurnHistory) (pairs : OperationIndex.Pair → Bool) : TurnHistory :=
  { h with lost := fun pair => h.lost pair || pairs pair }

end TurnHistory

/-- A process has the text of an operation at a session that has not queued it. -/
def unqueued (w : World (Service δ) Phase) (p : ℕ) (pair : OperationIndex.Pair) : Bool :=
  (List.range w.next).any fun c => (w.calls c).any fun a =>
    a.process = p && a.state.point.flying && !a.state.point.accepted && a.state.call.pair = pair

namespace TurnHistory

/-- What an action adds to the history. -/
def extend (w : World (Service δ) Phase) (h : TurnHistory) : Act δ → TurnHistory
  | .move c o =>
    match w.calls c with
    | some ⟨_, call, .waiting n⟩ =>
      match w.shared.objects n with
      | some run =>
        if run.controlReceipts call.input.operationId = none then
          { h with turns := h.turns ++ [⟨c, n, call.pair, run.controllable⟩] }
        else h
      | none => h
    | some ⟨_, call, .failing _⟩ =>
      match o with
      | .ok => h
      | .fails => h.lose fun pair => pair = call.pair
    | _ => h
  | .die p => if w.dead p then h else h.lose (unqueued w p)
  | _ => h

/-- An operation may have a turn on a run without a receipt of it. A run that can be controlled takes
it when it has had no turn on another run and was not lost; on any other run it is missed, as long as
no other run's session was handed its text, unless that was lost. -/
def admits (h : TurnHistory) (n : ℕ) (run : ActiveRun) (pair : OperationIndex.Pair) : Bool :=
  if run.controllable then
    !h.lost pair && h.turns.all fun x => x.pair ≠ pair || x.run = n
  else h.turns.all fun x => x.pair ≠ pair || x.run = n || !x.delivered || h.lost pair

end TurnHistory

/-- The journal takes what a session has accepted, and the history admits every turn on a run without
a receipt. -/
def Uninterrupted (w : World (Service δ) Phase) (h : TurnHistory) : Act δ → Bool
  | .move c o =>
    match w.calls c with
    | some ⟨_, call, .waiting n⟩ =>
      (w.shared.objects n).all fun run =>
        (run.controlReceipts call.input.operationId).isSome || h.admits n run call.pair
    | some ⟨_, _, .accepting _⟩ => o = .ok
    | _ => true
  | _ => true

/-! ## What the history knows -/

/-- The call of a turn has its text at the session of its run. -/
def AtSession (w : World (Service δ) Phase) (x : Turn) (run : ActiveRun) : Prop :=
  run.controlTail.head? = some x.call ∧ ∃ a, w.calls x.call = some a ∧
    a.state.point.flying = true ∧ a.state.call.pair = x.pair ∧ a.state.point.run = some x.run

/-- What has become of a turn: its run has a receipt, or its operation was lost, or its text is at the
session. -/
def Settled (w : World (Service δ) Phase) (h : TurnHistory) (x : Turn) : Prop :=
  ∃ run, w.shared.objects x.run = some run ∧ run.ownerId = x.pair.ownerId ∧
    ((run.controlReceipts x.pair.operationId).isSome = true ∨ h.lost x.pair = true ∨
      AtSession w x run)

/-- Nothing but that it was missed is on record of an operation, and its text is at no session of a
seat that lives. -/
structure Lost (w : World (Service δ) Phase) (pair : OperationIndex.Pair) : Prop where
  queued : ¬ Queued w.shared pair
  missed : ∀ x, Recorded w.shared pair x → x = .missed
  idle : ∀ c a, w.calls c = some a → w.dead a.process = false → a.state.point.flying = true →
    a.state.call.pair ≠ pair

/-- The history has a turn of every text handed over and of every receipt. -/
structure Traced (w : World (Service δ) Phase) (h : TurnHistory) : Prop where
  receipts : ∀ m pair r, ReceiptAt w.shared m pair r →
    ∃ x ∈ h.turns, x.run = m ∧ x.pair = pair ∧ (x.delivered = false → r = .missed)
  handed : ∀ d ∈ w.shared.handed, ∃ x ∈ h.turns, x.pair = d.pair ∧ x.delivered = true
  turned : ∀ x ∈ h.turns, Settled w h x
  flying : ∀ c a n, w.calls c = some a → a.state.point.flying = true →
    a.state.point.run = some n →
      (∃ x ∈ h.turns, x.run = n ∧ x.pair = a.state.call.pair ∧ x.delivered = true) ∧
        ∃ run, w.shared.objects n = some run ∧ run.controlTail.head? = some c
  lost : ∀ pair, h.lost pair = true → Lost w pair

variable {w v : World (Service δ) Phase} {h g : TurnHistory} {s t : Service δ} {c n : ℕ}
  {call : ControlCall} {run : ActiveRun}

theorem traced_fresh (dead : ℕ → Bool) :
    Traced (World.fresh dead (empty : Service δ)) .empty where
  receipts := by
    rintro m pair r ⟨run, hrun, -⟩
    cases hrun
  handed := by
    intro d hd
    cases hd
  turned := by
    intro x hx
    cases hx
  flying := by
    intro c a n hc
    cases hc
  lost := by
    intro pair hlost
    cases hlost

/-! ## What a turn finds -/

/-- Where a call has its turn without a receipt, its operation has had none on that run, or was lost. -/
theorem Traced.lost_of_turn (ht : Traced w h) {p : ℕ} (hc : w.calls c = some ⟨p, call, .waiting n⟩)
    (hn : w.shared.objects n = some run) (hhead : run.controlTail.head? = some c)
    (hnone : run.controlReceipts call.input.operationId = none) {x : Turn} (hx : x ∈ h.turns)
    (hpair : x.pair = call.pair) (hrun : x.run = n) : h.lost call.pair = true := by
  obtain ⟨run', hrun', -, hsome | hlost | ⟨hhead', a, ha, hfly, -, -⟩⟩ := ht.turned x hx
  · rw [hrun, hn] at hrun'
    cases hrun'
    rw [hpair, show call.pair.operationId = call.input.operationId from rfl, hnone] at hsome
    cases hsome
  · exact hpair ▸ hlost
  · -- the head of the tail is the call that has its turn
    rw [hrun, hn] at hrun'
    cases hrun'
    rw [hhead] at hhead'
    rw [← Option.some.inj hhead', hc] at ha
    cases ha
    cases hfly

theorem TurnHistory.admits_spec {pair : OperationIndex.Pair} (hadmits : h.admits n run pair = true)
    {x : Turn} (hx : x ∈ h.turns) (hpair : x.pair = pair) :
    x.run = n ∨ run.controllable = false ∧ (x.delivered = false ∨ h.lost pair = true) := by
  unfold TurnHistory.admits at hadmits
  split at hadmits
  · rw [Bool.and_eq_true, List.all_eq_true] at hadmits
    have hturn := hadmits.2 x hx
    rw [Bool.or_eq_true] at hturn
    rcases hturn with hne | hrun
    · exact absurd hpair (of_decide_eq_true hne)
    · exact Or.inl (of_decide_eq_true hrun)
  · next hcontrol =>
    have hturn := List.all_eq_true.mp hadmits x hx
    simp only [Bool.or_eq_true] at hturn
    rcases hturn with ((hne | hrun) | hmissed) | hlost
    · exact absurd hpair (of_decide_eq_true hne)
    · exact Or.inl (of_decide_eq_true hrun)
    · exact Or.inr ⟨Bool.eq_false_iff.mpr hcontrol, Or.inl (by simpa using hmissed)⟩
    · exact Or.inr ⟨Bool.eq_false_iff.mpr hcontrol, Or.inr hlost⟩

theorem TurnHistory.admits_lost {pair : OperationIndex.Pair} (hadmits : h.admits n run pair = true)
    (hcontrol : run.controllable = true) : h.lost pair = false := by
  unfold TurnHistory.admits at hadmits
  rw [if_pos hcontrol, Bool.and_eq_true] at hadmits
  simpa using hadmits.1

/-- **A turn that the history admits** finds nothing that stands against it. -/
theorem Traced.unheard (ht : Traced w h) (hw : controlOutline.Holds w) {p : ℕ}
    (hc : w.calls c = some ⟨p, call, .waiting n⟩) (hn : w.shared.objects n = some run)
    (hhead : run.controlTail.head? = some c)
    (hnone : run.controlReceipts call.input.operationId = none)
    (hadmits : h.admits n run call.pair = true) :
    Unheard w.shared call.pair run (Alone w c call.pair) := by
  have hlost : ∀ x ∈ h.turns, x.pair = call.pair → x.delivered = true →
      h.lost call.pair = true := by
    intro x hx hpair hdelivered
    rcases h.admits_spec hadmits hx hpair with hrun | ⟨-, hmissed | hlost⟩
    · exact ht.lost_of_turn hc hn hhead hnone hx hpair hrun
    · rw [hdelivered] at hmissed
      cases hmissed
    · exact hlost
  -- another run has the receipt
  have hother : ∀ m r, ReceiptAt w.shared m call.pair r → m ≠ n := by
    rintro m r ⟨run', hm, -, hr⟩ rfl
    rw [hn] at hm
    cases hm
    rw [show call.pair.operationId = call.input.operationId from rfl, hnone] at hr
    cases hr
  refine ⟨?_, ?_, ?_, ?_⟩
  · rintro r ⟨m, run', hrecorded⟩
    obtain ⟨x, hx, hrun, hpair, hmissed⟩ := ht.receipts m _ r ⟨run', hrecorded⟩
    cases hd : x.delivered with
    | false => exact hmissed hd
    | true => exact (ht.lost _ (hlost x hx hpair hd)).missed r ⟨m, run', hrecorded⟩
  · intro hqueued
    obtain ⟨d, hd, hpair⟩ := hw.all.queued _ hqueued
    obtain ⟨x, hx, hxpair, hdelivered⟩ := ht.handed d hd
    exact (ht.lost _ (hlost x hx (hxpair.trans hpair) hdelivered)).queued hqueued
  · intro d b hd hb hlive hfly hpair
    have hrun : ∃ m, b.state.point.run = some m := by
      cases hp : b.state.point <;> rw [hp] at hfly <;> first | exact ⟨_, rfl⟩ | cases hfly
    obtain ⟨m, hm⟩ := hrun
    obtain ⟨⟨x, hx, -, hxpair, hdelivered⟩, -⟩ := ht.flying d b m hb hfly hm
    exact (ht.lost _ (hlost x hx (hxpair.trans hpair) hdelivered)).idle d b hb hlive hfly hpair
  · intro hcontrol
    have hkept := TurnHistory.admits_lost hadmits hcontrol
    refine ⟨?_, ?_⟩
    · rintro ⟨d, hd, hpair⟩
      obtain ⟨x, hx, hxpair, hdelivered⟩ := ht.handed d hd
      rw [hlost x hx (hxpair.trans hpair) hdelivered] at hkept
      cases hkept
    · rintro r ⟨m, run', hrecorded⟩
      obtain ⟨x, hx, hrun, hpair, -⟩ := ht.receipts m _ r ⟨run', hrecorded⟩
      rcases h.admits_spec hadmits hx hpair with hxn | ⟨hfalse, -⟩
      · exact hother m r ⟨run', hrecorded⟩ (hrun.symm.trans hxn)
      · rw [hcontrol] at hfalse
        cases hfalse

/-! ## What a step leaves -/

/-- Runs in memory stay, with their receipts, and calls other than one stay at the head of their
tails. -/
def Grows (c : ℕ) (s t : Service δ) : Prop :=
  ∀ m run, s.objects m = some run → ∃ run', t.objects m = some run' ∧ run'.ownerId = run.ownerId ∧
    (∀ op, (run.controlReceipts op).isSome = true → (run'.controlReceipts op).isSome = true) ∧
    ∀ e, e ≠ c → run.controlTail.head? = some e → run'.controlTail.head? = some e

theorem Grows.refl : Grows c s s :=
  fun _ run hrun => ⟨run, hrun, rfl, fun _ hop => hop, fun _ _ hhead => hhead⟩

theorem grows_changeRun {f : ActiveRun → ActiveRun} (howner : ∀ run, (f run).ownerId = run.ownerId)
    (hreceipts : ∀ run op, (run.controlReceipts op).isSome = true →
      ((f run).controlReceipts op).isSome = true)
    (htail : ∀ run e, e ≠ c → run.controlTail.head? = some e →
      (f run).controlTail.head? = some e) : Grows c s (s.changeRun n f) := by
  intro m run hm
  by_cases he : m = n
  · subst he
    refine ⟨f run, ?_, howner run, hreceipts run, htail run⟩
    rw [changeRun_objects, if_pos rfl, hm]
    rfl
  · refine ⟨run, ?_, rfl, fun _ hop => hop, fun _ _ hhead => hhead⟩
    rw [changeRun_objects, if_neg he]
    exact hm

theorem head?_append_of {l k : List ℕ} {e : ℕ} (h : l.head? = some e) :
    (l ++ k).head? = some e := by
  rw [List.head?_append, h]
  rfl

theorem head?_filter_ne {l : List ℕ} {e : ℕ} (he : e ≠ c) (h : l.head? = some e) :
    (l.filter (· ≠ c)).head? = some e := by
  obtain ⟨rest, rfl⟩ := List.head?_eq_some_iff.mp h
  simp [he]

theorem grows_enqueue : Grows c s (s.enqueue n c) :=
  grows_changeRun (fun _ => rfl) (fun _ _ hop => hop) fun _ _ _ hhead => head?_append_of hhead

theorem grows_leave : Grows c s (s.leave n c) :=
  grows_changeRun (fun _ => rfl) (fun _ _ hop => hop) fun _ _ he hhead => head?_filter_ne he hhead

theorem isSome_update {f : JsString → Option ReceiptState} {key op : JsString} {x : ReceiptState}
    (h : (f op).isSome = true) : (Function.update f key (some x) op).isSome = true := by
  by_cases he : op = key
  · subst he
    rw [Function.update_self]
    rfl
  · rwa [Function.update_of_ne he]

theorem grows_record {x : ReceiptState} : Grows c s (s.record n c call x) :=
  grows_changeRun (fun _ => rfl) (fun _ _ hop => isSome_update hop)
    fun _ _ he hhead => head?_filter_ne he hhead

theorem record_self (c : ℕ) (call : ControlCall) (x : ReceiptState)
    (hn : s.objects n = some run) :
    ∃ run', (s.record n c call x).objects n = some run' ∧ run'.ownerId = run.ownerId ∧
      run'.controlReceipts call.input.operationId = some x := by
  refine ⟨{ run with
    controlReceipts := Function.update run.controlReceipts call.input.operationId (some x)
    controlTail := run.controlTail.filter (· ≠ c) }, ?_, rfl, Function.update_self _ _ _⟩
  rw [Service.record, changeRun_objects, if_pos rfl, hn]
  rfl

/-- What a step of the call `c` does to the turns. -/
structure Advance (c : ℕ) (w v : World (Service δ) Phase) (h g : TurnHistory) : Prop where
  calls : ∀ d, d ≠ c → v.calls d = w.calls d
  grows : Grows c w.shared v.shared
  turns : ∀ x ∈ h.turns, x ∈ g.turns
  loses : ∀ pair, h.lost pair = true → g.lost pair = true
  receipts : ∀ m pair r, ReceiptAt v.shared m pair r → ReceiptAt w.shared m pair r ∨
    ∃ x ∈ g.turns, x.run = m ∧ x.pair = pair ∧ (x.delivered = false → r = .missed)
  handed : ∀ d ∈ v.shared.handed, d ∈ w.shared.handed ∨
    ∃ x ∈ g.turns, x.pair = d.pair ∧ x.delivered = true
  own : ∀ x ∈ h.turns, x.call = c → (∃ run, AtSession w x run) → Settled v g x
  fresh : ∀ x ∈ g.turns, x ∈ h.turns ∨ Settled v g x
  flying : ∀ a m, v.calls c = some a → a.state.point.flying = true → a.state.point.run = some m →
    (∃ x ∈ g.turns, x.run = m ∧ x.pair = a.state.call.pair ∧ x.delivered = true) ∧
      ∃ run, v.shared.objects m = some run ∧ run.controlTail.head? = some c
  lost : ∀ pair, g.lost pair = true → Lost v pair

/-- **The history goes on.** -/
theorem Traced.advance (ht : Traced w h) (ha : Advance c w v h g) : Traced v g where
  receipts := by
    intro m pair r hr
    rcases ha.receipts m pair r hr with hold | hnew
    · obtain ⟨x, hx, hmissed⟩ := ht.receipts m pair r hold
      exact ⟨x, ha.turns x hx, hmissed⟩
    · exact hnew
  handed := by
    intro d hd
    rcases ha.handed d hd with hold | hnew
    · obtain ⟨x, hx, hpair⟩ := ht.handed d hold
      exact ⟨x, ha.turns x hx, hpair⟩
    · exact hnew
  turned := by
    intro x hx
    rcases ha.fresh x hx with hold | hnew
    · obtain ⟨run, hrun, howner, hcases⟩ := ht.turned x hold
      obtain ⟨run', hrun', howner', hreceipts, hhead⟩ := ha.grows _ run hrun
      rcases hcases with hsome | hlost | hsession
      · exact ⟨run', hrun', howner'.trans howner, Or.inl (hreceipts _ hsome)⟩
      · exact ⟨run', hrun', howner'.trans howner, Or.inr (Or.inl (ha.loses _ hlost))⟩
      · by_cases hc : x.call = c
        · exact ha.own x hold hc ⟨run, hsession⟩
        · obtain ⟨hfirst, a, hcall, hrest⟩ := hsession
          exact ⟨run', hrun', howner'.trans howner, Or.inr (Or.inr ⟨hhead _ hc hfirst, a,
            (ha.calls _ hc).trans hcall, hrest⟩)⟩
    · exact hnew
  flying := by
    intro d b m hd hfly hm
    by_cases hc : d = c
    · subst hc
      exact ha.flying b m hd hfly hm
    · rw [ha.calls d hc] at hd
      obtain ⟨⟨x, hx, hturn⟩, run, hrun, hhead⟩ := ht.flying d b m hd hfly hm
      obtain ⟨run', hrun', -, -, hhead'⟩ := ha.grows m run hrun
      exact ⟨⟨x, ha.turns x hx, hturn⟩, run', hrun', hhead' d hc hhead⟩
  lost := ha.lost

/-- A lost operation stays so while no session queues its text, nothing but misses of it are recorded,
and it is handed over to none. -/
theorem Lost.advance {pair : OperationIndex.Pair} (hl : Lost w pair)
    (hqueued : Queued v.shared pair → Queued w.shared pair)
    (hrecorded : ∀ x, Recorded v.shared pair x → Recorded w.shared pair x ∨ x = .missed)
    (hidle : ∀ c a, v.calls c = some a → v.dead a.process = false → a.state.point.flying = true →
      a.state.call.pair = pair → ∃ b, w.calls c = some b ∧ w.dead b.process = false ∧
        b.state.point.flying = true ∧ b.state.call.pair = pair) : Lost v pair where
  queued := fun hq => hl.queued (hqueued hq)
  missed := by
    intro x hx
    rcases hrecorded x hx with hold | hmissed
    · exact hl.missed x hold
    · exact hmissed
  idle := by
    intro c a hc hlive hfly hpair
    obtain ⟨b, hb, hlive', hfly', hpair'⟩ := hidle c a hc hlive hfly hpair
    exact hl.idle c b hb hlive' hfly' hpair'

/-- A step of a call that is at no session, before it and after it, and records nothing. -/
theorem Advance.idle (ht : Traced w h) (hcalls : ∀ d, d ≠ c → v.calls d = w.calls d)
    (hdead : v.dead = w.dead) (hgrows : Grows c w.shared v.shared)
    (hreceipts : ∀ m pair r, ReceiptAt v.shared m pair r → ReceiptAt w.shared m pair r)
    (hhanded : v.shared.handed = w.shared.handed) (hqueued : v.shared.queued = w.shared.queued)
    (hbefore : ∀ a, w.calls c = some a → a.state.point.flying = false)
    (hafter : ∀ a, v.calls c = some a → a.state.point.flying = false) : Advance c w v h h where
  calls := hcalls
  grows := hgrows
  turns := fun _ hx => hx
  loses := fun _ hlost => hlost
  receipts := fun m pair r hr => Or.inl (hreceipts m pair r hr)
  handed := fun d hd => Or.inl (hhanded ▸ hd)
  own := by
    rintro x - rfl ⟨run, -, a, ha, hfly, -⟩
    rw [hbefore a ha] at hfly
    cases hfly
  fresh := fun x hx => Or.inl hx
  flying := by
    intro a m ha hfly
    rw [hafter a ha] at hfly
    cases hfly
  lost := by
    intro pair hlost
    refine (ht.lost pair hlost).advance ?_ ?_ ?_
    · rintro ⟨d, hd, hpair⟩
      exact ⟨d, hqueued ▸ hd, hpair⟩
    · rintro x ⟨m, run, hrun⟩
      obtain ⟨run', hrun'⟩ := hreceipts m pair x ⟨run, hrun⟩
      exact Or.inl ⟨m, run', hrun'⟩
    · intro d b hb hlive hfly hpair
      by_cases hd : d = c
      · subst hd
        rw [hafter b hb] at hfly
        cases hfly
      · exact ⟨b, (hcalls d hd).symm.trans hb, hdead ▸ hlive, hfly, hpair⟩

/-! ## Moves of a call -/

section Moves

variable {seat : ℕ} {p q : Point} {o : Outcome}

/-- The world after a move of a call. -/
def moved (w : World (Service δ) Phase) (c seat : ℕ) (call : ControlCall) (q : Point)
    (t : Service δ) : World (Service δ) Phase :=
  { w.setCall c ⟨seat, call, q⟩ with shared := t }

theorem moved_self : (moved w c seat call q t).calls c = some ⟨seat, call, q⟩ :=
  World.setCall_self _ _

theorem moved_ne {d : ℕ} (hd : d ≠ c) : (moved w c seat call q t).calls d = w.calls d :=
  World.setCall_ne hd _

/-- A call that is at no session, before its move and after it, and records nothing. -/
theorem Traced.advance_idle (ht : Traced w h) (hc : w.calls c = some ⟨seat, call, p⟩)
    (hp : p.flying = false) (hq : q.flying = false) (hgrows : Grows c w.shared t)
    (hreceipts : ∀ m pair r, ReceiptAt t m pair r → ReceiptAt w.shared m pair r)
    (hhanded : t.handed = w.shared.handed) (hqueued : t.queued = w.shared.queued) :
    Traced (moved w c seat call q t) h := by
  refine ht.advance (.idle ht (fun d hd => moved_ne hd) rfl hgrows hreceipts hhanded hqueued ?_ ?_)
  · intro a ha
    rw [hc] at ha
    cases ha
    exact hp
  · intro a ha
    rw [moved_self] at ha
    cases ha
    exact hq

theorem Traced.not_lost (ht : Traced w h) (hc : w.calls c = some ⟨seat, call, p⟩)
    (hlive : w.dead seat = false) (hfly : p.flying = true) : ¬ h.lost call.pair = true :=
  fun hlost => (ht.lost _ hlost).idle c _ hc hlive hfly rfl

theorem Lost.moved {pair : OperationIndex.Pair} (hl : Lost w pair) (hne : call.pair ≠ pair)
    (hqueued : Queued t pair → Queued w.shared pair)
    (hrecorded : ∀ x, Recorded t pair x → Recorded w.shared pair x ∨ x = .missed) :
    Lost (moved w c seat call q t) pair := by
  refine hl.advance hqueued hrecorded ?_
  intro d b hb hlive hfly hpair
  by_cases hd : d = c
  · subst hd
    rw [moved_self] at hb
    cases hb
    exact absurd hpair hne
  · exact ⟨b, (moved_ne hd).symm.trans hb, hlive, hfly, hpair⟩

theorem Traced.advance_flying (ht : Traced w h) (hc : w.calls c = some ⟨seat, call, p⟩)
    (hlive : w.dead seat = false) (hp : p.flying = true) (hrun : q.run = p.run)
    (hq : q.flying = true) (hobjects : t.objects = w.shared.objects)
    (hhanded : t.handed = w.shared.handed)
    (hqueued : ∀ pair, call.pair ≠ pair → Queued t pair → Queued w.shared pair) :
    Traced (moved w c seat call q t) h := by
  have hkept : ∀ m pair r, ReceiptAt t m pair r → ReceiptAt w.shared m pair r := by
    rintro m pair r ⟨run, hr⟩
    exact ⟨run, hobjects ▸ hr⟩
  refine ht.advance ⟨fun d hd => moved_ne hd, ?_, fun _ hx => hx, fun _ hl => hl,
    fun m pair r hr => Or.inl (hkept m pair r hr), fun d hd => Or.inl (hhanded ▸ hd), ?_,
    fun _ hx => Or.inl hx, ?_, ?_⟩
  · intro m run hm
    exact ⟨run, (congrFun hobjects m).trans hm, rfl, fun _ hop => hop, fun _ _ hhead => hhead⟩
  · rintro x hx rfl ⟨run, hhead, a, ha, hfly, hpair, hxrun⟩
    obtain ⟨run', hrun', howner, -⟩ := ht.turned x hx
    rw [hc] at ha
    cases ha
    obtain ⟨-, run'', hrun'', hhead'⟩ := ht.flying _ _ _ hc hp hxrun
    rw [hrun'] at hrun''
    cases hrun''
    exact ⟨run', (congrFun hobjects _).trans hrun', howner,
      Or.inr (Or.inr ⟨hhead', _, moved_self, hq, hpair, hrun.trans hxrun⟩)⟩
  · intro a m ha _ hm
    rw [moved_self] at ha
    cases ha
    obtain ⟨hturn, run, hrun', hhead⟩ := ht.flying _ _ m hc hp (hrun.symm.trans hm)
    exact ⟨hturn, run, (congrFun hobjects m).trans hrun', hhead⟩
  · intro pair hlost
    have hne : call.pair ≠ pair := by
      rintro rfl
      exact ht.not_lost hc hlive hp hlost
    refine (ht.lost pair hlost).moved hne (hqueued pair hne) ?_
    rintro x ⟨m, hr⟩
    exact Or.inl ⟨m, hkept m pair x hr⟩

/-- The delivery of a text ends: its run has a receipt, or it is lost. -/
theorem Traced.advance_ended (ht : Traced w h) (hc : w.calls c = some ⟨seat, call, p⟩)
    (hlive : w.dead seat = false) (hp : p.flying = true) (hn : p.run = some n)
    (hq : q.flying = false) (hgrows : Grows c w.shared t)
    (hhanded : t.handed = w.shared.handed) (hqueued : t.queued = w.shared.queued)
    (hreceipts : ∀ m pair r, ReceiptAt t m pair r → ReceiptAt w.shared m pair r ∨
      m = n ∧ pair = call.pair)
    (hturns : g.turns = h.turns) (hloses : ∀ pair, h.lost pair = true → g.lost pair = true)
    (hlost : ∀ pair, g.lost pair = true → h.lost pair = true ∨ Lost (moved w c seat call q t) pair)
    (hended : ∃ run, t.objects n = some run ∧ run.ownerId = call.ownerId ∧
      ((run.controlReceipts call.input.operationId).isSome = true ∨ g.lost call.pair = true)) :
    Traced (moved w c seat call q t) g := by
  obtain ⟨⟨y, hy, hyrun, hypair, hdelivered⟩, -⟩ := ht.flying c _ n hc hp hn
  refine ht.advance ⟨fun d hd => moved_ne hd, hgrows, fun _ hx => hturns ▸ hx, hloses, ?_,
    fun d hd => Or.inl (hhanded ▸ hd), ?_, fun _ hx => Or.inl (hturns ▸ hx), ?_, ?_⟩
  · intro m pair r hr
    rcases hreceipts m pair r hr with hold | ⟨rfl, rfl⟩
    · exact Or.inl hold
    · refine Or.inr ⟨y, hturns ▸ hy, hyrun, hypair, ?_⟩
      intro hfalse
      rw [hdelivered] at hfalse
      cases hfalse
  · rintro x - rfl ⟨-, -, a, ha, -, hpair, hxrun⟩
    rw [hc] at ha
    cases ha
    obtain ⟨run, hrun, howner, hcases⟩ := hended
    have hxn : x.run = n := Option.some.inj (hxrun.symm.trans hn)
    have hxpair : x.pair = call.pair := hpair.symm
    refine ⟨run, hxn ▸ hrun, hxpair ▸ howner, ?_⟩
    rcases hcases with hsome | hgone
    · exact Or.inl (hxpair ▸ hsome)
    · exact Or.inr (Or.inl (hxpair ▸ hgone))
  · intro a m ha hfly
    rw [moved_self] at ha
    cases ha
    rw [show Point.flying q = true from hfly] at hq
    cases hq
  · intro pair hgone
    rcases hlost pair hgone with hold | hnew
    · have hne : call.pair ≠ pair := by
        rintro rfl
        exact ht.not_lost hc hlive hp hold
      refine (ht.lost pair hold).moved hne ?_ ?_
      · rintro ⟨d, hd, hpair⟩
        exact ⟨d, hqueued ▸ hd, hpair⟩
      · rintro x ⟨m, hr⟩
        rcases hreceipts m pair x hr with hr | ⟨-, rfl⟩
        · exact Or.inl ⟨m, hr⟩
        · exact absurd rfl hne
    · exact hnew

/-- **A turn on a run without a receipt** is added to the history. -/
theorem Traced.advance_turn (ht : Traced w h) (hc : w.calls c = some ⟨seat, call, .waiting n⟩)
    (hn : w.shared.objects n = some run) (howner : run.ownerId = call.ownerId)
    (hhead : run.controlTail.head? = some c)
    (hnone : run.controlReceipts call.input.operationId = none)
    (hadmits : h.admits n run call.pair = true) (hturn : turn c n call w.shared = some (t, q)) :
    Traced (moved w c seat call q t)
      { h with turns := h.turns ++ [⟨c, n, call.pair, run.controllable⟩] } := by
  have hnew : (⟨c, n, call.pair, run.controllable⟩ : Turn) ∈
      h.turns ++ [⟨c, n, call.pair, run.controllable⟩] :=
    List.mem_append_right _ (List.mem_singleton.mpr rfl)
  have hold : ∀ x ∈ h.turns, x ∈ h.turns ++ [(⟨c, n, call.pair, run.controllable⟩ : Turn)] :=
    fun _ hx => List.mem_append_left _ hx
  have hwaiting : ∀ x : Turn, x.call = c → ¬ ∃ run, AtSession w x run := by
    rintro x rfl ⟨-, -, a, ha, hfly, -⟩
    rw [hc] at ha
    cases ha
    cases hfly
  obtain ⟨run', hrun', -, hcases⟩ := turn_cases hturn
  rw [hn] at hrun'
  cases hrun'
  rcases hcases with ⟨x, hx, -, -⟩ | ⟨-, hcontrol, rfl, rfl⟩ | ⟨-, hcontrol, rfl, rfl⟩
  · rw [hnone] at hx
    cases hx
  · -- the session is handed the text
    have hself : AtSession (moved w c seat call (.delivering n) { w.shared with
        handed := w.shared.handed ++ [⟨n, call.pair, call.kind, call.input.text⟩] })
        ⟨c, n, call.pair, run.controllable⟩ run := ⟨hhead, _, moved_self, rfl, rfl, rfl⟩
    refine ht.advance ⟨fun d hd => moved_ne hd, Grows.refl, hold, fun _ hl => hl,
      fun m pair r hr => Or.inl hr, ?_, fun x _ hxc hs => absurd hs (hwaiting x hxc), ?_, ?_, ?_⟩
    · intro d hd
      rcases List.mem_append.mp hd with hd | hd
      · exact Or.inl hd
      · rw [List.mem_singleton.mp hd]
        exact Or.inr ⟨_, hnew, rfl, hcontrol⟩
    · intro x hx
      rcases List.mem_append.mp hx with hx | hx
      · exact Or.inl hx
      · rw [List.mem_singleton.mp hx]
        exact Or.inr ⟨run, hn, howner, Or.inr (Or.inr hself)⟩
    · intro a m ha _ hm
      rw [moved_self] at ha
      cases ha
      cases hm
      exact ⟨⟨_, hnew, rfl, rfl, hcontrol⟩, run, hn, hhead⟩
    · intro pair hlost
      have hne : call.pair ≠ pair := by
        rintro rfl
        have hfalse := TurnHistory.admits_lost hadmits hcontrol
        rw [show h.lost call.pair = true from hlost] at hfalse
        cases hfalse
      exact (ht.lost pair hlost).moved hne id fun _ hr => Or.inl hr
  · -- the control is missed
    refine ht.advance ⟨fun d hd => moved_ne hd, grows_record, hold, fun _ hl => hl, ?_,
      fun d hd => Or.inl ?_, fun x _ hxc hs => absurd hs (hwaiting x hxc), ?_, ?_, ?_⟩
    · intro m pair r hr
      rcases receiptAt_record hn howner hr with hr | ⟨rfl, rfl, rfl⟩
      · exact Or.inl hr
      · exact Or.inr ⟨_, hnew, rfl, rfl, fun _ => rfl⟩
    · rwa [show (moved w c seat call (.done .missed) (w.shared.record n c call .missed)).shared =
        w.shared.record n c call .missed from rfl, Service.record, changeRun_handed] at hd
    · intro x hx
      rcases List.mem_append.mp hx with hx | hx
      · exact Or.inl hx
      · rw [List.mem_singleton.mp hx]
        obtain ⟨run', hrun', howner', hreceipt⟩ := record_self c call .missed hn
        refine Or.inr ⟨run', hrun', howner'.trans howner, Or.inl ?_⟩
        rw [show call.pair.operationId = call.input.operationId from rfl, hreceipt]
        rfl
    · intro a m ha hfly
      rw [moved_self] at ha
      cases ha
      cases hfly
    · intro pair hlost
      refine (ht.lost pair hlost).advance ?_ ?_ ?_
      · rintro ⟨d, hd, hpair⟩
        refine ⟨d, ?_, hpair⟩
        rwa [show (moved w c seat call (.done .missed) (w.shared.record n c call .missed)).shared =
          w.shared.record n c call .missed from rfl, Service.record, changeRun_queued] at hd
      · rintro x ⟨m, hr⟩
        rcases receiptAt_record hn howner hr with hr | ⟨-, -, rfl⟩
        · exact Or.inl ⟨m, hr⟩
        · exact Or.inr rfl
      · intro d b hb hlive hfly hpair
        by_cases hd : d = c
        · subst hd
          rw [moved_self] at hb
          cases hb
          cases hfly
        · exact ⟨b, (moved_ne hd).symm.trans hb, hlive, hfly, hpair⟩

end Moves

/-! ## Steps -/

/-- A text that a process has at a session that has not queued it. -/
theorem unqueued_spec {p : ℕ} {pair : OperationIndex.Pair}
    (hu : unqueued w p pair = true) : ∃ c a, w.calls c = some a ∧ a.process = p ∧
      a.state.point.flying = true ∧ a.state.point.accepted = false ∧ a.state.call.pair = pair := by
  obtain ⟨c, -, hc⟩ := List.any_eq_true.mp hu
  obtain ⟨a, ha, hcall⟩ := (Option.any_eq_true _ _).mp hc
  simp only [Bool.and_eq_true, decide_eq_true_eq, Bool.not_eq_true'] at hcall
  obtain ⟨⟨⟨hp, hfly⟩, haccepted⟩, hpair⟩ := hcall
  exact ⟨c, a, ha, hp, hfly, haccepted, hpair⟩

/-- The death of a seat loses the texts that its sessions have not queued. -/
theorem Traced.die (ht : Traced w h) (hw : controlOutline.Holds w) (p : ℕ) :
    Traced { w with dead := Function.update w.dead p true }
      (if w.dead p then h else h.lose (unqueued w p)) := by
  have hlive : ∀ a : Call Phase, Function.update w.dead p true a.process = false →
      a.process ≠ p ∧ w.dead a.process = false := by
    intro a ha
    by_cases hp : a.process = p
    · rw [hp, Function.update_self] at ha
      cases ha
    · exact ⟨hp, (Function.update_of_ne hp _ _).symm.trans ha⟩
  have hkept : ∀ pair, h.lost pair = true →
      Lost { w with dead := Function.update w.dead p true } pair := by
    intro pair hlost
    refine (ht.lost pair hlost).advance id (fun _ hr => Or.inl hr) ?_
    exact fun c a hc hl hfly hpair => ⟨a, hc, (hlive a hl).2, hfly, hpair⟩
  -- what is settled stays so with whatever is lost
  have hsettled : ∀ g : TurnHistory, (∀ pair, h.lost pair = true → g.lost pair = true) →
      ∀ x, Settled w h x → Settled { w with dead := Function.update w.dead p true } g x := by
    rintro g hloses x ⟨run, hrun, howner, hsome | hlost | hsession⟩
    · exact ⟨run, hrun, howner, Or.inl hsome⟩
    · exact ⟨run, hrun, howner, Or.inr (Or.inl (hloses _ hlost))⟩
    · exact ⟨run, hrun, howner, Or.inr (Or.inr hsession)⟩
  split
  · exact ⟨ht.receipts, ht.handed, fun x hx => hsettled h (fun _ hl => hl) x (ht.turned x hx),
      ht.flying, hkept⟩
  · next hdead =>
    refine ⟨ht.receipts, ht.handed, fun x hx => hsettled _ ?_ x (ht.turned x hx), ht.flying, ?_⟩
    · intro pair hlost
      exact Bool.or_eq_true_iff.mpr (Or.inl hlost)
    · intro pair hlost
      rcases Bool.or_eq_true_iff.mp hlost with hlost | hnew
      · exact hkept pair hlost
      · obtain ⟨c, a, hc, rfl, hfly, haccepted, rfl⟩ := unqueued_spec hnew
        have hrelies := hw.each c a hc
        refine ⟨?_, ?_, ?_⟩
        · intro hqueued
          rw [(hrelies.accepted hfly).mp hqueued] at haccepted
          cases haccepted
        · intro x hx
          exact absurd hx (hrelies.unrecorded hfly (by simpa using hdead) x)
        · intro d b hd hl hfly' hpair
          have hne : c ≠ d := by
            rintro rfl
            rw [hc] at hd
            cases hd
            exact (hlive a hl).1 rfl
          exact hw.pair c a d b hne hc hd hfly hfly' hpair.symm

theorem grows_happens {e : Event δ} (hbound : ∀ n run, s.objects n = some run → n < s.created)
    (ht : happens e s = some t) : Grows c s t ∧
      (∀ m pair r, ReceiptAt t m pair r → ReceiptAt s m pair r) ∧ t.handed = s.handed ∧
        t.queued = s.queued := by
  cases e with
  | opened seat runId ownerId status =>
    cases ht
    refine ⟨?_, ?_, rfl, rfl⟩
    · intro m run hm
      refine ⟨run, ?_, rfl, fun _ hop => hop, fun _ _ hhead => hhead⟩
      exact (Function.update_of_ne (Nat.ne_of_lt (hbound m run hm)) _ _).trans hm
    · rintro m pair r ⟨run, hm, ho, hr⟩
      by_cases he : m = s.created
      · subst he
        have hself := (Function.update_self s.created
          (some (ActiveRun.mk ownerId status false (fun _ => none) [])) s.objects).symm.trans hm
        cases hself
        cases hr
      · exact ⟨run, (Function.update_of_ne he _ _).symm.trans hm, ho, hr⟩
  | registered n control =>
    cases ht
    exact ⟨grows_changeRun (fun _ => rfl) (fun _ _ hop => hop) fun _ _ _ hhead => hhead,
      fun m pair r hr => receiptAt_changeRun hr (fun _ => rfl) fun _ => rfl,
      changeRun_handed _, changeRun_queued _⟩
  | status n status =>
    cases ht
    exact ⟨grows_changeRun (fun _ => rfl) (fun _ _ hop => hop) fun _ _ _ hhead => hhead,
      fun m pair r hr => receiptAt_changeRun hr (fun _ => rfl) fun _ => rfl,
      changeRun_handed _, changeRun_queued _⟩
  | claimed pair request =>
    simp only [happens] at ht
    split at ht
    · cases ht
      exact ⟨Grows.refl, fun _ _ _ hr => hr, rfl, rfl⟩
    · cases ht

variable [DecidableEq δ] {requestSha256 : ControlKind → JsString → δ}

theorem grows_claim (requestSha256 : ControlKind → JsString → δ) (c n : ℕ) (call : ControlCall)
    (s : Service δ) : Grows c s (claim requestSha256 c n call s).1 ∧
    (∀ m pair r, ReceiptAt (claim requestSha256 c n call s).1 m pair r → ReceiptAt s m pair r) ∧
      (claim requestSha256 c n call s).1.handed = s.handed ∧
      (claim requestSha256 c n call s).1.queued = s.queued ∧
      (claim requestSha256 c n call s).2.flying = false := by
  have henqueue : ∀ claims, Grows c s (Service.enqueue { s with claims := claims } n c) ∧
      ∀ m pair r, ReceiptAt (Service.enqueue { s with claims := claims } n c) m pair r →
        ReceiptAt s m pair r := by
    intro claims
    refine ⟨fun m run hm => ?_, fun m pair r hr => ?_⟩
    · exact grows_enqueue m run (s := { s with claims := claims }) hm
    · exact receiptAt_changeRun (s := { s with claims := claims }) hr (fun _ => rfl) fun _ => rfl
  unfold claim
  dsimp only
  split
  · exact ⟨(henqueue _).1, (henqueue _).2, changeRun_handed _, changeRun_queued _, rfl⟩
  · split
    · exact ⟨(henqueue s.claims).1, (henqueue s.claims).2, changeRun_handed _, changeRun_queued _, rfl⟩
    · exact ⟨Grows.refl, fun _ _ _ hr => hr, rfl, rfl, rfl⟩

/-- **A move of a call** goes on with the history. -/
theorem Traced.move (ht : Traced w h) (hw : controlOutline.Holds w) {seat : ℕ} {p q : Point}
    {o : Outcome} (hc : w.calls c = some ⟨seat, call, p⟩) (hlive : w.dead seat = false)
    (hok : Uninterrupted w h (.move c o) = true)
    (hm : moveControl requestSha256 seat c o call p w.shared = some (t, q)) :
    Traced (moved w c seat call q t) (h.extend w (.move c o)) := by
  have hrelies : Relies true ⟨call, p⟩ w.shared := (hw.each c _ hc).mono fun _ => by simp [hlive]
  simp only [TurnHistory.extend, Uninterrupted, hc] at hok ⊢
  cases p with
  | called =>
    cases hm
    refine ht.advance_idle hc rfl ?_ Grows.refl (fun _ _ _ hr => hr) rfl rfl
    rcases enter_cases seat call w.shared with he | ⟨n, run, he, -, -⟩ <;> rw [he] <;> rfl
  | claiming n =>
    cases o with
    | fails =>
      cases hm
      exact ht.advance_idle hc rfl rfl Grows.refl (fun _ _ _ hr => hr) rfl rfl
    | ok =>
      obtain ⟨hgrows, hreceipts, hhanded, hqueued, hq⟩ :=
        grows_claim requestSha256 c n call w.shared
      rw [show claim requestSha256 c n call w.shared = (t, q) from Option.some.inj hm] at *
      exact ht.advance_idle hc rfl hq hgrows hreceipts hhanded hqueued
  | waiting n =>
    obtain ⟨run, hn, hhead, hcases⟩ := turn_cases hm
    obtain ⟨run', hn', howner⟩ := hrelies.holds n rfl
    rw [hn] at hn'
    cases hn'
    simp only [hn, Option.all_some] at hok ⊢
    cases hx : run.controlReceipts call.input.operationId with
    | none =>
      rw [hx, Option.isSome_none, Bool.false_or] at hok
      rw [if_pos rfl]
      exact ht.advance_turn hc hn howner hhead hx hok hm
    | some x =>
      rw [if_neg (Option.some_ne_none x)]
      rcases hcases with ⟨y, hy, rfl, rfl⟩ | ⟨hnone, -⟩ | ⟨hnone, -⟩
      · exact ht.advance_idle hc rfl rfl grows_leave
          (fun m pair r hr => receiptAt_changeRun hr (fun _ => rfl) fun _ => rfl)
          (changeRun_handed _) (changeRun_queued _)
      · rw [hx] at hnone
        cases hnone
      · rw [hx] at hnone
        cases hnone
  | delivering n =>
    cases o with
    | fails =>
      cases hm
      exact ht.advance_flying hc hlive rfl rfl rfl rfl rfl fun _ _ hq => hq
    | ok =>
      cases hm
      refine ht.advance_flying hc hlive rfl rfl rfl rfl rfl ?_
      rintro pair hne ⟨d, hd, hpair⟩
      rcases List.mem_append.mp hd with hd | hd
      · exact ⟨d, hd, hpair⟩
      · rw [List.mem_singleton.mp hd] at hpair
        exact absurd hpair hne
  | accepting n =>
    obtain ⟨run, hn, howner⟩ := hrelies.holds n rfl
    rw [show o = .ok from of_decide_eq_true hok] at hm
    cases hm
    obtain ⟨run', hrun', howner', hreceipt⟩ := record_self c call .acceptedBySession hn
    refine ht.advance_ended hc hlive rfl rfl rfl grows_record (changeRun_handed _)
      (changeRun_queued _) ?_ rfl (fun _ hl => hl) (fun _ hl => Or.inl hl)
      ⟨run', hrun', howner'.trans howner, Or.inl (by rw [hreceipt]; rfl)⟩
    intro m pair r hr
    exact (receiptAt_record hn howner hr).imp_right fun h => ⟨h.1, h.2.1⟩
  | failing n =>
    obtain ⟨run, hn, howner⟩ := hrelies.holds n rfl
    cases o with
    | ok =>
      cases hm
      obtain ⟨run', hrun', howner', hreceipt⟩ := record_self c call .failed hn
      refine ht.advance_ended hc hlive rfl rfl rfl grows_record (changeRun_handed _)
        (changeRun_queued _) ?_ rfl (fun _ hl => hl) (fun _ hl => Or.inl hl)
        ⟨run', hrun', howner'.trans howner, Or.inl (by rw [hreceipt]; rfl)⟩
      intro m pair r hr
      exact (receiptAt_record hn howner hr).imp_right fun h => ⟨h.1, h.2.1⟩
    | fails =>
      cases hm
      obtain ⟨run', hrun', howner', -⟩ := grows_leave (c := c) (n := n) n run hn
      refine ht.advance_ended hc hlive rfl rfl rfl grows_leave (changeRun_handed _)
        (changeRun_queued _) ?_ rfl ?_ ?_ ⟨run', hrun', howner'.trans howner, Or.inr ?_⟩
      · exact fun m pair r hr =>
          Or.inl (receiptAt_changeRun hr (fun _ => rfl) fun _ => rfl)
      · exact fun pair hl => Bool.or_eq_true_iff.mpr (Or.inl hl)
      · intro pair hl
        rcases Bool.or_eq_true_iff.mp hl with hl | hl
        · exact Or.inl hl
        · -- the text was at this call's session alone, which has not queued it
          rw [show pair = call.pair from of_decide_eq_true hl]
          refine Or.inr ⟨?_, ?_, ?_⟩
          · rintro ⟨d, hd, hpair⟩
            have hqueued : Queued w.shared call.pair := ⟨d, changeRun_queued _ ▸ hd, hpair⟩
            exact Bool.noConfusion ((hrelies.accepted rfl).mp hqueued)
          · rintro x ⟨m, hr⟩
            exact absurd ⟨m, receiptAt_changeRun hr (fun _ => rfl) fun _ => rfl⟩
              (hrelies.unrecorded rfl rfl x)
          · intro d b hd _ hfly hpair
            by_cases hdc : d = c
            · subst hdc
              rw [moved_self] at hd
              cases hd
              cases hfly
            · rw [moved_ne hdc] at hd
              exact hw.pair c _ d b (Ne.symm hdc) hc hd rfl hfly hpair.symm
      · exact Bool.or_eq_true_iff.mpr (Or.inr (decide_eq_true rfl))
  | done x => cases hm
  | thrown => cases hm

/-- **A step that does not interrupt** keeps the assertions on controls and the history. -/
theorem Traced.step {act : Act δ} (ht : Traced w h) (hw : controlOutline.Holds w)
    (hok : Uninterrupted w h act = true) (hstep : step requestSha256 w act = some v) :
    controlOutline.Holds v ∧ Traced v (h.extend w act) := by
  have hnew : w.calls w.next = none := hw.unused _ (Nat.le_refl _)
  cases act with
  | begin p k =>
    refine ⟨(controlOutline_sound requestSha256).holds_step w (.begin p k) v hw trivial hstep, ?_⟩
    obtain ⟨-, he, rfl⟩ := World.step_begin hstep
    refine ht.advance (.idle (c := w.next) ht (fun d hd => World.setCall_ne hd _) rfl Grows.refl
      (fun _ _ _ hr => hr) rfl rfl ?_ ?_)
    · intro a ha
      rw [hnew] at ha
      cases ha
    · intro a ha
      cases (World.setCall_self w.next (⟨p, k⟩ : Call Phase)).symm.trans ha
      rw [show k.point = .called from of_decide_eq_true he]
      rfl
  | move c o =>
    obtain ⟨⟨seat, call, p⟩, t, k, hc, hlive, hm, hv⟩ := World.step_move hstep
    obtain ⟨⟨u, q⟩, hmove, he⟩ := Option.map_eq_some_iff.mp hm
    cases he
    have hclear : Clear w (.move c o) := by
      intro a ha
      rw [hc] at ha
      cases ha
      simp only [Uninterrupted, hc] at hok
      refine ⟨?_, ?_⟩
      · rintro n run (rfl : p = _) hn hnone
        obtain ⟨run', hn', hhead, -⟩ := turn_cases hmove
        rw [hn] at hn'
        cases hn'
        simp only [hn, Option.all_some, hnone, Option.isSome_none, Bool.false_or] at hok
        exact ht.unheard hw hc hn hhead hnone hok
      · rintro n (rfl : p = _)
        exact of_decide_eq_true hok
    refine ⟨(controlOutline_sound requestSha256).holds_step w _ v hw hclear hstep, ?_⟩
    rw [hv]
    exact ht.move hw hc hlive hok hmove
  | die p =>
    refine ⟨(controlOutline_sound requestSha256).holds_step w (.die p) v hw trivial hstep, ?_⟩
    cases hstep
    exact ht.die hw p
  | outside e =>
    refine ⟨(controlOutline_sound requestSha256).holds_step w (.outside e) v hw trivial hstep, ?_⟩
    obtain ⟨t, hm, rfl⟩ := World.step_outside hstep
    obtain ⟨hgrows, hreceipts, hhanded, hqueued⟩ :=
      grows_happens (c := w.next) hw.all.bound hm
    refine ht.advance (.idle ht (fun _ _ => rfl) rfl hgrows hreceipts hhanded hqueued ?_ ?_) <;>
    · intro a ha
      rw [show w.calls w.next = some a from ha] at hnew
      cases hnew

/-- **Controls are delivered** in every run in which the journal takes what sessions have accepted
and no operation has a turn on another run in memory, after a retry, a resume or a start-up, unless
it is missed there and no session has taken its text. -/
theorem controls_delivered (requestSha256 : ControlKind → JsString → δ) (dead : ℕ → Bool)
    (as : List (Act δ)) (w : World (Service δ) Phase)
    (hrun : exec (step requestSha256) (World.fresh dead empty) as = some w)
    (hok : Meets (watch (step requestSha256) TurnHistory.extend)
      (fun v act => Uninterrupted v.1 v.2 act = true) (World.fresh dead empty, .empty) as) :
    Delivered w := by
  obtain ⟨h, hexec⟩ := exec_watch TurnHistory.extend .empty hrun
  have hw : controlOutline.Holds w ∧ Traced w h := by
    refine exec_invariant (fun v => controlOutline.Holds v.1 ∧ Traced v.1 v.2) ?_
      ⟨Outline.holds_fresh kept_empty, traced_fresh dead⟩ hok hexec
    rintro ⟨u, g⟩ act ⟨u', g'⟩ ⟨hu, ht⟩ hact hstep
    obtain ⟨hstep, rfl⟩ := watch_eq_some.mp hstep
    exact ht.step hu hact hstep
  exact .of_holds hw.1

/-! ## A steer, and the same steer again -/

/-- A digest that tells the texts apart. -/
def plainSha256 : ControlKind → JsString → JsString := fun _ text => text

/-- A steer of a run. -/
def steerCall : ControlCall :=
  ⟨.steer, ofString "owner-1", ofString "run-1", ⟨ofString "control-steer", ofString "focus"⟩⟩

/-- A start puts the run into memory, and its session registers a control. -/
def startRun (n : ℕ) : List (Act JsString) :=
  [.outside (.opened 0 (ofString "run-1") (ofString "owner-1") .active),
    .outside (.registered n true)]

/-- A call up to its end, in the given number of moves. -/
def steered (c moves : ℕ) : List (Act JsString) :=
  .begin 0 ⟨steerCall, .called⟩ :: List.replicate moves (.move c .ok)

/-- The same steer twice, and the second has the receipt of the first. -/
theorem controls_delivered_twice : ∃ w,
    exec (step plainSha256) (World.fresh (fun _ => false) empty)
      (startRun 0 ++ steered 0 5 ++ steered 1 3) = some w ∧
    w.calls 1 = some ⟨0, ⟨steerCall, .done .acceptedBySession⟩⟩ ∧ Delivered w := by
  have hm : Meets (watch (step plainSha256) TurnHistory.extend)
      (fun v act => Uninterrupted v.1 v.2 act = true) (World.fresh (fun _ => false) empty, .empty)
      (startRun 0 ++ steered 0 5 ++ steered 1 3) := by
    decide +kernel
  have hs : ((exec (step plainSha256) (World.fresh (fun _ => false) empty)
      (startRun 0 ++ steered 0 5 ++ steered 1 3)).any fun w =>
        decide (w.calls 1 = some ⟨0, ⟨steerCall, .done .acceptedBySession⟩⟩)) = true := by
    decide +kernel
  obtain ⟨w, hw, hc⟩ := (Option.any_eq_true _ _).mp hs
  exact ⟨w, hw, of_decide_eq_true hc, controls_delivered plainSha256 _ _ w hw hm⟩

/-- **After a retry the same steer** hands its text to a session again. -/
theorem controls_redelivered :
    ¬ ∀ (requestSha256 : ControlKind → JsString → JsString) (dead : ℕ → Bool)
        (as : List (Act JsString)) (w : World (Service JsString) Phase),
      exec (step requestSha256) (World.fresh dead empty) as = some w → Delivered w := by
  intro h
  have hs : ((exec (step plainSha256) (World.fresh (fun _ => false) empty)
      (startRun 0 ++ steered 0 5 ++ startRun 1 ++ steered 1 3)).any fun w =>
        decide (¬ (w.shared.handed.map Delivery.pair).Nodup)) = true := by
    decide +kernel
  obtain ⟨w, hw, hc⟩ := (Option.any_eq_true _ _).mp hs
  exact of_decide_eq_true hc (h plainSha256 _ _ w hw).once

end Control

end PiSubagent
