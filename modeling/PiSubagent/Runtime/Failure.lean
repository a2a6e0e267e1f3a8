import PiSubagent.Contracts
import PiSubagent.Lib.Utf8

/-!
# Classification of an attempt's failure

* `Thrown`: an error as far as the code looks at it.
* `boundedMessage`: the message a failure carries, cut to a bound of bytes.
* `classifyAttemptFailure`: the failure an attempt records.
* **`classifyAttemptFailure_check`**: whatever was thrown, the failure is one its schema accepts.
-/

namespace PiSubagent

open JsonText Utf8

/-- The classes of errors the code tells apart. -/
inductive ErrorKind where
  /-- `WarmupCleanupError`. -/
  | warmupCleanup
  /-- Any other `GondolinSandboxError`. -/
  | sandbox
  /-- An error with the code `vm_start_timeout`. -/
  | startTimeout
  /-- `VmCapacityExhaustedError`. -/
  | capacityExhausted (slots : Fin (maxSlots + 1)) (waitedMs : Fin (maxSafeInteger + 1))
  | other
deriving DecidableEq, Repr

/-- What was thrown: its class, its name (empty when it is no `Error`) and its text. -/
structure Thrown where
  kind : ErrorKind
  name : JsString
  message : JsString
deriving DecidableEq, Repr

/-- `MAX_MESSAGE_BYTES`. -/
def maxMessageBytes : ℕ := 4096

/-- `CAPACITY_RETRY_AFTER_MS`. -/
def capacityRetryAfterMs : ℕ := 30000

/-- `replace(/\uFFFD$/u, "")`. -/
def dropReplacement (t : List Char) : List Char :=
  if t.getLast? = some replacement then t.dropLast else t

/-- `boundedMessage`. -/
def boundedMessage (error : Thrown) : JsString :=
  let raw := trim error.message
  let value := if raw = [] then ofString "Unknown attempt failure" else raw
  let bytes := encode (charsOf value)
  if bytes.length ≤ maxMessageBytes then value
  else (dropReplacement (decode (bytes.take maxMessageBytes))).flatMap unitsOf

/-- `toLowerCase` of a code unit, as far as a search for ASCII text can see. -/
def lowerUnit (u : UInt16) : JsString :=
  if 65 ≤ u.toNat ∧ u.toNat ≤ 90 then [u + 32]
  else if u = 0x212A then [107]
  else if u = 0x0130 then [105, 0x0307]
  else [u]

/-- `toLowerCase`, as far as a search for ASCII text can see. -/
def toLowerCase (s : JsString) : JsString := s.flatMap lowerUnit

/-- `includes`. -/
def includes (s : JsString) (needle : String) : Bool := decide (ofString needle <:+: s)

/-- `vmCapacityExhaustedMessage`. -/
def vmCapacityExhaustedMessage (slots waitedMs : ℕ) : JsString :=
  ofString "VM capacity exhausted: " ++ ofString (toString slots) ++ ofString " slots busy for " ++
    ofString (toString ((waitedMs + 500) / 1000)) ++ ofString " s"

/-- `failure`. -/
def failure (code : FailureCode) (origin : FailureOrigin) (retry : FailureRetry)
    (message : JsString) (guidance : String) (retryAfterMs : Option ℕ) : ClassifiedFailure :=
  ⟨code, origin, retry, message, ofString guidance, retryAfterMs⟩

/-- What the classification of a failure looks at. -/
structure FailureInput where
  error : Thrown
  timedOut : Bool
  fatalToolAbort : Bool
  /-- Whether the attempt was aborted from outside, and whether by a seat shutdown. -/
  externalAbort : Option Bool
  workspaceBudgetExhausted : Bool
  sandboxCleanup : CleanupOutcome
  workspaceCleanup : CleanupOutcome

/-- A cleanup outcome that leaves something to reconcile. -/
def CleanupOutcome.unsettled : CleanupOutcome → Bool
  | .blocked | .unknown => true
  | _ => false

/-- The failures told by the text of the error, in the order they are tried. -/
def textRules : List (List String × FailureCode × FailureOrigin × FailureRetry × String × Option ℕ) :=
  [(["runleasefenced", "lease fenced"], .leaseLoss, .persistence, .reconcile,
      "Reconcile ownership and external state before continuing.", none),
    (["structured output", "final_answer", "repair exhausted"], .modelOutput, .model, .never,
      "Revise the task or output schema before launching a new run.", none),
    (["unauthorized", "authentication", "api key", "status 401", "status 403"], .authentication,
      .provider, .never, "Repair provider authentication before launching another attempt.", none),
    (["rate limit", "status 429", "status 502", "status 503", "status 504", "econnreset",
        "econnrefused", "etimedout"], .providerTransient, .provider, .backoff,
      "Wait for the bounded retry delay, then retry within remaining run budgets.", some 1000),
    (["gondolinsandboxerror", "sandbox construction", "vm start", "qemu"], .sandboxLaunch,
      .sandbox, .backoff,
      "Retry after the bounded delay only if the qualified sandbox environment remains available.",
      some 1000),
    (["worktree", "workspace", "handoff"], .workspace, .workspace, .reconcile,
      "Inspect retained Git state and reconcile or release it before continuing.", none),
    (["persistence", "journal", "snapshot", "fsync"], .persistence, .persistence, .reconcile,
      "Preserve the run store and reconcile durable state before continuing.", none),
    (["changed after preflight", "identity mismatch", "projection mismatch", "resource drift"],
      .resourceDrift, .service, .never,
      "Create a new preflight after reviewing the changed resource.", none)]

/-- The failure of an error that only its text tells. -/
def classifyText (normalized message : JsString) : ClassifiedFailure :=
  match textRules.find? fun rule => rule.1.any (includes normalized) with
  | some (_, code, origin, retry, guidance, after) =>
    failure code origin retry message guidance after
  | none =>
    failure .unknown .service .reconcile message
      "Inspect lifecycle evidence and reconcile external state before another attempt." none

/-- `classifyAttemptFailure`. -/
def classifyAttemptFailure (input : FailureInput) : ClassifiedFailure :=
  let message := boundedMessage input.error
  let normalized := toLowerCase (input.error.name ++ ofString " " ++ message)
  if input.sandboxCleanup.unsettled then
    failure .sandboxCleanup .sandbox .reconcile message
      "Reconcile the recorded VM identity before retry, resume, or release." none
  else if input.workspaceCleanup.unsettled then
    failure .workspace .workspace .reconcile message
      "Inspect and reconcile the retained workspace before continuing." none
  else if input.externalAbort = some true then
    failure .seatInterruption .operator .resume
      (ofString "Seat shutdown interrupted the active attempt")
      "Resume the retained Pi session in a fresh VM after validation." none
  else if input.externalAbort = some false then
    failure .cancellation .operator .never (ofString "The operator cancelled the active attempt")
      "Start a new run if the cancelled task is still required." none
  else match input.error.kind with
  | .capacityExhausted slots waitedMs =>
    failure .capacity .service .backoff (vmCapacityExhaustedMessage slots waitedMs)
      ("Every VM slot stayed busy for the whole capacity wait; retry after the backoff delay or " ++
        "launch fewer concurrent attempts.") (some capacityRetryAfterMs)
  | _ =>
    if input.workspaceBudgetExhausted || includes normalized "workspace write budget exceeded" then
      failure .workspaceBudget .workspace .never
        (if input.workspaceBudgetExhausted then
          ofString "Workspace write budget exhausted; guest writes were refused with EDQUOT"
        else message)
        ("Launch a new run with a larger workspaceWriteBytes budget or a smaller change; " ++
          "package caches belong outside /workspace.") none
    else if input.fatalToolAbort then
      failure .tool .tool .manual (ofString "Guest command timeout closed the attempt VM")
        "Inspect partial output and retry only if repeating the command is safe." none
    else if input.timedOut then
      failure .timeout .service .manual (ofString "Attempt runtime limit exceeded")
        "Inspect partial output and explicitly retry only if repeating the task is safe." none
    else if includes normalized "usage limit exceeded" then
      failure .validation .service .never (ofString "Attempt token or cost budget exceeded")
        "Reduce the task scope or launch a new run with an intentionally larger budget." none
    else classifyText normalized message

/-! ## Lengths -/

theorem characterCount_eq (s : JsString) : characterCount s = (charsOf s).length := by
  induction s using characterCount.induct with
  | case1 => rfl
  | case2 u => rfl
  | case3 u v us h ih => simp only [characterCount, charsOf, if_pos h, List.length_cons, ih]
  | case4 u v us h ih =>
    rw [characterCount, charsOf, if_neg h, if_neg h, List.length_cons, ih]

theorem characterCount_flatMap (t : List Char) : characterCount (t.flatMap unitsOf) = t.length := by
  rw [characterCount_eq, charsOf_flatMap]

theorem characterCount_ofString (s : String) : characterCount (ofString s) = s.length := by
  rw [ofString, characterCount_flatMap, String.length_toList]

theorem charsOf_ne_nil {s : JsString} (h : s ≠ []) : charsOf s ≠ [] := by
  match s, h with
  | [_], _ => exact List.cons_ne_nil _ _
  | u :: v :: us, _ =>
    rw [charsOf]
    split_ifs <;> exact List.cons_ne_nil _ _

theorem dropReplacement_length (t : List Char) :
    t.length - 1 ≤ (dropReplacement t).length ∧ (dropReplacement t).length ≤ t.length := by
  unfold dropReplacement
  split_ifs
  · rw [List.length_dropLast]
    omega
  · omega

/-- Bytes cut after more than one character still decode to at least two. -/
theorem two_le_decode_take {t : List Char} {n : ℕ} (hn : 4 < n) (h : n < (encode t).length) :
    2 ≤ (decode ((encode t).take n)).length := by
  cases t with
  | nil => simp at h
  | cons c t =>
    have hc : (String.utf8EncodeChar c).length ≤ 4 := by
      rw [String.length_utf8EncodeChar]
      exact c.utf8Size_le_four
    rw [encode_cons, List.length_append] at h
    rw [encode_cons, List.take_append, List.take_of_length_le (by omega),
      decode_encodeChar_append, List.length_cons]
    have hne : (encode t).take (n - (String.utf8EncodeChar c).length) ≠ [] := by
      intro he
      have hl := congrArg List.length he
      rw [List.length_take, List.length_nil] at hl
      omega
    have := List.length_pos_iff.mpr (decode_ne_nil hne)
    omega

/-- **A bounded message is a message its schema accepts.** -/
theorem boundedMessage_length (error : Thrown) : hasLength 1 4096 (boundedMessage error) = true := by
  rw [hasLength, decide_eq_true_eq]
  unfold boundedMessage
  dsimp only
  generalize hv : (if trim error.message = [] then ofString "Unknown attempt failure"
    else trim error.message) = value
  have hne : value ≠ [] := by
    rw [← hv]
    split_ifs with h
    · decide
    · exact h
  split_ifs with h
  · have hle := length_le_encode (charsOf value)
    have hpos := List.length_pos_iff.mpr (charsOf_ne_nil hne)
    rw [characterCount_eq]
    exact ⟨hpos, hle.trans h⟩
  · have h2 : 2 ≤ (decode ((encode (charsOf value)).take maxMessageBytes)).length :=
      two_le_decode_take (by decide) (by omega)
    have hle := decode_length_le ((encode (charsOf value)).take maxMessageBytes)
    have hd := dropReplacement_length (decode ((encode (charsOf value)).take maxMessageBytes))
    have ht := List.length_take_le maxMessageBytes (encode (charsOf value))
    rw [characterCount_flatMap]
    simp only [maxMessageBytes] at *
    omega

theorem toString_length_le {n k : ℕ} (hk : 0 < k) (h : n < 10 ^ k) : (toString n).length ≤ k :=
  (Nat.length_repr_le_iff hk).mpr h

theorem vmCapacityExhaustedMessage_length (slots : Fin (maxSlots + 1))
    (waitedMs : Fin (maxSafeInteger + 1)) :
    hasLength 1 4096 (vmCapacityExhaustedMessage slots waitedMs) = true := by
  have hs : (toString (slots : ℕ)).length ≤ 2 :=
    toString_length_le (by decide) (slots.isLt.trans (by decide))
  have hw : (toString (((waitedMs : ℕ) + 500) / 1000)).length ≤ 16 := by
    have hlt := waitedMs.isLt
    simp only [maxSafeInteger] at hlt
    exact toString_length_le (by decide) (by omega)
  have hm : vmCapacityExhaustedMessage slots waitedMs =
      ofString ("VM capacity exhausted: " ++ toString (slots : ℕ) ++ " slots busy for " ++
        toString (((waitedMs : ℕ) + 500) / 1000) ++ " s") := by
    simp only [vmCapacityExhaustedMessage, ofString, String.toList_append, List.flatMap_append]
  have h1 : "VM capacity exhausted: ".length = 23 := by decide
  have h2 : " slots busy for ".length = 16 := by decide
  have h3 : " s".length = 2 := by decide
  rw [hm, hasLength, decide_eq_true_eq, characterCount_ofString]
  simp only [String.length_append, h1, h2, h3]
  omega

theorem failure_check {code : FailureCode} {origin : FailureOrigin} {retry : FailureRetry}
    {message : JsString} {guidance : String} {after : Option ℕ}
    (hm : hasLength 1 4096 message = true) (hg : 1 ≤ guidance.length ∧ guidance.length ≤ 1024)
    (ha : (after.all fun n => decide (1000 ≤ n ∧ n ≤ 300000)) = true) :
    (failure code origin retry message guidance after).check = true := by
  have hl : hasLength 1 1024 (ofString guidance) = true := by
    rw [hasLength, decide_eq_true_eq, characterCount_ofString]
    exact hg
  simp only [failure, ClassifiedFailure.check, hm, hl, ha, Bool.and_self]

theorem textRules_check : ∀ rule ∈ textRules,
    (1 ≤ rule.2.2.2.2.1.length ∧ rule.2.2.2.2.1.length ≤ 1024) ∧
      (rule.2.2.2.2.2.all fun n => decide (1000 ≤ n ∧ n ≤ 300000)) = true := by
  decide +kernel

theorem classifyText_check {normalized message : JsString} (hm : hasLength 1 4096 message = true) :
    (classifyText normalized message).check = true := by
  unfold classifyText
  split
  next hf =>
    have hr := textRules_check _ (List.mem_of_find?_eq_some hf)
    exact failure_check hm hr.1 hr.2
  next => exact failure_check hm (by decide) rfl

/-- **Whatever was thrown, the failure is one its schema accepts.** -/
theorem classifyAttemptFailure_check (input : FailureInput) :
    (classifyAttemptFailure input).check = true := by
  have hm := boundedMessage_length input.error
  unfold classifyAttemptFailure
  dsimp only
  by_cases h1 : input.sandboxCleanup.unsettled = true
  · rw [if_pos h1]
    exact failure_check hm (by decide +kernel) rfl
  by_cases h2 : input.workspaceCleanup.unsettled = true
  · rw [if_neg h1, if_pos h2]
    exact failure_check hm (by decide +kernel) rfl
  by_cases h3 : input.externalAbort = some true
  · rw [if_neg h1, if_neg h2, if_pos h3]
    exact failure_check (by decide +kernel) (by decide +kernel) rfl
  by_cases h4 : input.externalAbort = some false
  · rw [if_neg h1, if_neg h2, if_neg h3, if_pos h4]
    exact failure_check (by decide +kernel) (by decide +kernel) rfl
  rw [if_neg h1, if_neg h2, if_neg h3, if_neg h4]
  split
  next slots waitedMs _ =>
    exact failure_check (vmCapacityExhaustedMessage_length slots waitedMs) (by decide +kernel)
      (by decide)
  next =>
    split_ifs
    · exact failure_check (by decide +kernel) (by decide +kernel) rfl
    · exact failure_check hm (by decide +kernel) rfl
    · exact failure_check (by decide +kernel) (by decide +kernel) rfl
    · exact failure_check (by decide +kernel) (by decide +kernel) rfl
    · exact failure_check (by decide +kernel) (by decide +kernel) rfl
    · exact classifyText_check hm

end PiSubagent
