import Mathlib.Algebra.GroupWithZero.Nat
import WaRuntime.CampaignExecution

/-! The preflight of a campaign run: `evaluateCampaignPreflight`.
A report blocks where one of its five checks does. The `enabled` column of a target, which no check
looks at, is left out; `checkedAt` is the caller's. -/
namespace CampaignPreflight

open CampaignRunStatements CampaignExecution

inductive CampaignPreflightCheckCode where
  | contentValid
  | targetsValid
  | sessionSendable
  | groupCapability
  | liveSendAllowed
  deriving DecidableEq, Repr

inductive CampaignTargetIssueReason where
  | targetCapabilityDenied
  | targetCapabilityUnknown
  | targetCapabilityStale
  deriving DecidableEq, Repr

structure CampaignTarget where
  groupId : GroupId
  groupName : String
  capability : GroupSendCapability
  invalidatedAt : Option ℕ
  capabilityRevision : ℕ
  deriving DecidableEq, Repr

structure CampaignPreflightSessionState where
  status : String
  engineLoaded : Bool
  restricted : Bool
  deriving DecidableEq, Repr

structure PreflightInput where
  executionMode : CampaignExecutionMode
  text : String
  targets : List CampaignTarget
  session : CampaignPreflightSessionState
  liveSendsEnabled : Bool
  campaignRevision : ℕ
  targetsRevision : ℕ
  checkedAt : ℕ
  deriving DecidableEq, Repr

structure CampaignPreflightCheck where
  code : CampaignPreflightCheckCode
  status : CampaignPreflightStatus
  message : String
  deriving DecidableEq, Repr

structure CampaignTargetIssue where
  groupId : GroupId
  groupName : String
  capability : GroupSendCapability
  reason : CampaignTargetIssueReason
  deriving DecidableEq, Repr

structure CampaignPreflightReport where
  status : CampaignPreflightStatus
  policyVersion : ℕ
  campaignRevision : ℕ
  targetsRevision : ℕ
  executionMode : CampaignExecutionMode
  checkedAt : ℕ
  totalTargets : ℕ
  allowedTargets : ℕ
  deniedTargets : ℕ
  unknownTargets : ℕ
  checks : List CampaignPreflightCheck
  targetIssues : List CampaignTargetIssue
  deriving DecidableEq, Repr

/-- An invalidated capability counts as UNKNOWN. -/
def effectiveCapability (target : CampaignTarget) : GroupSendCapability :=
  if target.invalidatedAt = none then target.capability else .unknown

def issueReason (target : CampaignTarget) : CampaignTargetIssueReason :=
  if target.invalidatedAt ≠ none then .targetCapabilityStale
  else if effectiveCapability target = .denied then .targetCapabilityDenied
  else .targetCapabilityUnknown

def targetIssues (targets : List CampaignTarget) : List CampaignTargetIssue :=
  (targets.filter fun target => effectiveCapability target ≠ .allowed).map fun target =>
    ⟨target.groupId, target.groupName, effectiveCapability target, issueReason target⟩

/-- White space and line ends, which `trim` removes. -/
def jsWhiteSpace (c : Char) : Bool :=
  c.toNat ∈ [0x9, 0xA, 0xB, 0xC, 0xD, 0x20, 0xA0, 0x1680, 0x2028, 0x2029, 0x202F, 0x205F, 0x3000,
    0xFEFF] || (0x2000 ≤ c.toNat && c.toNat ≤ 0x200A)

/-- The `length` of a string: a character outside the basic plane counts twice. -/
def jsLength (text : String) : ℕ :=
  (text.toList.map fun c => if c.toNat < 0x10000 then 1 else 2).sum

def contentValid (text : String) : Bool :=
  text.toList.any (fun c => !jsWhiteSpace c) && decide (jsLength text ≤ 4096)

def sessionReady (session : CampaignPreflightSessionState) : Bool :=
  session.status == "ready" && session.engineLoaded && !session.restricted

def passOrBlock (pass : Bool) : CampaignPreflightStatus := if pass then .pass else .block

def contentCheck (text : String) : CampaignPreflightCheck :=
  ⟨.contentValid, passOrBlock (contentValid text),
    if contentValid text then "Text content is valid" else "Text content is invalid"⟩

def targetsCheck (targets : List CampaignTarget) : CampaignPreflightCheck :=
  ⟨.targetsValid, passOrBlock !targets.isEmpty,
    if targets.isEmpty then "At least one target group is required"
    else toString targets.length ++ " target groups selected"⟩

def sessionCheck (session : CampaignPreflightSessionState) : CampaignPreflightCheck :=
  ⟨.sessionSendable, passOrBlock (sessionReady session),
    if sessionReady session then "Session is ready" else "Session is not ready or is restricted"⟩

def capabilityCheck (mode : CampaignExecutionMode) (issues : List CampaignTargetIssue) :
    CampaignPreflightCheck :=
  ⟨.groupCapability,
    if issues.isEmpty then .pass else if mode = .dryRun then .warn else .block,
    if issues.isEmpty then "All targets have current send capability"
    else toString issues.length ++ " targets are denied or unknown"⟩

def liveCheck (mode : CampaignExecutionMode) (liveSendsEnabled : Bool) : CampaignPreflightCheck :=
  ⟨.liveSendAllowed, passOrBlock !(mode == .live && !liveSendsEnabled),
    if mode = .live then
      if liveSendsEnabled then "Live sends are enabled" else "Live sends are disabled"
    else "Dry-run does not require live sends"⟩

def checksOf (input : PreflightInput) : List CampaignPreflightCheck :=
  [contentCheck input.text, targetsCheck input.targets, sessionCheck input.session,
    capabilityCheck input.executionMode (targetIssues input.targets),
    liveCheck input.executionMode input.liveSendsEnabled]

def statusOf (checks : List CampaignPreflightCheck) : CampaignPreflightStatus :=
  if checks.any fun check => check.status == .block then .block
  else if checks.any fun check => check.status == .warn then .warn
  else .pass

def evaluateCampaignPreflight (input : PreflightInput) : CampaignPreflightReport :=
  let issues := targetIssues input.targets
  { status := statusOf (checksOf input)
    policyVersion := 2
    campaignRevision := input.campaignRevision
    targetsRevision := input.targetsRevision
    executionMode := input.executionMode
    checkedAt := input.checkedAt
    totalTargets := input.targets.length
    allowedTargets := input.targets.length - issues.length
    deniedTargets := issues.countP fun issue => issue.capability == .denied
    unknownTargets := issues.countP fun issue => issue.capability == .unknown
    checks := checksOf input
    targetIssues := issues }

section Reports

variable {input : PreflightInput} {checks : List CampaignPreflightCheck}
  {check : CampaignPreflightCheck}

theorem status_block_of (h : check ∈ checks) (hb : check.status = .block) :
    statusOf checks = .block := by
  have hany : (checks.any fun check => check.status == .block) = true :=
    List.any_eq_true.mpr ⟨check, h, by simp [hb]⟩
  simp [statusOf, hany]

/-- A report that does not block has no check that does. -/
theorem checks_unblocked (check : CampaignPreflightCheck)
    (h : (evaluateCampaignPreflight input).status ≠ .block)
    (hc : check ∈ checksOf input) : check.status ≠ .block :=
  fun hb => h (status_block_of hc hb)

theorem pass_of_unblocked {pass : Bool} (h : passOrBlock pass ≠ .block) : pass = true := by
  cases pass with
  | true => rfl
  | false => exact absurd rfl h

theorem targets_of_unblocked (h : (evaluateCampaignPreflight input).status ≠ .block) :
    input.targets ≠ [] := by
  have hcheck := checks_unblocked (targetsCheck input.targets) h (by simp [checksOf])
  have hpass := pass_of_unblocked hcheck
  simpa using hpass

/-- A LIVE run passes its preflight only with live sends enabled and every target allowed. -/
theorem live_of_unblocked (h : (evaluateCampaignPreflight input).status ≠ .block)
    (hmode : input.executionMode = .live) :
    input.liveSendsEnabled = true ∧
      ∀ target ∈ input.targets, target.capability = .allowed ∧ target.invalidatedAt = none := by
  have hlive := pass_of_unblocked (checks_unblocked
    (liveCheck input.executionMode input.liveSendsEnabled) h (by simp [checksOf]))
  have hissues := checks_unblocked
    (capabilityCheck input.executionMode (targetIssues input.targets)) h (by simp [checksOf])
  refine ⟨by simpa [hmode] using hlive, fun target htarget => ?_⟩
  have hnone : targetIssues input.targets = [] := by
    by_contra hne
    simp [capabilityCheck, hmode, hne] at hissues
  have hallowed : effectiveCapability target = .allowed := by
    by_contra hne
    simp only [targetIssues, List.map_eq_nil_iff, List.filter_eq_nil_iff] at hnone
    exact hnone target htarget (by simpa using hne)
  unfold effectiveCapability at hallowed
  split at hallowed
  · rename_i hcurrent
    exact ⟨hallowed, hcurrent⟩
  · cases hallowed

/-- Every target of a report is allowed, denied or unknown. -/
theorem targets_counted (input : PreflightInput) :
    (evaluateCampaignPreflight input).allowedTargets +
        (evaluateCampaignPreflight input).deniedTargets +
        (evaluateCampaignPreflight input).unknownTargets =
      (evaluateCampaignPreflight input).totalTargets := by
  have hissue : ∀ issue ∈ targetIssues input.targets, issue.capability ≠ .allowed := by
    intro issue hissue
    obtain ⟨target, htarget, rfl⟩ := List.mem_map.mp hissue
    simpa using (List.mem_filter.mp htarget).2
  have hsplit : ∀ issues : List CampaignTargetIssue,
      (∀ issue ∈ issues, issue.capability ≠ .allowed) →
      (issues.countP fun issue => issue.capability == .denied) +
        (issues.countP fun issue => issue.capability == .unknown) = issues.length := by
    intro issues
    induction issues with
    | nil => simp
    | cons issue issues ih =>
      intro h
      have hrest := ih fun issue hmem => h issue (List.mem_cons_of_mem _ hmem)
      have hhead := h issue List.mem_cons_self
      simp only [List.countP_cons, List.length_cons]
      cases hc : issue.capability with
      | allowed => exact absurd hc hhead
      | denied =>
        simp
        omega
      | unknown =>
        simp
        omega
  have hle : (targetIssues input.targets).length ≤ input.targets.length := by
    simpa [targetIssues] using List.length_filter_le _ input.targets
  have := hsplit (targetIssues input.targets) hissue
  simp only [evaluateCampaignPreflight]
  omega

end Reports

/-- The status that a request for preflight brings comes from an evaluation of what its context has
read of the run and its targets. -/
def Evaluates (s : State) : Event → Prop
  | .tx _ (.evaluate run preflight) => ∃ r input, (s.runs run).committed = .present r ∧
      input.executionMode = r.executionMode ∧ input.text = r.text ∧
      (input.targets.map fun target => (target.groupId, target.capabilityRevision)) =
        s.context run ∧
      preflight = (evaluateCampaignPreflight input).status
  | _ => True

theorem evaluated_targets {s : State} {n : ℕ} {run : RunId} {preflight : CampaignPreflightStatus}
    (h : Evaluates s (.tx n (.evaluate run preflight))) (hp : preflight ≠ .block) :
    ∃ r, (s.runs run).committed = .present r ∧ r.targets ≠ [] := by
  obtain ⟨r, input, hr, _, _, hcontext, rfl⟩ := h
  refine ⟨r, hr, fun hnil => targets_of_unblocked hp ?_⟩
  simpa [State.context, hr, hnil] using hcontext

end CampaignPreflight
