import EclipseOS.PolicyEval.Audit
import EclipseOS.PolicyEval.GrantVerify
import EclipseOS.PolicyEval.SceneView

/-! # What one agent may do

The compositor's half of agent policy: the verified grants one agent object
holds, and the visibility compiled from them. -/

namespace EclipseOS.Abyss.AgentPolicy

open Foundation PolicyEval Cbor

/-- Why a grant was not admitted to an agent object. -/
inductive AdmitError where
  | policyUnavailable
  | invalid (error : VerifyError)
  | wrongPrincipal
  | revoked
  deriving DecidableEq

/-- One agent object's authority. Grants are additive and never merged. -/
structure Agent where
  principal : String
  grants : List Grant
  view : SceneView
  read : SceneView
  acts : List SceneView
  deriving DecidableEq

structure Views where
  list : SceneView
  read : SceneView
  readHeld : Bool
  deriving DecidableEq

/-- The acting capabilities a seat request can need, each with its own visibility. -/
def seatCaps : List String :=
  ["seat.focus", "seat.key", "seat.text", "seat.pointer", "seat.touch", "click", "seat.atomic",
    "seat.compat_lock"]

def agentPrefix : String := "agent:"

section Held

variable [RegexEngine]

namespace Agent

def recompile (agent : Agent) : Agent :=
  { agent with
    view := SceneView.compile agent.grants
    read := SceneView.compileFor sceneRead agent.grants
    acts := seatCaps.map fun cap => SceneView.compileFor cap agent.grants }

/-- `grants.retain(keep)`, recompiled when it dropped any. -/
def retain (agent : Agent) (keep : Grant → Bool) : Agent :=
  let kept := { agent with grants := agent.grants.filter keep }
  if kept.grants.length ≠ agent.grants.length then kept.recompile else kept

/-- The views to filter this request through, and the agent left. -/
def viewAt (agent : Agent) (now : UInt64) : Agent × Option Views :=
  let agent := agent.retain (·.validAt now)
  let readHeld := agent.grants.any fun grant => grant.capabilities.any (·.name = sceneRead)
  (agent, if agent.grants = [] then none else some ⟨agent.view, agent.read, readHeld⟩)

/-- A revocation push, and whether anything was dropped. -/
def revoke (agent : Agent) (revoked : Grant → Bool) : Agent × Bool :=
  let kept := agent.retain (!revoked ·)
  (kept, kept.grants.length ≠ agent.grants.length)

/-- The visibility an acting capability reaches, and the agent left. -/
def actView (agent : Agent) (now : UInt64) (cap : String) : Agent × Option SceneView :=
  let agent := agent.retain (·.validAt now)
  let held := agent.grants.any fun grant => grant.capabilities.any (·.name = cap)
  (agent, do
    let i ← seatCaps.findIdx? (· = cap)
    if held then agent.acts[i]? else none)

/-- The visibility is compiled from the grants held. -/
structure Compiled (agent : Agent) : Prop where
  view : agent.view = SceneView.compile agent.grants
  read : agent.read = SceneView.compileFor sceneRead agent.grants
  acts : agent.acts = seatCaps.map fun cap => SceneView.compileFor cap agent.grants

variable {agent : Agent}

@[simp] theorem recompile_grants (agent : Agent) : agent.recompile.grants = agent.grants := rfl

@[simp] theorem recompile_principal (agent : Agent) :
    agent.recompile.principal = agent.principal := rfl

theorem recompile_compiled (agent : Agent) : agent.recompile.Compiled := ⟨rfl, rfl, rfl⟩

@[simp] theorem retain_grants (agent : Agent) (keep : Grant → Bool) :
    (agent.retain keep).grants = agent.grants.filter keep := by
  simp only [retain]
  split <;> rfl

@[simp] theorem retain_principal (agent : Agent) (keep : Grant → Bool) :
    (agent.retain keep).principal = agent.principal := by
  simp only [retain]
  split <;> rfl

theorem Compiled.retain (compiled : agent.Compiled) (keep : Grant → Bool) :
    (agent.retain keep).Compiled := by
  by_cases dropped : (agent.grants.filter keep).length ≠ agent.grants.length
  · rw [Agent.retain, if_pos dropped]
    exact recompile_compiled _
  · have same : agent.grants.filter keep = agent.grants :=
      List.filter_sublist.eq_of_length (not_not.mp dropped)
    rw [Agent.retain, if_neg dropped, same]
    exact compiled

end Agent

def viewsOf (grants : List Grant) : Option Views :=
  if grants = [] then none
  else some ⟨SceneView.compile grants, SceneView.compileFor sceneRead grants,
    grants.any fun grant => grant.capabilities.any (·.name = sceneRead)⟩

/-- The visibility of an acting capability that these grants compile to. -/
def actOf (cap : String) (grants : List Grant) : Option SceneView :=
  if cap ∈ seatCaps ∧ grants.any (·.capabilities.any (·.name = cap)) then
    some (SceneView.compileFor cap grants)
  else none

namespace Agent

variable {agent : Agent}

theorem Compiled.viewAt (compiled : agent.Compiled) (now : UInt64) :
    (agent.viewAt now).2 = viewsOf (agent.grants.filter (·.validAt now)) := by
  have kept := compiled.retain (·.validAt now)
  simp only [Agent.viewAt, viewsOf, kept.view, kept.read, retain_grants]

theorem Compiled.actView (compiled : agent.Compiled) (now : UInt64) (cap : String) :
    (agent.actView now cap).2 = actOf cap (agent.grants.filter (·.validAt now)) := by
  have kept := compiled.retain (·.validAt now)
  simp only [Agent.actView, actOf, kept.acts, retain_grants]
  cases found : seatCaps.findIdx? (· = cap) with
  | none =>
    have absent : cap ∉ seatCaps := by
      intro member
      exact absurd (List.findIdx?_eq_none_iff.mp found cap member) (by simp)
    simp [absent]
  | some i =>
    rcases List.findIdx?_eq_some_iff_getElem.mp found with ⟨bound, same, -⟩
    have named : seatCaps[i] = cap := of_decide_eq_true same
    have member : cap ∈ seatCaps := named ▸ List.getElem_mem bound
    simp [member, bound, named]

end Agent

end Held

/-! ## Calls and admissions -/

inductive Call where
  | addGrant (cose : Bytes) (key : Option (FixedBytes 32)) (now : UInt64)
      (revoked : Grant → Bool)
  | revoke (revoked : Grant → Bool)
  | viewAt (now : UInt64)
  | actView (now : UInt64) (cap : String)

namespace Call

def revokes (grant : Grant) : Call → Bool
  | revoke revoked => revoked grant
  | _ => false

def looksAt : Call → Option UInt64
  | viewAt now => some now
  | actView now _ => some now
  | _ => none

def findsExpired (grant : Grant) (call : Call) : Bool :=
  call.looksAt.any (grant.expiresMs ≤ ·)

def findsEarly (grant : Grant) (call : Call) : Bool :=
  call.looksAt.any (saturatingAdd · clockSkewMs < grant.issuedMs)

/-- What ends a grant: a revocation that covers it, or a look that finds it expired. -/
def ends (grant : Grant) (call : Call) : Bool := call.revokes grant || call.findsExpired grant

/-- Whether a call leaves a held grant in place. -/
def keeps (grant : Grant) (call : Call) : Bool :=
  !call.revokes grant && call.looksAt.all (grant.validAt ·)

end Call

theorem Call.keeps_eq (grant : Grant) (call : Call) :
    call.keeps grant = (!call.ends grant && !call.findsEarly grant) := by
  rw [Call.keeps, Call.ends, Call.findsExpired, Call.findsEarly]
  cases call.looksAt with
  | none => simp
  | some now =>
    have valid : grant.validAt now =
        (!decide (grant.expiresMs ≤ now) &&
          !decide (saturatingAdd now clockSkewMs < grant.issuedMs)) := by
      rw [Bool.eq_iff_iff, Grant.validAt_iff]
      simp
    simp [valid, Bool.and_assoc]

/-- A grant that was admitted, and the calls made since. -/
structure Admission where
  grant : Grant
  since : List Call

namespace Admission

def live (admission : Admission) : Bool := !admission.since.any (·.ends admission.grant)

/-- A look found the grant not yet valid while it was live. -/
def foundEarly (admission : Admission) : Prop :=
  ∃ before call after, admission.since = before ++ call :: after ∧
    (Admission.mk admission.grant before).live ∧ call.findsEarly admission.grant

end Admission

theorem Admission.not_foundEarly {admission : Admission}
    (never : ∀ call ∈ admission.since, ¬call.findsEarly admission.grant) :
    ¬admission.foundEarly := by
  rintro ⟨before, call, after, split, -, early⟩
  exact never call (split ▸ List.mem_append_right _ List.mem_cons_self) early

theorem Admission.kept_eq_live {admission : Admission} (onTime : ¬admission.foundEarly) :
    admission.since.all (·.keeps admission.grant) = admission.live := by
  rw [Bool.eq_iff_iff, Admission.live, Bool.not_eq_true', List.any_eq_false, List.all_eq_true]
  constructor
  · intro kept call member
    have keeps := kept call member
    rw [Call.keeps_eq, Bool.and_eq_true] at keeps
    simpa using keeps.1
  · intro live call member
    rcases List.append_of_mem member with ⟨before, after, split⟩
    have liveBefore : (Admission.mk admission.grant before).live := by
      simp only [Admission.live, Bool.not_eq_true', List.any_eq_false]
      exact fun earlier found => live earlier (split ▸ List.mem_append_left _ found)
    have notEarly : ¬call.findsEarly admission.grant :=
      fun early => onTime ⟨before, call, after, split, liveBefore, early⟩
    have notEnded := live call member
    simp [Call.keeps_eq, notEarly, notEnded]

section Policy

variable [RegexEngine] [Blake3] [SignatureCheck]

def verify (cose : Bytes) (key : Option (FixedBytes 32)) (now : UInt64)
    (revoked : Grant → Bool) : Except AdmitError Grant :=
  match key with
  | none => .error .policyUnavailable
  | some key =>
    match Grant.verify cose key now with
    | .error error => .error (.invalid error)
    | .ok grant =>
      if (stripPrefix agentPrefix grant.principal).getD [] = [] then
        .error .wrongPrincipal
      else if revoked grant then
        .error .revoked
      else
        .ok grant

namespace Agent

/-- Verifies the first grant and binds the object to its principal. -/
def admits (cose : Bytes) (key : Option (FixedBytes 32)) (now : UInt64)
    (revoked : Grant → Bool) : Except AdmitError Agent := do
  let grant ← verify cose key now revoked
  return recompile ⟨grant.principal, [grant], ⟨[]⟩, ⟨[]⟩, []⟩

/-- A further grant for the same principal. A refusal changes nothing. -/
def addGrant (agent : Agent) (cose : Bytes) (key : Option (FixedBytes 32)) (now : UInt64)
    (revoked : Grant → Bool) : Except AdmitError Agent := do
  let grant ← verify cose key now revoked
  if grant.principal ≠ agent.principal then
    throw .wrongPrincipal
  return recompile { agent with grants := agent.grants ++ [grant] }

end Agent

/-! ## Runs -/

def Agent.after (agent : Agent) : Call → Agent
  | .addGrant cose key now revoked =>
    match agent.addGrant cose key now revoked with
    | .ok agent => agent
    | .error _ => agent
  | .revoke revoked => (agent.revoke revoked).1
  | .viewAt now => (agent.viewAt now).1
  | .actView now cap => (agent.actView now cap).1

def Agent.run (agent : Agent) (calls : List Call) : Agent := calls.foldl Agent.after agent

/-- The grant a call admits to an agent with this principal. -/
def Call.admits (principal : String) : Call → Option Grant
  | .addGrant cose key now revoked =>
    match verify cose key now revoked with
    | .ok grant => if grant.principal = principal then some grant else none
    | .error _ => none
  | _ => none

def admissions (principal : String) : List Call → List Admission
  | [] => []
  | call :: calls =>
    ((call.admits principal).map (⟨·, calls⟩)).toList ++ admissions principal calls

/-- Every admission of an agent's run that began with `first`. -/
def history (first : Grant) (calls : List Call) : List Admission :=
  ⟨first, calls⟩ :: admissions first.principal calls

/-- The grants a run has admitted and not revoked. -/
def unrevokedGrants (first : Grant) (calls : List Call) : List Grant :=
  ((history first calls).filter fun admission =>
    !admission.since.any (·.revokes admission.grant)).map (·.grant)

/-- The grants a run has admitted and not ended. -/
def liveGrants (first : Grant) (calls : List Call) : List Grant :=
  ((history first calls).filter (·.live)).map (·.grant)

/-! ## What a step does -/

namespace Agent

variable {agent : Agent}

theorem after_addGrant (agent : Agent) (cose : Bytes) (key : Option (FixedBytes 32))
    (now : UInt64) (revoked : Grant → Bool) :
    agent.after (.addGrant cose key now revoked) =
      match (Call.addGrant cose key now revoked).admits agent.principal with
      | some grant => recompile { agent with grants := agent.grants ++ [grant] }
      | none => agent := by
  simp only [after, addGrant, Call.admits]
  cases verify cose key now revoked with
  | error error => rfl
  | ok grant =>
    by_cases same : grant.principal = agent.principal
    · simp only [ok_bind, same, ne_eq, not_true, if_false, if_true]
      rfl
    · simp only [ok_bind, same, ne_eq, not_false_eq_true, if_true, if_false]
      rfl

theorem after_principal (agent : Agent) (call : Call) :
    (agent.after call).principal = agent.principal := by
  cases call with
  | addGrant cose key now revoked =>
    rw [after_addGrant]
    split <;> rfl
  | revoke revoked => exact retain_principal agent _
  | viewAt now => exact retain_principal agent _
  | actView now cap => exact retain_principal agent _

theorem Compiled.after (compiled : agent.Compiled) (call : Call) :
    (agent.after call).Compiled := by
  cases call with
  | addGrant cose key now revoked =>
    rw [after_addGrant]
    split
    · exact recompile_compiled _
    · exact compiled
  | revoke revoked => exact compiled.retain _
  | viewAt now => exact compiled.retain _
  | actView now cap => exact compiled.retain _

theorem after_grants (agent : Agent) (call : Call) :
    (agent.after call).grants =
      agent.grants.filter (call.keeps ·) ++ (call.admits agent.principal).toList := by
  cases call with
  | addGrant cose key now revoked =>
    have all : agent.grants.filter ((Call.addGrant cose key now revoked).keeps ·) =
        agent.grants :=
      List.filter_eq_self.mpr fun _ _ => rfl
    rw [after_addGrant, all]
    split
    · rename_i grant admitted
      rw [admitted]
      rfl
    · rename_i admitted
      rw [admitted]
      exact (List.append_nil _).symm
  | revoke revoked =>
    have kept : agent.after (.revoke revoked) = agent.retain (!revoked ·) := rfl
    rw [kept, retain_grants]
    simp [Call.keeps, Call.revokes, Call.looksAt, Call.admits]
  | viewAt now =>
    have kept : agent.after (.viewAt now) = agent.retain (·.validAt now) := rfl
    rw [kept, retain_grants]
    simp [Call.keeps, Call.revokes, Call.looksAt, Call.admits]
  | actView now cap =>
    have kept : agent.after (.actView now cap) = agent.retain (·.validAt now) := rfl
    rw [kept, retain_grants]
    simp [Call.keeps, Call.revokes, Call.looksAt, Call.admits]

/-! ## What a run does -/

theorem Compiled.run (compiled : agent.Compiled) (calls : List Call) :
    (agent.run calls).Compiled := by
  induction calls generalizing agent with
  | nil => exact compiled
  | cons call calls induction => exact induction (compiled.after call)

/-- A run holds what it began with and what it admitted, as far as every later
call left it in place. -/
theorem run_grants (agent : Agent) (calls : List Call) :
    (agent.run calls).grants =
      agent.grants.filter (fun grant => calls.all (·.keeps grant)) ++
        ((admissions agent.principal calls).filter fun admission =>
          admission.since.all (·.keeps admission.grant)).map (·.grant) := by
  induction calls generalizing agent with
  | nil => simp [run, admissions]
  | cons call calls induction =>
    have step : agent.run (call :: calls) = (agent.after call).run calls := rfl
    rw [step, induction, after_principal, after_grants]
    cases admitted : call.admits agent.principal with
    | none => simp [admissions, admitted, List.filter_filter, Bool.and_comm]
    | some grant =>
      by_cases kept : calls.all (·.keeps grant)
      · simp [admissions, admitted, List.filter_filter, Bool.and_comm, kept]
      · simp [admissions, admitted, List.filter_filter, Bool.and_comm, kept]

end Agent

theorem Agent.admit_eq (cose : Bytes) (key : Option (FixedBytes 32)) (now : UInt64)
    (revoked : Grant → Bool) :
    Agent.admits cose key now revoked =
      (verify cose key now revoked).map fun grant =>
        Agent.recompile ⟨grant.principal, [grant], ⟨[]⟩, ⟨[]⟩, []⟩ := by
  unfold Agent.admits
  cases verify cose key now revoked <;> rfl

theorem run_holds_live {first : Grant} {agent : Agent}
    (principal : agent.principal = first.principal) (grants : agent.grants = [first])
    {calls : List Call}
    (onTime : ∀ admission ∈ history first calls, ¬admission.foundEarly) :
    (agent.run calls).grants = liveGrants first calls := by
  have kept : (history first calls).filter (fun admission =>
      admission.since.all (·.keeps admission.grant)) = (history first calls).filter (·.live) :=
    List.filter_congr fun admission member => Admission.kept_eq_live (onTime admission member)
  rw [Agent.run_grants, principal, grants, liveGrants, ← kept, history]
  by_cases first : calls.all (·.keeps first)
  · simp [first]
  · simp [first]

/-- Every view of a run is compiled from exactly the grants the run admitted, did
not revoke and did not find expired, as far as they are valid at that time; and
those are the grants it still holds. -/
theorem views_follow_grants {cose : Bytes} {key : Option (FixedBytes 32)} {now : UInt64}
    {revoked : Grant → Bool} {first : Grant}
    (verified : verify cose key now revoked = .ok first) :
    ∃ agent, Agent.admits cose key now revoked = .ok agent ∧
      ∀ calls, (∀ admission ∈ history first calls, ¬admission.foundEarly) →
        (agent.run calls).grants = liveGrants first calls ∧
        ∀ look, ((agent.run calls).viewAt look).2 =
            viewsOf ((liveGrants first calls).filter (·.validAt look)) ∧
          ∀ cap, ((agent.run calls).actView look cap).2 =
            actOf cap ((liveGrants first calls).filter (·.validAt look)) := by
  refine ⟨_, by rw [Agent.admit_eq, verified]; rfl, fun calls onTime => ?_⟩
  let admitted := Agent.recompile ⟨first.principal, [first], ⟨[]⟩, ⟨[]⟩, []⟩
  have holds : (admitted.run calls).grants = liveGrants first calls :=
    run_holds_live rfl rfl onTime
  have compiled := (Agent.recompile_compiled ⟨first.principal, [first], ⟨[]⟩, ⟨[]⟩, []⟩).run calls
  refine ⟨holds, fun look => ⟨?_, fun cap => ?_⟩⟩
  · rw [compiled.viewAt, holds]
  · rw [compiled.actView, holds]

end Policy

section Examples

local instance : RegexEngine := wordEngine

local instance : Blake3 := startDigest

local instance : SignatureCheck := soleSignature

def soleVerifyingKey : FixedBytes 32 := zeroBytes 32

def signed (grant : Grant) : Bytes :=
  coseSign1 (protectedHeader soleVerifyingKey) grant.encode (zeroBytes 64)

def neverRevoked : Grant → Bool := fun _ => false

/-- A grant to list one window, from one time to another. -/
def lasting (issued expires : UInt64) : Grant :=
  ⟨zeroBytes 16, "agent:a", issued, expires, "policyd", zeroBytes 16,
    [⟨sceneList, ["handle:1"], none⟩], .default, false⟩

theorem verify_signed {issued expires now : UInt64}
    (short : (lasting issued expires).encode.length < 2 ^ 64)
    (valid : (lasting issued expires).validAt now) :
    verify (signed (lasting issued expires)) (some soleVerifyingKey) now neverRevoked =
      .ok (lasting issued expires) := by
  have checked : Grant.verify (signed (lasting issued expires)) soleVerifyingKey now =
      .ok (lasting issued expires) :=
    Grant.verify_coseSign1 short (decide_eq_true rfl) valid
  have named : ¬(stripPrefix agentPrefix (lasting issued expires).principal).getD [] = [] := by
    show ¬(stripPrefix agentPrefix "agent:a").getD [] = []
    decide
  simp only [verify, checked, named, if_false]
  rfl

theorem views_follow_grants_stepped : ∃ agent,
    Agent.admits (signed (lasting 0 100)) (some soleVerifyingKey) 50 neverRevoked = .ok agent ∧
      ((agent.run [.viewAt 60, .viewAt 40]).viewAt 50).2 = viewsOf [lasting 0 100] := by
  have short : (lasting 0 100).encode.length < 2 ^ 64 := by decide +kernel
  have valid : (lasting 0 100).validAt 50 := by decide
  rcases views_follow_grants (verify_signed short valid) with ⟨agent, admitted, follows⟩
  have onTime : ∀ admission ∈ history (lasting 0 100) [.viewAt 60, .viewAt 40],
      ¬admission.foundEarly := by
    intro admission member
    obtain rfl := List.mem_singleton.mp member
    exact Admission.not_foundEarly (by decide)
  exact ⟨agent, admitted, ((follows _ onTime).2 50).1⟩

/-- A look that drops a grant drops it for every later look: one that found it
expired, and one that found it not yet valid. -/
theorem dropped_for_good :
    (∃ agent, Agent.admits (signed (lasting 0 100)) (some soleVerifyingKey) 50 neverRevoked =
        .ok agent ∧
      ((agent.run [.viewAt 150]).viewAt 50).2 ≠
        viewsOf ((unrevokedGrants (lasting 0 100) [.viewAt 150]).filter (·.validAt 50))) ∧
    ∃ agent, Agent.admits (signed (lasting 5000 9000)) (some soleVerifyingKey) 5000 neverRevoked =
        .ok agent ∧
      ((agent.run [.viewAt 1000]).viewAt 5000).2 ≠
        viewsOf
          ((unrevokedGrants (lasting 5000 9000) [.viewAt 1000]).filter (·.validAt 5000)) := by
  have lost : ∀ {issued expires admitted first later : UInt64},
      (lasting issued expires).encode.length < 2 ^ 64 →
      (lasting issued expires).validAt admitted → ¬(lasting issued expires).validAt first →
      (lasting issued expires).validAt later →
      ∃ agent, Agent.admits (signed (lasting issued expires)) (some soleVerifyingKey) admitted
          neverRevoked = .ok agent ∧
        ((agent.run [.viewAt first]).viewAt later).2 ≠ viewsOf
          ((unrevokedGrants (lasting issued expires) [.viewAt first]).filter
            (·.validAt later)) := by
    intro issued expires admitted first later short valid dropped valid'
    refine ⟨_, by rw [Agent.admit_eq, verify_signed short valid]; rfl, ?_⟩
    have unrevoked : unrevokedGrants (lasting issued expires) [.viewAt first] =
        [lasting issued expires] := rfl
    rw [((Agent.recompile_compiled _).run _).viewAt, Agent.run_grants, unrevoked]
    simp [Call.keeps, Call.looksAt, Call.revokes, dropped, valid', viewsOf, admissions,
      Call.admits]
  exact ⟨lost (by decide +kernel) (by decide) (by decide) (by decide),
    lost (by decide +kernel) (by decide) (by decide) (by decide)⟩

end Examples

end EclipseOS.Abyss.AgentPolicy
