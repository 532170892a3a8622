import EclipseOS.Brokerd.Broker
import EclipseOS.Brokerd.Crash

/-! # Releases

A value leaves the broker only after the request and the secret's record were checked
and the release was journalled. What is refused before that says nothing about the
store. -/

namespace EclipseOS.Brokerd

open Foundation PolicyEval Cbor

/-! ## Requests and what is asked of them -/

inductive Ask where
  | substitute (req : SubstituteReq)
  | fieldFill (req : FillReq)
  | materialize (req : MaterializeReq)
  | totp (req : TotpReq) (now : UInt64)

inductive Answer where
  | value (released : Released)
  | code (code : String) (lifeLeft : Nat)

namespace Ask

def name : Ask → String
  | substitute req => req.name
  | fieldFill req => req.name
  | materialize req => req.name
  | totp req _ => req.name

/-- Whether a binding covers a connection to a host, or the request it carries. -/
def Covers (binding : Binding) (host : String) (port : UInt16) (url : Option String) : Prop :=
  binding.matchesEndpoint host port ∨
    (∃ scheme pattern bound path, binding = .url scheme pattern bound path) ∧
      ∃ target ∈ url, binding.matchesUrl target

/-- The peer, the capability flags and the target's own facts. -/
def Permitted (peer : Peer) : Ask → Prop
  | substitute req => peer = .proxy ∧ principalOk req.principal ∧ req.holdsSecretUse
  | fieldFill req =>
    peer = .compositor ∧ principalOk req.principal ∧ req.holdsSecretUse ∧ req.holdsSeatText ∧
      (req.role = .password ∨ req.role = .textField ∧ req.credential) ∧
      req.generation = req.expectedGeneration ∧ req.appListed
  | materialize req =>
    peer = .agentd ∧ principalOk req.principal ∧ req.holdsSecretExpose ∧
      ("env:".toList <+: req.target.toList ∨ "file:".toList <+: req.target.toList)
  | totp req _ => peer = .agentd ∧ principalOk req.principal ∧ req.holdsSecretUse

/-- What is asked of the secret's record: its mode or kind, where it may go, and that
the caller knows its last rotation. -/
def Meets (known : Meta) (logs : IssueLogs) : Ask → Prop
  | substitute req =>
    .proxyHeader ∈ known.modes ∧
      (∃ binding ∈ known.boundTo, Covers binding req.host req.port req.url) ∧
      ∀ expected ∈ req.expectedRotation, expected = known.rotationCounter
  | fieldFill req =>
    .fieldFill ∈ known.modes ∧
      (∀ binding ∈ known.boundTo, binding.isWeb →
        ∃ url ∈ req.url, ∃ other ∈ known.boundTo, other.matchesUrl url) ∧
      (∀ binding ∈ known.boundTo, ¬binding.isWeb → .app req.appId ∈ known.boundTo) ∧
      ∀ expected ∈ req.expectedRotation, expected = known.rotationCounter
  | materialize req =>
    .materialize ∈ known.modes ∧ ∀ expected ∈ req.expectedRotation, expected = known.rotationCounter
  | totp req now =>
    known.kind = .totp ∧
      (∃ binding ∈ known.boundTo, binding.matchesEndpoint req.host req.port) ∧
      (((logs.lookup known.id).getD ⟨[]⟩).tryIssue now).1

def deliver [Hmac] (known : Meta) (value : Bytes) : Ask → Answer
  | totp _ now => .code (code value now totpDigits) (lifeLeft now)
  | _ => .value ⟨value, known.rotationCounter⟩

end Ask

def Broker.ask [Aead] [Hmac] (sink : AuditSink) (broker : Broker) (peer : Peer) :
    Ask → Outcome Answer
  | .substitute req => (broker.substitute sink peer req).map .value
  | .fieldFill req => (broker.fieldFill sink peer req).map .value
  | .materialize req => (broker.materialize sink peer req).map .value
  | .totp req now => (broker.issueTotp sink peer req now).map fun (code, left) => .code code left

/-! ## The shared steps -/

theorem Outcome.map_map {α β γ : Type} (first : α → β) (second : β → γ) (outcome : Outcome α) :
    (outcome.map first).map second = outcome.map (second ∘ first) := by
  rcases outcome with ⟨_ | _, broker, trace⟩ <;> rfl

structure Path where
  need : Option Mode
  modeLabel : String
  destination : String
  principal : String
  grant : Option Ulid
  expectedRotation : Option UInt64
  reportLen : Bool
  scope : Meta → IssueLogs → Except Status Unit × IssueLogs
  answer : Released → Answer

namespace Path

def checks (path : Path) (known : Meta) (logs : IssueLogs) : Except Status Unit × IssueLogs :=
  Broker.preconditions path.need path.expectedRotation path.scope known logs

theorem checks_ok {path : Path} {known : Meta} {logs : IssueLogs}
    (ok : (path.checks known logs).1 = .ok ()) :
    (∀ mode ∈ path.need, mode ∈ known.modes) ∧ (path.scope known logs).1 = .ok () ∧
      ∀ expected ∈ path.expectedRotation, expected = known.rotationCounter := by
  unfold checks Broker.preconditions at ok
  by_cases lacks : path.need.any fun mode => !known.hasMode mode
  · rw [if_pos lacks] at ok
    cases ok
  rw [if_neg lacks] at ok
  rcases bound : path.scope known logs with ⟨checked, logs'⟩
  rw [bound] at ok
  cases checked with
  | error status => cases ok
  | ok =>
    dsimp only at ok
    by_cases rotated : path.expectedRotation.any (· ≠ known.rotationCounter)
    · rw [if_pos rotated] at ok
      cases ok
    refine ⟨fun mode needed => ?_, rfl, fun expected known' => ?_⟩
    · rw [Option.mem_def] at needed
      simpa [needed, Meta.hasMode] using lacks
    · rw [Option.mem_def] at known'
      simpa [known'] using rotated

end Path

section Shared

variable [Aead] {sink : AuditSink} {broker : Broker}

namespace Path

def run (path : Path) (sink : AuditSink) (broker : Broker) (name : String) : Outcome Answer :=
  (broker.release sink name path.need path.modeLabel path.destination path.principal path.grant
    path.expectedRotation path.reportLen path.scope).map path.answer

variable {path : Path} {name : String}

theorem run_ok {answer : Answer} (answered : (path.run sink broker name).answer = .ok answer) :
    ∃ store known value, broker.state = .unlocked store ∧ store.«meta» name = some known ∧
      (path.checks known broker.totp).1 = .ok () ∧ store.readValue broker.files name = .ok value ∧
      answer = path.answer ⟨value, known.rotationCounter⟩ ∧
      ∃ record : SecretRecord, record.outcome = "ok" ∧ record.secretId = known.id ∧
        record.rotationCounter = known.rotationCounter ∧
        (path.run sink broker name).trace = [.lookup name, .read name, .emit record true] := by
  unfold run Broker.release Outcome.map at answered ⊢
  cases state : broker.state with
  | locked =>
    rw [state] at answered
    cases answered
  | unlocked store =>
    rw [state] at answered
    dsimp only at answered ⊢
    cases found : store.«meta» name with
    | none =>
      rw [found] at answered
      cases answered
    | some known =>
      rw [found] at answered
      dsimp only at answered ⊢
      rcases checked : path.checks known broker.totp with ⟨result, totp⟩
      rw [checks] at checked
      rw [checked] at answered ⊢
      cases result with
      | error status => cases answered
      | ok =>
        dsimp only at answered ⊢
        cases opened : store.readValue broker.files name with
        | error error =>
          rw [opened] at answered
          cases answered
        | ok value =>
          rw [opened] at answered
          dsimp only at answered ⊢
          generalize (if path.reportLen then some value.length.toUInt64 else none) = length
            at answered ⊢
          split_ifs at answered with accepted
          swap
          · cases answered
          cases answered
          have passed : (path.checks known broker.totp).1 = .ok () := by rw [checks, checked]
          refine ⟨store, known, value, rfl, found, passed, opened, rfl, ?_⟩
          exact ⟨_, rfl, rfl, rfl, by rw [accepted]⟩

theorem run_of_not_lookup (unlooked : .lookup name ∉ (path.run sink broker name).trace) :
    broker.isUnlocked = false := by
  unfold Broker.isUnlocked
  cases state : broker.state with
  | locked => rfl
  | unlocked store =>
    refine absurd ?_ unlooked
    unfold run Broker.release Outcome.map
    rw [state]
    dsimp only
    split
    · exact List.mem_singleton.mpr rfl
    · rcases Broker.preconditions path.need path.expectedRotation path.scope _ broker.totp with
        ⟨_ | _, totp⟩
      · exact List.mem_cons_self
      · dsimp only
        split <;> exact List.mem_cons_self

theorem run_locked (locked : broker.isUnlocked = false) :
    (path.run sink broker name).answer = .error .brokerLocked := by
  unfold Broker.isUnlocked at locked
  cases state : broker.state with
  | locked =>
    unfold run Broker.release Outcome.map
    rw [state]
    rfl
  | unlocked store =>
    rw [state] at locked
    cases locked

end Path

section Gates

variable [Hmac] {peer : Peer} {ask : Ask}

/-- A path carries a request where it passes only what the request is entitled to. -/
def Path.Carries (path : Path) (ask : Ask) : Prop :=
  (∀ known logs, (path.checks known logs).1 = .ok () → ask.Meets known logs) ∧
    ∀ known value, path.answer ⟨value, known.rotationCounter⟩ = ask.deliver known value

/-- A request is refused for its own facts alone, or goes on to the shared steps. -/
def Gated {α : Type} (ask : Ask) (peer : Peer) (answer : α → Answer)
    (run : AuditSink → Broker → Outcome α) : Prop :=
  (∃ status, ∀ sink broker, run sink broker = broker.refuse status) ∨
    ask.Permitted peer ∧ ∃ path : Path, path.Carries ask ∧
      ∀ sink broker, (run sink broker).map answer = path.run sink broker ask.name

theorem Gated.guard {α : Type} {answer : α → Answer} {condition : Prop} [Decidable condition]
    {status : Status} {run : AuditSink → Broker → Outcome α}
    (rest : ¬condition → Gated ask peer answer run) :
    Gated ask peer answer fun sink broker =>
      if condition then broker.refuse status else run sink broker := by
  by_cases met : condition
  · exact .inl ⟨status, fun sink broker => if_pos met⟩
  · simpa only [if_neg met] using rest met

theorem Gated.map {α β : Type} {answer : β → Answer} {transform : α → β}
    {run : AuditSink → Broker → Outcome α} (whole : Gated ask peer (answer ∘ transform) run) :
    Gated ask peer answer fun sink broker => (run sink broker).map transform := by
  rcases whole with ⟨status, refuses⟩ | goesOn
  · refine .inl ⟨status, fun sink broker => ?_⟩
    dsimp only
    rw [refuses]
    rfl
  · simp only [Gated, Outcome.map_map]
    exact .inr goesOn

theorem gated_substitute (req : SubstituteReq) :
    Gated (.substitute req) peer .value fun sink broker => broker.substitute sink peer req := by
  unfold Broker.substitute
  refine .guard fun isAllowed => .guard fun principal => .guard fun capable => .inr ⟨?_, ?_⟩
  · exact ⟨by simpa [allowed] using isAllowed, by simpa using principal, by simpa using capable⟩
  refine ⟨⟨_, _, _, _, _, _, _, req.scope, .value⟩, ⟨fun known logs passed => ?_, fun _ _ => rfl⟩,
    fun sink broker => rfl⟩
  rcases Path.checks_ok passed with ⟨mode, bound, rotation⟩
  refine ⟨mode _ rfl, ?_, rotation⟩
  dsimp only [SubstituteReq.scope] at bound
  split_ifs at bound with covered
  rcases List.any_eq_true.mp covered with ⟨binding, among, covers⟩
  refine ⟨binding, among, ?_⟩
  cases binding with
  | host pattern bound => exact .inl covers
  | url scheme pattern bound path =>
    rcases (Option.any_eq_true _ _).mp covers with ⟨target, isUrl, matched⟩
    exact .inr ⟨⟨_, _, _, _, rfl⟩, target, isUrl, matched⟩
  | app appId => cases covers

theorem gated_fieldFill (req : FillReq) :
    Gated (.fieldFill req) peer .value fun sink broker => broker.fieldFill sink peer req := by
  unfold Broker.fieldFill
  refine .guard fun isAllowed => .guard fun principal => .guard fun capable => .guard fun role =>
    .guard fun generation => .guard fun listed => .inr ⟨?_, ?_⟩
  · refine ⟨by simpa [allowed] using isAllowed, by simpa using principal, ?_⟩
    rw [not_or, Bool.not_eq_false, Bool.not_eq_false] at capable
    refine ⟨capable.1, capable.2, ?_, not_not.mp generation, by simpa using listed⟩
    cases isRole : req.role with
    | password => exact .inl rfl
    | textField =>
      rw [isRole] at role
      exact .inr ⟨rfl, by simpa using role⟩
    | other =>
      rw [isRole] at role
      exact absurd rfl role
  refine ⟨⟨_, _, _, _, _, _, _, req.scope, .value⟩, ⟨fun known logs passed => ?_, fun _ _ => rfl⟩,
    fun sink broker => rfl⟩
  rcases Path.checks_ok passed with ⟨mode, bound, rotation⟩
  dsimp only [FillReq.scope] at bound
  split_ifs at bound with covered
  rw [Bool.and_eq_true] at covered
  refine ⟨mode _ rfl, ?_, ?_, rotation⟩
  · intro binding among isWeb
    have hasWeb : known.boundTo.any (·.isWeb) := List.any_eq_true.mpr ⟨binding, among, isWeb⟩
    have webOk := covered.1
    rw [hasWeb, Bool.not_true, Bool.false_or] at webOk
    rcases (Option.any_eq_true _ _).mp webOk with ⟨url, isUrl, matched⟩
    rcases List.any_eq_true.mp matched with ⟨other, among', matches'⟩
    exact ⟨url, isUrl, other, among', matches'⟩
  · intro binding among isApp
    have hasApp : known.boundTo.any fun binding => !binding.isWeb :=
      List.any_eq_true.mpr ⟨binding, among, by simpa using isApp⟩
    have appOk := covered.2
    rw [hasApp, Bool.not_true, Bool.false_or] at appOk
    rcases List.any_eq_true.mp appOk with ⟨other, among', isOther⟩
    rw [Binding.matchesApp, decide_eq_true_eq] at isOther
    exact isOther ▸ among'

theorem gated_materialize (req : MaterializeReq) :
    Gated (.materialize req) peer .value fun sink broker => broker.materialize sink peer req := by
  unfold Broker.materialize
  refine .guard fun isAllowed => .guard fun principal => .guard fun capable => .guard fun target =>
    .inr ⟨?_, ?_⟩
  · refine ⟨by simpa [allowed] using isAllowed, by simpa using principal, by simpa using capable, ?_⟩
    rw [Bool.not_eq_false, Bool.or_eq_true] at target
    simp only [afterPrefix, Option.isSome_iff_exists, List.isPrefixOf?_eq_some_iff_append_eq]
      at target
    exact target
  refine ⟨⟨_, _, _, _, _, _, _, _, .value⟩, ⟨fun known logs passed => ?_, fun _ _ => rfl⟩,
    fun sink broker => rfl⟩
  rcases Path.checks_ok passed with ⟨mode, -, rotation⟩
  exact ⟨mode _ rfl, rotation⟩

theorem gated_totp (req : TotpReq) (now : UInt64) :
    Gated (.totp req now) peer (fun (code, left) => .code code left)
      fun sink broker => broker.issueTotp sink peer req now := by
  unfold Broker.issueTotp
  refine .guard fun isAllowed => .guard fun principal => .guard fun capable => .map (.inr ⟨?_, ?_⟩)
  · exact ⟨by simpa [allowed] using isAllowed, by simpa using principal, by simpa using capable⟩
  refine ⟨⟨_, _, _, _, _, _, _, req.scope now, fun released => .code _ _⟩, ⟨fun known logs passed => ?_,
    fun _ _ => rfl⟩, fun sink broker => rfl⟩
  rcases Path.checks_ok passed with ⟨-, bound, -⟩
  dsimp only [TotpReq.scope] at bound
  split_ifs at bound with kind covered issued
  rw [Bool.not_eq_false] at covered
  rcases List.any_eq_true.mp covered with ⟨binding, among, matched⟩
  exact ⟨not_not.mp kind, ⟨binding, among, matched⟩, issued⟩

theorem ask_cases (peer : Peer) (ask : Ask) :
    (∃ status, ∀ sink (broker : Broker), (broker.ask sink peer ask).answer = .error status) ∨
      ask.Permitted peer ∧ ∃ path : Path, path.Carries ask ∧
        ∀ sink (broker : Broker), broker.ask sink peer ask = path.run sink broker ask.name := by
  have refused {α : Type} {answer : α → Answer} {run : AuditSink → Broker → Outcome α}
      (same : ∀ sink (broker : Broker), broker.ask sink peer ask = (run sink broker).map answer)
      (cases : Gated ask peer answer run) :
      (∃ status, ∀ sink (broker : Broker), (broker.ask sink peer ask).answer = .error status) ∨
        ask.Permitted peer ∧ ∃ path : Path, path.Carries ask ∧
          ∀ sink (broker : Broker), broker.ask sink peer ask = path.run sink broker ask.name := by
    simp only [same]
    refine cases.imp (fun ⟨status, refuses⟩ => ⟨status, fun sink broker => ?_⟩) id
    rw [refuses]
    rfl
  cases ask with
  | substitute req => exact refused (fun _ _ => rfl) (gated_substitute req)
  | fieldFill req => exact refused (fun _ _ => rfl) (gated_fieldFill req)
  | materialize req => exact refused (fun _ _ => rfl) (gated_materialize req)
  | totp req now => exact refused (fun _ _ => rfl) (gated_totp req now)

theorem materialize_answers {req : MaterializeReq} (permitted : (Ask.materialize req).Permitted peer)
    {store : Store} (unlocked : broker.state = .unlocked store) {known : Meta}
    (found : store.«meta» req.name = some known)
    (meets : (Ask.materialize req).Meets known broker.totp) {value : Bytes}
    (opened : store.readValue broker.files req.name = .ok value)
    (accepts : ∀ emission, sink emission = true) :
    (broker.ask sink peer (.materialize req)).answer =
      .ok (.value ⟨value, known.rotationCounter⟩) := by
  rcases permitted with ⟨isPeer, principal, capable, target⟩
  have isAllowed : allowed peer .materialize = true := by rw [isPeer]; rfl
  have passed : Broker.preconditions (some .materialize) req.expectedRotation
      (fun _ logs => (.ok (), logs)) known broker.totp = (.ok (), broker.totp) := by
    have current : req.expectedRotation.any (· ≠ known.rotationCounter) = false := by
      rw [Option.any_eq_false]
      exact fun expected known => by simpa using meets.2 expected known
    rw [Broker.preconditions, if_neg (by simpa [Meta.hasMode] using meets.1)]
    simp only [current, Bool.false_eq_true, if_false]
  have wellFormed : ((afterPrefix "env:" req.target.toList).isSome ||
      (afterPrefix "file:" req.target.toList).isSome) = true := by
    simp only [Bool.or_eq_true, afterPrefix, Option.isSome_iff_exists,
      List.isPrefixOf?_eq_some_iff_append_eq]
    exact target
  simp only [Broker.ask, Broker.materialize, isAllowed, principal, capable, wellFormed,
    Broker.release, unlocked, found, passed, opened, accepts, Bool.true_eq_false, if_false, if_true]
  rfl

/-- What leaves the broker was checked, read and then journalled, and a request refused
before its name is looked up is answered alike whatever the store holds. -/
theorem ask_gated (sink : AuditSink) (broker : Broker) (peer : Peer) (ask : Ask) :
    (∀ answer, (broker.ask sink peer ask).answer = .ok answer →
      ask.Permitted peer ∧ ∃ store known value,
        broker.state = .unlocked store ∧ store.«meta» ask.name = some known ∧
        ask.Meets known broker.totp ∧ store.readValue broker.files ask.name = .ok value ∧
        answer = ask.deliver known value ∧
        ∃ record : SecretRecord, record.outcome = "ok" ∧ record.secretId = known.id ∧
          record.rotationCounter = known.rotationCounter ∧
          (broker.ask sink peer ask).trace =
            [.lookup ask.name, .read ask.name, .emit record true]) ∧
    (.lookup ask.name ∉ (broker.ask sink peer ask).trace →
      ∀ otherSink (other : Broker), other.isUnlocked = broker.isUnlocked →
        (other.ask otherSink peer ask).answer = (broker.ask sink peer ask).answer) := by
  rcases ask_cases peer ask with ⟨status, refused⟩ | ⟨permitted, path, carries, runs⟩
  · refine ⟨fun answer answered => ?_, fun _ otherSink other _ => ?_⟩
    · rw [refused] at answered
      cases answered
    · rw [refused, refused]
  · rw [runs]
    constructor
    · intro answer answered
      rcases Path.run_ok answered with
        ⟨store, known, value, unlocked, found, passed, opened, rfl, record, journalled⟩
      exact ⟨permitted, store, known, value, unlocked, found, carries.1 _ _ passed, opened,
        carries.2 _ _, record, journalled⟩
    · intro unlooked otherSink other same
      have locked := Path.run_of_not_lookup unlooked
      rw [runs, Path.run_locked locked, Path.run_locked (same.trans locked)]

end Gates

end Shared

/-! ## A value that is bound elsewhere -/

section Example

def deployKey : NewSecret :=
  ⟨"deploy", .env, [.host "api.acme.com" 443], [.materialize], false, none⟩

theorem deployKey_fromWire : deployKey.FromWire := by
  refine ⟨by decide, fun binding member => ?_⟩
  rcases List.mem_singleton.mp member with rfl
  exact ⟨"host:api.acme.com", by decide, by decide⟩

def addDeployKey : StoreCall :=
  .add ⟨deployKey, deployKey_fromWire⟩ [1, 2, 3] 1000 (zeroBytes 10) noDraws

def deployFiles : Files FileName :=
  runAll (@StoreCall.perform plainAead addDeployKey freshStore freshFiles).2 freshFiles

def deployStore : Store := (@StoreCall.perform plainAead addDeployKey freshStore freshFiles).1

def deployBroker : Broker := ⟨deployFiles, .unlocked deployStore, ∅⟩

@[reducible] def plainHmac : Hmac := ⟨fun _ _ => zeroBytes 20⟩

def exposeKey : MaterializeReq := ⟨"agent:a1", none, "deploy", "env:DEPLOY_KEY", true, none⟩

/-- A secret bound to a host is put into a sandbox variable. -/
theorem materialize_unbound :
    (∃ released, (@Broker.ask plainAead plainHmac (fun _ => true) deployBroker .agentd
      (.materialize exposeKey)).answer = .ok (.value released)) ∧
    ∃ known, deployStore.«meta» "deploy" = some known ∧ ∀ binding ∈ known.boundTo,
      (∀ port, ¬binding.matchesEndpoint exposeKey.target port) ∧
        ¬binding.matchesUrl exposeKey.target ∧ ¬binding.matchesApp exposeKey.target := by
  have found : deployStore.«meta» "deploy" = some (Store.minted deployKey 1000 (zeroBytes 10)) := by
    decide
  have backed : @Backed plainAead plainSealer none deployFiles deployStore :=
    @Reachable.backed plainAead _ _ _ _
      (added_reachable ⟨deployKey, deployKey_fromWire⟩ [1, 2, 3] 1000)
  rcases @Backed.readValue plainAead _ _ _ _ backed "deploy" (by rw [found]; rfl) with
    ⟨value, opened⟩
  refine ⟨⟨⟨value, 0⟩, ?_⟩, _, found, fun binding member => ?_⟩
  · have permitted : (Ask.materialize exposeKey).Permitted .agentd := by
      refine ⟨rfl, by decide, rfl, .inl ⟨"DEPLOY_KEY".toList, by decide⟩⟩
    have meets : (Ask.materialize exposeKey).Meets (Store.minted deployKey 1000 (zeroBytes 10)) ∅ :=
      ⟨by decide, nofun⟩
    exact @materialize_answers plainAead _ deployBroker plainHmac _ _ permitted _ rfl _ found meets _
      opened fun _ => rfl
  · rcases List.mem_singleton.mp member with rfl
    exact ⟨fun port => nofun, by decide, by decide⟩

end Example

end EclipseOS.Brokerd
