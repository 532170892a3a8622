import EclipseOS.Brokerd.Unlock
import EclipseOS.Foundation.History

/-! # The limit of one-time codes

How many codes a secret gets in a window of time, over every run of the broker's requests. -/

namespace EclipseOS.Brokerd

open Foundation PolicyEval Cbor

theorem sublist_dropWhile {α : Type} {test : α → Bool} {part times : List α}
    (sublist : part.Sublist times) (kept : ∀ time ∈ part, test time = false) :
    part.Sublist (times.dropWhile test) := by
  induction sublist with
  | slnil => exact .slnil
  | @cons part times time sublist induction =>
    rw [List.dropWhile_cons]
    split_ifs
    · exact induction kept
    · exact sublist.cons time
  | @cons_cons part times time sublist induction =>
    rw [List.dropWhile_cons, kept time (List.mem_cons_self ..), if_neg Bool.false_ne_true]
    exact sublist.cons_cons time

/-- A code that was issued, and whether the broker has dropped the log it was in. -/
structure Issued where
  id : Ulid
  time : UInt64
  forgotten : Bool
  deriving DecidableEq

/-- At most so many codes for one secret, whenever the window begins. -/
def Limited (codes : List Issued) : Prop :=
  ∀ (id : Ulid) (start : Nat), (codes.filter fun code =>
    code.id = id ∧ start ≤ code.time.toNat ∧ code.time.toNat < start + issueWindow).length ≤
      maxInWindow

def Request.totpTime : Request → Option UInt64
  | .ask _ _ (.totp _ now) => some now
  | _ => none

structure Ledger where
  session : Session
  codes : List Issued

namespace Session

def asked (session : Session) (call : Request × Nat) : Option (Ulid × UInt64) :=
  match call.1, session.broker.state with
  | .ask _ _ (.totp req now), .unlocked store =>
    (store.«meta» req.name).map fun known => (known.id, now)
  | _, _ => none

variable [Aead] [Hmac]

def issued (session : Session) (call : Request × Nat) : Option (Ulid × UInt64) :=
  match call.1 with
  | .ask sink peer (.totp req now) =>
    match (session.broker.issueTotp sink peer req now).answer with
    | .ok _ => session.asked call
    | .error _ => none
  | _ => none

end Session

namespace Ledger

variable [Aead] [Hmac] (backend : Backend)

def step (ledger : Ledger) (call : Request × Nat) : Ledger :=
  let after := ledger.session.next backend call
  ⟨after, (ledger.codes.map fun code =>
      { code with forgotten := code.forgotten || (after.broker.totp.lookup code.id).isNone }) ++
    ((ledger.session.issued call).map fun code => ⟨code.1, code.2, false⟩).toList⟩

def start (files : Files FileName) : Ledger := ⟨Session.new files, []⟩

def run (files : Files FileName) (calls : List (Request × Nat)) : Ledger :=
  calls.foldl (step backend) (start files)

/-- No code of the secret that still counts was forgotten. -/
def Remembers (ledger : Ledger) (call : Request × Nat) : Prop :=
  ∀ asked ∈ ledger.session.asked call, ∀ code ∈ ledger.codes, code.id = asked.1 →
    code.forgotten = true → code.time.toNat + issueWindow ≤ asked.2.toNat

instance (ledger : Ledger) (call : Request × Nat) : Decidable (ledger.Remembers call) := by
  unfold Remembers
  infer_instance

end Ledger

/-! ## What requests do to the logs -/

section Logs

variable [Aead] {sink : AuditSink} {broker : Broker} {peer : Peer} {name : String}

theorem Broker.release_totp {modeLabel destination principal : String} {need : Option Mode}
    {grant : Option Ulid} {expected : Option UInt64} {reportLen : Bool}
    {scope : Meta → IssueLogs → Except Status Unit × IssueLogs} :
    let outcome := broker.release sink name need modeLabel destination principal grant expected
      reportLen scope
    (outcome.broker.totp = broker.totp ∧ ∀ released, outcome.answer ≠ .ok released) ∨
      ∃ store known, broker.state = .unlocked store ∧ store.«meta» name = some known ∧
        outcome.broker.totp = (Broker.preconditions need expected scope known broker.totp).2 ∧
        ∀ released, outcome.answer = .ok released →
          (Broker.preconditions need expected scope known broker.totp).1 = .ok () := by
  intro outcome
  unfold outcome Broker.release
  cases state : broker.state with
  | locked => exact .inl ⟨rfl, fun released answered => by cases answered⟩
  | unlocked store =>
    dsimp only
    cases found : store.«meta» name with
    | none =>
      refine .inl ⟨rfl, fun released answered => ?_⟩
      cases answered
    | some known =>
      apply Or.inr
      refine ⟨store, known, rfl, found, ?_⟩
      dsimp only
      rcases checked : Broker.preconditions need expected scope known broker.totp with
        ⟨result, logs⟩
      cases result with
      | error status =>
        refine ⟨rfl, fun released answered => ?_⟩
        cases answered
      | ok =>
        dsimp only
        cases store.readValue broker.files name with
        | error _ => exact ⟨rfl, fun released _ => rfl⟩
        | ok value => exact ⟨rfl, fun released _ => rfl⟩

omit [Aead] in
theorem Broker.preconditions_totp {need : Option Mode} {expected : Option UInt64}
    {scope : Meta → IssueLogs → Except Status Unit × IssueLogs} {known : Meta} {logs : IssueLogs}
    (same : (scope known logs).2 = logs) :
    (Broker.preconditions need expected scope known logs).2 = logs := by
  unfold Broker.preconditions
  by_cases lacks : need.any fun mode => !known.hasMode mode
  · rw [if_pos lacks]
  · rw [if_neg lacks]
    rcases checked : scope known logs with ⟨_ | _, left⟩
    · rw [checked] at same
      exact same
    · rw [checked] at same
      dsimp only
      split_ifs
      · exact same
      · exact same

theorem Broker.release_same {modeLabel destination principal : String} {need : Option Mode}
    {grant : Option Ulid} {expected : Option UInt64} {reportLen : Bool}
    {scope : Meta → IssueLogs → Except Status Unit × IssueLogs}
    (same : ∀ known logs, (scope known logs).2 = logs) :
    (broker.release sink name need modeLabel destination principal grant expected reportLen
      scope).broker.totp = broker.totp := by
  rcases @Broker.release_totp _ sink broker name modeLabel destination principal need grant expected
      reportLen scope with
    ⟨left, _⟩ | ⟨store, known, _, _, left, _⟩
  · exact left
  · exact left.trans (Broker.preconditions_totp (same known broker.totp))

theorem Broker.issueTotp_totp [Hmac] (req : TotpReq) (now : UInt64) :
    let outcome := broker.issueTotp sink peer req now
    (outcome.broker.totp = broker.totp ∧ ∀ code, outcome.answer ≠ .ok code) ∨
      ∃ store known, broker.state = .unlocked store ∧ store.«meta» req.name = some known ∧
        outcome.broker.totp = broker.totp.insert known.id
          (((broker.totp.lookup known.id).getD ⟨[]⟩).tryIssue now).2 ∧
        ∀ code, outcome.answer = .ok code →
          (((broker.totp.lookup known.id).getD ⟨[]⟩).tryIssue now).1 = true := by
  intro outcome
  unfold outcome Broker.issueTotp
  split_ifs
  · exact .inl ⟨rfl, fun code answered => by cases answered⟩
  · exact .inl ⟨rfl, fun code answered => by cases answered⟩
  · exact .inl ⟨rfl, fun code answered => by cases answered⟩
  · dsimp only [Outcome.map]
    have answers {released : Except Status Released} {code : String × Nat}
        {transform : Released → String × Nat} (answered : released.map transform = .ok code) :
        ∃ value, released = .ok value := by
      cases released with
      | error status => cases answered
      | ok value => exact ⟨value, rfl⟩
    rcases @Broker.release_totp _ sink broker req.name "totp" (req.host ++ ":" ++ toString req.port)
        req.principal none req.grantId none false (req.scope now) with ⟨left, refused⟩ |
        ⟨store, known, state, found, left, passed⟩
    · refine .inl ⟨left, fun code answered => ?_⟩
      rcases answers answered with ⟨value, released⟩
      exact refused value released
    · by_cases within : known.kind = .totp ∧
          known.boundTo.any (·.matchesEndpoint req.host req.port) = true
      · apply Or.inr
        refine ⟨store, known, state, found, ?_, fun code answered => ?_⟩
        · rw [left]
          unfold Broker.preconditions TotpReq.scope
          simp only [Option.any_none, Bool.false_eq_true, if_false, within.1, ne_eq,
            not_true_eq_false, within.2]
          rcases ((broker.totp.lookup known.id).getD ⟨[]⟩).tryIssue now with ⟨issued, log⟩
          cases issued <;> rfl
        · rcases answers answered with ⟨value, released⟩
          have ok := passed value released
          unfold Broker.preconditions TotpReq.scope at ok
          simp only [Option.any_none, Bool.false_eq_true, if_false, within.1, ne_eq,
            not_true_eq_false, within.2] at ok
          rcases tried : ((broker.totp.lookup known.id).getD ⟨[]⟩).tryIssue now with ⟨issued, log⟩
          rw [tried] at ok
          cases issued with
          | false => cases ok
          | true => rfl
      · -- the rule about the record refuses before the log is asked
        have refused : ∃ status,
            req.scope now known broker.totp = (.error status, broker.totp) := by
          unfold TotpReq.scope
          by_cases kind : known.kind = .totp
          · rw [if_neg (not_not_intro kind), if_pos]
            · exact ⟨_, rfl⟩
            · exact Bool.eq_false_iff.mpr fun bound => within ⟨kind, bound⟩
          · rw [if_pos kind]
            exact ⟨_, rfl⟩
        rcases refused with ⟨status, refused⟩
        have checked : Broker.preconditions none none (req.scope now) known broker.totp =
            (.error status, broker.totp) := by
          unfold Broker.preconditions
          simp only [Option.any_none, Bool.false_eq_true, if_false, refused]
        refine .inl ⟨by rw [left, checked], fun code answered => ?_⟩
        rcases answers answered with ⟨value, released⟩
        have ok := passed value released
        rw [checked] at ok
        cases ok

end Logs

/-- Logs are dropped whole, and none is changed. -/
def Keeps (logs left : IssueLogs) : Prop :=
  ∀ id, left.lookup id = logs.lookup id ∨ left.lookup id = none

theorem Keeps.refl (logs : IssueLogs) : Keeps logs logs := fun _ => .inl rfl

theorem Keeps.of_eq {logs left : IssueLogs} (same : left = logs) : Keeps logs left :=
  fun _ => .inl (congrArg (Finmap.lookup _) same)

section Steps

variable [Aead] {backend : Backend} {session : Session}

theorem Broker.next_totp {broker : Broker} (request : OwnerRequest) :
    Keeps broker.totp (broker.next request).totp := by
  rcases request with ⟨peer, sink, act⟩
  cases act with
  | add spec value now entropy draws =>
    apply Keeps.of_eq
    simp only [Broker.next, Broker.serve, Outcome.map, Broker.add]
    split_ifs
    · rfl
    · split
      · rfl
      · split <;> first | rfl | (split_ifs <;> rfl)
  | rotate name value draws =>
    apply Keeps.of_eq
    simp only [Broker.next, Broker.serve, Outcome.map, Broker.rotate]
    split_ifs
    · rfl
    · split
      · rfl
      · split
        · rfl
        · split_ifs
          · split <;> rfl
          · rfl
  | revoke name =>
    simp only [Broker.next, Broker.serve, Broker.revoke]
    split_ifs
    · exact .refl _
    · split
      · exact .refl _
      · split
        · exact .refl _
        · split_ifs
          · split
            · exact .refl _
            · intro id
              by_cases same : id = (‹Meta› : Meta).id
              · exact .inr (same ▸ Finmap.lookup_erase _ _)
              · exact .inl (Finmap.lookup_erase_ne same)
          · exact .refl _

variable [Hmac]

theorem Broker.ask_totp {sink : AuditSink} {broker : Broker} {peer : Peer} {ask : Ask}
    (other : ∀ req now, ask ≠ .totp req now) :
    (broker.ask sink peer ask).broker.totp = broker.totp := by
  cases ask with
  | substitute req =>
    simp only [Broker.ask, Outcome.map, Broker.substitute]
    split_ifs
    · rfl
    · rfl
    · rfl
    · exact Broker.release_same fun _ _ => rfl
  | fieldFill req =>
    simp only [Broker.ask, Outcome.map, Broker.fieldFill]
    split_ifs <;> first | rfl | exact Broker.release_same fun _ _ => rfl
  | materialize req =>
    simp only [Broker.ask, Outcome.map, Broker.materialize]
    split_ifs <;> first | rfl | exact Broker.release_same fun _ _ => rfl
  | totp req now => exact absurd rfl (other req now)

theorem Session.next_totp {call : Request × Nat}
    (other : ∀ sink peer req now, call.1 ≠ .ask sink peer (.totp req now)) :
    Keeps session.broker.totp (session.next backend call).broker.totp := by
  rcases call with ⟨request, now⟩
  cases request with
  | initialise peer pass master listing =>
    apply Keeps.of_eq
    simp only [Session.next, Session.step, Session.initialise]
    split_ifs
    · rfl
    · rfl
    · rfl
    · split
      · rfl
      · rfl
      · split <;> rfl
  | beginUnlock peer nonce =>
    apply Keeps.of_eq
    simp only [Session.next, Session.step, Session.beginUnlock]
    split_ifs <;> first | rfl | (split <;> rfl)
  | answerUnlock peer answer listing =>
    apply Keeps.of_eq
    simp only [Session.next, Session.step, Session.answerUnlock]
    by_cases allowed : allowed peer .answerUnlock = false
    · rw [if_pos allowed]
      rfl
    · rw [if_neg allowed]
      cases session.pending with
      | none => rfl
      | some pending =>
        cases answer with
        | cancel nonce => rfl
        | submit nonce passphrase =>
          by_cases stale : nonce ≠ pending.nonce ∨ pending.expires ≤ now
          · simp only [if_pos stale]
            rfl
          · by_cases early : now < session.lockoutUntil
            · simp only [if_neg stale, if_pos early]
              rfl
            · simp only [if_neg stale, if_neg early]
              split
              · rfl
              · split_ifs <;> rfl
              · rfl
  | lock peer =>
    simp only [Session.next, Session.step, Session.lock]
    split_ifs
    · exact .refl _
    · exact fun _ => .inr rfl
  | list peer => exact .refl _
  | owner request => exact Broker.next_totp request
  | ask sink peer ask =>
    apply Keeps.of_eq
    exact Broker.ask_totp fun req now same => other sink peer req now
        (congrArg (Request.ask sink peer) same)

end Steps

/-! ## Codes and logs -/

/-- The times of the codes of a secret that its log has, and that still count. -/
def counted (codes : List Issued) (id : Ulid) (last : Nat) : List UInt64 :=
  (codes.filter fun code =>
    code.id = id ∧ code.forgotten = false ∧ last < code.time.toNat + issueWindow).map (·.time)

structure Ledger.Tracks (ledger : Ledger) (last : Nat) : Prop where
  past : ∀ code ∈ ledger.codes, code.time.toNat ≤ last
  logged : ∀ id, (counted ledger.codes id last).Sublist
    ((ledger.session.broker.totp.lookup id).getD ⟨[]⟩).times
  limited : Limited ledger.codes

theorem counted_later {codes : List Issued} {id : Ulid} {last now : Nat} (later : last ≤ now) :
    (counted codes id now).Sublist (counted codes id last) := by
  apply List.Sublist.map
  apply List.monotone_filter_right
  intro code counts
  simp only [decide_eq_true_eq] at counts ⊢
  exact ⟨counts.1, counts.2.1, by omega⟩

theorem counted_forget {codes : List Issued} {left : IssueLogs} {id : Ulid} {last : Nat} :
    counted (codes.map fun code =>
      { code with forgotten := code.forgotten || (left.lookup code.id).isNone }) id last =
        if (left.lookup id).isNone then [] else counted codes id last := by
  unfold counted
  rw [List.filter_map, List.map_map]
  split_ifs with gone
  · rw [List.map_eq_nil_iff, List.filter_eq_nil_iff]
    intro code _ counts
    simp only [Function.comp, decide_eq_true_eq, Bool.or_eq_false_iff] at counts
    rw [counts.1, gone] at counts
    cases counts.2.1.2
  · apply congrArg (List.map _)
    apply List.filter_congr
    intro code _
    simp only [Function.comp, Bool.or_eq_false_iff]
    apply decide_eq_decide.mpr
    constructor
    · exact fun counts => ⟨counts.1, counts.2.1.1, counts.2.2⟩
    · intro counts
      refine ⟨counts.1, ⟨counts.2.1, ?_⟩, counts.2.2⟩
      rw [counts.1]
      exact Bool.eq_false_iff.mpr gone

theorem limited_forget {codes : List Issued} {left : IssueLogs} :
    Limited (codes.map fun code =>
      { code with forgotten := code.forgotten || (left.lookup code.id).isNone }) ↔
      Limited codes := by
  unfold Limited
  simp only [List.filter_map, List.length_map]
  exact Iff.rfl

theorem IssueLog.tryIssue_keeps {log : IssueLog} {codes : List Issued} {id : Ulid} {now : UInt64}
    {last : Nat} (later : last ≤ now.toNat) (logged : (counted codes id last).Sublist log.times) :
    (counted codes id now.toNat).Sublist (log.times.dropWhile fun issued =>
      issueWindow ≤ now.toNat - issued.toNat) := by
  apply sublist_dropWhile ((counted_later later).trans logged)
  intro time member
  rcases List.mem_map.mp member with ⟨code, counts, rfl⟩
  have live := (List.mem_filter.mp counts).2
  simp only [decide_eq_true_eq] at live
  rw [decide_eq_false_iff_not]
  have window : issueWindow = 300 := rfl
  omega

theorem Limited.snoc {codes : List Issued} (limited : Limited codes) {id : Ulid} {now : UInt64}
    (remembered : ∀ code ∈ codes, code.id = id → code.forgotten = true →
      code.time.toNat + issueWindow ≤ now.toNat)
    (room : (counted codes id now.toNat).length < maxInWindow) :
    Limited (codes ++ [⟨id, now, false⟩]) := by
  intro other start
  rw [List.filter_append, List.length_append]
  by_cases inside : id = other ∧ start ≤ now.toNat ∧ now.toNat < start + issueWindow
  · rw [List.filter_cons_of_pos (by simpa using inside), List.filter_nil, List.length_singleton]
    have bound : (codes.filter fun code => code.id = other ∧ start ≤ code.time.toNat ∧
        code.time.toNat < start + issueWindow).length ≤ (counted codes id now.toNat).length := by
      rw [counted, List.length_map, ← List.countP_eq_length_filter, ← List.countP_eq_length_filter]
      apply List.countP_mono_left
      intro code member within
      simp only [decide_eq_true_eq] at within ⊢
      have same : code.id = id := within.1.trans inside.1.symm
      have live : now.toNat < code.time.toNat + issueWindow := by omega
      refine ⟨same, Bool.eq_false_iff.mpr fun forgotten => ?_, live⟩
      have late := remembered code member same forgotten
      omega
    omega
  · rw [List.filter_cons_of_neg (by simpa using inside), List.filter_nil, List.length_nil]
    exact limited other start

section Runs

variable [Aead] [Hmac] {backend : Backend} {ledger : Ledger} {last : Nat}

theorem Ledger.Tracks.keeps (tracks : ledger.Tracks last) {call : Request × Nat} {now : Nat}
    (later : last ≤ now) (unissued : ledger.session.issued call = none)
    (keeps : Keeps ledger.session.broker.totp (ledger.session.next backend call).broker.totp) :
    (ledger.step backend call).Tracks now := by
  have codes : (ledger.step backend call).codes = ledger.codes.map fun code =>
      { code with forgotten := code.forgotten ||
        ((ledger.session.next backend call).broker.totp.lookup code.id).isNone } := by
    rw [Ledger.step, unissued]
    exact List.append_nil _
  constructor
  · intro code member
    rw [codes] at member
    rcases List.mem_map.mp member with ⟨old, known, rfl⟩
    exact (tracks.past old known).trans later
  · intro id
    rw [codes, counted_forget]
    split_ifs with gone
    · exact List.nil_sublist _
    · have same : (ledger.session.next backend call).broker.totp.lookup id =
          ledger.session.broker.totp.lookup id := by
        rcases keeps id with same | dropped
        · exact same
        · rw [dropped] at gone
          exact absurd rfl gone
      have logged := (@counted_later _ id _ _ later).trans (tracks.logged id)
      rw [← same] at logged
      exact logged
  · rw [codes, limited_forget]
    exact tracks.limited

theorem Session.issued_totp {session : Session} {sink : AuditSink} {peer : Peer} {req : TotpReq}
    {now : UInt64} {t : Nat}
    (refused : ∀ code, (session.broker.issueTotp sink peer req now).answer ≠ .ok code) :
    session.issued (.ask sink peer (.totp req now), t) = none := by
  unfold Session.issued
  dsimp only
  split
  · rename_i code answered
    exact absurd answered (refused code)
  · rfl

theorem Ledger.Tracks.totp (tracks : ledger.Tracks last) {sink : AuditSink} {peer : Peer}
    {req : TotpReq} {now : UInt64} {t : Nat} (later : last ≤ now.toNat)
    (remembers : ledger.Remembers (.ask sink peer (.totp req now), t)) :
    (ledger.step backend (.ask sink peer (.totp req now), t)).Tracks now.toNat := by
  have next : (ledger.session.next backend (.ask sink peer (.totp req now), t)).broker.totp =
      (ledger.session.broker.issueTotp sink peer req now).broker.totp := rfl
  rcases @Broker.issueTotp_totp _ sink ledger.session.broker peer _ req now with
    ⟨left, refused⟩ | ⟨store, known, state, found, left, passed⟩
  · apply tracks.keeps later (Session.issued_totp refused)
    exact .of_eq (next.trans left)
  · have asked : ledger.session.asked (.ask sink peer (.totp req now), t) =
        some (known.id, now) := by
      simp only [Session.asked, state, found, Option.map_some]
    have logs (id : Ulid) : (ledger.session.next backend
        (.ask sink peer (.totp req now), t)).broker.totp.lookup id =
          if id = known.id then some (((ledger.session.broker.totp.lookup known.id).getD
            ⟨[]⟩).tryIssue now).2 else ledger.session.broker.totp.lookup id := by
      rw [next, left]
      split_ifs with same
      · rw [same, Finmap.lookup_insert]
      · exact Finmap.lookup_insert_of_ne _ same
    have kept := IssueLog.tryIssue_keeps later (tracks.logged known.id)
    generalize (ledger.session.broker.totp.lookup known.id).getD ⟨[]⟩ = log at *
    generalize forgets : (ledger.codes.map fun code => { code with forgotten := code.forgotten ||
      ((ledger.session.next backend (.ask sink peer (.totp req now), t)).broker.totp.lookup
        code.id).isNone }) = codes
    have counts (id : Ulid) : (counted codes id now.toNat).Sublist
        (counted ledger.codes id now.toNat) := by
      rw [← forgets, counted_forget]
      split_ifs
      · exact List.nil_sublist _
      · exact .refl _
    have past : ∀ code ∈ codes, code.time.toNat ≤ now.toNat := by
      intro code member
      rw [← forgets] at member
      rcases List.mem_map.mp member with ⟨old, was, rfl⟩
      exact (tracks.past old was).trans later
    have limited : Limited codes := by
      rw [← forgets, limited_forget]
      exact tracks.limited
    have others (id : Ulid) (apart : id ≠ known.id) : (counted codes id now.toNat).Sublist
        (((ledger.session.next backend (.ask sink peer (.totp req now), t)).broker.totp.lookup
          id).getD ⟨[]⟩).times := by
      rw [logs, if_neg apart]
      exact ((counts id).trans (counted_later later)).trans (tracks.logged id)
    cases issued : ledger.session.issued (.ask sink peer (.totp req now), t) with
    | none =>
      have same : (ledger.step backend (.ask sink peer (.totp req now), t)).codes = codes := by
        rw [← forgets, Ledger.step, issued]
        exact List.append_nil _
      constructor
      · rw [same]
        exact past
      · intro id
        rw [same]
        by_cases here : id = known.id
        · rw [here]
          show List.Sublist _ (((ledger.session.next backend _).broker.totp.lookup _).getD
              _).times
          rw [logs, if_pos rfl, Option.getD_some]
          apply ((counts known.id).trans kept).trans
          rw [IssueLog.tryIssue]
          split_ifs
          · exact .refl _
          · exact List.sublist_append_left _ _
        · exact others id here
      · rw [same]
        exact limited
    | some code =>
      have isCode : code = (known.id, now) := by
        unfold Session.issued at issued
        dsimp only at issued
        split at issued
        · exact Option.some.inj (issued.symm.trans asked)
        · cases issued
      have granted : (log.tryIssue now).1 = true := by
        unfold Session.issued at issued
        dsimp only at issued
        split at issued
        · rename_i answer answered
          exact passed answer answered
        · cases issued
      have same : (ledger.step backend (.ask sink peer (.totp req now), t)).codes =
          codes ++ [⟨known.id, now, false⟩] := by
        rw [← forgets, Ledger.step, issued, isCode]
        rfl
      have room : (log.times.dropWhile fun issued =>
          issueWindow ≤ now.toNat - issued.toNat).length < maxInWindow := by
        rw [IssueLog.tryIssue] at granted
        by_contra full
        rw [if_pos (Nat.le_of_not_lt full)] at granted
        cases granted
      constructor
      · intro code member
        rw [same] at member
        rcases List.mem_append.mp member with old | new
        · exact past code old
        · rw [List.mem_singleton.mp new]
      · intro id
        rw [same, counted, List.filter_append, List.map_append, ← counted]
        by_cases here : id = known.id
        · rw [here]
          show List.Sublist _ (((ledger.session.next backend _).broker.totp.lookup _).getD
              _).times
          rw [logs, if_pos rfl, Option.getD_some, IssueLog.tryIssue, if_neg (Nat.not_le.mpr room)]
          apply List.Sublist.append ((counts known.id).trans kept)
          exact (List.Sublist.map _ List.filter_sublist).trans (.refl _)
        · rw [List.filter_cons_of_neg (by simpa using fun same => absurd same.symm here),
            List.filter_nil, List.map_nil, List.append_nil]
          exact others id here
      · rw [same]
        apply limited.snoc
        · intro code member isSame forgotten
          rw [← forgets] at member
          rcases List.mem_map.mp member with ⟨old, was, rfl⟩
          have gone : ((ledger.session.next backend
              (.ask sink peer (.totp req now), t)).broker.totp.lookup old.id).isNone = false := by
            rw [logs, if_pos isSame]
            rfl
          rw [gone, Bool.or_false] at forgotten
          exact remembers _ asked old was isSame forgotten
        · exact lt_of_le_of_lt ((counts known.id).trans kept).length_le room

/-- Over every run in which codes are asked for at times that do not go back, and no code that
still counts was forgotten when the next of its secret is asked for, the limit holds. -/
theorem totp_limited (backend : Backend) (files : Files FileName) (calls : List (Request × Nat))
    (ordered : (calls.filterMap fun call => call.1.totpTime).Pairwise (· ≤ ·))
    (remembers : Along (Ledger.step backend) Ledger.Remembers (.start files) calls) :
    Limited (Ledger.run backend files calls).codes := by
  suffices tracked : ∃ last : Nat, (Ledger.run backend files calls).Tracks last ∧
      ∀ bound : Nat, (∀ time ∈ calls.filterMap fun call => call.1.totpTime, time.toNat ≤ bound) →
        last ≤ bound from tracked.choose_spec.1.limited
  induction calls using List.reverseRecOn with
  | nil =>
    refine ⟨0, ⟨fun code member => absurd member List.not_mem_nil, fun id => .refl _, ?_⟩,
      fun bound _ => Nat.zero_le bound⟩
    exact fun id start => Nat.zero_le _
  | append_singleton calls call induction =>
    rw [along_snoc] at remembers
    rw [List.filterMap_append, List.pairwise_append] at ordered
    rcases induction ordered.1 remembers.1 with ⟨last, tracks, least⟩
    have run : Ledger.run backend files (calls ++ [call]) =
        (Ledger.run backend files calls).step backend call := List.foldl_append
    rw [run]
    by_cases code : ∃ sink peer req now, call.1 = .ask sink peer (.totp req now)
    · rcases code with ⟨sink, peer, req, now, is⟩
      rcases call with ⟨request, t⟩
      cases is
      have later : last ≤ now.toNat := by
        apply least
        intro time member
        exact UInt64.le_iff_toNat_le.mp (ordered.2.2 time member now
            (List.mem_singleton_self now))
      refine ⟨now.toNat, tracks.totp later remembers.2, fun bound all => all now ?_⟩
      rw [List.filterMap_append]
      exact List.mem_append_right _ (List.mem_singleton_self now)
    · push Not at code
      refine ⟨last, ?_, fun bound all => least bound fun time member => all time ?_⟩
      · apply tracks.keeps (Nat.le_refl last)
        · unfold Session.issued
          split
          · rename_i sink peer req now is
            exact absurd is (code sink peer req now)
          · rfl
        · exact Session.next_totp code
      · rw [List.filterMap_append]
        exact List.mem_append_left _ member

end Runs

/-! ## A lock between codes -/

section Example

def seedSecret : NewSecret :=
  ⟨"seed", .totp, [.host "login.acme.com" 443], [], false, none⟩

def addSeed : Request :=
  .owner ⟨.owner, fun _ => true, .add seedSecret [1, 2, 3] 0 (zeroBytes 10) noDraws⟩

def seedReq : TotpReq := ⟨"agent:a1", none, "seed", "login.acme.com", 443, true⟩

def askSeed (now : UInt64) : Request × Nat :=
  (.ask (fun _ => true) .agentd (.totp seedReq now), now.toNat)

def unlockAt (now : Nat) (listing : List FileName) : List (Request × Nat) :=
  [(.beginUnlock .compositor (some 7), now),
    (.answerUnlock .compositor (.submit 7 (some [1])) listing, now)]

/-- A fourth code at the moment the first no longer counts. -/
def agedOut : List (Request × Nat) :=
  unlockAt 0 [.master] ++
    [(addSeed, 0), askSeed 0, askSeed 10, askSeed 20, askSeed 299, askSeed 300]

/-- Three codes, a lock, and a fourth code when the broker is unlocked again. -/
def relocked : List (Request × Nat) :=
  unlockAt 0 [.master] ++ [(addSeed, 0), askSeed 0, askSeed 10, askSeed 20, (.lock .owner, 20)] ++
    unlockAt 20 [.master, .sec (Store.minted seedSecret 0 (zeroBytes 10)).id] ++ [askSeed 30]

theorem totp_limited_agedOut :
    Limited (@Ledger.run plainAead plainHmac Session.passphraseBackend freshFiles agedOut).codes ∧
      (@Ledger.run plainAead plainHmac Session.passphraseBackend freshFiles agedOut).codes.map
        (·.time) = [0, 10, 20, 300] := by
  refine ⟨@totp_limited plainAead plainHmac _ _ _ ?_ ?_, ?_⟩
  · decide +kernel
  · decide +kernel
  · decide +kernel

/-- The lock drops the times of the codes, and half a minute has four. -/
theorem relocked_unlimited :
    (relocked.filterMap fun call => call.1.totpTime).Pairwise (· ≤ ·) ∧
      ¬Limited (@Ledger.run plainAead plainHmac Session.passphraseBackend freshFiles
          relocked).codes := by
  refine ⟨by decide +kernel, fun limited => ?_⟩
  have few := limited (Store.minted seedSecret 0 (zeroBytes 10)).id 0
  revert few
  decide +kernel

end Example

end EclipseOS.Brokerd
