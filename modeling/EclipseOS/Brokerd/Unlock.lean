import EclipseOS.Brokerd.Journal
import EclipseOS.Brokerd.Release

/-! # The unlock handshake

The compositor asks for a prompt, the human answers it. A prompt is answered at most
once, expires, and is superseded by the next one; after too many wrong answers none is
looked at for a while. -/

namespace EclipseOS.Brokerd

open Foundation PolicyEval Cbor

/-! ## Prompts and answers -/

/-- How long an unlock prompt stays answerable, in seconds. -/
def unlockTtl : Nat := 60

/-- Wrong answers before the broker refuses to prompt for a while. -/
def maxAttempts : Nat := 5

/-- `LOCKOUT_S`. -/
def lockoutSeconds : Nat := 60

/-- A sealer that also wraps a fresh master key. -/
structure Backend extends Sealer where
  needsPassphrase : Bool
  «seal» : Bytes → Option Bytes → Except SealError Bytes

inductive UnlockMethod where
  | passphrase
  | confirm
  deriving DecidableEq

structure UnlockRequest where
  nonce : UInt64
  method : UnlockMethod
  attemptsLeft : Nat
  expiresUnix : Nat
  deriving DecidableEq

inductive UnlockAnswer where
  | submit (nonce : UInt64) (passphrase : Option Bytes)
  | cancel (nonce : UInt64)
  deriving DecidableEq

inductive UnlockOutcome where
  | unlocked
  | cancelled
  deriving DecidableEq

structure Pending where
  nonce : UInt64
  expires : Nat
  deriving DecidableEq

/-- The broker and its handshake. Times are seconds since the epoch. -/
structure Session where
  broker : Broker
  pending : Option Pending
  failures : Nat
  lockoutUntil : Nat

/-- Creates the sealed master key. Refuses to overwrite one. -/
def Store.init (files : Files FileName) (backend : Backend) (pass : Option Bytes)
    (master : FixedBytes 32) : Except StoreError (Files FileName) :=
  if (files .master).isSome then
    .error .exists
  else
    match backend.«seal» master.val pass with
    | .error error => .error (.«seal» error)
    | .ok blob => .ok (runAll (writeAtomic FileName.master.temporary .master blob) files)

namespace Session

/-- A locked broker. Nothing is read until unlock. -/
def new (files : Files FileName) : Session := ⟨⟨files, .locked, ∅⟩, none, 0, 0⟩

def isUnlocked (session : Session) : Bool := session.broker.isUnlocked

/-- `Broker::initialize`. First run: leaves the store unlocked. -/
def initialise [Aead] (backend : Backend) (session : Session) (peer : Peer) (pass : Option Bytes)
    (master : FixedBytes 32) (listing : List FileName) : Except Status Unit × Session :=
  if allowed peer .init = false then
    (.error .noCapability, session)
  else if session.isUnlocked then
    (.error .invalidArgument, session)
  else if backend.needsPassphrase && (pass.getD []).isEmpty then
    (.error .invalidArgument, session)
  else
    match Store.init session.broker.files backend pass master with
    | .error .exists => (.error .invalidArgument, session)
    | .error _ => (.error .internal, session)
    | .ok files =>
      let session := { session with broker := { session.broker with files } }
      match Store.«open» files listing backend.toSealer pass with
      | .error _ => (.error .internal, session)
      | .ok store =>
        (.ok (), { session with broker := { session.broker with state := .unlocked store } })

/-- The answer is bound to the nonce, which is drawn. -/
def beginUnlock (backend : Backend) (session : Session) (peer : Peer) (nonce : Option UInt64)
    (now : Nat) : Except Status UnlockRequest × Session :=
  if allowed peer .beginUnlock = false then
    (.error .noCapability, session)
  else if session.isUnlocked || (session.broker.files .master).isNone then
    (.error .invalidArgument, session)
  else if now < session.lockoutUntil then
    (.error .rateLimited, session)
  else
    match nonce with
    | none => (.error .internal, session)
    | some nonce =>
      let method := if backend.needsPassphrase then .passphrase else .confirm
      let expires := now + unlockTtl
      (.ok ⟨nonce, method, maxAttempts - session.failures, expires⟩,
        { session with pending := some ⟨nonce, expires⟩ })

/-- The pending prompt is consumed whatever the outcome. -/
def answerUnlock [Aead] (backend : Backend) (session : Session) (peer : Peer)
    (answer : UnlockAnswer) (now : Nat) (listing : List FileName) :
    Except Status UnlockOutcome × Session :=
  if allowed peer .answerUnlock = false then
    (.error .noCapability, session)
  else
    match session.pending with
    | none => (.error .invalidArgument, session)
    | some pending =>
      let session := { session with pending := none }
      match answer with
      | .cancel nonce =>
        (if nonce = pending.nonce then .ok .cancelled else .error .invalidArgument, session)
      | .submit nonce passphrase =>
        if nonce ≠ pending.nonce ∨ pending.expires ≤ now then
          (.error .invalidArgument, session)
        else if now < session.lockoutUntil then
          (.error .rateLimited, session)
        else
          match Store.«open» session.broker.files listing backend.toSealer passphrase with
          | .ok store =>
            (.ok .unlocked, { session with
              failures := 0, broker := { session.broker with state := .unlocked store } })
          | .error (.«seal» _) =>
            let failures := session.failures + 1
            (.error .badCredential,
              if maxAttempts ≤ failures then
                { session with failures := 0, lockoutUntil := now + lockoutSeconds }
              else
                { session with failures })
          | .error _ => (.error .internal, session)

/-- The master key and every cached name are gone. -/
def lock (session : Session) (peer : Peer) : Except Status Unit × Session :=
  if allowed peer .lock = false then
    (.error .noCapability, session)
  else
    (.ok (), { session with
      broker := { session.broker with state := .locked, totp := ∅ }, pending := none })

end Session

/-! ## Runs -/

/-- Any request to the broker, with what it draws and the directory as it is listed. -/
inductive Request where
  | initialise (peer : Peer) (pass : Option Bytes) (master : FixedBytes 32)
      (listing : List FileName)
  | beginUnlock (peer : Peer) (nonce : Option UInt64)
  | answerUnlock (peer : Peer) (answer : UnlockAnswer) (listing : List FileName)
  | lock (peer : Peer)
  | list (peer : Peer)
  | owner (request : OwnerRequest)
  | ask (sink : AuditSink) (peer : Peer) (ask : Ask)

inductive Reply where
  | prompt (request : UnlockRequest)
  | outcome (outcome : UnlockOutcome)
  | refused (status : Status)
  | other
  deriving DecidableEq

def Reply.ofPrompt : Except Status UnlockRequest → Reply
  | .ok request => .prompt request
  | .error status => .refused status

def Reply.ofOutcome : Except Status UnlockOutcome → Reply
  | .ok result => .outcome result
  | .error status => .refused status

/-- Neither a prompt, nor that the store was opened, nor that the answer was wrong. -/
def Reply.plain : Reply → Bool
  | prompt _ => false
  | outcome result => result ≠ .unlocked
  | refused status => status ≠ .badCredential
  | other => true

theorem Reply.ne_wrong {reply : Reply} (plain : reply.plain) : reply ≠ .refused .badCredential := by
  rintro rfl
  cases plain

namespace Session

section Runs

variable [Aead] [Hmac] (backend : Backend)

def step (session : Session) (call : Request × Nat) : Reply × Session :=
  match call.1 with
  | .initialise peer pass master listing =>
    (.other, (session.initialise backend peer pass master listing).2)
  | .beginUnlock peer nonce =>
    (session.beginUnlock backend peer nonce call.2).map Reply.ofPrompt id
  | .answerUnlock peer answer listing =>
    (session.answerUnlock backend peer answer call.2 listing).map Reply.ofOutcome id
  | .lock peer => (.other, (session.lock peer).2)
  | .list _ => (.other, session)
  | .owner request => (.other, { session with broker := session.broker.next request })
  | .ask sink peer ask => (.other, { session with broker := (session.broker.ask sink peer ask).broker })

def next (session : Session) (call : Request × Nat) : Session := (session.step backend call).2

def after (session : Session) (calls : List (Request × Nat)) : Session :=
  calls.foldl (next backend) session

/-- A submission that does not open the store. -/
def Fails (session : Session) (call : Request × Nat) : Prop :=
  (session.step backend call).1 = .refused .badCredential

instance (session : Session) (call : Request × Nat) : Decidable (Fails backend session call) :=
  inferInstanceAs (Decidable (_ = _))

def Opens (session : Session) (call : Request × Nat) : Prop :=
  (session.step backend call).1 = .outcome .unlocked

/-- How many of the requests are submissions that fail. -/
def failed (session : Session) : List (Request × Nat) → Nat
  | [] => 0
  | call :: calls =>
    (if Fails backend session call then 1 else 0) + failed (next backend session call) calls

/-- The request shows a prompt with the nonce. -/
def Prompts (session : Session) (call : Request × Nat) (nonce : UInt64) : Prop :=
  ∃ request, (session.step backend call).1 = .prompt request ∧ request.nonce = nonce

/-- After the request an earlier prompt is not to be answered: there is a later prompt, or
it was answered, or the broker was locked. -/
def Voids (session : Session) (call : Request × Nat) : Prop :=
  match call.1 with
  | .beginUnlock _ _ => ∃ nonce, Prompts backend session call nonce
  | .answerUnlock peer _ _ => allowed peer .answerUnlock
  | .lock peer => allowed peer .lock
  | _ => False

/-! ## Requests that keep the broker locked -/

omit [Hmac] in
theorem release_state {sink : AuditSink} {broker : Broker} {name modeLabel destination principal : String}
    {need : Option Mode} {grant : Option Ulid} {expected : Option UInt64} {reportLen : Bool}
    {scope : Meta → IssueLogs → Except Status Unit × IssueLogs} :
    (broker.release sink name need modeLabel destination principal grant expected reportLen
      scope).broker.state = broker.state := by
  unfold Broker.release
  cases state : broker.state with
  | locked => exact state
  | unlocked store =>
    dsimp only
    split
    · exact state
    · split
      · rfl
      · split <;> rfl

theorem ask_state (sink : AuditSink) (broker : Broker) (peer : Peer) (ask : Ask) :
    (broker.ask sink peer ask).broker.state = broker.state := by
  cases ask with
  | substitute req =>
    simp only [Broker.ask, Outcome.map, Broker.substitute]
    split_ifs <;> first | rfl | exact release_state
  | fieldFill req =>
    simp only [Broker.ask, Outcome.map, Broker.fieldFill]
    split_ifs <;> first | rfl | exact release_state
  | materialize req =>
    simp only [Broker.ask, Outcome.map, Broker.materialize]
    split_ifs <;> first | rfl | exact release_state
  | totp req now =>
    simp only [Broker.ask, Outcome.map, Broker.issueTotp]
    split_ifs <;> first | rfl | exact release_state

omit [Hmac] in
theorem next_locked {broker : Broker} (locked : broker.state = .locked) (request : OwnerRequest) :
    (broker.next request).state = .locked := by
  rcases request with ⟨peer, sink, act⟩
  cases act with
  | add spec value now entropy draws =>
    simp only [Broker.next, Broker.serve, Outcome.map, Broker.add, locked]
    split <;> exact locked
  | rotate name value draws =>
    simp only [Broker.next, Broker.serve, Outcome.map, Broker.rotate, locked]
    split <;> exact locked
  | revoke name =>
    simp only [Broker.next, Broker.serve, Broker.revoke, locked]
    split <;> exact locked

/-! ## What one request does -/

/-- What a submission needs to open the store. -/
structure Admits (session : Session) (call : Request × Nat) (nonce : UInt64) (expires : Nat) :
    Prop where
  submits : ∃ peer pass listing, call.1 = .answerUnlock peer (.submit nonce pass) listing
  pending : session.pending = some ⟨nonce, expires⟩
  unexpired : call.2 < expires

/-- Everything a request can do to the handshake. -/
inductive Effect (session : Session) (call : Request × Nat) : Reply × Session → Prop
  | kept {reply : Reply} {broker : Broker} (plain : reply.plain)
      (closed : session.broker.state = .locked → broker.state = .locked)
      (standing : ¬Voids backend session call) : Effect session call (reply, { session with broker })
  | initialised {broker : Broker}
      (first : ∃ peer pass master listing, call.1 = .initialise peer pass master listing)
      (fresh : session.broker.files .master = none) :
      Effect session call (.other, { session with broker })
  | prompted {nonce : UInt64} {method : UnlockMethod} (due : session.lockoutUntil ≤ call.2) :
      Effect session call
        (.prompt ⟨nonce, method, maxAttempts - session.failures, call.2 + unlockTtl⟩,
          { session with pending := some ⟨nonce, call.2 + unlockTtl⟩ })
  | consumed {reply : Reply} {broker : Broker} (plain : reply.plain)
      (closed : session.broker.state = .locked → broker.state = .locked) :
      Effect session call (reply, { session with broker, pending := none })
  | opened {nonce : UInt64} {expires : Nat} (admits : session.Admits call nonce expires)
      (broker : Broker) :
      Effect session call
        (.outcome .unlocked, { session with broker, pending := none, failures := 0 })
  | wrong (due : session.lockoutUntil ≤ call.2) (few : session.failures + 1 < maxAttempts) :
      Effect session call (.refused .badCredential,
        { session with pending := none, failures := session.failures + 1 })
  | lockedOut (due : session.lockoutUntil ≤ call.2) (many : maxAttempts ≤ session.failures + 1) :
      Effect session call (.refused .badCredential,
        { session with pending := none, failures := 0, lockoutUntil := call.2 + lockoutSeconds })

variable {backend} (session : Session)

theorem answerUnlock_effect (peer : Peer) (answer : UnlockAnswer) (listing : List FileName)
    (now : Nat) :
    Effect backend session (.answerUnlock peer answer listing, now)
      (session.step backend (.answerUnlock peer answer listing, now)) := by
  show Effect backend session _
    ((session.answerUnlock backend peer answer now listing).map Reply.ofOutcome id)
  unfold answerUnlock
  by_cases isAllowed : allowed peer .answerUnlock = false
  · rw [if_pos isAllowed]
    exact .kept rfl id fun may => absurd (isAllowed.symm.trans may) nofun
  rw [if_neg isAllowed]
  cases waiting : session.pending with
  | none =>
    have same : session = { session with pending := none } := by rw [← waiting]
    dsimp only
    nth_rewrite 2 [same]
    exact .consumed rfl id
  | some pending =>
    dsimp only
    cases answer with
    | cancel nonce =>
      dsimp only
      split
      · exact .consumed rfl id
      · exact .consumed rfl id
    | submit nonce pass =>
      dsimp only
      split
      · exact .consumed rfl id
      · rename_i fits
        rw [not_or, not_not, Nat.not_le] at fits
        rcases fits with ⟨rfl, unexpired⟩
        split
        · exact .consumed rfl id
        · rename_i due
          rw [Nat.not_lt] at due
          cases Store.«open» session.broker.files listing backend.toSealer pass with
          | ok store => exact .opened ⟨⟨peer, pass, listing, rfl⟩, waiting, unexpired⟩ _
          | error error =>
            cases error with
            | «seal» error =>
              dsimp only
              split
              · rename_i many
                exact .lockedOut due many
              · rename_i few
                exact .wrong due (Nat.not_le.mp few)
            | _ => exact .consumed rfl id

theorem initialise_effect (peer : Peer) (pass : Option Bytes) (master : FixedBytes 32)
    (listing : List FileName) (now : Nat) :
    Effect backend session (.initialise peer pass master listing, now)
      (session.step backend (.initialise peer pass master listing, now)) := by
  have kept {status : Status} :
      Effect backend session (.initialise peer pass master listing, now)
        (.other, ((.error status, session) : Except Status Unit × Session).2) :=
    .kept rfl id nofun
  unfold step initialise
  dsimp only
  split
  · exact kept
  split
  · exact kept
  split
  · exact kept
  cases made : Store.init session.broker.files backend pass master with
  | error error => cases error <;> exact kept
  | ok files =>
    have fresh : session.broker.files .master = none := by
      unfold Store.init at made
      split at made
      · cases made
      · rename_i absent
        exact Option.not_isSome_iff_eq_none.mp absent
    dsimp only
    split <;> exact .initialised ⟨peer, pass, master, listing, rfl⟩ fresh

theorem beginUnlock_effect (peer : Peer) (nonce : Option UInt64) (now : Nat) :
    Effect backend session (.beginUnlock peer nonce, now)
      (session.step backend (.beginUnlock peer nonce, now)) := by
  have kept {status : Status} (plain : status ≠ .badCredential)
      (same : session.beginUnlock backend peer nonce now = (.error status, session)) :
      Effect backend session (.beginUnlock peer nonce, now)
        (session.step backend (.beginUnlock peer nonce, now)) := by
    have refused : session.step backend (.beginUnlock peer nonce, now) =
        (.refused status, session) := by
      simp only [step, same]
      rfl
    rw [refused]
    refine .kept (by simpa [Reply.plain] using plain) id fun voids => ?_
    rcases voids with ⟨_, request, prompt, -⟩
    rw [refused] at prompt
    cases prompt
  unfold beginUnlock at kept
  by_cases isAllowed : allowed peer .beginUnlock = false
  · exact kept (by decide) (if_pos isAllowed)
  rw [if_neg isAllowed] at kept
  by_cases apt : session.isUnlocked || (session.broker.files .master).isNone
  · exact kept (by decide) (if_pos apt)
  rw [if_neg apt] at kept
  by_cases early : now < session.lockoutUntil
  · exact kept (by decide) (if_pos early)
  rw [if_neg early] at kept
  cases nonce with
  | none => exact kept (by decide) rfl
  | some nonce =>
    simp only [step, beginUnlock, if_neg isAllowed, if_neg apt, if_neg early]
    exact .prompted (Nat.not_lt.mp early)

variable (backend) in
theorem step_effect (call : Request × Nat) : Effect backend session call (session.step backend call) := by
  rcases call with ⟨request, now⟩
  cases request with
  | initialise peer pass master listing => exact initialise_effect session peer pass master listing now
  | beginUnlock peer nonce => exact beginUnlock_effect session peer nonce now
  | answerUnlock peer answer listing => exact answerUnlock_effect session peer answer listing now
  | lock peer =>
    simp only [step, lock]
    by_cases isAllowed : allowed peer .lock = false
    · rw [if_pos isAllowed]
      exact .kept rfl id fun may => absurd (isAllowed.symm.trans may) nofun
    · rw [if_neg isAllowed]
      exact .consumed rfl fun _ => rfl
  | list peer => exact .kept rfl id nofun
  | owner request => exact .kept rfl (fun locked => next_locked locked request) nofun
  | ask sink peer ask => exact .kept rfl (ask_state sink session.broker peer ask).trans nofun

/-! ## Prompts that may be answered -/

variable {session} {calls : List (Request × Nat)} {call : Request × Nat}

variable (backend) in
/-- The calls end with a prompt's call and calls that leave the prompt to be answered. -/
def Standing (session : Session) (calls : List (Request × Nat)) (nonce : UInt64) (expires : Nat) :
    Prop :=
  ∃ before prompt between, calls = before ++ prompt :: between ∧
    Prompts backend (session.after backend before) prompt nonce ∧ expires = prompt.2 + unlockTtl ∧
    Along (next backend) (fun session call => ¬Voids backend session call)
      (session.after backend (before ++ [prompt])) between

theorem after_snoc : session.after backend (calls ++ [call]) =
    (session.after backend calls).next backend call := by
  rw [after, List.foldl_append]
  rfl

theorem Standing.snoc {nonce : UInt64} {expires : Nat}
    (standing : Standing backend session calls nonce expires)
    (kept : ¬Voids backend (session.after backend calls) call) :
    Standing backend session (calls ++ [call]) nonce expires := by
  rcases standing with ⟨before, prompt, between, rfl, prompts, expiry, along⟩
  refine ⟨before, prompt, between ++ [call], by simp, prompts, expiry, along_snoc.mpr ⟨along, ?_⟩⟩
  have same : between.foldl (next backend) (session.after backend (before ++ [prompt])) =
      session.after backend (before ++ prompt :: between) := by
    simp only [after, List.foldl_append, List.foldl_cons, List.foldl_nil]
  rwa [same]

/-- The prompt the session keeps is the last one it showed, and nothing has voided it. -/
theorem standing_of_pending (fresh : session.pending = none) (calls : List (Request × Nat)) :
    ∀ nonce expires, (session.after backend calls).pending = some ⟨nonce, expires⟩ →
      Standing backend session calls nonce expires := by
  induction calls using List.reverseRecOn with
  | nil =>
    intro nonce expires waiting
    rw [after, List.foldl_nil, fresh] at waiting
    cases waiting
  | append_singleton calls call induction =>
    intro nonce expires waiting
    rw [after_snoc, next] at waiting
    have effect := step_effect backend (session.after backend calls) call
    generalize stepped : (session.after backend calls).step backend call = result at effect waiting
    cases effect with
    | kept plain closed standing => exact (induction nonce expires waiting).snoc standing
    | initialised first fresh =>
      refine (induction nonce expires waiting).snoc ?_
      rcases first with ⟨peer, pass, master, listing, isFirst⟩
      rw [Voids, isFirst]
      exact not_false
    | @prompted nonce' method due =>
      cases waiting
      refine ⟨calls, call, [], rfl, ⟨_, congrArg Prod.fst stepped, rfl⟩, rfl, trivial⟩
    | consumed => cases waiting
    | opened => cases waiting
    | wrong => cases waiting
    | lockedOut => cases waiting

/-! ## Wrong answers -/

theorem failures_lt (few : session.failures < maxAttempts) (calls : List (Request × Nat)) :
    (session.after backend calls).failures < maxAttempts := by
  induction calls using List.reverseRecOn with
  | nil => exact few
  | append_singleton calls call induction =>
    rw [after_snoc, next]
    have effect := step_effect backend (session.after backend calls) call
    generalize (session.after backend calls).step backend call = result at effect
    cases effect with
    | wrong due few => exact few
    | opened => exact Nat.zero_lt_succ _
    | lockedOut => exact Nat.zero_lt_succ _
    | _ => exact induction

variable {reply : Reply} {left : Session}

theorem failed_wrong (stepped : session.step backend call = (.refused .badCredential, left)) :
    failed backend session (call :: calls) = failed backend left calls + 1 := by
  have fails : Fails backend session call := congrArg Prod.fst stepped
  rw [failed, if_pos fails, next, stepped, Nat.add_comm]

theorem failed_plain (stepped : session.step backend call = (reply, left))
    (other : reply ≠ .refused .badCredential) :
    failed backend session (call :: calls) = failed backend left calls := by
  have passes : ¬Fails backend session call := fun fails =>
    other ((congrArg Prod.fst stepped).symm.trans fails)
  rw [failed, if_neg passes, next, stepped, Nat.zero_add]

theorem failed_of_lockedOut {deadline : Nat} (out : deadline ≤ session.lockoutUntil)
    (early : ∀ call ∈ calls, call.2 < deadline) : failed backend session calls = 0 := by
  induction calls generalizing session with
  | nil => rfl
  | cons call calls induction =>
    rw [List.forall_mem_cons] at early
    have effect := step_effect backend session call
    generalize stepped : session.step backend call = result at effect
    cases effect with
    | kept plain => exact (failed_plain stepped (Reply.ne_wrong plain)).trans (induction out early.2)
    | consumed plain => exact (failed_plain stepped (Reply.ne_wrong plain)).trans (induction out early.2)
    | initialised => exact (failed_plain stepped nofun).trans (induction out early.2)
    | prompted => exact (failed_plain stepped nofun).trans (induction out early.2)
    | opened => exact (failed_plain stepped nofun).trans (induction out early.2)
    | wrong due => exact absurd (lt_of_le_of_lt (out.trans due) early.1) (lt_irrefl _)
    | lockedOut due => exact absurd (lt_of_le_of_lt (out.trans due) early.1) (lt_irrefl _)

/-- Until the store is opened, submissions within one lockout's length fail no more often
than the count leaves. -/
theorem failed_le (few : session.failures < maxAttempts) {start : Nat}
    (within : ∀ call ∈ calls, start ≤ call.2 ∧ call.2 < start + lockoutSeconds)
    (closed : Along (next backend) (fun session call => ¬Opens backend session call) session calls) :
    session.failures + failed backend session calls ≤ maxAttempts := by
  induction calls generalizing session with
  | nil => exact few.le
  | cons call calls induction =>
    rw [List.forall_mem_cons] at within
    rcases closed with ⟨unopened, closed⟩
    have effect := step_effect backend session call
    unfold Opens at unopened
    rw [next] at closed
    generalize stepped : session.step backend call = result at effect unopened closed
    cases effect with
    | kept plain =>
      rw [failed_plain stepped (Reply.ne_wrong plain)]
      exact induction (by exact few) within.2 closed
    | consumed plain =>
      rw [failed_plain stepped (Reply.ne_wrong plain)]
      exact induction (by exact few) within.2 closed
    | initialised =>
      rw [failed_plain stepped nofun]
      exact induction (by exact few) within.2 closed
    | prompted =>
      rw [failed_plain stepped nofun]
      exact induction (by exact few) within.2 closed
    | opened => exact absurd rfl unopened
    | wrong due fewer =>
      have rest := induction fewer within.2 closed
      rw [failed_wrong stepped]
      dsimp only at rest
      omega
    | lockedOut due many =>
      -- the lockout reaches past the last of the submissions
      have out := Nat.add_le_add_right within.1.1 lockoutSeconds
      have early (later) (member : later ∈ calls) := (within.2 later member).2
      rw [failed_wrong stepped, failed_of_lockedOut (by exact out) early]
      omega

/-! ## The handshake -/

/-- A locked broker is unlocked by its first run or by the answer to the prompt that
stands; between two openings of the store, submissions within one lockout's length fail at
most so often; and a prompt always leaves an attempt. -/
theorem unlock_handshake (backend : Backend) (files : Files FileName)
    (calls : List (Request × Nat)) :
    (∀ call, ((new files).after backend calls).isUnlocked = false →
      (((new files).after backend calls).next backend call).isUnlocked = true →
        (∃ peer pass master listing, call.1 = .initialise peer pass master listing ∧
          ((new files).after backend calls).broker.files .master = none) ∨
        ∃ peer nonce pass listing, call.1 = .answerUnlock peer (.submit nonce pass) listing ∧
          ∃ before prompt between, calls = before ++ prompt :: between ∧
            Prompts backend ((new files).after backend before) prompt nonce ∧
            call.2 < prompt.2 + unlockTtl ∧
            Along (next backend) (fun session call => ¬Voids backend session call)
              ((new files).after backend (before ++ [prompt])) between) ∧
    (∀ start attempts, (∀ call ∈ attempts, start ≤ call.2 ∧ call.2 < start + lockoutSeconds) →
      Along (next backend) (fun session call => ¬Opens backend session call)
        ((new files).after backend calls) attempts →
      failed backend ((new files).after backend calls) attempts ≤ maxAttempts) ∧
    ∀ call request, (((new files).after backend calls).step backend call).1 = .prompt request →
      1 ≤ request.attemptsLeft ∧ request.attemptsLeft ≤ maxAttempts := by
  have few : ((new files).after backend calls).failures < maxAttempts :=
    failures_lt (Nat.zero_lt_succ _) calls
  refine ⟨fun call locked opened => ?_, fun start attempts within closed => ?_,
    fun call request prompt => ?_⟩
  · have state : ((new files).after backend calls).broker.state = .locked := by
      unfold isUnlocked Broker.isUnlocked at locked
      split at locked
      · cases locked
      · assumption
    have effect := step_effect backend ((new files).after backend calls) call
    unfold next at opened
    generalize ((new files).after backend calls).step backend call = result at effect opened
    have shut {broker : Broker} (closed : broker.state = .locked) : broker.isUnlocked ≠ true := by
      rw [Broker.isUnlocked, closed]
      exact nofun
    cases effect with
    | kept plain closed => exact absurd opened (shut (closed state))
    | consumed plain closed => exact absurd opened (shut (closed state))
    | prompted => exact absurd opened (shut state)
    | wrong => exact absurd opened (shut state)
    | lockedOut => exact absurd opened (shut state)
    | initialised first fresh =>
      rcases first with ⟨peer, pass, master, listing, isFirst⟩
      exact .inl ⟨peer, pass, master, listing, isFirst, fresh⟩
    | @opened nonce expires admits broker =>
      rcases admits.submits with ⟨peer, pass, listing, submits⟩
      rcases standing_of_pending rfl calls nonce expires admits.pending with
        ⟨before, prompt, between, split, prompts, expiry, along⟩
      exact .inr ⟨peer, nonce, pass, listing, submits, before, prompt, between, split, prompts,
        expiry ▸ admits.unexpired, along⟩
  · exact (Nat.le_add_left _ _).trans (failed_le few within closed)
  · have effect := step_effect backend ((new files).after backend calls) call
    generalize ((new files).after backend calls).step backend call = result at effect prompt
    cases effect with
    | kept plain =>
      dsimp only at prompt
      rw [prompt] at plain
      cases plain
    | consumed plain =>
      dsimp only at prompt
      rw [prompt] at plain
      cases plain
    | prompted due =>
      cases prompt
      dsimp only
      omega
    | initialised => cases prompt
    | opened => cases prompt
    | wrong => cases prompt
    | lockedOut => cases prompt

end Runs

/-! ## Guesses on both sides of an opening -/

section Example

/-- A backend that unseals for one passphrase. -/
def passphraseBackend : Backend where
  «unseal» blob pass := if pass = some [1] then .ok blob else .error .auth
  needsPassphrase := true
  «seal» blob _ := .ok blob

def attempt (passphrase : UInt8) : List (Request × Nat) :=
  [(.beginUnlock .compositor (some 7), 0),
    (.answerUnlock .compositor (.submit 7 (some [passphrase])) [.master], 0)]

/-- Four wrong answers, the right one, a lock, and four more wrong ones. -/
def guesses : List (Request × Nat) :=
  attempt 0 ++ attempt 0 ++ attempt 0 ++ attempt 0 ++ attempt 1 ++ [(.lock .owner, 0)] ++
    attempt 0 ++ attempt 0 ++ attempt 0 ++ attempt 0

/-- Opening the store forgives the answers before it: eight fail in one second. -/
theorem guesses_fail :
    Ordered guesses ∧ (∀ call ∈ guesses, 0 ≤ call.2 ∧ call.2 < 0 + lockoutSeconds) ∧
      maxAttempts < @failed plainAead plainHmac passphraseBackend (new freshFiles) guesses := by
  decide

end Example

end Session

end EclipseOS.Brokerd
