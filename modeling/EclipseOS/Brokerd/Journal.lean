import EclipseOS.Brokerd.Broker
import EclipseOS.Brokerd.Crash
import EclipseOS.Foundation.History

/-! # The audit trail of the owner's actions

What replaying the records of additions, rotations and revocations gives, beside what
the store holds. They part at a rotation to a value the store does not take: it is
journalled and does not happen. -/

namespace EclipseOS.Brokerd

open Foundation PolicyEval Cbor

/-! ## Secrets and their records -/

abbrev Secret := Ulid × UInt64

def Meta.secret (known : Meta) : Secret := (known.id, known.rotationCounter)

def Store.secrets (store : Store) : Set Secret :=
  { secret | ∃ name known, store.«meta» name = some known ∧ known.secret = secret }

/-- The secrets there are after a record, by what it says. -/
def SecretRecord.replay (secrets : Set Secret) (record : SecretRecord) : Set Secret :=
  let others := { secret ∈ secrets | secret.1 ≠ record.secretId }
  match record.outcome with
  | "added" => insert (record.secretId, record.rotationCounter) secrets
  | "rotated" => insert (record.secretId, record.rotationCounter) others
  | "revoked" => others
  | _ => secrets

/-- The records of a request that the sink took. -/
def Outcome.taken {α : Type} (outcome : Outcome α) : List SecretRecord :=
  outcome.trace.filterMap fun event =>
    match event with
    | .emit record true => some record
    | _ => none

/-! ## Requests -/

/-- What the owner asks for, with the random bytes it draws. -/
inductive OwnerAct where
  | add (spec : NewSecret) (value : Bytes) (now : UInt64) (entropy : FixedBytes 10) (draws : Draws)
  | rotate (name : String) (value : Bytes) (draws : Draws)
  | revoke (name : String)

/-- An action, who asks for it, and what the audit sink does meanwhile. -/
structure OwnerRequest where
  peer : Peer
  sink : AuditSink
  act : OwnerAct

def Meta.rotation (known : Meta) : SecretRecord :=
  .ofOwner known.id (known.rotationCounter + 1) "rotate" "rotated"

namespace OwnerRequest

/-- The id drawn for a new secret is not one in use. -/
def Fresh (broker : Broker) (request : OwnerRequest) : Prop :=
  match request.act, broker.state with
  | .add spec _ now entropy _, .unlocked store =>
    ∀ name known, store.«meta» name = some known → known.id ≠ (Store.minted spec now entropy).id
  | _, _ => True

/-- A rotation that gets as far as its record is to a value the store takes. -/
def Fits (broker : Broker) (request : OwnerRequest) : Prop :=
  match request.act, broker.state with
  | .rotate name value _, .unlocked store =>
    ∀ known, store.«meta» name = some known → allowed request.peer .rotate →
      request.sink known.rotation.emission → value.length ≤ maxValue
  | _, _ => True

end OwnerRequest

namespace Broker

section Serving

variable [Aead]

def serve (broker : Broker) (request : OwnerRequest) : Outcome Unit :=
  match request.act with
  | .add spec value now entropy draws =>
    (broker.add request.sink request.peer spec value now entropy draws).map fun _ => ()
  | .rotate name value draws =>
    (broker.rotate request.sink request.peer name value draws).map fun _ => ()
  | .revoke name => broker.revoke request.sink request.peer name

def next (broker : Broker) (request : OwnerRequest) : Broker := (broker.serve request).broker

/-- What the sink took while the requests were served, in order. -/
def trail (broker : Broker) : List OwnerRequest → List SecretRecord
  | [] => []
  | request :: requests => (broker.serve request).taken ++ (broker.next request).trail requests

def secrets (broker : Broker) : Set Secret :=
  match broker.state with
  | .unlocked store => store.secrets
  | .locked => ∅

/-- After any of the requests, replaying what the sink took gives the secrets there are. -/
def TrailMatches (broker : Broker) (requests : List OwnerRequest) : Prop :=
  ∀ served, served <+: requests →
    (broker.trail served).foldl SecretRecord.replay broker.secrets =
      (served.foldl next broker).secrets

end Serving

end Broker

/-! ## What a change does to the secrets -/

section Changes

variable {store left : Store} {name : String}

def Store.Distinct (store : Store) : Prop :=
  ∀ name other known known', store.«meta» name = some known → store.«meta» other = some known' →
    known.id = known'.id → name = other

def Store.ChangedAt (store left : Store) (name : String) (replaced : Option Meta) : Prop :=
  ∀ other, left.«meta» other = if other = name then replaced else store.«meta» other

theorem Store.ChangedAt.mem_secrets {replaced : Option Meta}
    (changed : store.ChangedAt left name replaced) {secret : Secret} :
    secret ∈ left.secrets ↔ (∃ known ∈ replaced, known.secret = secret) ∨
      ∃ other known, other ≠ name ∧ store.«meta» other = some known ∧ known.secret = secret := by
  constructor
  · rintro ⟨other, known, found, rfl⟩
    rw [changed] at found
    split at found
    · exact .inl ⟨known, found, rfl⟩
    · rename_i apart
      exact .inr ⟨other, known, apart, found, rfl⟩
  · rintro (⟨known, isReplaced, rfl⟩ | ⟨other, known, apart, found, rfl⟩)
    · exact ⟨name, known, by rw [changed, if_pos rfl]; exact isReplaced, rfl⟩
    · exact ⟨other, known, by rw [changed, if_neg apart, found], rfl⟩

theorem Store.Distinct.others (distinct : store.Distinct) {known : Meta}
    (found : store.«meta» name = some known) {secret : Secret} :
    (∃ other known', other ≠ name ∧ store.«meta» other = some known' ∧ known'.secret = secret) ↔
      secret ∈ store.secrets ∧ secret.1 ≠ known.id := by
  constructor
  · rintro ⟨other, known', apart, found', rfl⟩
    exact ⟨⟨other, known', found', rfl⟩, fun same => apart (distinct _ _ _ _ found' found same)⟩
  · rintro ⟨⟨other, known', found', rfl⟩, apart⟩
    refine ⟨other, known', ?_, found', rfl⟩
    rintro rfl
    rw [found] at found'
    cases found'
    exact apart rfl

theorem Store.others_of_absent (absent : store.«meta» name = none) {secret : Secret} :
    (∃ other known', other ≠ name ∧ store.«meta» other = some known' ∧ known'.secret = secret) ↔
      secret ∈ store.secrets := by
  constructor
  · rintro ⟨other, known', -, found', same⟩
    exact ⟨other, known', found', same⟩
  · rintro ⟨other, known', found', same⟩
    refine ⟨other, known', ?_, found', same⟩
    rintro rfl
    rw [absent] at found'
    cases found'

/-- What a request does that is journalled as it happens. -/
inductive Journalled (store left : Store) : List SecretRecord → Prop
  | nothing (same : ∀ name, left.«meta» name = store.«meta» name) : Journalled store left []
  | added {new : Meta} (absent : store.«meta» new.name = none) (start : new.rotationCounter = 0)
      (fresh : ∀ name known, store.«meta» name = some known → known.id ≠ new.id)
      (changed : store.ChangedAt left new.name (some new)) :
      Journalled store left [.ofOwner new.id 0 "add" "added"]
  | rotated {name : String} {known : Meta} (found : store.«meta» name = some known)
      (changed : store.ChangedAt left name
        (some { known with rotationCounter := known.rotationCounter + 1 })) :
      Journalled store left [known.rotation]
  | revoked {name : String} {known : Meta} (found : store.«meta» name = some known)
      (changed : store.ChangedAt left name none) :
      Journalled store left [.ofOwner known.id known.rotationCounter "revoke" "revoked"]

variable {records : List SecretRecord}

theorem Journalled.replay (journalled : Journalled store left records)
    (distinct : store.Distinct) :
    records.foldl SecretRecord.replay store.secrets = left.secrets := by
  ext secret
  cases journalled with
  | nothing same =>
    simp only [List.foldl_nil, Store.secrets, same]
  | @added new absent start fresh changed =>
    rw [changed.mem_secrets, Store.others_of_absent absent]
    simp [SecretRecord.replay, SecretRecord.ofOwner, Meta.secret, start, eq_comm]
  | @rotated name known found changed =>
    rw [changed.mem_secrets, distinct.others found]
    simp [SecretRecord.replay, SecretRecord.ofOwner, Meta.rotation, Meta.secret, eq_comm]
  | @revoked name known found changed =>
    rw [changed.mem_secrets, distinct.others found]
    simp [SecretRecord.replay, SecretRecord.ofOwner]

theorem Store.Distinct.changedAt (distinct : store.Distinct) {replaced : Option Meta}
    (changed : store.ChangedAt left name replaced)
    (own : ∀ known ∈ replaced, ∀ other known', store.«meta» other = some known' →
      known'.id = known.id → other = name) : left.Distinct := by
  intro first second known known' found found' same
  rw [changed] at found found'
  split at found <;> split at found'
  · rename_i isFirst isSecond
    exact isFirst.trans isSecond.symm
  · rename_i isFirst _
    rw [own known found second known' found' same.symm, isFirst]
  · rename_i _ isSecond
    rw [own known' found' first known found same, isSecond]
  · exact distinct _ _ _ _ found found' same

theorem Journalled.distinct (journalled : Journalled store left records)
    (distinct : store.Distinct) : left.Distinct := by
  cases journalled with
  | nothing same =>
    intro first second known known' found found'
    rw [same] at found found'
    exact distinct _ _ _ _ found found'
  | @added new absent start fresh changed =>
    refine distinct.changedAt changed fun known isNew other known' found same => ?_
    cases isNew
    exact absurd same (fresh other known' found)
  | @rotated name old looked changed =>
    refine distinct.changedAt changed fun known isRotated other known' found same => ?_
    cases isRotated
    exact distinct _ _ _ _ found looked same
  | @revoked name old looked changed => exact distinct.changedAt changed nofun

theorem rotation_replay (distinct : store.Distinct) {known : Meta}
    (found : store.«meta» name = some known) :
    known.rotation.replay store.secrets ≠ store.secrets := by
  intro same
  have among : (known.id, known.rotationCounter + 1) ∈ store.secrets := by
    rw [← same]
    exact Set.mem_insert _ _
  rcases among with ⟨other, known', found', isSecret⟩
  rcases Prod.mk.inj isSecret with ⟨sameId, counter⟩
  cases distinct _ _ _ _ found' found sameId
  rw [found] at found'
  cases found'
  have moved : known.rotationCounter + 1 ≠ known.rotationCounter := by
    intro same
    have unmoved := congrArg UInt64.toBitVec same
    simp at unmoved
  exact moved counter.symm

end Changes

/-! ## What the store's calls change -/

theorem Store.meta_insert (store : Store) (name other : String) (known : Meta) (path : FileName) :
    Store.«meta» { store with index := store.index.insert name ⟨known, path⟩ } other =
      if other = name then some known else store.«meta» other := by
  unfold Store.«meta»
  dsimp only
  by_cases same : other = name
  · rw [same, if_pos rfl, Finmap.lookup_insert]
    rfl
  · rw [if_neg same, Finmap.lookup_insert_of_ne _ same]

theorem Store.revoke_store (store : Store) (files : Files FileName) {name : String} {entry : Entry}
    (looked : store.index.lookup name = some entry) :
    (store.revoke files name).2.1 = { store with index := store.index.erase name } := by
  unfold Store.revoke
  simp only [looked]
  cases files entry.path <;> rfl

theorem Store.revoke_changes (store : Store) (files : Files FileName) (name : String) :
    store.ChangedAt (store.revoke files name).2.1 name none := by
  intro other
  cases looked : store.index.lookup name with
  | none =>
    have unknown : store.«meta» name = none := by rw [Store.«meta», looked]; rfl
    have unchanged : (store.revoke files name).2.1 = store := by
      unfold Store.revoke
      simp only [looked]
    rw [unchanged]
    split
    · rename_i same
      rw [same, unknown]
    · rfl
  | some entry =>
    rw [store.revoke_store files looked]
    unfold Store.«meta»
    dsimp only
    split
    · rename_i same
      rw [same, Finmap.lookup_erase]
      rfl
    · rename_i apart
      rw [Finmap.lookup_erase_ne apart]

theorem Broker.secrets_of_unlocked {broker : Broker} {store : Store}
    (unlocked : broker.state = .unlocked store) :
    broker.secrets = store.secrets := by
  rw [Broker.secrets, unlocked]

section Calls

variable [Aead] {store after : Store} {name : String} {known : Meta} {value : Bytes}
  {draws : Draws} {ops : List (FileOp FileName)}

theorem Store.add_ok {new : NewSecret} {now : UInt64} {entropy : FixedBytes 10}
    (added : store.add new value now entropy draws = .ok (known, after, ops)) :
    store.«meta» new.name = none ∧ known = Store.minted new now entropy ∧
      store.ChangedAt after new.name (some known) := by
  unfold Store.add at added
  rcases bind_eq_ok.mp added with ⟨_, -, added⟩
  split_ifs at added with large taken
  cases added
  rw [Option.not_isSome_iff_eq_none] at taken
  refine ⟨?_, rfl, fun other => Store.meta_insert store _ other _ _⟩
  rw [Store.«meta», taken]
  rfl

theorem Store.rotate_of_small (draws : Draws) (found : store.«meta» name = some known)
    (small : value.length ≤ maxValue) :
    ∃ after ops, store.rotate name value draws =
        .ok ({ known with rotationCounter := known.rotationCounter + 1 }, after, ops) ∧
      store.ChangedAt after name
        (some { known with rotationCounter := known.rotationCounter + 1 }) := by
  rcases Option.map_eq_some_iff.mp found with ⟨entry, looked, rfl⟩
  let record := { entry.«meta» with rotationCounter := entry.«meta».rotationCounter + 1 }
  refine ⟨{ store with index := store.index.insert name ⟨record, .sec record.id⟩ },
    (store.writeRecord record value draws).2, ?_, fun other => store.meta_insert name other _ _⟩
  unfold Store.rotate
  rw [if_neg (Nat.not_lt.mpr small), looked]
  rfl

theorem Store.rotate_of_large (large : maxValue < value.length) :
    store.rotate name value draws = .error .tooLarge := if_pos large

/-! ## One request -/

variable {broker : Broker}

section Acts

variable (sink : AuditSink) (peer : Peer) (value : Bytes) (draws : Draws)

theorem Broker.add_journalled {spec : NewSecret} {now : UInt64} {entropy : FixedBytes 10}
    (unlocked : broker.state = .unlocked store)
    (fresh : ∀ name known, store.«meta» name = some known →
      known.id ≠ (Store.minted spec now entropy).id) :
    ∃ left, (broker.add sink peer spec value now entropy draws).broker.state = .unlocked left ∧
      Journalled store left (broker.add sink peer spec value now entropy draws).taken := by
  unfold Broker.add
  by_cases isAllowed : allowed peer .add = false
  · rw [if_pos isAllowed]
    exact ⟨store, unlocked, .nothing fun _ => rfl⟩
  rw [if_neg isAllowed, unlocked]
  dsimp only
  cases added : store.add spec value now entropy draws with
  | error error => cases error <;> exact ⟨store, unlocked, .nothing fun _ => rfl⟩
  | ok result =>
    rcases result with ⟨known, after, ops⟩
    rcases Store.add_ok added with ⟨absent, rfl, changed⟩
    dsimp only
    split
    · exact ⟨after, rfl, .added absent rfl fresh changed⟩
    · -- the write is undone
      refine ⟨_, rfl, .nothing fun name => ?_⟩
      rw [after.revoke_changes, changed]
      split
      · rename_i same
        exact same ▸ absent.symm
      · rfl

theorem Broker.rotate_cases (name : String) (unlocked : broker.state = .unlocked store) :
    ∃ left, (broker.rotate sink peer name value draws).broker.state = .unlocked left ∧
      (((∀ known, store.«meta» name = some known → allowed peer .rotate →
          sink known.rotation.emission → value.length ≤ maxValue) ∧
        Journalled store left (broker.rotate sink peer name value draws).taken) ∨
      maxValue < value.length ∧ left = store ∧ ∃ known, store.«meta» name = some known ∧
        allowed peer .rotate ∧ sink known.rotation.emission ∧
        (broker.rotate sink peer name value draws).taken = [known.rotation]) := by
  unfold Broker.rotate
  by_cases isAllowed : allowed peer .rotate = false
  · rw [if_pos isAllowed]
    exact ⟨store, unlocked, .inl ⟨fun _ _ may => absurd (isAllowed.symm.trans may) nofun,
      .nothing fun _ => rfl⟩⟩
  rw [if_neg isAllowed, unlocked]
  dsimp only
  cases found : store.«meta» name with
  | none => exact ⟨store, unlocked, .inl ⟨nofun, .nothing fun _ => rfl⟩⟩
  | some known =>
    dsimp only
    split
    · rename_i accepted
      by_cases small : value.length ≤ maxValue
      · rcases Store.rotate_of_small draws found small with ⟨after, ops, rotated, changed⟩
        rw [rotated]
        exact ⟨after, rfl, .inl ⟨fun _ _ _ _ => small, .rotated found changed⟩⟩
      · rw [Store.rotate_of_large (Nat.not_le.mp small)]
        exact ⟨store, unlocked, .inr ⟨Nat.not_le.mp small, rfl, known, rfl,
          by simpa using isAllowed, accepted, rfl⟩⟩
    · rename_i refused
      refine ⟨store, unlocked, .inl ⟨?_, .nothing fun _ => rfl⟩⟩
      intro known' isKnown _ accepted
      cases isKnown
      exact absurd accepted refused

omit [Aead] in
theorem Broker.revoke_journalled (name : String) (unlocked : broker.state = .unlocked store) :
    ∃ left, (broker.revoke sink peer name).broker.state = .unlocked left ∧
      Journalled store left (broker.revoke sink peer name).taken := by
  unfold Broker.revoke
  by_cases isAllowed : allowed peer .revoke = false
  · rw [if_pos isAllowed]
    exact ⟨store, unlocked, .nothing fun _ => rfl⟩
  rw [if_neg isAllowed, unlocked]
  dsimp only
  cases found : store.«meta» name with
  | none => exact ⟨store, unlocked, .nothing fun _ => rfl⟩
  | some known =>
    dsimp only
    split
    · have changed := store.revoke_changes broker.files name
      rcases revoked : store.revoke broker.files name with ⟨done, after, ops⟩
      rw [revoked] at changed
      cases done <;> exact ⟨after, rfl, .revoked found changed⟩
    · exact ⟨store, unlocked, .nothing fun _ => rfl⟩

end Acts

variable {request : OwnerRequest}

/-- What a request does is journalled as it happens, unless it is a rotation that does not fit. -/
theorem Broker.serve_cases (unlocked : broker.state = .unlocked store)
    (fresh : request.Fresh broker) :
    ∃ left, (broker.next request).state = .unlocked left ∧
      (request.Fits broker ∧ Journalled store left (broker.serve request).taken ∨
        ¬request.Fits broker ∧ left = store ∧ ∃ name known, store.«meta» name = some known ∧
          (broker.serve request).taken = [known.rotation]) := by
  rcases request with ⟨peer, sink, act⟩
  cases act with
  | add spec value now entropy draws =>
    simp only [OwnerRequest.Fresh, unlocked] at fresh
    rcases Broker.add_journalled sink peer value draws unlocked fresh with
      ⟨left, state, journalled⟩
    exact ⟨left, state, .inl ⟨trivial, journalled⟩⟩
  | rotate name value draws =>
    rcases Broker.rotate_cases sink peer value draws name unlocked with
      ⟨left, state, ⟨fits, journalled⟩ | ⟨large, same, known, found, may, accepted, taken⟩⟩
    · refine ⟨left, state, .inl ⟨?_, journalled⟩⟩
      simp only [OwnerRequest.Fits, unlocked]
      exact fits
    · refine ⟨left, state, .inr ⟨?_, same, name, known, found, taken⟩⟩
      simp only [OwnerRequest.Fits, unlocked]
      exact fun fits => Nat.not_le.mpr large (fits known found may accepted)
  | revoke name =>
    rcases Broker.revoke_journalled sink peer name unlocked with ⟨left, state, journalled⟩
    exact ⟨left, state, .inl ⟨trivial, journalled⟩⟩

/-! ## Runs -/

theorem Broker.trailMatches_cons {requests : List OwnerRequest}
    (first : (broker.serve request).taken.foldl SecretRecord.replay broker.secrets =
      (broker.next request).secrets) :
    broker.TrailMatches (request :: requests) ↔ (broker.next request).TrailMatches requests := by
  constructor
  · intro trail served among
    have whole := trail (request :: served) (List.cons_prefix_cons.mpr ⟨rfl, among⟩)
    rwa [Broker.trail, List.foldl_append, first, List.foldl_cons] at whole
  · intro trail served among
    cases served with
    | nil => rfl
    | cons other served =>
      rcases List.cons_prefix_cons.mp among with ⟨rfl, rest⟩
      rw [Broker.trail, List.foldl_append, first, List.foldl_cons]
      exact trail served rest

/-- From a store without shared ids, the trail is right throughout where, and only where,
every rotation fits. -/
theorem Store.Distinct.trailMatches (distinct : store.Distinct)
    (unlocked : broker.state = .unlocked store) {requests : List OwnerRequest}
    (fresh : Along Broker.next (fun broker request => request.Fresh broker) broker requests) :
    broker.TrailMatches requests ↔
      Along Broker.next (fun broker request => request.Fits broker) broker requests := by
  induction requests generalizing broker store with
  | nil =>
    refine iff_of_true (fun served among => ?_) trivial
    rw [List.prefix_nil.mp among]
    rfl
  | cons request requests induction =>
    rcases Broker.serve_cases unlocked fresh.1 with
      ⟨left, state, ⟨fits, journalled⟩ | ⟨misfit, rfl, name, known, found, taken⟩⟩
    · have first : (broker.serve request).taken.foldl SecretRecord.replay broker.secrets =
          (broker.next request).secrets := by
        rw [Broker.secrets_of_unlocked unlocked, Broker.secrets_of_unlocked state]
        exact journalled.replay distinct
      rw [Broker.trailMatches_cons first, Along,
        induction (journalled.distinct distinct) state fresh.2]
      exact ⟨fun rest => ⟨fits, rest⟩, And.right⟩
    · refine iff_of_false (fun trail => ?_) fun all => misfit all.1
      have whole := trail [request] (List.cons_prefix_cons.mpr ⟨rfl, List.nil_prefix⟩)
      rw [Broker.trail, Broker.trail, taken, Broker.secrets_of_unlocked unlocked,
        List.foldl_cons, List.foldl_nil, Broker.secrets_of_unlocked state] at whole
      exact rotation_replay distinct found whole

/-! ## Stores that were opened -/

theorem openEntry_sec {files : Files FileName} {master : FixedBytes 32}
    {index next : Finmap fun _ : String => Entry} {path : FileName}
    (opened : Store.openEntry files master index path = .ok next) :
    next = index ∨ ∃ known : Meta, path = .sec known.id ∧ index.lookup known.name = none ∧
      next = index.insert known.name ⟨known, path⟩ := by
  unfold Store.openEntry at opened
  split at opened
  · cases opened
    exact .inl rfl
  · rename_i isSec
    split at opened
    · cases opened
    · rcases bind_eq_ok.mp opened with ⟨file, -, opened⟩
      rcases bind_eq_ok.mp opened with ⟨known, -, opened⟩
      split_ifs at opened with misnamed taken
      cases opened
      refine .inr ⟨known, ?_, by simpa using taken, rfl⟩
      rcases path with ⟨stem, extension⟩
      rw [not_not] at isSec misnamed
      exact congrArg₂ FileName.mk misnamed isSec

/-- Every entry is of a file of its own id, read before. -/
def OwnFiles (seen : List FileName) (index : Finmap fun _ : String => Entry) : Prop :=
  ∀ name entry, index.lookup name = some entry → FileName.sec entry.«meta».id ∈ seen ∧
    ∀ other entry', index.lookup other = some entry' → entry.«meta».id = entry'.«meta».id →
      name = other

theorem OwnFiles.openEntry {files : Files FileName} {master : FixedBytes 32}
    {index next : Finmap fun _ : String => Entry} {path : FileName} {seen : List FileName}
    (own : OwnFiles seen index) (unseen : path ∉ seen)
    (opened : Store.openEntry files master index path = .ok next) :
    OwnFiles (path :: seen) next := by
  rcases openEntry_sec opened with rfl | ⟨known, rfl, -, rfl⟩
  · exact fun name entry found =>
      ⟨List.mem_cons_of_mem _ (own name entry found).1, (own name entry found).2⟩
  have apart {name : String} {entry : Entry} (found : index.lookup name = some entry) :
      known.id ≠ entry.«meta».id := by
    intro same
    exact unseen (same ▸ (own name entry found).1)
  have looked (name : String) : (index.insert known.name ⟨known, .sec known.id⟩).lookup name =
      if name = known.name then some ⟨known, .sec known.id⟩ else index.lookup name := by
    split
    · rename_i same
      rw [same, Finmap.lookup_insert]
    · rename_i other
      rw [Finmap.lookup_insert_of_ne _ other]
  intro name entry found
  rw [looked] at found
  split at found
  · rename_i isNew
    cases found
    refine ⟨List.mem_cons_self, fun other entry' found' same => ?_⟩
    rw [looked] at found'
    split at found'
    · rename_i isNew'
      exact isNew.trans isNew'.symm
    · exact absurd same (apart found')
  · refine ⟨List.mem_cons_of_mem _ (own name entry found).1, fun other entry' found' same => ?_⟩
    rw [looked] at found'
    split at found'
    · cases found'
      exact absurd same.symm (apart found)
    · exact (own name entry found).2 other entry' found' same

/-- A directory's files have different names, so the records read from them different ids. -/
theorem open_distinct {files : Files FileName} {listing : List FileName} {sealer : Sealer}
    {pass : Option Bytes} (lists : Lists files listing)
    (opened : Store.«open» files listing sealer pass = .ok store) : store.Distinct := by
  have fold {master : FixedBytes 32} : ∀ (rest seen : List FileName)
      (index last : Finmap fun _ : String => Entry), rest.Nodup → rest.Disjoint seen →
      OwnFiles seen index → rest.foldlM (Store.openEntry files master) index = .ok last →
      ∃ seen, OwnFiles seen last := by
    intro rest
    induction rest with
    | nil =>
      intro seen index last _ _ own run
      cases run
      exact ⟨seen, own⟩
    | cons path rest induction =>
      intro seen index last nodup apart own run
      rw [List.nodup_cons] at nodup
      rw [List.disjoint_cons_left] at apart
      rw [List.foldlM_cons] at run
      rcases bind_eq_ok.mp run with ⟨next, first, run⟩
      refine induction (path :: seen) next last nodup.2 ?_ (own.openEntry apart.1 first) run
      exact List.disjoint_cons_right.mpr ⟨nodup.1, apart.2⟩
  have start : OwnFiles [] ∅ := by
    intro name entry found
    rw [Finmap.lookup_empty] at found
    cases found
  unfold Store.«open» at opened
  split at opened
  · cases opened
  rcases bind_eq_ok.mp opened with ⟨key, -, opened⟩
  split at opened
  · cases opened
  rcases bind_eq_ok.mp opened with ⟨index, run, opened⟩
  cases opened
  rcases fold listing [] ∅ index lists.1 (List.disjoint_nil_right _) start run with ⟨seen, own⟩
  intro name other known known' found found' same
  rcases Option.map_eq_some_iff.mp found with ⟨entry, looked, rfl⟩
  rcases Option.map_eq_some_iff.mp found' with ⟨entry', looked', rfl⟩
  exact (own name entry looked).2 other entry' looked' same

/-- From any store that was opened, through any requests, the trail is right throughout
where, and only where, every rotation that is journalled is to a value the store takes. -/
theorem trail_matches_iff {files : Files FileName} {listing : List FileName} {sealer : Sealer}
    {pass : Option Bytes} (lists : Lists files listing)
    (opened : Store.«open» files listing sealer pass = .ok store) (logs : IssueLogs)
    (requests : List OwnerRequest)
    (fresh : Along Broker.next (fun broker request => request.Fresh broker)
      ⟨files, .unlocked store, logs⟩ requests) :
    Broker.TrailMatches ⟨files, .unlocked store, logs⟩ requests ↔
      Along Broker.next (fun broker request => request.Fits broker)
        ⟨files, .unlocked store, logs⟩ requests :=
  (open_distinct lists opened).trailMatches rfl fresh

end Calls

/-! ## One secret, rotated -/

section Example

def tokenBroker : Broker := ⟨tokenFiles, .unlocked tokenStore, ∅⟩

/-- The owner rotates the secret, and the sink takes every record. -/
def rotateToken (value : Bytes) : OwnerRequest :=
  ⟨.owner, fun _ => true, .rotate "tok" value noDraws⟩

theorem token_opens : ∃ listing, Lists tokenFiles listing ∧
    @Store.«open» plainAead tokenFiles listing plainSealer none = .ok tokenStore := by
  have reachable := token_reachable
  rcases @Reachable.listed plainAead _ _ _ _ reachable with ⟨listing, lists⟩
  have backed := @Reachable.backed plainAead _ _ _ _ reachable
  exact ⟨listing, lists, @Backed.open plainAead _ _ _ _ backed listing lists⟩

/-- A small value is journalled and stored. -/
theorem trail_matches_small :
    @Broker.TrailMatches plainAead tokenBroker [rotateToken [4, 5]] := by
  rcases token_opens with ⟨listing, lists, opened⟩
  refine (@trail_matches_iff plainAead _ _ _ _ _ lists opened ∅ [rotateToken [4, 5]]
    ⟨trivial, trivial⟩).mpr ⟨fun _ _ _ _ => ?_, trivial⟩
  decide

/-- A value one byte too long is journalled and refused. -/
theorem trail_parts_large :
    ¬@Broker.TrailMatches plainAead tokenBroker [rotateToken (List.replicate 16385 0)] := by
  intro trail
  rcases token_opens with ⟨listing, lists, opened⟩
  have fits := (@Store.Distinct.trailMatches plainAead _ tokenBroker
    (@open_distinct plainAead _ _ _ _ _ lists opened) rfl
    [rotateToken (List.replicate 16385 0)] ⟨trivial, trivial⟩).mp trail
  have small := fits.1 (Store.minted token 1000 (zeroBytes 10)) (by decide) rfl rfl
  rw [List.length_replicate] at small
  exact absurd small (by decide)

end Example

end EclipseOS.Brokerd
