import EclipseOS.Policyd.Tasks.Bodies
import EclipseOS.Policyd.Tasks.Ledger
import EclipseOS.Policyd.Tasks.Store

/-! # Replaying what was written

What an append leaves in the journal, what a replay makes of each record the
store writes, and what a run of appends replays to when some of them fail. -/

namespace EclipseOS.Policyd

open Foundation PolicyEval Cbor

/-! ## Appends -/

/-- A written record carries what was submitted, in a frame. -/
structure Carries (submitted written : Record) : Prop where
  kind : written.kind = submitted.kind
  principal : written.principal = submitted.principal
  taskId : written.taskId = submitted.taskId
  body : written.body = submitted.body
  framed : written.encode.length ≤ maxFrame

theorem Carries.short {submitted written : Record} (carries : Carries submitted written) :
    submitted.body.length < 2 ^ 64 := by
  rw [← carries.body]
  exact lt_of_le_of_lt (written.length_body_le.trans carries.framed) (by decide)

/-- A record went into the journal, and the anchor of a new segment perhaps after it. -/
def Appended (submitted : Record) (before after : List Record) : Prop :=
  ∃ written anchors, Carries submitted written ∧
    (∀ record ∈ anchors, record.kind = .anchor) ∧ after = before ++ written :: anchors

section Append

variable [Blake3] {journal after : Journal} {record : Record}

theorem fill_carries {ts mono : UInt64}
    (framed : (journal.fill record ts mono).encode.length ≤ maxFrame) :
    Carries record (journal.fill record ts mono) :=
  ⟨rfl, rfl, rfl, rfl, framed⟩

theorem appended_of_ok {written : Record}
    (success : journal.append record = (.ok written, after)) :
    Carries record written ∧ Appended record journal.records after.records := by
  unfold Journal.append at success
  dsimp only at success
  split at success
  · cases success
  · rename_i framed
    have carries := fill_carries (Nat.le_of_not_lt framed)
    split at success
    · cases success
      exact ⟨carries, _, [], carries, by simp, rfl⟩
    · cases success
      refine ⟨carries, _, [_], carries, ?_, List.append_assoc _ [_] [_]⟩
      intro anchor member
      rw [List.mem_singleton.mp member]
      rfl
    · cases success

theorem appended_of_error {error : StoreError}
    (failure : journal.append record = (.error error, after)) :
    after.records = journal.records ∨ Appended record journal.records after.records := by
  unfold Journal.append at failure
  dsimp only at failure
  split at failure
  · cases failure
    exact .inl rfl
  · rename_i framed
    have carries := fill_carries (Nat.le_of_not_lt framed)
    split at failure
    · cases failure
    · cases failure
    · rename_i kept _
      cases failure
      cases kept with
      | true => exact .inr ⟨_, [], carries, by simp, rfl⟩
      | false => exact .inl rfl

end Append

/-! ## Steps -/

section Steps

variable {found next : Replay} {written : Record}

/-- A task as a replay rebuilds it: without its statement, and with the counters
the journal has. -/
def rebuiltTask (task : Task) (counters : Counters) : Task :=
  { task with statement := "", counters }

def Replay.put (found : Replay) (task : Task) (hash : Digest) : Replay :=
  { found with
    hashes := Function.update found.hashes task.id (some hash)
    tasks := upsert (·.id = task.id) task found.tasks }

theorem step_task {task : Task} {op : String} {hash : Digest}
    (carries : Carries (taskRecord task op hash) written) :
    found.step written = .ok next ↔
      ∃ counters, Accepts Counters.decode 1 counters task.counters.encode ∧
        next = found.put (rebuiltTask task counters) hash := by
  have short : (taskBody task op hash).length < 2 ^ 64 := carries.short
  have unfolded : found.step written =
      readTaskBody task.id task.principal (taskBody task op hash) >>= fun read =>
        .ok { found with
          hashes := Function.update found.hashes task.id (some read.2)
          tasks := upsert (·.id = task.id) read.1 found.tasks } := by
    rw [Replay.step, carries.kind, carries.principal, carries.taskId, carries.body]
    rfl
  rw [unfolded]
  constructor
  · intro success
    rcases ok_of_bind_ok success with ⟨⟨read, readHash⟩, isRead, result⟩
    rcases (readTaskBody_taskBody short).mp isRead with ⟨counters, accepts, rfl, rfl⟩
    cases result
    exact ⟨counters, accepts, rfl⟩
  · intro rebuilt
    rcases rebuilt with ⟨counters, accepts, rfl⟩
    rw [(readTaskBody_taskBody short).mpr ⟨counters, accepts, rfl, rfl⟩]
    rfl

theorem step_grant [Ed25519] [Blake3] {grant : Grant} {reason : GrantReason}
    {signing : Ed25519.SigningKey}
    (carries : Carries (grantRecord grant (signed signing grant) reason) written) :
    found.step written =
      .ok { found with issued := found.issued ++ [⟨grant, signed signing grant, false⟩] } := by
  have issued : replayIssued written.body = .ok ⟨grant, signed signing grant, false⟩ := by
    have short := carries.short
    rw [carries.body]
    exact replayIssued_grantBody short
  rw [Replay.step, carries.kind]
  change (replayIssued written.body >>= _) = _
  rw [issued]
  rfl

theorem step_revoke {principal : String} {id : Ulid} {ids : List Ulid}
    (carries : Carries (revokeRecord principal id ids) written) :
    found.step written = .ok { found with revoked := found.revoked ++ ids } := by
  have revoked : replayRevoked written.body = .ok ids := by
    have short := carries.short
    rw [carries.body]
    exact replayRevoked_revokeBody short
  rw [Replay.step, carries.kind]
  change (replayRevoked written.body >>= _) = _
  rw [revoked]
  rfl

def Replayed (kind : Kind) : Prop := kind = .task ∨ kind = .grant ∨ kind = .revoke

theorem step_other (other : ¬Replayed written.kind) : found.step written = .ok found := by
  rw [Replay.step]
  split
  · rename_i same
    exact absurd (.inl same) other
  · rename_i same
    exact absurd (.inr (.inl same)) other
  · rename_i same
    exact absurd (.inr (.inr same)) other
  · rfl

theorem step_anchors {anchors : List Record} (only : ∀ record ∈ anchors, record.kind = .anchor) :
    anchors.foldlM Replay.step found = .ok found := by
  induction anchors with
  | nil => rfl
  | cons anchor anchors induction =>
    rw [List.forall_mem_cons] at only
    have skipped : found.step anchor = .ok found :=
      step_other (by simp [only.1, Replayed])
    rw [List.foldlM_cons, skipped]
    exact induction only.2

end Steps

/-! ## Runs -/

section Runs

variable {submitted : Record} {before after : List Record}

theorem replay_append (before others : List Record) :
    replay (before ++ others) = replay before >>= fun found => others.foldlM Replay.step found :=
  List.foldlM_append

theorem Appended.replay (appended : Appended submitted before after) :
    ∃ written, Carries submitted written ∧
      replay after = replay before >>= fun found => found.step written := by
  rcases appended with ⟨written, anchors, carries, only, rfl⟩
  refine ⟨written, carries, ?_⟩
  rw [replay_append]
  refine congrArg _ (funext fun found => ?_)
  rw [List.foldlM_cons]
  cases found.step written with
  | error error => rfl
  | ok next => exact step_anchors only

/-- What a crash leaves of an append is nothing, or a start that replays to all of it. -/
theorem Appended.start (appended : Appended submitted before after) {start : List Record}
    (reaches : before <+: start) (isStart : start <+: after) :
    start = before ∨ ∃ written, Carries submitted written ∧
      EclipseOS.Policyd.replay start =
        EclipseOS.Policyd.replay before >>= fun found => found.step written := by
  rcases appended with ⟨written, anchors, carries, only, rfl⟩
  rcases reaches with ⟨added, rfl⟩
  have part : added <+: written :: anchors := (List.prefix_append_right_inj _).mp isStart
  cases added with
  | nil => exact .inl (List.append_nil _)
  | cons first others =>
    obtain ⟨rfl, within⟩ := List.cons_prefix_cons.mp part
    have skips : ∀ record ∈ others, record.kind = .anchor :=
      fun record member => only record (within.subset member)
    exact .inr (Appended.replay ⟨first, others, carries, skips, rfl⟩)

end Runs

/-! ## What the journal replays to -/

/-- A record of the store, by what it is about. -/
inductive Entry where
  | task (task : Task) (op : String) (hash : Digest) (valid : task.counters.Valid)
  | grant (grant : Grant) (reason : GrantReason)
  | revoke (principal : String) (id : Ulid) (ids : List Ulid)

section Entries

variable [Ed25519] [Blake3] {signing : Ed25519.SigningKey} {found : Replay} {written : Record}

def Entry.record (signing : Ed25519.SigningKey) : Entry → Record
  | .task opened op hash _ => taskRecord opened op hash
  | .grant issued reason => grantRecord issued (signed signing issued) reason
  | .revoke principal id ids => revokeRecord principal id ids

/-- What a replay makes of the record. -/
def Entry.effect (signing : Ed25519.SigningKey) (found : Replay) : Entry → Replay
  | .task opened _ hash _ => found.put (rebuiltTask opened opened.counters) hash
  | .grant issued _ =>
    { found with issued := found.issued ++ [⟨issued, signed signing issued, false⟩] }
  | .revoke _ _ ids => { found with revoked := found.revoked ++ ids }

theorem Entry.step {entry : Entry} (carries : Carries (entry.record signing) written) :
    found.step written = .ok (entry.effect signing found) := by
  cases entry with
  | task task op hash valid =>
    have carries : Carries (taskRecord task op hash) written := carries
    have short : (taskBody task op hash).length < 2 ^ 64 := carries.short
    rw [taskBody_eq] at short
    have inRows : ("counters", some task.counters.encode) ∈
        TaskFields.schema.rows (task, op, hash) := by simp [TaskFields.schema, Schema.rows]
    have decodes : Accepts Counters.decode 1 task.counters task.counters.encode :=
      Counters.accepts_decode valid (lt_of_le_of_lt (length_le_record inRows) short) (by decide)
    exact (step_task carries).mpr ⟨task.counters, decodes, rfl⟩
  | grant grant reason => exact step_grant carries
  | revoke principal id ids => exact step_revoke carries

/-- Appends the entries, whatever comes of those before. The entries whose append was
acknowledged come with what is left of the journal. -/
def Journal.writes (signing : Ed25519.SigningKey) : Journal → List Entry → List Entry × Journal
  | journal, [] => ([], journal)
  | journal, entry :: entries =>
    match journal.append (entry.record signing) with
    | (.ok _, after) => Prod.map (entry :: ·) id (after.writes signing entries)
    | (.error _, after) => after.writes signing entries

/-- What these entries make of what a journal replayed to before. -/
def Journal.replayed (signing : Ed25519.SigningKey) (journal : Journal) (entries : List Entry) :
    Except Cbor.Error Replay :=
  (replay journal.records).map fun found => entries.foldl (Entry.effect signing) found

theorem Journal.replayed_nil (signing : Ed25519.SigningKey) (journal : Journal) :
    replay journal.records = journal.replayed signing [] := by
  rw [replayed]
  cases replay journal.records <;> rfl

theorem Journal.replayed_cons {journal : Journal} {entry : Entry} {start : List Record}
    (carries : Carries (entry.record signing) written)
    (next : replay start = replay journal.records >>= fun found => found.step written)
    (entries : List Entry) :
    (replay start).map (fun found => entries.foldl (Entry.effect signing) found) =
      journal.replayed signing (entry :: entries) := by
  rw [replayed, next]
  cases replay journal.records with
  | error error => rfl
  | ok found =>
    change (found.step written).map _ = _
    rw [Entry.step carries]
    rfl

/-- What was added to a journal replays to these entries, and what a crash leaves of it to the
first of them. -/
structure Tracks (signing : Ed25519.SigningKey) (journal after : Journal) (kept : List Entry) :
    Prop where
  longer : journal.records <+: after.records
  whole : replay after.records = journal.replayed signing kept
  crashes : ∀ start, journal.records <+: start → start <+: after.records →
    ∃ earlier, earlier <+: kept ∧ replay start = journal.replayed signing earlier

section Tracks

variable {journal middle after : Journal} {entry : Entry} {kept : List Entry}

theorem Tracks.nil (signing : Ed25519.SigningKey) (journal : Journal) :
    Tracks signing journal journal [] where
  longer := List.prefix_rfl
  whole := journal.replayed_nil signing
  crashes start reaches isStart := by
    have same : start = journal.records := isStart.eq_of_length_le reaches.length_le
    exact ⟨[], List.prefix_rfl, same ▸ journal.replayed_nil signing⟩

theorem Tracks.of_same (same : middle.records = journal.records)
    (tracks : Tracks signing middle after kept) : Tracks signing journal after kept := by
  have replayed : ∀ entries, middle.replayed signing entries = journal.replayed signing entries :=
    fun entries => by rw [Journal.replayed, Journal.replayed, same]
  refine ⟨same ▸ tracks.longer, tracks.whole.trans (replayed kept), ?_⟩
  intro start reaches isStart
  obtain ⟨earlier, part, rebuilt⟩ := tracks.crashes start (same ▸ reaches) isStart
  exact ⟨earlier, part, rebuilt.trans (replayed earlier)⟩

theorem Tracks.cons (appended : Appended (entry.record signing) journal.records middle.records)
    (tracks : Tracks signing middle after kept) : Tracks signing journal after (entry :: kept) := by
  have longer : journal.records <+: middle.records := by
    obtain ⟨written, anchors, _, _, added⟩ := appended
    exact ⟨_, added.symm⟩
  obtain ⟨_, carries, next⟩ := appended.replay
  refine ⟨longer.trans tracks.longer, tracks.whole.trans (Journal.replayed_cons carries next _), ?_⟩
  intro start reaches isStart
  rcases List.prefix_or_prefix_of_prefix isStart tracks.longer with within | past
  · -- the crash was in the first append
    rcases appended.start reaches within with rfl | ⟨_, begun, rebuilt⟩
    · exact ⟨[], List.nil_prefix, journal.replayed_nil signing⟩
    · refine ⟨[entry], ⟨kept, rfl⟩, ?_⟩
      rw [← Journal.replayed_cons begun rebuilt []]
      cases replay start <;> rfl
  · obtain ⟨earlier, part, rebuilt⟩ := tracks.crashes start past isStart
    exact ⟨entry :: earlier, List.cons_prefix_cons.mpr ⟨rfl, part⟩,
      rebuilt.trans (Journal.replayed_cons carries next _)⟩

end Tracks

/-- However the appends end, every acknowledged entry is replayed, in order, nothing but
entries is, and a crash on the way loses only the last of them. -/
theorem acknowledged_replayed (signing : Ed25519.SigningKey) (journal : Journal)
    (entries : List Entry) :
    ∃ kept, (journal.writes signing entries).1.Sublist kept ∧ kept.Sublist entries ∧
      Tracks signing journal (journal.writes signing entries).2 kept := by
  induction entries generalizing journal with
  | nil => exact ⟨[], .slnil, .slnil, .nil signing journal⟩
  | cons entry entries induction =>
    cases answered : journal.append (entry.record signing) with
    | mk answer after =>
      obtain ⟨kept, acked, inOrder, tracks⟩ := induction after
      rw [Journal.writes, answered]
      cases answer with
      | ok written =>
        exact ⟨entry :: kept, acked.cons_cons _, inOrder.cons_cons _,
          tracks.cons (appended_of_ok answered).2⟩
      | error error =>
        rcases appended_of_error answered with same | failed
        · exact ⟨kept, acked, inOrder.cons _, tracks.of_same same⟩
        · exact ⟨entry :: kept, acked.cons _, inOrder.cons_cons _, tracks.cons failed⟩

end Entries

/-! ## The ledger of a store -/

abbrev TaskLedger := Ledger Ulid String UInt64

def ledgerTask (task : Task) : Ledger.Task Ulid String UInt64 :=
  ⟨task.id, task.principal, task.state.isLive, task.deadlineMs⟩

def ledgerGrant (issued : Issued) : Ledger.Grant Ulid String UInt64 :=
  ⟨issued.grant.id, issued.grant.taskId, issued.grant.principal, issued.grant.expiresMs,
    issued.revoked⟩

def TaskStore.ledger [Ed25519] (store : TaskStore) : TaskLedger :=
  ⟨store.tasks.map ledgerTask, store.grants.map ledgerGrant⟩

/-- Ends a grant if it is drawn on this task. -/
def endOn (id : Ulid) (issued : Issued) : Issued :=
  if issued.grant.taskId = id then { issued with revoked := true } else issued

theorem ledgerGrant_endOn (id : Ulid) (issued : Issued) :
    ledgerGrant (endOn id issued) =
      if (ledgerGrant issued).task = id then { ledgerGrant issued with revoked := true }
      else ledgerGrant issued := by
  unfold endOn
  by_cases drawn : issued.grant.taskId = id
  · rw [if_pos drawn, if_pos (show (ledgerGrant issued).task = id from drawn)]
    rfl
  · rw [if_neg drawn, if_neg (show ¬(ledgerGrant issued).task = id from drawn)]

end EclipseOS.Policyd
