import EclipseOS.Foundation.FirstMatch
import EclipseOS.Foundation.History

/-! # Remembered answers

The results of one agent's requests, replayed to a repeat within the window. -/

namespace EclipseOS.Abyss

open Foundation

/-- A span of time, in nanoseconds as an instant is. -/
def seconds (count : Nat) : Nat := count * 1000000000

def promptTimeout : Nat := seconds 120

namespace Dedupe

def window : Nat := seconds 60

def promptSlack : Nat := seconds 30

def maxEntries : Nat := 4096

structure Entry where
  reqId : UInt32
  /-- The status and its detail; `none` while the request is running or parked. -/
  outcome : Option (UInt32 × String)
  expires : Nat
  deriving DecidableEq

inductive Admit where
  | fresh
  | replay (detail : String)
  | full
  deriving DecidableEq

def Entry.replay (entry : Entry) : String :=
  match entry.outcome with
  | none => "pending"
  | some (status, detail) =>
    if detail = "" then toString status else toString status ++ ":" ++ detail

end Dedupe

structure Dedupe where
  entries : List Dedupe.Entry
  deriving DecidableEq

namespace Dedupe

def default : Dedupe := ⟨[]⟩

def live (dedupe : Dedupe) (reqId : UInt32) (now : Nat) : Option Entry :=
  dedupe.entries.find? fun entry => entry.reqId = reqId ∧ now < entry.expires

/-- Whether expired entries go before `reqId` is added. -/
def sweeps (dedupe : Dedupe) (reqId : UInt32) : Bool :=
  maxEntries ≤ dedupe.entries.length ∨ dedupe.entries.any (·.reqId = reqId)

def swept (dedupe : Dedupe) (reqId : UInt32) (now : Nat) : Dedupe :=
  if dedupe.sweeps reqId then ⟨dedupe.entries.filter (now < ·.expires)⟩ else dedupe

def admits (dedupe : Dedupe) (reqId : UInt32) (now : Nat) : Admit × Dedupe :=
  match dedupe.live reqId now with
  | some entry => (.replay entry.replay, dedupe)
  | none =>
    let dedupe := dedupe.swept reqId now
    if maxEntries ≤ dedupe.entries.length then
      (.full, dedupe)
    else
      (.fresh, ⟨dedupe.entries ++ [⟨reqId, none, now + window⟩]⟩)

/-- `reqId` went to the prompt path. -/
def suspended (dedupe : Dedupe) (reqId : UInt32) (now : Nat) : Dedupe :=
  let keep := now + max window (promptTimeout + promptSlack)
  ⟨modifyLast (·.reqId = reqId) (fun entry => { entry with expires := max entry.expires keep })
    dedupe.entries⟩

def complete (dedupe : Dedupe) (reqId : UInt32) (status : UInt32) (detail : String) (now : Nat) :
    Dedupe :=
  ⟨modifyLast (fun entry => entry.reqId = reqId ∧ entry.outcome.isNone)
    (fun entry =>
      { entry with
        outcome := some (status, detail)
        expires := max entry.expires (now + window) })
    dedupe.entries⟩

inductive Call where
  | admits (reqId : UInt32)
  | suspended (reqId : UInt32)
  | complete (reqId status : UInt32) (detail : String)
  deriving DecidableEq

def serve (dedupe : Dedupe) : Call × Nat → Dedupe
  | (.admits reqId, now) => (dedupe.admits reqId now).2
  | (.suspended reqId, now) => dedupe.suspended reqId now
  | (.complete reqId status detail, now) => dedupe.complete reqId status detail now

def after (calls : List (Call × Nat)) : Dedupe := calls.foldl serve default

/-- After this history `reqId` is executed. -/
def Executes (calls : List (Call × Nat)) (reqId : UInt32) (now : Nat) : Prop :=
  ((after calls).admits reqId now).1 = .fresh

instance (calls : List (Call × Nat)) (reqId : UInt32) (now : Nat) :
    Decidable (Executes calls reqId now) := inferInstanceAs (Decidable (_ = _))

/-- When the result of `reqId` was sent, if it was. -/
def answeredAt (reqId : UInt32) (calls : List (Call × Nat)) : Option Nat :=
  calls.findSome? fun
    | (.complete other _ _, now) => if other = reqId then some now else none
    | _ => none

/-- What was executed before is executed again only when it was answered, at least a
window ago. -/
def AtMostOnce (calls : List (Call × Nat)) : Prop :=
  ∀ before reqId now later, calls = before ++ (.admits reqId, now) :: later →
    Executes before reqId now →
      ∀ first admitted since, before = first ++ (.admits reqId, admitted) :: since →
        Executes first reqId admitted →
          ∃ answered, answeredAt reqId since = some answered ∧ answered + window ≤ now

/-- No call takes the table over its limit, and none drops an id that is pending or
recently answered. -/
def KeepsLive (calls : List (Call × Nat)) : Prop :=
  ∀ before call now later, calls = before ++ (call, now) :: later →
    (after (before ++ [(call, now)])).entries.length ≤ maxEntries ∧
      ∀ entry ∈ (after before).entries, entry.outcome = none ∨ now < entry.expires →
        ∃ kept ∈ (after (before ++ [(call, now)])).entries,
          kept.reqId = entry.reqId ∧ entry.expires ≤ kept.expires

/-- A call that does not sweep a pending entry out. -/
def Spares (dedupe : Dedupe) : Call × Nat → Prop
  | (.admits reqId, now) => dedupe.live reqId now = none → dedupe.sweeps reqId →
      ∀ entry ∈ dedupe.entries, entry.outcome = none → now < entry.expires
  | _ => True

instance (dedupe : Dedupe) : ∀ call, Decidable (Spares dedupe call)
  | (.admits _, _) => inferInstanceAs (Decidable (_ → _ → _))
  | (.suspended _, _) => inferInstanceAs (Decidable True)
  | (.complete .., _) => inferInstanceAs (Decidable True)

variable {dedupe : Dedupe} {reqId : UInt32} {now : Nat}

theorem live_eq_none : dedupe.live reqId now = none ↔
    ∀ entry ∈ dedupe.entries, entry.reqId = reqId → entry.expires ≤ now := by
  simp [live]

theorem mem_of_mem_swept {entry : Entry} (member : entry ∈ (dedupe.swept reqId now).entries) :
    entry ∈ dedupe.entries := by
  unfold swept at member
  split at member
  · exact List.mem_of_mem_filter member
  · exact member

theorem mem_swept_of_live {entry : Entry} (member : entry ∈ dedupe.entries)
    (isLive : now < entry.expires) : entry ∈ (dedupe.swept reqId now).entries := by
  unfold swept
  split
  · exact List.mem_filter.mpr ⟨member, decide_eq_true isLive⟩
  · exact member

theorem swept_spares_none (dead : dedupe.live reqId now = none) :
    ∀ entry ∈ (dedupe.swept reqId now).entries, entry.reqId ≠ reqId := by
  intro entry member same
  have old := live_eq_none.mp dead entry (mem_of_mem_swept member) same
  have swept : dedupe.sweeps reqId := by
    have found : dedupe.entries.any (·.reqId = reqId) :=
      List.any_eq_true.mpr ⟨entry, mem_of_mem_swept member, decide_eq_true same⟩
    simp [sweeps, found]
  rw [Dedupe.swept, if_pos swept, List.mem_filter] at member
  have isLive := of_decide_eq_true member.2
  omega

theorem admits_of_live {entry : Entry} (found : dedupe.live reqId now = some entry) :
    dedupe.admits reqId now = (.replay entry.replay, dedupe) := by
  rw [admits, found]

theorem admits_of_dead (dead : dedupe.live reqId now = none) :
    dedupe.admits reqId now =
      if maxEntries ≤ (dedupe.swept reqId now).entries.length then
        (.full, dedupe.swept reqId now)
      else
        (.fresh, ⟨(dedupe.swept reqId now).entries ++ [⟨reqId, none, now + window⟩]⟩) := by
  rw [admits, dead]

theorem admits_fresh_iff : (dedupe.admits reqId now).1 = .fresh ↔
    dedupe.live reqId now = none ∧ (dedupe.swept reqId now).entries.length < maxEntries := by
  cases found : dedupe.live reqId now with
  | some entry => simp [admits_of_live found]
  | none =>
    rw [admits_of_dead found]
    split
    · rename_i full
      simp [full]
    · rename_i room
      simpa using room

theorem mem_admits {entry : Entry} (dead : dedupe.live reqId now = none) :
    entry ∈ (dedupe.admits reqId now).2.entries ↔
      entry ∈ (dedupe.swept reqId now).entries ∨
        ((dedupe.admits reqId now).1 = .fresh ∧ entry = ⟨reqId, none, now + window⟩) := by
  rw [admits_of_dead dead]
  split <;> simp

/-- What a call other than an admission makes of an entry. -/
def Entry.served (entry : Entry) : Call × Nat → Entry
  | (.admits _, _) => entry
  | (.suspended reqId, now) =>
    if entry.reqId = reqId then
      { entry with
        expires := max entry.expires (now + max window (promptTimeout + promptSlack)) }
    else entry
  | (.complete reqId status detail, now) =>
    if entry.reqId = reqId ∧ entry.outcome.isNone then
      { entry with
        outcome := some (status, detail)
        expires := max entry.expires (now + window) }
    else entry

@[simp] theorem Entry.served_reqId (entry : Entry) (call : Call × Nat) :
    (entry.served call).reqId = entry.reqId := by
  rcases call with ⟨_ | _ | _, now⟩
  · rfl
  · rw [served]
    split <;> rfl
  · rw [served]
    split <;> rfl

theorem Entry.expires_le_served (entry : Entry) (call : Call × Nat) :
    entry.expires ≤ (entry.served call).expires := by
  rcases call with ⟨_ | _ | _, now⟩
  · exact Nat.le_refl _
  · rw [served]
    split
    · exact Nat.le_max_left _ _
    · exact Nat.le_refl _
  · rw [served]
    split
    · exact Nat.le_max_left _ _
    · exact Nat.le_refl _

def Unique (dedupe : Dedupe) : Prop := (dedupe.entries.map (·.reqId)).Nodup

theorem Unique.sole (unique : dedupe.Unique) (reqId : UInt32) (found : Entry → Bool)
    (ofReq : ∀ entry, found entry → entry.reqId = reqId) :
    dedupe.entries.Pairwise fun one other => found one → ¬found other := by
  refine (List.pairwise_map.mp unique).imp ?_
  intro one other differ isOne isOther
  exact differ ((ofReq one isOne).trans (ofReq other isOther).symm)

theorem Unique.eq (unique : dedupe.Unique) {one other : Entry} (isOne : one ∈ dedupe.entries)
    (isOther : other ∈ dedupe.entries) (same : one.reqId = other.reqId) : one = other :=
  List.inj_on_of_nodup_map unique isOne isOther same

theorem serve_suspended (unique : dedupe.Unique) :
    (dedupe.serve (.suspended reqId, now)).entries =
      dedupe.entries.map (·.served (.suspended reqId, now)) := by
  have sole := unique.sole reqId (fun entry => entry.reqId = reqId)
    fun entry found => of_decide_eq_true found
  show modifyLast _ _ _ = _
  rw [modifyLast_eq_map_of_sole sole]
  refine List.map_congr_left fun entry _ => ?_
  simp [Entry.served]

theorem serve_complete {status : UInt32} {detail : String} (unique : dedupe.Unique) :
    (dedupe.serve (.complete reqId status detail, now)).entries =
      dedupe.entries.map (·.served (.complete reqId status detail, now)) := by
  have sole := unique.sole reqId
    (fun entry => entry.reqId = reqId ∧ entry.outcome.isNone)
    fun entry found => (of_decide_eq_true found).1
  show modifyLast _ _ _ = _
  rw [modifyLast_eq_map_of_sole sole]
  refine List.map_congr_left fun entry _ => ?_
  simp [Entry.served]

theorem serve_keeps {call : Call × Nat} {entry : Entry} (unique : dedupe.Unique)
    (spares : Spares dedupe call) (member : entry ∈ dedupe.entries)
    (isLive : entry.outcome = none ∨ call.2 < entry.expires) :
    entry.served call ∈ (dedupe.serve call).entries := by
  rcases call with ⟨reqId | reqId | ⟨reqId, status, detail⟩, now⟩
  · show entry ∈ (dedupe.admits reqId now).2.entries
    cases found : dedupe.live reqId now with
    | some other =>
      rw [admits_of_live found]
      exact member
    | none =>
      refine (mem_admits found).mpr (.inl ?_)
      by_cases sweeps : dedupe.sweeps reqId
      · have expires : now < entry.expires :=
          isLive.elim (spares found sweeps entry member) id
        exact mem_swept_of_live member expires
      · rw [swept, if_neg sweeps]
        exact member
  · rw [serve_suspended unique]
    exact List.mem_map_of_mem member
  · rw [serve_complete unique]
    exact List.mem_map_of_mem member

theorem of_mem_serve {call : Call × Nat} {entry : Entry} (unique : dedupe.Unique)
    (member : entry ∈ (dedupe.serve call).entries) :
    (∃ old ∈ dedupe.entries, entry = old.served call) ∨
      ∃ reqId now, call = (.admits reqId, now) ∧ (dedupe.admits reqId now).1 = .fresh ∧
        entry = ⟨reqId, none, now + window⟩ := by
  rcases call with ⟨reqId | reqId | ⟨reqId, status, detail⟩, now⟩
  · cases found : dedupe.live reqId now with
    | some other =>
      rw [serve, admits_of_live found] at member
      exact .inl ⟨entry, member, rfl⟩
    | none =>
      rcases (mem_admits found).mp member with member | ⟨isFresh, rfl⟩
      · exact .inl ⟨entry, mem_of_mem_swept member, rfl⟩
      · exact .inr ⟨reqId, now, rfl, isFresh, rfl⟩
  · rw [serve_suspended unique] at member
    rcases List.mem_map.mp member with ⟨old, isOld, rfl⟩
    exact .inl ⟨old, isOld, rfl⟩
  · rw [serve_complete unique] at member
    rcases List.mem_map.mp member with ⟨old, isOld, rfl⟩
    exact .inl ⟨old, isOld, rfl⟩

theorem Unique.swept (unique : dedupe.Unique) (reqId : UInt32) (now : Nat) :
    (dedupe.swept reqId now).Unique := by
  unfold Dedupe.swept
  split
  · exact List.Nodup.sublist (List.filter_sublist.map _) unique
  · exact unique

theorem Unique.serve (unique : dedupe.Unique) (call : Call × Nat) : (dedupe.serve call).Unique := by
  rcases call with ⟨reqId | reqId | ⟨reqId, status, detail⟩, now⟩
  · show (dedupe.admits reqId now).2.Unique
    cases found : dedupe.live reqId now with
    | some other =>
      rw [admits_of_live found]
      exact unique
    | none =>
      have others := swept_spares_none found
      rw [admits_of_dead found]
      split
      · exact unique.swept reqId now
      · unfold Unique
        rw [List.map_append, List.map_singleton]
        refine List.Nodup.append (unique.swept reqId now) (List.nodup_singleton _) ?_
        intro other member same
        rw [List.mem_singleton] at same
        rcases List.mem_map.mp member with ⟨entry, isEntry, rfl⟩
        exact others entry isEntry same
  · unfold Unique
    rw [serve_suspended unique, List.map_map]
    exact (List.map_congr_left fun entry _ => Entry.served_reqId entry _) ▸ unique
  · unfold Unique
    rw [serve_complete unique, List.map_map]
    exact (List.map_congr_left fun entry _ => Entry.served_reqId entry _) ▸ unique

theorem length_serve (unique : dedupe.Unique) (bounded : dedupe.entries.length ≤ maxEntries)
    (call : Call × Nat) : (dedupe.serve call).entries.length ≤ maxEntries := by
  rcases call with ⟨reqId | reqId | ⟨reqId, status, detail⟩, now⟩
  · show (dedupe.admits reqId now).2.entries.length ≤ maxEntries
    have shorter : (dedupe.swept reqId now).entries.length ≤ dedupe.entries.length := by
      unfold swept
      split
      · exact List.length_filter_le _ _
      · exact Nat.le_refl _
    cases found : dedupe.live reqId now with
    | some other =>
      rw [admits_of_live found]
      exact bounded
    | none =>
      rw [admits_of_dead found]
      split
      · exact Nat.le_trans shorter bounded
      · simp only [List.length_append, List.length_singleton]
        omega
  · rw [serve_suspended unique, List.length_map]
    exact bounded
  · rw [serve_complete unique, List.length_map]
    exact bounded

theorem answeredAt_snoc (past : List (Call × Nat)) (call : Call × Nat) :
    answeredAt reqId (past ++ [call]) = (answeredAt reqId past).or (answeredAt reqId [call]) := by
  rw [answeredAt, List.findSome?_append]
  rfl

theorem answeredAt_of_pending {entry : Entry} {call : Call × Nat}
    (pending : (entry.served call).outcome = none) :
    entry.outcome = none ∧ answeredAt entry.reqId [call] = none := by
  rcases call with ⟨reqId | reqId | ⟨reqId, status, detail⟩, now⟩
  · exact ⟨pending, rfl⟩
  · refine ⟨?_, rfl⟩
    rw [Entry.served] at pending
    split at pending <;> exact pending
  · rw [Entry.served] at pending
    split at pending
    · cases pending
    · rename_i other
      have differs : reqId ≠ entry.reqId := by
        rintro rfl
        exact other ⟨rfl, Option.isNone_iff_eq_none.mpr pending⟩
      exact ⟨pending, by simp [answeredAt, differs]⟩

theorem pending_served {entry : Entry} {call : Call × Nat} (pending : entry.outcome = none)
    (unanswered : answeredAt entry.reqId [call] = none) : (entry.served call).outcome = none := by
  rcases call with ⟨reqId | reqId | ⟨reqId, status, detail⟩, now⟩
  · exact pending
  · rw [Entry.served]
    split <;> exact pending
  · have differs : reqId ≠ entry.reqId := by
      rintro rfl
      simp [answeredAt] at unanswered
    rw [Entry.served, if_neg fun both => differs both.1.symm]
    exact pending

theorem expires_of_answered {entry : Entry} {call : Call × Nat} {answered : Nat}
    (pending : entry.outcome = none) (found : answeredAt entry.reqId [call] = some answered) :
    answered + window ≤ (entry.served call).expires := by
  rcases call with ⟨reqId | reqId | ⟨reqId, status, detail⟩, now⟩
  · cases found
  · cases found
  · simp only [answeredAt, List.findSome?_cons, List.findSome?_nil] at found
    split at found
    · rename_i value isFound
      split at isFound
      · rename_i same
        cases isFound
        cases found
        rw [Entry.served, if_pos ⟨same.symm, Option.isNone_iff_eq_none.mpr pending⟩]
        exact Nat.le_max_right _ _
      · cases isFound
    · cases found

structure Recalls (calls : List (Call × Nat)) (dedupe : Dedupe) : Prop where
  unique : dedupe.Unique
  bounded : dedupe.entries.length ≤ maxEntries
  origin : ∀ entry ∈ dedupe.entries, ∃ first admitted since,
    calls = first ++ (.admits entry.reqId, admitted) :: since ∧
      Executes first entry.reqId admitted ∧
      (entry.outcome = none → answeredAt entry.reqId since = none)

theorem after_snoc (past : List (Call × Nat)) (call : Call × Nat) :
    after (past ++ [call]) = (after past).serve call := by
  rw [after, List.foldl_append]
  rfl

theorem Recalls.serve {past : List (Call × Nat)} (recalls : Recalls past (after past))
    (call : Call × Nat) : Recalls (past ++ [call]) ((after past).serve call) where
  unique := recalls.unique.serve call
  bounded := length_serve recalls.unique recalls.bounded call
  origin := by
    intro entry member
    rcases of_mem_serve recalls.unique member with
      ⟨old, isOld, rfl⟩ | ⟨reqId, now, rfl, isFresh, rfl⟩
    · rcases recalls.origin old isOld with ⟨first, admitted, since, split, executed, unanswered⟩
      rw [Entry.served_reqId]
      refine ⟨first, admitted, since ++ [call], by rw [split]; simp, executed, ?_⟩
      intro pending
      rcases answeredAt_of_pending pending with ⟨wasPending, notNow⟩
      rw [answeredAt_snoc, unanswered wasPending, notNow]
      rfl
    · exact ⟨past, now, [], rfl, isFresh, fun _ => rfl⟩

theorem recalls (calls : List (Call × Nat)) : Recalls calls (after calls) := by
  refine history (fun _ => True) (fun _ _ _ => trivial) ?_ ?_ calls trivial
  · exact ⟨List.nodup_nil, Nat.zero_le _, nofun⟩
  · intro past call _ recalls
    rw [after_snoc]
    exact recalls.serve call

/-- What the table keeps of every execution while no pending entry is swept out: its
pending entry, or its answer for a window. -/
def Remembers (calls : List (Call × Nat)) (dedupe : Dedupe) : Prop :=
  ∀ first reqId admitted since, calls = first ++ (.admits reqId, admitted) :: since →
    Executes first reqId admitted →
      match answeredAt reqId since with
      | none => ∃ entry ∈ dedupe.entries, entry.reqId = reqId ∧ entry.outcome = none
      | some answered => (∃ call ∈ calls, answered + window ≤ call.2) ∨
          ∃ entry ∈ dedupe.entries, entry.reqId = reqId ∧ answered + window ≤ entry.expires

theorem Remembers.serve {past : List (Call × Nat)} (remembers : Remembers past (after past))
    (call : Call × Nat) (spares : Spares (after past) call) :
    Remembers (past ++ [call]) ((after past).serve call) := by
  have unique := (recalls past).unique
  intro first reqId admitted since split executed
  rcases snoc_eq_split.mp split with ⟨rfl, rfl, rfl⟩ | ⟨middle, rfl, rfl⟩
  · have dead := (admits_fresh_iff.mp executed).1
    exact ⟨_, (mem_admits dead).mpr (.inr ⟨executed, rfl⟩), rfl, rfl⟩
  · have known := remembers first reqId admitted middle rfl executed
    rw [answeredAt_snoc]
    cases before : answeredAt reqId middle with
    | none =>
      rw [before] at known
      rcases known with ⟨entry, member, rfl, pending⟩
      have kept := serve_keeps unique spares member (.inl pending)
      cases now : answeredAt entry.reqId [call] with
      | none => exact ⟨_, kept, Entry.served_reqId entry call, pending_served pending now⟩
      | some answered =>
        exact .inr ⟨_, kept, Entry.served_reqId entry call, expires_of_answered pending now⟩
    | some answered =>
      rw [before] at known
      rcases known with ⟨other, member, old⟩ | ⟨entry, member, rfl, expires⟩
      · exact .inl ⟨other, List.mem_append_left _ member, old⟩
      · by_cases isLive : call.2 < entry.expires
        · have kept := serve_keeps unique spares member (.inr isLive)
          exact .inr ⟨_, kept, Entry.served_reqId entry call,
            Nat.le_trans expires (Entry.expires_le_served entry call)⟩
        · exact .inl ⟨call, by simp, by omega⟩

theorem remembers (calls : List (Call × Nat)) (spared : Along serve Spares default calls) :
    Remembers calls (after calls) := by
  refine history (Along serve Spares default) ?_ ?_ ?_ calls spared
  · intro past call spared
    exact (along_snoc.mp spared).1
  · intro first reqId admitted since split
    simp at split
  · intro past call spared remembers
    rw [after_snoc]
    exact remembers.serve call (along_snoc.mp spared).2

theorem atMostOnce_of_spares {calls : List (Call × Nat)} (ordered : Ordered calls)
    (spared : Along serve Spares default calls) : AtMostOnce calls := by
  rintro before reqId now later rfl executed first admitted since split executedFirst
  rcases along_append.mp spared with ⟨sparedBefore, spares, _⟩
  rcases admits_fresh_iff.mp executed with ⟨dead, _⟩
  have known := remembers before sparedBefore first reqId admitted since split executedFirst
  cases found : answeredAt reqId since with
  | none =>
    rw [found] at known
    rcases known with ⟨entry, member, rfl, pending⟩
    have isSwept : (after before).sweeps entry.reqId := by
      have isFound : (after before).entries.any (·.reqId = entry.reqId) :=
        List.any_eq_true.mpr ⟨entry, member, decide_eq_true rfl⟩
      simp [sweeps, isFound]
    have isLive := spares dead isSwept entry member pending
    have expired := live_eq_none.mp dead entry member rfl
    omega
  | some answered =>
    rw [found] at known
    refine ⟨answered, rfl, ?_⟩
    rcases known with ⟨call, member, old⟩ | ⟨entry, member, same, expires⟩
    · exact Nat.le_trans old ((ordered_snoc.mp ordered.before).2 call member)
    · exact Nat.le_trans expires (live_eq_none.mp dead entry member same)

theorem keepsLive_of_spares {calls : List (Call × Nat)}
    (spared : Along serve Spares default calls) : KeepsLive calls := by
  rintro before call now later rfl
  refine ⟨(recalls _).bounded, ?_⟩
  intro entry member isLive
  rw [after_snoc]
  have kept := serve_keeps (recalls before).unique (along_append.mp spared).2.1 member isLive
  exact ⟨_, kept, Entry.served_reqId entry _, Entry.expires_le_served entry _⟩

theorem spares_of_once {calls : List (Call × Nat)} (once : AtMostOnce calls)
    (keeps : KeepsLive calls) : Along serve Spares default calls := by
  by_contra fails
  rcases not_along fails with ⟨before, ⟨call, now⟩, later, rfl, swept⟩
  rcases call with reqId | reqId | ⟨reqId, status, detail⟩
  · simp only [Spares, not_forall] at swept
    rcases swept with ⟨dead, sweeps, entry, member, pending, expired⟩
    rcases (keeps before _ now later rfl).2 entry member (.inl pending) with ⟨kept, isKept, same, _⟩
    rw [after_snoc] at isKept
    rcases (mem_admits dead).mp isKept with isKept | ⟨executed, rfl⟩
    · have isEntry := (recalls before).unique.eq (mem_of_mem_swept isKept) member same
      rw [isEntry, Dedupe.swept, if_pos sweeps, List.mem_filter] at isKept
      exact expired (of_decide_eq_true isKept.2)
    · rcases (recalls before).origin entry member with
        ⟨first, admitted, since, split, executedFirst, unanswered⟩
      rw [← same] at split executedFirst unanswered
      rcases once before reqId now later rfl executed first admitted since split executedFirst with
        ⟨answered, found, _⟩
      rw [unanswered pending] at found
      cases found
  · exact swept trivial
  · exact swept trivial

/-- Requests are executed at most once exactly when no call sweeps a pending one out. -/
theorem once_iff_spares (calls : List (Call × Nat)) (ordered : Ordered calls) :
    (AtMostOnce calls ∧ KeepsLive calls) ↔ Along serve Spares default calls := by
  constructor
  · rintro ⟨once, keeps⟩
    exact spares_of_once once keeps
  · intro spared
    exact ⟨atMostOnce_of_spares ordered spared, keepsLive_of_spares spared⟩

/-- A prompt that waited behind another for longer than its entry is kept. -/
def queuedPrompt : List (Call × Nat) :=
  [(.admits 7, 0), (.suspended 7, 0), (.admits 7, seconds 151), (.complete 7 0 "", seconds 200)]

theorem once_iff_spares_queued_prompt :
    (AtMostOnce queuedPrompt ∧ KeepsLive queuedPrompt) ↔ Along serve Spares default queuedPrompt :=
  once_iff_spares queuedPrompt (by decide)

theorem queued_prompt_runs_twice :
    Ordered queuedPrompt ∧ Executes [] 7 0 ∧ ¬(AtMostOnce queuedPrompt ∧ KeepsLive queuedPrompt) := by
  refine ⟨by decide, by decide, ?_⟩
  rintro ⟨once, _⟩
  have answered := once [(.admits 7, 0), (.suspended 7, 0)] 7 (seconds 151)
    [(.complete 7 0 "", seconds 200)] rfl (by decide) [] 0 [(.suspended 7, 0)] rfl (by decide)
  rcases answered with ⟨answered, found, _⟩
  cases found

end Dedupe

end EclipseOS.Abyss
