import EclipseOS.Abyss.Consent
import EclipseOS.Foundation.History
import Mathlib.Data.List.Perm.Basic

/-! # The consent queue

Requests that wait for the human, the one on screen, and the answers not yet
collected. -/

namespace EclipseOS.Abyss

structure Parked where
  agent : UInt64
  req : UInt64
  ask : Ask
  deriving DecidableEq

def Parked.key (parked : Parked) : UInt64 × UInt64 := (parked.agent, parked.req)

def Resolved.key (resolved : Resolved) : UInt64 × UInt64 := (resolved.agent, resolved.req)

inductive ParkRefused where
  | rateLimited
  | duplicate
  deriving DecidableEq

/-- `parked` is a map in key order. -/
structure Queue where
  parked : List (UInt64 × Parked)
  order : List UInt64
  showing : Option UInt64
  next : UInt64
  resolved : List Resolved
  deriving DecidableEq

namespace Queue

def tokenBase : UInt64 := (1 : UInt64) <<< 62

def default : Queue := ⟨[], [], none, 0, []⟩

/-- `BTreeMap::insert`. -/
def insert (token : UInt64) (parked : Parked) : List (UInt64 × Parked) → List (UInt64 × Parked)
  | [] => [(token, parked)]
  | entry :: entries =>
    if token < entry.1 then (token, parked) :: entry :: entries
    else if token = entry.1 then (token, parked) :: entries
    else entry :: insert token parked entries

def get (queue : Queue) (token : UInt64) : Option Parked :=
  (queue.parked.find? (·.1 = token)).map (·.2)

def count (queue : Queue) (agent : UInt64) : Nat :=
  (queue.parked.filter (·.2.agent = agent)).length

def park (queue : Queue) (agent req : UInt64) (ask : Ask) : Except ParkRefused UInt64 × Queue :=
  if queue.parked.any fun entry => entry.2.agent = agent ∧ entry.2.req = req then
    (.error .duplicate, queue)
  else if maxPerAgent ≤ queue.count agent then
    (.error .rateLimited, queue)
  else
    let next := queue.next + 1
    let token := tokenBase ||| next
    (.ok token,
      { queue with
        parked := insert token ⟨agent, req, ask⟩ queue.parked
        order := queue.order ++ [token]
        next })

/-- The oldest parked request not yet shown, marked as showing. -/
def nextToShow (queue : Queue) : Option (UInt64 × Ask) × Queue :=
  if queue.showing.isSome then
    (none, queue)
  else
    match queue.order with
    | [] => (none, queue)
    | token :: _ =>
      ((queue.get token).map fun parked => (token, parked.ask),
        { queue with showing := some token })

/-- Takes a token out of the order and off the screen. -/
def leave (queue : Queue) (token : UInt64) : Queue :=
  { queue with
    order := queue.order.filter (· ≠ token)
    showing := if queue.showing = some token then none else queue.showing }

/-- Takes a parked request out of the map, with its verdict. -/
def resolve (queue : Queue) (token : UInt64) (parked : Parked) (verdict : Verdict) : Queue :=
  { queue with
    parked := queue.parked.filter (·.1 ≠ token)
    resolved := queue.resolved ++ [⟨parked.agent, parked.req, verdict⟩] }

/-- Turns the answer to prompt `token` into a verdict. -/
def answer (queue : Queue) (token : UInt64) (answer : ConsentAnswer) (timedOut : Bool) :
    Option Resolved × Queue :=
  match queue.get token with
  | none => (none, queue)
  | some parked =>
    let verdict := parked.ask.verdict answer timedOut
    (some ⟨parked.agent, parked.req, verdict⟩, (queue.resolve token parked verdict).leave token)

def withdrawOne (queue : Queue) (token : UInt64) : Queue :=
  match queue.get token with
  | none => queue.leave token
  | some parked => (queue.resolve token parked .withdrawn).leave token

/-- Withdraws everything `agent` has parked. Answers with the token on screen if it was
one of them. -/
def withdraw (queue : Queue) (agent : UInt64) : Option UInt64 × Queue :=
  let gone := (queue.parked.filter (·.2.agent = agent)).map (·.1)
  (queue.showing.filter (· ∈ gone), gone.foldl withdrawOne queue)

/-- Answers since the last call, oldest first. -/
def takeResolved (queue : Queue) : List Resolved × Queue :=
  (queue.resolved, { queue with resolved := [] })

inductive Call where
  | park (agent req : UInt64) (ask : Ask)
  | nextToShow
  | answer (token : UInt64) (answer : ConsentAnswer) (timedOut : Bool)
  | withdraw (agent : UInt64)
  | takeResolved
  deriving DecidableEq

structure Run where
  queue : Queue
  accepted : List (UInt64 × UInt64)
  taken : List Resolved
  deriving DecidableEq

namespace Run

def serve (run : Run) : Call → Run
  | .park agent req ask =>
    match run.queue.park agent req ask with
    | (.ok _, queue) => { run with queue, accepted := run.accepted ++ [(agent, req)] }
    | (.error _, queue) => { run with queue }
  | .nextToShow => { run with queue := run.queue.nextToShow.2 }
  | .answer token answer timedOut => { run with queue := (run.queue.answer token answer timedOut).2 }
  | .withdraw agent => { run with queue := (run.queue.withdraw agent).2 }
  | .takeResolved =>
    { run with
      queue := run.queue.takeResolved.2
      taken := run.taken ++ run.queue.takeResolved.1 }

def after (calls : List Call) : Run := calls.foldl serve ⟨default, [], []⟩

def resolutions (run : Run) : List Resolved := run.taken ++ run.queue.resolved

end Run

/-- The order lists the parked keys, each once; the shown prompt is one of them; no agent
has more parked than its limit. -/
structure Sound (queue : Queue) : Prop where
  keys : (queue.parked.map (·.1)).Nodup
  order : queue.order.Nodup
  listed : ∀ token, token ∈ queue.order ↔ token ∈ queue.parked.map (·.1)
  shown : ∀ token, queue.showing = some token → token ∈ queue.order
  apart : (queue.parked.map (·.2.key)).Nodup
  limited : ∀ agent, queue.count agent ≤ maxPerAgent

/-- Of every request, the accepted parks are its resolutions and the one that is still
parked. -/
def Run.Accounted (run : Run) : Prop :=
  ∀ key, run.accepted.count key =
    (run.resolutions.map (·.key)).count key +
      if key ∈ run.queue.parked.map (·.2.key) then 1 else 0

variable {queue : Queue} {token : UInt64} {parked : Parked}

theorem mem_of_get (found : queue.get token = some parked) : (token, parked) ∈ queue.parked := by
  rcases Option.map_eq_some_iff.mp found with ⟨entry, isFirst, rfl⟩
  have same : entry.1 = token := by simpa using List.find?_some isFirst
  exact same ▸ List.mem_of_find?_eq_some isFirst

theorem get_isSome : (queue.get token).isSome ↔ token ∈ queue.parked.map (·.1) := by
  simp [get, List.find?_isSome]

theorem insert_perm {entries : List (UInt64 × Parked)} (new : token ∉ entries.map (·.1)) :
    (insert token parked entries).Perm ((token, parked) :: entries) := by
  induction entries with
  | nil => exact .refl _
  | cons entry entries induction =>
    rw [List.map_cons, List.mem_cons, not_or] at new
    rw [insert]
    split
    · exact .refl _
    · rw [if_neg new.1]
      exact ((induction new.2).cons entry).trans (List.Perm.swap ..)

theorem perm_remove {entries : List (UInt64 × Parked)} (keys : (entries.map (·.1)).Nodup)
    (member : (token, parked) ∈ entries) :
    entries.Perm ((token, parked) :: entries.filter (·.1 ≠ token)) := by
  induction entries with
  | nil => cases member
  | cons entry entries induction =>
    rw [List.map_cons, List.nodup_cons] at keys
    rcases List.mem_cons.mp member with rfl | member
    · have others : entries.filter (·.1 ≠ token) = entries := by
        rw [List.filter_eq_self]
        intro other isOther
        refine decide_eq_true fun same => keys.1 ?_
        exact List.mem_map.mpr ⟨other, isOther, same⟩
      rw [List.filter_cons_of_neg (by simp), others]
    · have differs : entry.1 ≠ token := by
        intro same
        exact keys.1 (List.mem_map.mpr ⟨_, member, same.symm⟩)
      rw [List.filter_cons_of_pos (by simpa using differs)]
      exact ((induction keys.2 member).cons entry).trans (List.Perm.swap ..)

theorem Sound.leave (sound : queue.Sound) (found : queue.get token = some parked)
    (verdict : Verdict) : ((queue.resolve token parked verdict).leave token).Sound where
  keys := sound.keys.sublist (List.filter_sublist.map _)
  order := sound.order.filter _
  listed := by
    intro other
    show other ∈ queue.order.filter _ ↔ other ∈ (queue.parked.filter _).map _
    rw [List.mem_filter, sound.listed]
    constructor
    · rintro ⟨member, differs⟩
      rcases List.mem_map.mp member with ⟨entry, isEntry, rfl⟩
      exact List.mem_map_of_mem (List.mem_filter.mpr ⟨isEntry, differs⟩)
    · intro member
      rcases List.mem_map.mp member with ⟨entry, isEntry, rfl⟩
      rcases List.mem_filter.mp isEntry with ⟨isEntry, differs⟩
      exact ⟨List.mem_map_of_mem isEntry, differs⟩
  shown := by
    intro other shown
    change (if queue.showing = some token then none else queue.showing) = some other at shown
    by_cases isShown : queue.showing = some token
    · rw [if_pos isShown] at shown
      cases shown
    · rw [if_neg isShown] at shown
      refine List.mem_filter.mpr ⟨sound.shown other shown, decide_eq_true ?_⟩
      rintro rfl
      exact isShown shown
  apart := sound.apart.sublist (List.filter_sublist.map _)
  limited := by
    intro agent
    refine Nat.le_trans ?_ (sound.limited agent)
    exact (List.filter_sublist.filter _).length_le

theorem leave_of_absent (sound : queue.Sound) (absent : queue.get token = none) :
    queue.leave token = queue := by
  have unlisted : token ∉ queue.order := by
    rw [sound.listed, ← get_isSome, absent]
    exact Bool.false_ne_true
  have unshown : queue.showing ≠ some token := fun shown => unlisted (sound.shown token shown)
  have others : queue.order.filter (· ≠ token) = queue.order := by
    rw [List.filter_eq_self]
    intro other isOther
    refine decide_eq_true ?_
    rintro rfl
    exact unlisted isOther
  rw [leave, others, if_neg unshown]

/-- Every request that is no longer parked is resolved once more than before. -/
structure Settles (queue settled : Queue) : Prop where
  sound : settled.Sound
  next : settled.next = queue.next
  gone : ∃ gone, queue.parked.Perm (gone ++ settled.parked) ∧
    settled.resolved.map (·.key) = queue.resolved.map (·.key) ++ gone.map (·.2.key)

theorem Settles.refl (sound : queue.Sound) : Settles queue queue :=
  ⟨sound, rfl, [], .refl _, (List.append_nil _).symm⟩

theorem Settles.trans {middle settled : Queue} (first : Settles queue middle)
    (second : Settles middle settled) : Settles queue settled := by
  rcases first.gone with ⟨gone, parked, resolved⟩
  rcases second.gone with ⟨gone', parked', resolved'⟩
  refine ⟨second.sound, second.next.trans first.next, gone ++ gone', ?_, ?_⟩
  · rw [List.append_assoc]
    exact parked.trans (parked'.append_left gone)
  · rw [resolved', resolved, List.map_append, List.append_assoc]

theorem settles_resolve (sound : queue.Sound) (found : queue.get token = some parked)
    (verdict : Verdict) : Settles queue ((queue.resolve token parked verdict).leave token) :=
  ⟨sound.leave found verdict, rfl, [(token, parked)], perm_remove sound.keys (mem_of_get found),
    List.map_append⟩

theorem settles_answer (sound : queue.Sound) (token : UInt64) (answer : ConsentAnswer)
    (timedOut : Bool) : Settles queue (queue.answer token answer timedOut).2 := by
  unfold Queue.answer
  cases found : queue.get token with
  | none => exact .refl sound
  | some parked => exact settles_resolve sound found _

theorem settles_withdrawOne (sound : queue.Sound) (token : UInt64) :
    Settles queue (queue.withdrawOne token) := by
  unfold withdrawOne
  cases found : queue.get token with
  | none =>
    simp only [leave_of_absent sound found]
    exact .refl sound
  | some parked => exact settles_resolve sound found _

theorem settles_withdraw (sound : queue.Sound) (agent : UInt64) :
    Settles queue (queue.withdraw agent).2 := by
  show Settles queue (List.foldl withdrawOne queue _)
  generalize (queue.parked.filter (·.2.agent = agent)).map (·.1) = gone
  induction gone generalizing queue with
  | nil => exact .refl sound
  | cons token gone induction =>
    have first := settles_withdrawOne sound token
    exact first.trans (induction first.sound)

theorem Sound.nextToShow (sound : queue.Sound) : queue.nextToShow.2.Sound := by
  unfold Queue.nextToShow
  split
  · exact sound
  · split
    · exact sound
    · rename_i token others isOrder
      refine { sound with shown := ?_ }
      intro shown isShown
      cases isShown
      show token ∈ queue.order
      rw [isOrder]
      exact List.mem_cons_self ..

theorem of_park_ok {agent req : UInt64} {ask : Ask} {after : Queue}
    (accepted : queue.park agent req ask = (.ok token, after)) :
    (agent, req) ∉ queue.parked.map (·.2.key) ∧ queue.count agent < maxPerAgent ∧
      token = tokenBase ||| (queue.next + 1) ∧
      after = { queue with
        parked := insert token ⟨agent, req, ask⟩ queue.parked
        order := queue.order ++ [token]
        next := queue.next + 1 } := by
  unfold Queue.park at accepted
  split at accepted
  · cases accepted
  · rename_i unique
    split at accepted
    · cases accepted
    · rename_i room
      cases accepted
      refine ⟨?_, Nat.lt_of_not_le room, rfl, rfl⟩
      intro member
      rcases List.mem_map.mp member with ⟨entry, isEntry, same⟩
      refine unique (List.any_eq_true.mpr ⟨entry, isEntry, ?_⟩)
      cases same
      simp

theorem park_error {agent req : UInt64} {ask : Ask} {refused : ParkRefused} {after : Queue}
    (isRefused : queue.park agent req ask = (.error refused, after)) : after = queue := by
  unfold Queue.park at isRefused
  split at isRefused
  · cases isRefused
    rfl
  · split at isRefused
    · cases isRefused
      rfl
    · cases isRefused

theorem Sound.park (sound : queue.Sound) {agent req : UInt64} {ask : Ask} {after : Queue}
    (accepted : queue.park agent req ask = (.ok token, after))
    (new : token ∉ queue.parked.map (·.1)) :
    after.Sound ∧ after.parked.Perm ((token, ⟨agent, req, ask⟩) :: queue.parked) := by
  rcases of_park_ok accepted with ⟨apart, room, _, rfl⟩
  have parked : (insert token ⟨agent, req, ask⟩ queue.parked).Perm _ := insert_perm new
  refine ⟨⟨?_, ?_, ?_, ?_, ?_, ?_⟩, parked⟩
  · exact (parked.map _).nodup_iff.mpr (List.nodup_cons.mpr ⟨new, sound.keys⟩)
  · refine List.Nodup.append sound.order (List.nodup_singleton _) ?_
    intro other listed same
    rw [List.mem_singleton.mp same] at listed
    exact new ((sound.listed token).mp listed)
  · intro other
    rw [(parked.map _).mem_iff, List.map_cons, List.mem_cons, List.mem_append,
      List.mem_singleton, sound.listed, or_comm]
  · intro other shown
    exact List.mem_append_left _ (sound.shown other shown)
  · exact (parked.map _).nodup_iff.mpr (List.nodup_cons.mpr ⟨apart, sound.apart⟩)
  · intro other
    have counted := (parked.filter (·.2.agent = other)).length_eq
    show (List.filter _ _).length ≤ _
    rw [counted]
    by_cases same : agent = other
    · subst same
      rw [List.filter_cons_of_pos (by simp), List.length_cons]
      exact room
    · rw [List.filter_cons_of_neg (by simpa using same)]
      exact sound.limited other

theorem token_toNat {count : Nat} (few : count ≤ 2 ^ 62) :
    (tokenBase ||| UInt64.ofNat count).toNat = 2 ^ 62 + count % 2 ^ 62 := by
  have base : tokenBase.toNat = 2 ^ 62 := by decide
  rw [UInt64.toNat_or, base, UInt64.toNat_ofNat', Nat.mod_eq_of_lt (by omega)]
  rcases Nat.lt_or_eq_of_le few with less | rfl
  · have disjoint := Nat.two_pow_add_eq_or_of_lt less 1
    rw [Nat.mul_one] at disjoint
    rw [← disjoint, Nat.mod_eq_of_lt less]
  · decide

namespace Run

/-- What holds after every run of no more parks than there are tokens. -/
structure Holds (run : Run) : Prop where
  sound : run.queue.Sound
  accounted : run.accepted.Perm
    (run.resolutions.map (·.key) ++ run.queue.parked.map (·.2.key))
  next : run.queue.next = UInt64.ofNat run.accepted.length
  issued : ∀ token ∈ run.queue.parked.map (·.1), ∃ count, 1 ≤ count ∧
    count ≤ run.accepted.length ∧ token = tokenBase ||| UInt64.ofNat count

variable {run : Run}

theorem Holds.settle (holds : run.Holds) {settled : Queue} (settles : Settles run.queue settled) :
    Holds { run with queue := settled } where
  sound := settles.sound
  accounted := by
    rcases settles.gone with ⟨gone, parked, resolved⟩
    refine holds.accounted.trans ?_
    show (List.map _ (run.taken ++ run.queue.resolved) ++ _).Perm
      (List.map _ (run.taken ++ settled.resolved) ++ _)
    rw [List.map_append, List.map_append, resolved, List.append_assoc, List.append_assoc,
      List.append_assoc]
    refine (List.Perm.append_left _ (List.Perm.append_left _ ?_))
    rw [← List.map_append]
    exact parked.map _
  next := settles.next.trans holds.next
  issued := by
    rcases settles.gone with ⟨gone, parked, _⟩
    intro token member
    refine holds.issued token ?_
    rw [(parked.map _).mem_iff, List.map_append]
    exact List.mem_append_right _ member

theorem Holds.nextToShow (holds : run.Holds) :
    Holds { run with queue := run.queue.nextToShow.2 } := by
  have same : run.queue.nextToShow.2.parked = run.queue.parked ∧
      run.queue.nextToShow.2.resolved = run.queue.resolved ∧
      run.queue.nextToShow.2.next = run.queue.next := by
    unfold Queue.nextToShow
    split
    · exact ⟨rfl, rfl, rfl⟩
    · split <;> exact ⟨rfl, rfl, rfl⟩
  exact ⟨holds.sound.nextToShow, by simpa [resolutions, same] using holds.accounted,
    by simpa [same] using holds.next, by simpa [same] using holds.issued⟩

theorem Holds.takeResolved (holds : run.Holds) : (run.serve .takeResolved).Holds where
  sound := ⟨holds.sound.keys, holds.sound.order, holds.sound.listed, holds.sound.shown,
    holds.sound.apart, holds.sound.limited⟩
  accounted := by
    have taken : (run.serve .takeResolved).resolutions = run.resolutions := List.append_nil _
    rw [taken]
    exact holds.accounted
  next := holds.next
  issued := holds.issued

theorem Holds.park (holds : run.Holds) {agent req : UInt64} {ask : Ask} {token : UInt64}
    {parked : Queue} (accepted : run.queue.park agent req ask = (.ok token, parked))
    (few : run.accepted.length + 1 ≤ 2 ^ 62) :
    Holds { run with queue := parked, accepted := run.accepted ++ [(agent, req)] } := by
  have isNext : token = tokenBase ||| UInt64.ofNat (run.accepted.length + 1) := by
    rw [(of_park_ok accepted).2.2.1, holds.next]
    simp
  have new : token ∉ run.queue.parked.map (·.1) := by
    intro member
    rcases holds.issued token member with ⟨count, positive, older, same⟩
    have alike := congrArg UInt64.toNat (isNext.symm.trans same)
    rw [token_toNat few, token_toNat (by omega)] at alike
    omega
  rcases holds.sound.park accepted new with ⟨sound, perm⟩
  have isAfter := (of_park_ok accepted).2.2.2
  refine ⟨sound, ?_, ?_, ?_⟩
  · have resolved : parked.resolved = run.queue.resolved := by rw [isAfter]
    show (run.accepted ++ [(agent, req)]).Perm
      (List.map _ (run.taken ++ parked.resolved) ++ _)
    rw [resolved]
    refine (List.perm_append_singleton _ _).trans ?_
    refine (holds.accounted.cons _).trans ?_
    refine List.perm_middle.symm.trans ?_
    exact List.Perm.append_left _ (perm.symm.map fun entry : UInt64 × Parked => entry.2.key)
  · show parked.next = _
    rw [isAfter]
    simp [holds.next]
  · intro other member
    rw [(perm.map _).mem_iff, List.map_cons, List.mem_cons] at member
    show ∃ count, _ ∧ count ≤ (run.accepted ++ [(agent, req)]).length ∧ _
    rw [List.length_append, List.length_singleton]
    rcases member with rfl | member
    · exact ⟨run.accepted.length + 1, by omega, by omega, isNext⟩
    · rcases holds.issued other member with ⟨count, positive, older, same⟩
      exact ⟨count, positive, by omega, same⟩

theorem Holds.serve (holds : run.Holds) (call : Call)
    (few : (run.serve call).accepted.length ≤ 2 ^ 62) : (run.serve call).Holds := by
  cases call with
  | park agent req ask =>
    cases isParked : run.queue.park agent req ask with
    | mk answer parked =>
      simp only [Run.serve, isParked] at few ⊢
      cases answer with
      | ok token => exact holds.park isParked (by simpa using few)
      | error refused =>
        rw [park_error isParked]
        exact holds
  | nextToShow => exact holds.nextToShow
  | answer token answer timedOut => exact holds.settle (settles_answer holds.sound _ _ _)
  | withdraw agent => exact holds.settle (settles_withdraw holds.sound _)
  | takeResolved => exact holds.takeResolved

theorem accepted_serve (call : Call) : run.accepted.length ≤ (run.serve call).accepted.length := by
  cases call with
  | park agent req ask =>
    rcases isParked : run.queue.park agent req ask with ⟨refused | token, parked⟩
    · rw [Run.serve, isParked]
    · simp [Run.serve, isParked]
  | _ => exact Nat.le_refl _

theorem after_snoc (past : List Call) (call : Call) :
    after (past ++ [call]) = (after past).serve call := by
  rw [after, List.foldl_append]
  rfl

theorem holds_after (calls : List Call) (few : (after calls).accepted.length ≤ 2 ^ 62) :
    (after calls).Holds := by
  refine Foundation.history (fun calls => (after calls).accepted.length ≤ 2 ^ 62) ?_ ?_ ?_ calls few
  · intro past call few
    rw [after_snoc] at few
    exact Nat.le_trans (accepted_serve call) few
  · refine ⟨⟨List.nodup_nil, List.nodup_nil, by simp [after, default], nofun, List.nodup_nil, ?_⟩,
      .refl _, rfl, by simp [after, default]⟩
    intro agent
    exact Nat.zero_le _
  · intro past call few holds
    rw [after_snoc] at few ⊢
    exact holds.serve call few

/-- After every run of at most 2^62 accepted parks the queue is sound, and every accepted
park has led to one resolution or is still parked. -/
theorem parks_resolve_once (calls : List Call) (few : (after calls).accepted.length ≤ 2 ^ 62) :
    (after calls).queue.Sound ∧ (after calls).Accounted := by
  have holds := holds_after calls few
  refine ⟨holds.sound, ?_⟩
  intro key
  rw [holds.accounted.count_eq, List.count_append]
  congr 1
  split
  · rename_i member
    exact List.count_eq_one_of_mem holds.sound.apart member
  · rename_i absent
    exact List.count_eq_zero_of_not_mem absent

def plainAsk : Ask := ⟨"agent:a", "Click", "", "", "(no task)", none, none, "click", "click"⟩

theorem parks_resolve_once_withdrawn :
    (after [.park 1 1 plainAsk, .nextToShow, .withdraw 1]).queue.Sound ∧
      (after [.park 1 1 plainAsk, .nextToShow, .withdraw 1]).Accounted :=
  parks_resolve_once [.park 1 1 plainAsk, .nextToShow, .withdraw 1] (by decide)

/-! ## The counter meets the base's own bit -/

/-- One request waits while another agent parks and goes away, as often as said. -/
def churn (times : Nat) : List Call :=
  .park 0 0 plainAsk :: (List.replicate times [Call.park 1 0 plainAsk, .withdraw 1]).flatten

def wrapped : List Call := churn (2 ^ 62 - 1) ++ [.park 1 0 plainAsk]

def firstToken : UInt64 := tokenBase ||| 1

/-- The first request still waits and nothing answered it. -/
structure Waits (times : Nat) (run : Run) : Prop where
  parked : run.queue.parked = [(firstToken, ⟨0, 0, plainAsk⟩)]
  order : run.queue.order = [firstToken]
  showing : run.queue.showing = none
  next : run.queue.next = UInt64.ofNat (times + 1)
  accepted : (0, 0) ∈ run.accepted
  unanswered : (0, 0) ∉ run.resolutions.map (·.key)

theorem churn_succ (times : Nat) :
    churn (times + 1) = churn times ++ [.park 1 0 plainAsk] ++ [.withdraw 1] := by
  rw [churn, List.replicate_succ', List.flatten_append]
  simp [churn]

theorem withdraw_parked {token : UInt64} (other : token ≠ firstToken) (next : UInt64)
    (resolved : List Resolved) :
    ((⟨insert token ⟨1, 0, plainAsk⟩ [(firstToken, ⟨0, 0, plainAsk⟩)], [firstToken, token], none,
      next, resolved⟩ : Queue).withdraw 1).2 =
      ⟨[(firstToken, ⟨0, 0, plainAsk⟩)], [firstToken], none, next,
        resolved ++ [⟨1, 0, .withdrawn⟩]⟩ := by
  have apart : firstToken ≠ token := other.symm
  by_cases before : token < firstToken
  · simp [insert, before, Queue.withdraw, withdrawOne, get, resolve, leave, apart]
  · simp [insert, before, other, Queue.withdraw, withdrawOne, get, resolve, leave, apart]

theorem Waits.churn {times : Nat} (waits : Waits times run) (few : times + 2 ≤ 2 ^ 62) :
    Waits (times + 1) ((run.serve (.park 1 0 plainAsk)).serve (.withdraw 1)) := by
  rcases run with ⟨⟨parked, order, showing, next, resolved⟩, accepted, taken⟩
  rcases waits with ⟨isParked, isOrder, isShowing, isNext, isAccepted, unanswered⟩
  simp only at isParked isOrder isShowing isNext isAccepted
  subst isParked isOrder isShowing isNext
  have other : tokenBase ||| UInt64.ofNat (times + 2) ≠ firstToken := by
    intro same
    have alike := congrArg UInt64.toNat same
    have isFirst : firstToken = tokenBase ||| UInt64.ofNat 1 := rfl
    rw [isFirst, token_toNat few, token_toNat (by decide)] at alike
    omega
  have isNext : UInt64.ofNat (times + 1) + 1 = UInt64.ofNat (times + 2) :=
    (UInt64.ofNat_add (times + 1) 1).symm
  generalize isToken : tokenBase ||| UInt64.ofNat (times + 2) = token at other
  have isParked : (⟨[(firstToken, ⟨0, 0, plainAsk⟩)], [firstToken], none,
      UInt64.ofNat (times + 1), resolved⟩ : Queue).park 1 0 plainAsk =
        (.ok token, ⟨insert token ⟨1, 0, plainAsk⟩ [(firstToken, ⟨0, 0, plainAsk⟩)],
          [firstToken, token], none, UInt64.ofNat (times + 2), resolved⟩) := by
    simp only [Queue.park, isNext, isToken]
    rfl
  simp only [Run.serve, isParked, withdraw_parked other]
  refine ⟨rfl, rfl, rfl, rfl, List.mem_append_left _ isAccepted, ?_⟩
  simp only [resolutions, List.map_append, List.mem_append] at unanswered ⊢
  simpa [Resolved.key] using unanswered

theorem waits_churn (times : Nat) (few : times + 1 ≤ 2 ^ 62) : Waits times (after (churn times)) := by
  induction times with
  | zero => exact ⟨rfl, rfl, rfl, rfl, by decide, by decide⟩
  | succ times induction =>
    rw [churn_succ, after_snoc, after_snoc]
    exact (induction (by omega)).churn few

/-- The park after the counter has wrapped replaces the first request, which is never
answered. -/
theorem wrapped_loses_a_park :
    ¬((after wrapped).queue.Sound ∧ (after wrapped).Accounted) := by
  rintro ⟨_, accounted⟩
  have waits := waits_churn (2 ^ 62 - 1) (by decide)
  have balance := accounted (0, 0)
  rw [wrapped, after_snoc] at balance
  generalize after (churn (2 ^ 62 - 1)) = run at waits balance
  rcases run with ⟨⟨parked, order, showing, next, resolved⟩, accepted, taken⟩
  rcases waits with ⟨isParked, isOrder, isShowing, isNext, isAccepted, unanswered⟩
  simp only at isParked isOrder isShowing isNext isAccepted
  subst isParked isOrder isShowing isNext
  have isToken : tokenBase ||| (UInt64.ofNat (2 ^ 62 - 1 + 1) + 1) = firstToken := by decide
  have isParked : (⟨[(firstToken, ⟨0, 0, plainAsk⟩)], [firstToken], none,
      UInt64.ofNat (2 ^ 62 - 1 + 1), resolved⟩ : Queue).park 1 0 plainAsk =
        (.ok firstToken, ⟨[(firstToken, ⟨1, 0, plainAsk⟩)], [firstToken, firstToken], none,
          UInt64.ofNat (2 ^ 62 - 1 + 1) + 1, resolved⟩) := by
    simp only [Queue.park, isToken]
    rfl
  have none : ((taken ++ resolved).map (·.key)).count (0, 0) = 0 :=
    List.count_eq_zero_of_not_mem unanswered
  have positive : 0 < (accepted ++ [(1, 0)]).count (0, 0) :=
    List.count_pos_iff.mpr (List.mem_append_left _ isAccepted)
  simp only [Run.serve, isParked, resolutions, none] at balance
  rw [if_neg (by decide)] at balance
  omega

end Run

end Queue

end EclipseOS.Abyss
