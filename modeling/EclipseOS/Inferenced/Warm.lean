import EclipseOS.Foundation.History
import EclipseOS.Inferenced.Session

/-! # Warm sessions

Requests of one task, one after another. What a process has been told and what it has
said is read off the exchanges with it; a request that is fed to a live session takes up
where they end. -/

namespace EclipseOS.Inferenced

open Foundation

inductive Input where
  | request (req : Request) (world : World)
  /-- The slot is closed, reaped or forgotten. -/
  | closed
  /-- A session of another task is started. -/
  | elsewhere

structure Exchange where
  request : Request
  reply : Reply

namespace Exchange

variable (exchange : Exchange)

def messages : List Json := exchange.request.messages.asArray.getD []

def fedTo (number : Nat) : Bool := exchange.reply.fed.any (·.1 = number)

/-- The process was started for this request. -/
def starts (number : Nat) : Bool :=
  exchange.reply.fed.any fun fed => fed.1 = number ∧ fed.2.isFresh

def produced : List (List Json) :=
  match exchange.reply.answer with
  | .ok completion => [completion.content]
  | .error _ => []

/-- The messages the exchange adds to what the process knows: all of them at its start,
later the last one, and then its own. -/
def told : List Json :=
  (if exchange.reply.fed.any (·.2.isFresh) then exchange.messages
    else exchange.messages.getLast?.toList) ++
    exchange.produced.map assistant

end Exchange

def withProcess (past : List Exchange) (number : Nat) : List Exchange :=
  past.filter (·.fedTo number)

/-- The history a process has been given and has produced. -/
def told (past : List Exchange) (number : Nat) : List Json :=
  (withProcess past number).flatMap (·.told)

def waiting (past : List Exchange) (number : Nat) : Finset String :=
  match ((withProcess past number).flatMap (·.produced)).getLast? with
  | some content => callsOf content
  | none => ∅

def step (reached : State × List Exchange) : Input → State × List Exchange
  | .request req world =>
    let (state, reply) := complete world req reached.1
    (state, reached.2 ++ [⟨req, reply⟩])
  | .closed => ({ reached.1 with session := none }, reached.2)
  | .elsewhere => ({ reached.1 with seq := reached.1.seq + 1 }, reached.2)

def after (inputs : List Input) : State × List Exchange := inputs.foldl step (⟨none, 0⟩, [])

/-- What is fed to a live session carries on where the session is. -/
structure Continues (past : List Exchange) (exchange : Exchange) (number : Nat) (feed : Feed) :
    Prop where
  started : ∃ first ∈ past, first.starts number
  key : ∀ first ∈ past, first.starts number → Key.of first.request = Key.of exchange.request
  turn : ∃ prior last, exchange.request.messages.asArray = some (prior ++ [last]) ∧
    prior.map normMsg = (told past number).map normMsg ∧ strField last "role" = some "user" ∧
      ((∃ results, feed = .results results ∧ (blocksOf last).map resultOf = results.map some ∧
          (results.map (·.1)).Nodup ∧ (results.map (·.1)).toFinset = waiting past number) ∨
        ∃ texts, feed = .text ("\n\n".intercalate texts) ∧
          (blocksOf last).map textOf = texts.map some ∧ waiting past number = ∅)

/-- What the session keeps is what its process knows. -/
structure Knows (past : List Exchange) (session : Session) : Prop where
  started : ∃ first ∈ past, first.starts session.number
  key : ∀ first ∈ past, first.starts session.number → Key.of first.request = session.key
  history : session.consumed.map normMsg = (told past session.number).map normMsg
  calls : session.outstanding = waiting past session.number

structure Kept (past : List Exchange) (state : State) : Prop where
  below : ∀ exchange ∈ past, ∀ number, exchange.fedTo number → number < state.seq
  live : ∀ session, state.session = some session →
    session.number < state.seq ∧ Knows past session

variable {past : List Exchange} {exchange : Exchange} {number : Nat}

theorem fedTo_of_starts (starts : exchange.starts number) : exchange.fedTo number := by
  rcases fed : exchange.reply.fed with _ | ⟨other, feed⟩
  · rw [Exchange.starts, fed] at starts
    cases starts
  · rw [Exchange.starts, fed, Option.any_some] at starts
    rw [Exchange.fedTo, fed, Option.any_some]
    exact decide_eq_true (of_decide_eq_true starts).1

theorem withProcess_snoc :
    withProcess (past ++ [exchange]) number =
      withProcess past number ++ if exchange.fedTo number then [exchange] else [] := by
  rw [withProcess, List.filter_append]
  rcases taken : exchange.fedTo number <;> simp [withProcess, taken]

theorem told_snoc_other (other : exchange.fedTo number = false) :
    told (past ++ [exchange]) number = told past number := by
  simp [told, withProcess_snoc, other]

theorem told_snoc (here : exchange.fedTo number = true) :
    told (past ++ [exchange]) number = told past number ++ exchange.told := by
  simp [told, withProcess_snoc, here]

theorem waiting_snoc_other (other : exchange.fedTo number = false) :
    waiting (past ++ [exchange]) number = waiting past number := by
  simp [waiting, withProcess_snoc, other]

theorem waiting_snoc {completion : Completion} (here : exchange.fedTo number = true)
    (answer : exchange.reply.answer = .ok completion) :
    waiting (past ++ [exchange]) number = callsOf completion.content := by
  simp [waiting, withProcess_snoc, here, Exchange.produced, answer]

/-- An exchange with another process, or with none, changes nothing of what this one knows. -/
theorem Knows.other {session : Session} (knows : Knows past session)
    (other : exchange.fedTo session.number = false) : Knows (past ++ [exchange]) session := by
  rcases knows.started with ⟨first, member, starts⟩
  refine ⟨⟨first, List.mem_append_left _ member, starts⟩, ?_, ?_, ?_⟩
  · intro any member starts
    rcases List.mem_append.mp member with old | new
    · exact knows.key any old starts
    · rw [List.mem_singleton.mp new] at starts
      rw [fedTo_of_starts starts] at other
      cases other
  · rw [told_snoc_other other]
    exact knows.history
  · rw [waiting_snoc_other other]
    exact knows.calls

theorem Kept.unfed {state next : State} (kept : Kept past state)
    (unfed : exchange.reply.fed = none) (later : state.seq ≤ next.seq)
    (same : ∀ session, next.session = some session → state.session = some session) :
    Kept (past ++ [exchange]) next := by
  have toNone : ∀ number, exchange.fedTo number = false := by
    intro number
    rw [Exchange.fedTo, unfed]
    rfl
  refine ⟨?_, ?_⟩
  · intro any member number taken
    rcases List.mem_append.mp member with old | new
    · exact Nat.lt_of_lt_of_le (kept.below any old number taken) later
    · rw [List.mem_singleton.mp new, toNone] at taken
      cases taken
  · intro session live
    rcases kept.live session (same session live) with ⟨below, knows⟩
    exact ⟨Nat.lt_of_lt_of_le below later, knows.other (toNone _)⟩

theorem below_fed {state : State} {seq : Nat} {feed : Feed} (kept : Kept past state)
    (fed : exchange.reply.fed = some (number, feed)) (inside : number < seq)
    (later : state.seq ≤ seq) :
    ∀ any ∈ past ++ [exchange], ∀ other, any.fedTo other → other < seq := by
  intro any member other taken
  rcases List.mem_append.mp member with old | new
  · exact Nat.lt_of_lt_of_le (kept.below any old other taken) later
  · rw [List.mem_singleton.mp new, Exchange.fedTo, fed, Option.any_some] at taken
    exact of_decide_eq_true taken ▸ inside

theorem withProcess_unreached {state : State} (kept : Kept past state) :
    withProcess past state.seq = [] := by
  rw [withProcess, List.filter_eq_nil_iff]
  intro any member taken
  exact Nat.lt_irrefl _ (kept.below any member state.seq taken)

theorem completion_content (turn : Turn) (model : String) :
    (turn.completion model).content = turn.content := by
  cases turn <;> rfl

theorem knows_started {state : State} {req : Request} {messages : List Json} {text : String}
    {turn : Turn} {model : String} (kept : Kept past state)
    (taken : req.messages.asArray = some messages) (ids : turn.ids = callsOf turn.content) :
    Knows
      (past ++ [⟨req, ⟨some (state.seq, .fresh text), .ok (turn.completion model)⟩⟩])
      ⟨state.seq, Key.of req, messages ++ [assistant turn.content], turn.ids, model⟩ := by
  have here : Exchange.fedTo ⟨req, ⟨some (state.seq, .fresh text),
      .ok (turn.completion model)⟩⟩ state.seq = true := by
    simp [Exchange.fedTo]
  refine ⟨⟨_, List.mem_append_right _ (List.mem_singleton_self _), ?_⟩, ?_, ?_, ?_⟩
  · simp [Exchange.starts, Feed.isFresh]
  · intro any member starts
    rcases List.mem_append.mp member with old | new
    · exact absurd (kept.below any old _ (fedTo_of_starts starts)) (Nat.lt_irrefl _)
    · rw [List.mem_singleton.mp new]
  · rw [told_snoc here, told, withProcess_unreached kept]
    simp [Exchange.told, Exchange.messages, Exchange.produced, Feed.isFresh, taken,
      completion_content]
  · rw [waiting_snoc here rfl, completion_content]
    exact ids

theorem Knows.turn_answered {session : Session} {req : Request} {messages : List Json} {feed : Feed}
    {turn : Turn} {model : String} {last : Json} (knows : Knows past session)
    (live : feed.isFresh = false) (taken : req.messages.asArray = some messages)
    (appends : Appends session (Key.of req) messages last)
    (ids : turn.ids = callsOf turn.content) :
    Knows
      (past ++ [⟨req, ⟨some (session.number, feed), .ok (turn.completion model)⟩⟩])
      ⟨session.number, session.key, messages ++ [assistant turn.content], turn.ids, model⟩ := by
  have here : Exchange.fedTo ⟨req, ⟨some (session.number, feed),
      .ok (turn.completion model)⟩⟩ session.number = true := by
    simp [Exchange.fedTo]
  rcases knows.started with ⟨first, member, starts⟩
  rcases appends.history with ⟨prior, rfl, same⟩
  refine ⟨⟨first, List.mem_append_left _ member, starts⟩, ?_, ?_, ?_⟩
  · intro any member starts
    rcases List.mem_append.mp member with old | new
    · exact knows.key any old starts
    · rw [List.mem_singleton.mp new, Exchange.starts, Option.any_some, live] at starts
      simp at starts
  · rw [told_snoc here, List.map_append, List.map_append, List.map_append, same, knows.history]
    simp [Exchange.told, Exchange.messages, Exchange.produced, live, taken, completion_content]
  · rw [waiting_snoc here rfl, completion_content]
    exact ids

theorem Knows.continues {session : Session} {messages : List Json} {exited : Bool} {plan : Plan}
    {feed : Feed} (knows : Knows past session)
    (taken : exchange.request.messages.asArray = some messages)
    (planned : planFor exited session (Key.of exchange.request) messages = plan)
    (feeds : (∃ text, plan = .text text ∧ feed = .text text) ∨
      ∃ results, plan = .results results ∧ feed = .results results) :
    (∃ last, Appends session (Key.of exchange.request) messages last) ∧
      Continues past exchange session.number feed := by
  rcases planFor_cases planned with rfl | ⟨last, appends, fed⟩
  · rcases feeds with ⟨_, absurd, _⟩ | ⟨_, absurd, _⟩ <;> cases absurd
  · refine ⟨⟨last, appends⟩, knows.started, ?_, ?_⟩
    · intro first member starts
      exact (knows.key first member starts).trans appends.key
    · rcases appends.history with ⟨prior, rfl, same⟩
      refine ⟨prior, last, taken, same.trans knows.history, appends.user, ?_⟩
      rcases feeds with ⟨text, rfl, rfl⟩ | ⟨results, rfl, rfl⟩
      · rcases fed with ⟨_, absurd, _⟩ | ⟨texts, same, are, none_open⟩
        · cases absurd
        · cases same
          exact .inr ⟨texts, rfl, are, knows.calls ▸ none_open⟩
      · rcases fed with ⟨results, same, are, once, all⟩ | ⟨_, absurd, _⟩
        · cases same
          exact .inl ⟨results, rfl, are, once, knows.calls ▸ all⟩
        · cases absurd

theorem Kept.fed_live {state next : State} {session : Session} {messages : List Json}
    {exited : Bool} {plan : Plan} {feed : Feed} (kept : Kept past state)
    (live : state.session = some session)
    (taken : exchange.request.messages.asArray = some messages)
    (planned : planFor exited session (Key.of exchange.request) messages = plan)
    (feeds : (∃ text, plan = .text text ∧ feed = .text text) ∨
      ∃ results, plan = .results results ∧ feed = .results results)
    (fed : Fed session feed messages state.seq next exchange.reply) :
    Kept (past ++ [exchange]) next ∧
      ∀ number feed, exchange.reply.fed = some (number, feed) → feed.isFresh = false →
        Continues past exchange number feed := by
  rcases kept.live session live with ⟨below, knows⟩
  rcases knows.continues taken planned feeds with ⟨⟨last, appends⟩, continues⟩
  have notFresh : feed.isFresh = false := by
    rcases feeds with ⟨_, _, rfl⟩ | ⟨_, _, rfl⟩ <;> rfl
  rcases exchange with ⟨req, reply⟩
  cases fed with
  | answered turn model ids =>
    refine ⟨⟨below_fed kept rfl below le_rfl, ?_⟩, ?_⟩
    · intro session same
      cases same
      exact ⟨below, knows.turn_answered notFresh taken appends ids⟩
    · rintro number feed ⟨⟩ _
      exact continues
  | failed failure =>
    refine ⟨⟨below_fed kept rfl below le_rfl, ?_⟩, ?_⟩
    · rintro session ⟨⟩
    · rintro number feed ⟨⟩ _
      exact continues

/-- One request more keeps what is known, and what it feeds to a live session continues it. -/
theorem Kept.request {state : State} (kept : Kept past state) (world : World) (req : Request) :
    Kept (past ++ [⟨req, (complete world req state).2⟩]) (complete world req state).1 ∧
      ∀ number feed, (complete world req state).2.fed = some (number, feed) →
        feed.isFresh = false → Continues past ⟨req, (complete world req state).2⟩ number feed := by
  rcases complete_cases world req state with ⟨same, unfed⟩ | ⟨messages, taken, _, ran⟩
  · refine ⟨kept.unfed unfed (by rw [same]) (fun session live => same ▸ live), ?_⟩
    intro number feed fed
    rw [unfed] at fed
    cases fed
  · generalize complete world req state = result at ran
    rcases result with ⟨next, reply⟩
    cases ran with
    | unstarted seq later failure =>
      refine ⟨kept.unfed rfl later (by rintro session ⟨⟩), ?_⟩
      rintro number feed ⟨⟩
    | started _ _ fed =>
      cases fed with
      | answered turn model ids =>
        refine ⟨⟨below_fed kept rfl (Nat.lt_succ_self _) (Nat.le_succ _), ?_⟩, ?_⟩
        · intro session same
          cases same
          exact ⟨Nat.lt_succ_self _, knows_started kept taken ids⟩
        · rintro number feed ⟨⟩ ⟨⟩
      | failed failure =>
        refine ⟨⟨below_fed kept rfl (Nat.lt_succ_self _) (Nat.le_succ _), ?_⟩, ?_⟩
        · rintro session ⟨⟩
        · rintro number feed ⟨⟩ ⟨⟩
    | text session live exited text plan _ _ fed =>
      exact kept.fed_live live taken plan (.inl ⟨text, rfl, rfl⟩) fed
    | results session live exited results plan _ _ fed =>
      exact kept.fed_live live taken plan (.inr ⟨results, rfl, rfl⟩) fed

theorem kept (inputs : List Input) :
    Kept (after inputs).2 (after inputs).1 ∧
      ∀ before exchange later, (after inputs).2 = before ++ exchange :: later →
        ∀ number feed, exchange.reply.fed = some (number, feed) → feed.isFresh = false →
          Continues before exchange number feed := by
  induction inputs using List.reverseRecOn with
  | nil =>
    refine ⟨⟨by rintro _ ⟨⟩, by rintro _ ⟨⟩⟩, ?_⟩
    intro before exchange later split
    simp [after] at split
  | append_singleton inputs input induction =>
    rcases induction with ⟨kept, continues⟩
    rw [after, List.foldl_append] at *
    generalize inputs.foldl step (⟨none, 0⟩, []) = reached at *
    cases input with
    | request req world =>
      rcases kept.request world req with ⟨stays, feeds⟩
      refine ⟨stays, ?_⟩
      intro before exchange later split
      rcases snoc_eq_split.mp split with ⟨rfl, rfl, rfl⟩ | ⟨middle, rfl, earlier⟩
      · exact feeds
      · exact continues before exchange middle earlier
    | closed => exact ⟨⟨kept.below, by rintro session ⟨⟩⟩, continues⟩
    | elsewhere =>
      refine ⟨⟨?_, ?_⟩, continues⟩
      · intro exchange member number taken
        exact Nat.lt_succ_of_lt (kept.below exchange member number taken)
      · intro session live
        rcases kept.live session live with ⟨below, knows⟩
        exact ⟨Nat.lt_succ_of_lt below, knows⟩

/-- Whatever a run of requests feeds to a live session, it carries on where the session
is. -/
theorem warm_session_continues (inputs : List Input) (before later : List Exchange)
    (exchange : Exchange) (number : Nat) (feed : Feed)
    (exchanged : (after inputs).2 = before ++ exchange :: later)
    (fed : exchange.reply.fed = some (number, feed)) (live : feed.isFresh = false) :
    Continues before exchange number feed :=
  (kept inputs).2 before exchange later exchanged number feed fed live

def userSays (text : String) : Json :=
  .object [("role", .str "user"), ("content", .str text)]

def greets : World where
  slot := .ok ()
  exited := false
  baseDir := true
  claude := true
  token := .ok ()
  started := .ok ()
  accepts := true
  events := [.line (.object [("type", .str "result"), ("result", .str "hello")])]

def asks (account : String) (messages : List Json) : Request where
  task := "t1"
  package := "agent"
  model := "model"
  system := ""
  messages := .array messages
  tools := .array []
  account := account

/-- A request under one account, and the next turn under another. -/
def twoAccounts : List Input :=
  [.request (asks "work" [userSays "hi"]) greets,
    .request (asks "other" [userSays "hi", assistant [textBlock "hello"], userSays "more"])
      greets]

theorem warm_session_continues_second :
    ∃ first second, (after twoAccounts).2 = [first, second] ∧
      Continues [first] second 0 (.text "more") := by
  refine ⟨_, _, rfl, ?_⟩
  exact warm_session_continues twoAccounts [_] [] _ 0 (.text "more") rfl (by decide) rfl

/-- The session that was started under one account answers for the other. -/
theorem account_kept :
    ¬∀ (inputs : List Input) (before later : List Exchange) (exchange first : Exchange)
      (number : Nat) (feed : Feed), (after inputs).2 = before ++ exchange :: later →
        exchange.reply.fed = some (number, feed) → feed.isFresh = false →
          first ∈ before → first.starts number →
            first.request.account = exchange.request.account := by
  intro same
  have differs := same twoAccounts [_] [] _ _ 0 (.text "more") rfl (by decide) rfl
    (List.mem_singleton_self _) (by decide)
  revert differs
  decide

end EclipseOS.Inferenced
