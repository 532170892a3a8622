import EclipseOS.Abyss.Enforce
import EclipseOS.Foundation.FirstMatch
import EclipseOS.PolicyEval.Task
import Mathlib.Data.List.Flatten

/-! # Batch approval

An agent about to take the same irreversible action on many targets asks once.
On approval it gets a token bound to its task and to exactly those targets, and
each of them is consumed when an act on it runs under the token. -/

namespace EclipseOS.Abyss.Batching

open Foundation PolicyEval

abbrev Target := UInt64 × UInt64

structure Token where
  token : UInt64
  agent : UInt64
  task : Option Ulid
  targets : List Target
  deriving DecidableEq

namespace Token

/-- Whether it is the token an agent presents. -/
def presented (agent token : UInt64) (t : Token) : Bool := t.token = token ∧ t.agent = agent

def unspent (t : Token) : Bool := t.targets ≠ []

def without (target : Target) (t : Token) : Token := { t with targets := t.targets.erase target }

end Token

structure Batches where
  tokens : List Token
  next : UInt64
  deriving DecidableEq

namespace Batches

def default : Batches := ⟨[], 0⟩

def minted (batches : Batches) (agent : UInt64) (task : Option Ulid) (targets : List Target) :
    Token :=
  ⟨(batches.next + 1) <<< 16 ||| (agent &&& 0xffff), agent, task, targets⟩

/-- The human approved `targets` for an agent now on `task`. -/
def approved (batches : Batches) (agent : UInt64) (task : Option Ulid) (targets : List Target) :
    Batches where
  tokens := batches.tokens ++ [batches.minted agent task targets]
  next := batches.next + 1

/-- The token `(handle, 0)` is covered by, for an agent now on `task`. -/
def find (batches : Batches) (agent : UInt64) (task : Option Ulid) (token handle : UInt64) :
    Except Status Token :=
  match batches.tokens.find? (Token.presented agent token) with
  | none => .error .batchExhausted
  | some tok =>
    if tok.task ≠ task then
      .error .taskClosed
    else if (handle, 0) ∈ tok.targets then
      .ok tok
    else
      .error .batchExhausted

/-- Consumes `(handle, 0)`, or says why not. -/
def consume (batches : Batches) (agent : UInt64) (task : Option Ulid) (token handle : UInt64) :
    Except Status Batches :=
  (batches.find agent task token handle).map fun _ =>
    let tokens := modifyFirst (Token.presented agent token) (Token.without (handle, 0))
      batches.tokens
    { batches with tokens := tokens.filter Token.unspent }

/-- What `consume` would answer, consuming nothing. -/
def covers (batches : Batches) (agent : UInt64) (task : Option Ulid) (token handle : UInt64) :
    Except Status Unit :=
  (batches.find agent task token handle).map fun _ => ()

/-- The agent is gone: its tokens go with it. -/
def forget (batches : Batches) (agent : UInt64) : Batches :=
  { batches with tokens := batches.tokens.filter (·.agent ≠ agent) }

end Batches

variable {batches left : Batches} {agent token handle : UInt64} {task : Option Ulid}

theorem find_ok {tok : Token} : batches.find agent task token handle = .ok tok ↔
    batches.tokens.find? (Token.presented agent token) = some tok ∧
      tok.task = task ∧ (handle, 0) ∈ tok.targets := by
  rw [Batches.find]
  cases batches.tokens.find? (Token.presented agent token) with
  | none => simp
  | some first =>
    simp only [Option.some.injEq]
    split
    · rename_i otherTask
      constructor
      · intro found
        cases found
      · intro ⟨same, isTask, _⟩
        exact absurd (same ▸ isTask) otherTask
    · rename_i sameTask
      split
      · rename_i listed
        constructor
        · intro found
          cases found
          exact ⟨rfl, not_not.mp sameTask, listed⟩
        · intro ⟨same, _, _⟩
          rw [same]
      · rename_i unlisted
        constructor
        · intro found
          cases found
        · intro ⟨same, _, listed⟩
          exact absurd (same ▸ listed) unlisted

theorem covers_ok : batches.covers agent task token handle = .ok () ↔
    ∃ tok, batches.find agent task token handle = .ok tok := by
  rw [Batches.covers]
  cases batches.find agent task token handle <;> simp [Except.map]

theorem consume_ok : batches.consume agent task token handle = .ok left ↔
    batches.covers agent task token handle = .ok () ∧
      left.next = batches.next ∧
      left.tokens = (modifyFirst (Token.presented agent token) (Token.without (handle, 0))
        batches.tokens).filter Token.unspent := by
  rw [Batches.consume, Batches.covers]
  cases batches.find agent task token handle with
  | error status => simp [Except.map]
  | ok tok =>
    simp only [Except.map, Except.ok.injEq, true_and]
    constructor
    · intro same
      subst same
      exact ⟨rfl, rfl⟩
    · intro ⟨next, tokens⟩
      cases left
      simp only at next tokens
      rw [next, tokens]

theorem consume_of_covers (covered : batches.covers agent task token handle = .ok ()) :
    ∃ left, batches.consume agent task token handle = .ok left := by
  rcases covers_ok.mp covered with ⟨tok, found⟩
  exact ⟨_, by rw [Batches.consume, found]; rfl⟩

theorem without_presented (tok : Token) (target : Target) :
    (tok.without target).presented agent token = tok.presented agent token := rfl

theorem covers_of_consume {otherToken other : UInt64}
    (consumed : batches.consume agent task token handle = .ok left)
    (apart : (otherToken, other) ≠ (token, handle))
    (covered : batches.covers agent task otherToken other = .ok ()) :
    left.covers agent task otherToken other = .ok () := by
  rcases covers_ok.mp covered with ⟨tok, found⟩
  rcases find_ok.mp found with ⟨isFirst, sameTask, listed⟩
  have ⟨_, _, tokens⟩ := consume_ok.mp consumed
  by_cases sameToken : otherToken = token
  · subst sameToken
    have apart : other ≠ handle := fun same => apart (by rw [same])
    have kept : (other, 0) ∈ (tok.without (handle, 0)).targets :=
      (List.mem_erase_of_ne fun same => apart (Prod.mk.inj same).1).mpr listed
    apply covers_ok.mpr
    refine ⟨tok.without (handle, 0), find_ok.mpr ⟨?_, sameTask, kept⟩⟩
    rw [tokens]
    apply find?_filter_of_find
    · rw [find?_modifyFirst _ fun tok => without_presented tok _, isFirst]
      rfl
    · exact decide_eq_true (List.ne_nil_of_mem kept)
  · have elsewhere : ∀ tok : Token, tok.presented agent token →
        tok.presented agent otherToken = false ∧
          (tok.without (handle, 0)).presented agent otherToken = false := by
      intro tok presented
      have isToken := (of_decide_eq_true presented).1
      have missed : tok.presented agent otherToken = false :=
        decide_eq_false fun both => sameToken (both.1.symm.trans isToken)
      exact ⟨missed, missed⟩
    apply covers_ok.mpr
    refine ⟨tok, find_ok.mpr ⟨?_, sameTask, listed⟩⟩
    rw [tokens]
    apply find?_filter_of_find
    · rw [find?_modifyFirst_of_apart _ elsewhere, isFirst]
    · exact decide_eq_true (List.ne_nil_of_mem listed)

/-! ## Tickets -/

/-- One use of one target, for whom it was approved. -/
structure Ticket where
  token : UInt64
  agent : UInt64
  task : Option Ulid
  target : Target
  deriving DecidableEq

def Token.tickets (tok : Token) : List Ticket :=
  tok.targets.map fun target => ⟨tok.token, tok.agent, tok.task, target⟩

def Batches.tickets (batches : Batches) : List Ticket := batches.tokens.flatMap Token.tickets

theorem tickets_approved (targets : List Target) :
    (batches.approved agent task targets).tickets =
      batches.tickets ++ (batches.minted agent task targets).tickets := by
  simp [Batches.tickets, Batches.approved]

theorem tickets_unspent (tokens : List Token) :
    (tokens.filter Token.unspent).flatMap Token.tickets = tokens.flatMap Token.tickets := by
  induction tokens with
  | nil => rfl
  | cons tok tokens induction =>
    rw [List.filter_cons, List.flatMap_cons, ← induction]
    split
    · rw [List.flatMap_cons]
    · rename_i isSpent
      have none : tok.targets = [] := by simpa [Token.unspent] using isSpent
      rw [Token.tickets, none, List.map_nil, List.nil_append]

/-- A target is consumed by the agent and the task it was approved for, and is
gone with it. -/
theorem tickets_consume (consumed : batches.consume agent task token handle = .ok left) :
    batches.tickets.Perm (⟨token, agent, task, (handle, 0)⟩ :: left.tickets) := by
  have ⟨covered, _, tokens⟩ := consume_ok.mp consumed
  rcases covers_ok.mp covered with ⟨tok, found⟩
  rcases find_ok.mp found with ⟨isFirst, sameTask, listed⟩
  have isPresented := List.find?_some isFirst
  have presented : tok.token = token ∧ tok.agent = agent := of_decide_eq_true isPresented
  rw [Batches.tickets, Batches.tickets, tokens, tickets_unspent]
  apply perm_flatMap_modifyFirst isFirst
  have taken := (List.perm_cons_erase listed).map
    fun target => Ticket.mk tok.token tok.agent tok.task target
  rw [List.map_cons, presented.1, presented.2, sameTask] at taken
  rw [Token.tickets, Token.tickets, Token.without, presented.1, presented.2, sameTask]
  exact taken

theorem tickets_forget (batches : Batches) (agent : UInt64) :
    ((batches.forget agent).tickets).Sublist batches.tickets :=
  List.filter_sublist.flatMap _

end EclipseOS.Abyss.Batching
