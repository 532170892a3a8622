import EclipseOS.PolicyEval.Task

/-! # Audit kinds and emissions

What a record may be about, and the message a source sends to have one written. -/

namespace EclipseOS.PolicyEval

open Foundation

inductive Kind where
  | request
  | decision
  | prompt
  | result
  | input
  | focus
  | capture
  | perception
  | channel
  | grant
  | revoke
  | launch
  | sandbox
  | policy
  | lifecycle
  | task
  | net
  | secret
  | anchor
  | slot
  | inputRefused
  deriving DecidableEq

namespace Kind

def all : List Kind :=
  [request, decision, prompt, result, input, focus, capture, perception, channel, grant,
    revoke, launch, sandbox, policy, lifecycle, task, net, secret, anchor, slot, inputRefused]

def asStr : Kind → String
  | request => "request"
  | decision => "decision"
  | prompt => "prompt"
  | result => "result"
  | input => "input"
  | focus => "focus"
  | capture => "capture"
  | perception => "perception"
  | channel => "channel"
  | grant => "grant"
  | revoke => "revoke"
  | launch => "launch"
  | sandbox => "sandbox"
  | policy => "policy"
  | lifecycle => "lifecycle"
  | task => "task"
  | net => "net"
  | secret => "secret"
  | anchor => "anchor"
  | slot => "slot"
  | inputRefused => "input_refused"

def parse (text : String) : Option Kind := all.find? (·.asStr = text)

@[simp] theorem parse_asStr (kind : Kind) : parse kind.asStr = some kind := by
  cases kind <;> rfl

theorem parse_eq_some {text : String} {kind : Kind} : parse text = some kind ↔ kind.asStr = text := by
  constructor
  · intro parsed
    simpa using List.find?_some parsed
  · rintro rfl
    exact parse_asStr kind

end Kind

/-- `str::strip_prefix`, in bytes. -/
def stripPrefix (start text : String) : Option Bytes :=
  (Cbor.utf8 start).isPrefixOf? (Cbor.utf8 text)

/-- `u8::is_ascii_graphic`. -/
def isAsciiGraphic (byte : UInt8) : Bool := 0x21 ≤ byte && byte ≤ 0x7e

/-- `agent:<id>`, `human` or `system:<daemon>`, with a non-empty printable id. -/
def principalOk (principal : String) : Bool :=
  principal = "human" ||
    match stripPrefix "agent:" principal <|> stripPrefix "system:" principal with
    | some id => !id.isEmpty && id.length ≤ 128 && id.all isAsciiGraphic
    | none => false

theorem length_of_principalOk {principal : String} (ok : principalOk principal) :
    (Cbor.utf8 principal).length ≤ 135 := by
  have strip : ∀ start, start = "agent:" ∨ start = "system:" → ∀ id : Bytes,
      stripPrefix start principal = some id → id.length ≤ 128 →
        (Cbor.utf8 principal).length ≤ 135 := by
    intro start which id stripped short
    have split := List.isPrefixOf?_eq_some_iff_append_eq.mp stripped
    rw [← split, List.length_append]
    have startShort : (Cbor.utf8 start).length ≤ 7 := by
      rcases which with rfl | rfl <;> decide
    omega
  rw [principalOk, Bool.or_eq_true, decide_eq_true_eq] at ok
  rcases ok with rfl | ok
  · decide
  · split at ok
    · rename_i id found
      simp only [Bool.and_eq_true, decide_eq_true_eq] at ok
      rcases agent : stripPrefix "agent:" principal with _ | other
      · rw [agent] at found
        exact strip _ (.inr rfl) id found ok.1.2
      · rw [agent] at found
        cases found
        exact strip _ (.inl rfl) id agent ok.1.2
    · cases ok

/-- One record as a source hands it to `policyd`. -/
structure Emission where
  kind : Kind
  principal : String
  grantId : Option Ulid
  taskId : Option Ulid
  chainId : Option (BitVec 128)
  reqId : Option UInt64
  serial : Option UInt64
  body : Bytes
  deriving DecidableEq

end EclipseOS.PolicyEval
