import EclipseOS.Foundation.Bpf
import Mathlib.Data.Fin.VecNotation

/-! # Seccomp

The system call filter an agent runs under, as it is laid out and assembled, and what it
answers. -/

namespace EclipseOS.Agentd.Seccomp

open Foundation Foundation.Bpf

/-- The architectures the filter is built for. -/
inductive Arch where
  | x86_64
  | aarch64
  deriving DecidableEq

namespace Arch

def auditArch : Arch → UInt32
  | x86_64 => 0xc000003e
  | aarch64 => 0xc00000b7

def sysClone3 : Arch → UInt32
  | x86_64 => 435
  | aarch64 => 435

def sysClone : Arch → UInt32
  | x86_64 => 56
  | aarch64 => 220

def sysSocket : Arch → UInt32
  | x86_64 => 41
  | aarch64 => 198

/-- The deny-list: `ptrace`, `process_vm_readv`, `process_vm_writev`, `mount`, `umount2`,
`pivot_root`, `kexec_load`, `kexec_file_load`, `add_key`, `request_key`, `keyctl`, `bpf`,
`perf_event_open`, `init_module`, `finit_module`, `delete_module`, `unshare`, `setns`,
`open_by_handle_at`, `userfaultfd`, `reboot`, `swapon`, `swapoff`, `io_uring_setup`,
`io_uring_enter`, `io_uring_register`, `open_tree`, `move_mount`, `fsopen`, `fsconfig`,
`fsmount`, `fspick` and `mount_setattr`. -/
def deniedSyscalls : Arch → List UInt32
  | x86_64 =>
    [101, 310, 311, 165, 166, 155, 246, 320, 248, 249, 250, 321, 298, 175, 313, 176, 272, 308,
      304, 323, 169, 167, 168, 425, 426, 427, 428, 429, 430, 431, 432, 433, 442]
  | aarch64 =>
    [117, 270, 271, 40, 39, 41, 104, 294, 217, 218, 219, 280, 241, 105, 273, 106, 97, 268,
      265, 282, 142, 224, 225, 425, 426, 427, 428, 429, 430, 431, 432, 433, 442]

end Arch

/-- `clone` flags that make a namespace: user, mount, pid, net, ipc, uts, cgroup. -/
def CLONE_NS_MASK : UInt32 := 0x7e020000

def AF_INET : UInt32 := 2

def AF_INET6 : UInt32 := 10

def AF_NETLINK : UInt32 := 16

def AF_PACKET : UInt32 := 17

def NETLINK_ROUTE : UInt32 := 0

def SOCK_RAW : UInt32 := 3

def EPERM : UInt32 := 1

def ENOSYS : UInt32 := 38

def RET_ALLOW : UInt32 := 0x7fff0000

def RET_KILL_PROCESS : UInt32 := 0x80000000

def retErrno (e : UInt32) : UInt32 := 0x00050000 ||| (e &&& 0xffff)

def X32 : UInt32 := 0x40000000

/-! ## Layout -/

/-- A branch target while the program is being laid out. -/
inductive Target where
  | next
  | allow
  | deny
  | kill
  | at (index : Nat)
  deriving DecidableEq

def st (code : UInt16) (k : UInt32) : Instr Target := ⟨code, k, .next, .next⟩

def jmp (code : UInt16) (k : UInt32) (jt jf : Target) : Instr Target := ⟨code, k, jt, jf⟩

/-- The program and where its three answers are. -/
structure Program where
  instrs : List (Instr Target)
  allow : Nat
  deny : Nat
  kill : Nat

namespace Program

def resolve (program : Program) (i : Nat) : Target → Nat
  | .next => i + 1
  | .allow => program.allow
  | .deny => program.deny
  | .kill => program.kill
  | .at index => index

end Program

/-- Wrong architecture (32-bit compat): nothing after it would mean the same. Then the x32
ABI. -/
def start (arch : Arch) : List (Instr Target) :=
  [st LD_W_ABS 4, jmp JEQ_K arch.auditArch .next .kill, st LD_W_ABS 0] ++
    match arch with
    | .x86_64 => [jmp JSET_K X32 .deny .next]
    | .aarch64 => []

/-- Lays out what follows the checks in `p`: `clone3`, `clone` flags, `socket` types, then the
answers. -/
def finish (arch : Arch) (p : List (Instr Target)) : Program :=
  let clone3 := p.length
  let p := p ++ [jmp JEQ_K arch.sysClone3 .next .next]
  let clone := p.length
  let p := p ++ [jmp JEQ_K arch.sysClone .next .next]
  let socket := p.length
  let p := p ++ [jmp JEQ_K arch.sysSocket .next .allow]
  let p := p ++ [st LD_W_ABS 16, jmp JEQ_K AF_PACKET .deny .next]
  let n := p.length
  let p := p ++
    [jmp JEQ_K AF_NETLINK (.at (n + 6)) .next,
      jmp JEQ_K AF_INET (.at (n + 3)) .next,
      jmp JEQ_K AF_INET6 (.at (n + 3)) .allow,
      st LD_W_ABS 24,
      st ALU_AND_K 0xf,
      jmp JEQ_K SOCK_RAW .deny .allow,
      st LD_W_ABS 32,
      jmp JEQ_K NETLINK_ROUTE .allow .deny]
  let clone3Block := p.length
  let p := p ++ [st RET_K (retErrno ENOSYS)]
  let cloneBlock := p.length
  let p := p ++ [st LD_W_ABS 16, jmp JSET_K CLONE_NS_MASK .deny .allow]
  -- The two compares learn where their blocks are.
  let p := p.modify clone3 fun x => { x with jt := .at clone3Block, jf := .next }
  let p := p.modify clone fun x => { x with jt := .at cloneBlock, jf := .at socket }
  let allow := p.length
  let p := p ++ [st RET_K RET_ALLOW]
  let deny := p.length
  let p := p ++ [st RET_K (retErrno EPERM)]
  let kill := p.length
  let p := p ++ [st RET_K RET_KILL_PROCESS]
  ⟨p, allow, deny, kill⟩

/-- The program. Layout: arch check, x32 check, the deny-list, the rest. -/
def layOut (arch : Arch) (denied : List UInt32) : Program :=
  finish arch (start arch ++ denied.map fun nr => jmp JEQ_K nr .deny .next)

/-- The filter as `sock_filter` words, if every branch fits its eight bits. -/
def buildFilter (arch : Arch) (denied : List UInt32) : Option (List SockFilter) :=
  assemble (layOut arch denied).resolve (layOut arch denied).instrs

/-! ## Meaning -/

/-- What a filter sees of a system call: its number, the architecture and the low words of
its arguments. -/
structure Call where
  nr : UInt32
  arch : UInt32
  args : Fin 6 → UInt32

def Call.word (call : Call) (k : UInt32) : Option UInt32 :=
  if k = 0 then some call.nr
  else if k = 4 then some call.arch
  else if bounds : 16 ≤ k.toNat ∧ k.toNat ≤ 63 ∧ (k.toNat - 16) % 8 = 0 then
    some (call.args ⟨(k.toNat - 16) / 8, by omega⟩)
  else none

/-- What `socket` answers. -/
def socketVerdict (domain type protocol : UInt32) : UInt32 :=
  if domain = AF_PACKET then retErrno EPERM
  else if domain = AF_NETLINK then
    if protocol = NETLINK_ROUTE then RET_ALLOW else retErrno EPERM
  else if domain = AF_INET ∨ domain = AF_INET6 then
    if type &&& 0xf = SOCK_RAW then retErrno EPERM else RET_ALLOW
  else RET_ALLOW

def verdict (arch : Arch) (denied : List UInt32) (call : Call) : UInt32 :=
  if call.arch ≠ arch.auditArch then RET_KILL_PROCESS
  else if arch = .x86_64 ∧ call.nr &&& X32 ≠ 0 then retErrno EPERM
  else if call.nr ∈ denied then retErrno EPERM
  else if call.nr = arch.sysClone3 then retErrno ENOSYS
  else if call.nr = arch.sysClone then
    if call.args 0 &&& CLONE_NS_MASK ≠ 0 then retErrno EPERM else RET_ALLOW
  else if call.nr = arch.sysSocket then
    socketVerdict (call.args 0) (call.args 1) (call.args 2)
  else RET_ALLOW

/-! ## The layout, in one piece -/

/-- What follows the deny-list, from position `c` on. -/
def rest (arch : Arch) (c : Nat) : List (Instr Target) :=
  [jmp JEQ_K arch.sysClone3 (.at (c + 13)) .next,
    jmp JEQ_K arch.sysClone (.at (c + 14)) (.at (c + 2)),
    jmp JEQ_K arch.sysSocket .next .allow,
    st LD_W_ABS 16,
    jmp JEQ_K AF_PACKET .deny .next,
    jmp JEQ_K AF_NETLINK (.at (c + 11)) .next,
    jmp JEQ_K AF_INET (.at (c + 8)) .next,
    jmp JEQ_K AF_INET6 (.at (c + 8)) .allow,
    st LD_W_ABS 24,
    st ALU_AND_K 0xf,
    jmp JEQ_K SOCK_RAW .deny .allow,
    st LD_W_ABS 32,
    jmp JEQ_K NETLINK_ROUTE .allow .deny,
    st RET_K (retErrno ENOSYS),
    st LD_W_ABS 16,
    jmp JSET_K CLONE_NS_MASK .deny .allow,
    st RET_K RET_ALLOW,
    st RET_K (retErrno EPERM),
    st RET_K RET_KILL_PROCESS]

theorem modify_append {α : Type} (l : List α) (x : α) (r : List α) (change : α → α) :
    (l ++ x :: r).modify l.length change = l ++ change x :: r := by
  induction l with
  | nil => rfl
  | cons y l ih => simpa using ih

theorem finish_eq (arch : Arch) (p : List (Instr Target)) : finish arch p =
    ⟨p ++ rest arch p.length, p.length + 16, p.length + 17, p.length + 18⟩ := by
  simp only [finish, List.append_assoc, List.cons_append, List.nil_append, List.length_append,
    List.length_cons, List.length_nil]
  rw [modify_append]
  have shifted : ∀ (x : Instr Target) (r : List (Instr Target)), p ++ x :: r = (p ++ [x]) ++ r :=
    fun x r => by simp
  rw [shifted, show p.length + (0 + 1) = (p ++ [_]).length by simp, modify_append]
  simp [rest, jmp]

/-! ## Answers -/

section

variable {arch : Arch} {denied : List UInt32} {call : Call} {a : UInt32}

def checks (arch : Arch) (denied : List UInt32) : List (Instr Target) :=
  start arch ++ denied.map fun nr => jmp JEQ_K nr .deny .next

/-- From an instruction of the laid-out program the call is answered with `r`. -/
def Answers (arch : Arch) (denied : List UInt32) (call : Call) (i : Nat) (a r : UInt32) : Prop :=
  Returns (layOut arch denied).resolve (layOut arch denied).instrs call.word i a r

theorem layOut_eq : layOut arch denied =
    ⟨checks arch denied ++ rest arch (checks arch denied).length,
      (checks arch denied).length + 16, (checks arch denied).length + 17,
      (checks arch denied).length + 18⟩ :=
  finish_eq arch (checks arch denied)

theorem getElem_rest (j : Nat) : (layOut arch denied).instrs[(checks arch denied).length + j]? =
    (rest arch (checks arch denied).length)[j]? := by
  rw [layOut_eq, List.getElem?_append_right (by omega), Nat.add_sub_cancel_left]

theorem resolve_next (i : Nat) : (layOut arch denied).resolve i .next = i + 1 := rfl

theorem resolve_at (i index : Nat) : (layOut arch denied).resolve i (.at index) = index := rfl

theorem resolve_allow (i : Nat) :
    (layOut arch denied).resolve i .allow = (checks arch denied).length + 16 := by
  rw [layOut_eq]
  rfl

theorem resolve_deny (i : Nat) :
    (layOut arch denied).resolve i .deny = (checks arch denied).length + 17 := by
  rw [layOut_eq]
  rfl

theorem resolve_kill (i : Nat) :
    (layOut arch denied).resolve i .kill = (checks arch denied).length + 18 := by
  rw [layOut_eq]
  rfl

theorem word_arg0 : call.word 16 = some (call.args 0) := rfl

theorem word_arg1 : call.word 24 = some (call.args 1) := rfl

theorem word_arg2 : call.word 32 = some (call.args 2) := rfl

theorem answers_allow (i : Nat) :
    Answers arch denied call ((layOut arch denied).resolve i .allow) a RET_ALLOW := by
  rw [resolve_allow]
  exact .done (getElem_rest 16)

theorem answers_deny (i : Nat) :
    Answers arch denied call ((layOut arch denied).resolve i .deny) a (retErrno EPERM) := by
  rw [resolve_deny]
  exact .done (getElem_rest 17)

theorem answers_kill (i : Nat) :
    Answers arch denied call ((layOut arch denied).resolve i .kill) a RET_KILL_PROCESS := by
  rw [resolve_kill]
  exact .done (getElem_rest 18)

theorem answers_clone : Answers arch denied call ((checks arch denied).length + 14) a
    (if call.args 0 &&& CLONE_NS_MASK ≠ 0 then retErrno EPERM else RET_ALLOW) := by
  apply Returns.load (getElem_rest 14) word_arg0
  apply Returns.any_cases (getElem_rest 15)
  · intro namespaces
    rw [if_pos namespaces]
    exact answers_deny _
  · intro plain
    rw [if_neg (not_not.mpr plain)]
    exact answers_allow _

theorem answers_inet : Answers arch denied call ((checks arch denied).length + 8) a
    (if call.args 1 &&& 0xf = SOCK_RAW then retErrno EPERM else RET_ALLOW) := by
  apply Returns.load (getElem_rest 8) word_arg1
  apply Returns.mask (getElem_rest 9)
  apply Returns.equal_cases (getElem_rest 10)
  · intro raw
    rw [if_pos raw]
    exact answers_deny _
  · intro other
    rw [if_neg other]
    exact answers_allow _

theorem answers_netlink : Answers arch denied call ((checks arch denied).length + 11) a
    (if call.args 2 = NETLINK_ROUTE then RET_ALLOW else retErrno EPERM) := by
  apply Returns.load (getElem_rest 11) word_arg2
  apply Returns.equal_cases (getElem_rest 12)
  · intro route
    rw [if_pos route]
    exact answers_allow _
  · intro other
    rw [if_neg other]
    exact answers_deny _

theorem answers_socket : Answers arch denied call ((checks arch denied).length + 3) a
    (socketVerdict (call.args 0) (call.args 1) (call.args 2)) := by
  apply Returns.load (getElem_rest 3) word_arg0
  unfold socketVerdict
  apply Returns.equal_cases (getElem_rest 4)
  · intro packet
    rw [if_pos packet]
    exact answers_deny _
  intro notPacket
  rw [if_neg notPacket]
  apply Returns.equal_cases (getElem_rest 5)
  · intro netlink
    rw [if_pos netlink]
    exact answers_netlink
  intro notNetlink
  rw [if_neg notNetlink]
  apply Returns.equal_cases (getElem_rest 6)
  · intro inet
    rw [if_pos (Or.inl inet)]
    exact answers_inet
  intro notInet
  apply Returns.equal_cases (getElem_rest 7)
  · intro inet6
    rw [if_pos (Or.inr inet6)]
    exact answers_inet
  · intro notInet6
    rw [if_neg (not_or.mpr ⟨notInet, notInet6⟩)]
    exact answers_allow _

/-- What a call that is not listed is answered. -/
def unlistedVerdict (arch : Arch) (call : Call) : UInt32 :=
  if call.nr = arch.sysClone3 then retErrno ENOSYS
  else if call.nr = arch.sysClone then
    if call.args 0 &&& CLONE_NS_MASK ≠ 0 then retErrno EPERM else RET_ALLOW
  else if call.nr = arch.sysSocket then
    socketVerdict (call.args 0) (call.args 1) (call.args 2)
  else RET_ALLOW

theorem answers_unlisted : Answers arch denied call (checks arch denied).length call.nr
    (unlistedVerdict arch call) := by
  unfold unlistedVerdict
  apply Returns.equal_cases (getElem_rest 0)
  · intro clone3
    rw [if_pos clone3]
    exact .done (getElem_rest 13)
  intro notClone3
  rw [if_neg notClone3]
  apply Returns.equal_cases (getElem_rest 1)
  · intro clone
    rw [if_pos clone]
    exact answers_clone
  intro notClone
  rw [if_neg notClone]
  apply Returns.equal_cases (getElem_rest 2)
  · intro socket
    rw [if_pos socket]
    exact answers_socket
  · intro notSocket
    rw [if_neg notSocket]
    exact answers_allow _

theorem getElem_denied {before later : List UInt32} {nr : UInt32}
    (whole : denied = before ++ nr :: later) :
    (layOut arch denied).instrs[(start arch).length + before.length]? =
      some (jmp JEQ_K nr .deny .next) := by
  rw [layOut_eq, checks, List.append_assoc, List.getElem?_append_right (by omega),
    Nat.add_sub_cancel_left, whole, List.map_append, List.append_assoc,
    List.getElem?_append_right (by simp), List.length_map, Nat.sub_self]
  rfl

theorem answers_listed (before later : List UInt32) (whole : denied = before ++ later) :
    Answers arch denied call ((start arch).length + before.length) call.nr
      (if call.nr ∈ later then retErrno EPERM else unlistedVerdict arch call) := by
  induction later generalizing before with
  | nil =>
    rw [if_neg List.not_mem_nil]
    have position : (start arch).length + before.length = (checks arch denied).length := by
      simp [checks, whole]
    rw [position]
    exact answers_unlisted
  | cons nr later ih =>
    apply Returns.equal_cases (getElem_denied whole)
    · intro same
      rw [if_pos (same ▸ List.mem_cons_self)]
      exact answers_deny _
    · intro different
      have next := ih (before ++ [nr]) (by rw [whole, List.append_assoc, List.singleton_append])
      have member : call.nr ∈ nr :: later ↔ call.nr ∈ later := by
        rw [List.mem_cons, or_iff_right different]
      simp only [member]
      rw [List.length_append, List.length_singleton] at next
      exact next

theorem getElem_start {j : Nat} (inside : j < (start arch).length) :
    (layOut arch denied).instrs[j]? = (start arch)[j]? := by
  rw [layOut_eq, checks, List.append_assoc, List.getElem?_append_left inside]

theorem verdict_eq : verdict arch denied call =
    if call.arch ≠ arch.auditArch then RET_KILL_PROCESS
    else if arch = .x86_64 ∧ call.nr &&& X32 ≠ 0 then retErrno EPERM
    else if call.nr ∈ denied then retErrno EPERM else unlistedVerdict arch call := rfl

theorem answers_verdict : Answers arch denied call 0 0 (verdict arch denied call) := by
  rw [verdict_eq]
  have words : call.word 4 = some call.arch := rfl
  have number : call.word 0 = some call.nr := rfl
  have listed := @answers_listed arch _ call [] denied rfl
  have start0 : (layOut arch denied).instrs[0]? = some (st LD_W_ABS 4) :=
    getElem_start (Nat.succ_pos _)
  have start1 : (layOut arch denied).instrs[1]? =
      some (jmp JEQ_K arch.auditArch .next .kill) := by
    rw [getElem_start (by cases arch <;> decide)]
    rfl
  have start2 : (layOut arch denied).instrs[2]? = some (st LD_W_ABS 0) := by
    rw [getElem_start (by cases arch <;> decide)]
    rfl
  apply Returns.load start0 words
  apply Returns.equal_cases start1
  · intro native
    rw [if_neg (not_not.mpr native)]
    apply Returns.load start2 number
    cases arch with
    | x86_64 =>
      apply Returns.any_cases (getElem_start (by decide))
      · intro x32
        rw [if_pos ⟨rfl, x32⟩]
        exact answers_deny _
      · intro plain
        rw [if_neg fun x32 => x32.2 plain]
        exact listed
    | aarch64 =>
      rw [if_neg fun x32 => Arch.noConfusion x32.1]
      exact listed
  · intro foreign
    rw [if_pos foreign]
    exact answers_kill _

end

/-! ## Branches -/

section

variable {arch : Arch} {denied : List UInt32}

/-- Both branches of an instruction go forward, and no further than the last one. -/
def Forward (arch : Arch) (denied : List UInt32) (i : Nat) (x : Instr Target) : Prop :=
  isJump x.code = true → 1 ≤ i ∧ ∀ t, t = x.jt ∨ t = x.jf →
    i + 1 ≤ (layOut arch denied).resolve i t ∧
      (layOut arch denied).resolve i t ≤ (checks arch denied).length + 18

theorem forall_getElem_cons {α : Type} {motive : Nat → α → Prop} {x : α} {l : List α} :
    (∀ j y, (x :: l)[j]? = some y → motive j y) ↔
      motive 0 x ∧ ∀ j y, l[j]? = some y → motive (j + 1) y := by
  constructor
  · exact fun all => ⟨all 0 x rfl, fun j y found => all (j + 1) y found⟩
  · rintro ⟨first, later⟩ j y found
    cases j with
    | zero =>
      rw [List.getElem?_cons_zero, Option.some_inj] at found
      exact found ▸ first
    | succ j => exact later j y found

theorem length_checks : (checks arch denied).length = (start arch).length + denied.length := by
  simp [checks]

theorem three_le_start : 3 ≤ (start arch).length := by
  cases arch <;> decide

theorem forward_rest : ∀ j x, (rest arch (checks arch denied).length)[j]? = some x →
    Forward arch denied ((checks arch denied).length + j) x := by
  have some : 3 ≤ (checks arch denied).length := by
    rw [length_checks]
    have := @three_le_start arch
    omega
  simp only [rest, forall_getElem_cons]
  simp [Forward, st, jmp, isJump, JEQ_K, JSET_K, LD_W_ABS, ALU_AND_K, RET_K, resolve_next,
    resolve_at, resolve_allow, resolve_deny]
  omega

theorem forward_listed {i : Nat} {nr : UInt32} (checked : 1 ≤ i)
    (inside : i < (checks arch denied).length) :
    Forward arch denied i (jmp JEQ_K nr .deny .next) := by
  intro _
  refine ⟨checked, fun t target => ?_⟩
  rcases target with rfl | rfl
  · rw [show (jmp JEQ_K nr .deny .next).jt = .deny from rfl, resolve_deny]
    omega
  · rw [show (jmp JEQ_K nr .deny .next).jf = .next from rfl, resolve_next]
    omega

theorem forward_start : ∀ j x, (start arch)[j]? = some x → Forward arch denied j x := by
  cases arch <;>
    simp [start, forall_getElem_cons, Forward, st, jmp, isJump, JEQ_K, JSET_K, LD_W_ABS,
      resolve_next, resolve_kill, resolve_deny]

theorem length_layOut :
    (layOut arch denied).instrs.length = (checks arch denied).length + 19 := by
  rw [layOut_eq, List.length_append]
  rfl

theorem forward_layOut {i : Nat} {x : Instr Target}
    (found : (layOut arch denied).instrs[i]? = some x) : Forward arch denied i x := by
  by_cases inStart : i < (start arch).length
  · rw [getElem_start inStart] at found
    exact forward_start i x found
  · by_cases inChecks : i < (checks arch denied).length
    · have some := @three_le_start arch
      rw [layOut_eq, List.getElem?_append_left inChecks, checks,
        List.getElem?_append_right (by omega), List.getElem?_map] at found
      rcases Option.map_eq_some_iff.mp found with ⟨nr, _, rfl⟩
      exact forward_listed (by omega) inChecks
    · have position : (checks arch denied).length + (i - (checks arch denied).length) = i := by
        omega
      rw [← position, getElem_rest] at found
      have forward := forward_rest _ x found
      rwa [position] at forward

theorem exists_buildFilter_iff : (∃ filter, buildFilter arch denied = some filter) ↔
    (checks arch denied).length ≤ 239 := by
  rw [buildFilter, assemble, exists_assembleFrom_iff]
  simp only [Nat.zero_add]
  constructor
  · intro all
    have kill := (all 1 (jmp JEQ_K arch.auditArch .next .kill)
      ((getElem_start (by cases arch <;> decide)).trans rfl) rfl).2.2
    rw [show (jmp JEQ_K arch.auditArch .next .kill).jf = .kill from rfl, resolve_kill] at kill
    omega
  · intro short i x found jumps
    rcases forward_layOut found jumps with ⟨checked, targets⟩
    have jt := targets x.jt (.inl rfl)
    have jf := targets x.jf (.inr rfl)
    exact ⟨⟨jt.1, by omega⟩, jf.1, by omega⟩

end

/-- Every filter that can be assembled answers each call as specified, within a step an
instruction, and no branch leaves it. -/
theorem buildFilter_means {arch : Arch} {denied : List UInt32} {filter : List SockFilter}
    (built : buildFilter arch denied = some filter) :
    (∀ call : Call, run filter call.word = some (verdict arch denied call)) ∧
      ∀ (i : Nat) (x : SockFilter), filter[i]? = some x → isJump x.code = true →
        i + 1 + x.jt.toNat < filter.length ∧ i + 1 + x.jf.toNat < filter.length := by
  refine ⟨fun call => run_of_returns built answers_verdict, fun i x found jumps => ?_⟩
  have whole := (assembleFrom_get built).1
  have inside := (List.getElem?_eq_some_iff.mp found).1
  obtain ⟨instr, source⟩ : ∃ instr, (layOut arch denied).instrs[i]? = some instr :=
    ⟨_, List.getElem?_eq_getElem (whole ▸ inside)⟩
  cases branches : isJump instr.code with
  | false =>
    rw [assembled_straight built source branches, Option.some_inj] at found
    subst found
    exact absurd jumps (by simp [branches])
  | true =>
    rcases assembled_jump built source branches with ⟨jt, jf, assembled, toTrue, toFalse⟩
    rw [assembled, Option.some_inj] at found
    subst found
    rcases forward_layOut source branches with ⟨_, targets⟩
    have jt := (targets instr.jt (.inl rfl)).2
    have jf := (targets instr.jf (.inr rfl)).2
    rw [whole, length_layOut]
    dsimp only
    omega

theorem buildFilter_means_listed :
    ∃ filter, buildFilter .x86_64 Arch.x86_64.deniedSyscalls = some filter ∧
      run filter (Call.word ⟨41, 0xc000003e, ![2, 0x80003, 0, 0, 0, 0]⟩) =
        some (retErrno EPERM) := by
  have short : (checks .x86_64 Arch.x86_64.deniedSyscalls).length ≤ 239 := by decide
  rcases exists_buildFilter_iff.mpr short with ⟨filter, built⟩
  exact ⟨filter, built,
    (buildFilter_means built).1 ⟨41, 0xc000003e, ![2, 0x80003, 0, 0, 0, 0]⟩⟩

end EclipseOS.Agentd.Seccomp
