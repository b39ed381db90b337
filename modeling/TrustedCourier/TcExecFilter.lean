import Mathlib.Data.Nat.Bitwise
import TrustedCourier.Bpf

/-!
# The network filter of tc-exec's workers

`networkSocketFilter` writes a classic-BPF program to a memory file, which bubblewrap
hands to the kernel. The kernel runs it at each system call of the worker, on the call's
number, the architecture it was made for and its arguments. The program checks these one
after another; each block of it is executed on its own, on whatever the call carries, and
the verdict is put together from the blocks.
-/

namespace TrustedCourier.TcExec

open Bpf

/-! ## What the kernel gives and takes -/

/-- `seccomp_data`: what a filter sees of a system call. -/
structure SeccompData where
  nr : UInt32
  arch : UInt32
  instructionPointer : UInt64
  args : Fin 6 → UInt64

/-- The word at an offset of `seccomp_data`, on a machine that stores the low word of a
number first. The kernel refuses filters with other offsets. -/
def SeccompData.word (data : SeccompData) (offset : UInt32) : Option UInt32 :=
  let half (n : UInt64) (high : Bool) : UInt32 := if high then (n >>> 32).toUInt32 else n.toUInt32
  match offset.toNat with
  | 0 => some data.nr
  | 4 => some data.arch
  | 8 => some (half data.instructionPointer false)
  | 12 => some (half data.instructionPointer true)
  | n =>
    if n % 4 = 0 then
      if inside : (n - 16) / 8 < 6 then some (half (data.args ⟨(n - 16) / 8, inside⟩) (n % 8 = 4))
      else none
    else none

def seccompRetKillProcess : UInt32 := 0x80000000

def seccompRetErrno : UInt32 := 0x00050000

def seccompRetAllow : UInt32 := 0x7FFF0000

def eperm : UInt32 := 1

def afUnix : UInt32 := 1

/-- The architectures the filter is written for. -/
inductive Arch where
  | amd64
  | arm64
deriving DecidableEq, Repr

/-- `AUDIT_ARCH_X86_64` and `AUDIT_ARCH_AARCH64`. -/
def Arch.audit : Arch → UInt32
  | .amd64 => 0xC000003E
  | .arm64 => 0xC00000B7

def Arch.sysSocket : Arch → UInt32
  | .amd64 => 41
  | .arm64 => 198

def Arch.sysSocketpair : Arch → UInt32
  | .amd64 => 53
  | .arm64 => 199

def Arch.sysIoUringSetup : Arch → UInt32
  | .amd64 => 425
  | .arm64 => 425

/-- `runtime.GOARCH`. -/
def Arch.goarch : Arch → String
  | .amd64 => "amd64"
  | .arm64 => "arm64"

/-- How `networkSocketFilter` reads it. -/
def Arch.ofGoarch (goarch : String) : Option Arch :=
  match goarch with
  | "amd64" => some .amd64
  | "arm64" => some .arm64
  | _ => none

/-! ## The filter -/

def loadCode : UInt16 := bpfLD ||| bpfW ||| bpfABS

def jeqCode : UInt16 := bpfJMP ||| bpfJEQ ||| bpfK

def jsetCode : UInt16 := bpfJMP ||| bpfJSET ||| bpfK

def retCode : UInt16 := bpfRET ||| bpfK

def deny : UInt32 := seccompRetErrno ||| eperm

/-- The program `networkSocketFilter` builds. -/
def socketFilter (arch : Arch) : List Instr :=
  [{ code := loadCode, k := 4 },
    { code := jeqCode, k := arch.audit, jt := 1 },
    { code := retCode, k := seccompRetKillProcess },
    { code := loadCode, k := 0 },
    { code := jsetCode, k := 0x40000000, jf := 1 },
    { code := retCode, k := seccompRetKillProcess },
    { code := jeqCode, k := arch.sysSocket, jt := 3 },
    { code := jeqCode, k := arch.sysSocketpair, jt := 2 },
    { code := jeqCode, k := arch.sysIoUringSetup, jt := 3 },
    { code := retCode, k := seccompRetAllow },
    { code := loadCode, k := 16 },
    { code := jeqCode, k := afUnix, jt := 1 },
    { code := retCode, k := deny },
    { code := retCode, k := seccompRetAllow }]

/-- `networkSocketFilter`: the content of the file it returns. `fault` is the error of
making, writing or rewinding the file. -/
def networkSocketFilter (goarch : String) (fault : Option String) : Except String Bytes :=
  match Arch.ofGoarch goarch with
  | none => .error "unsupported seccomp architecture"
  | some arch =>
    match fault with
    | some err => .error err
    | none => .ok (store (socketFilter arch))

/-! ## What the filter decides -/

/-- The low word of the first argument. -/
def SeccompData.family (data : SeccompData) : UInt32 := (data.args 0).toUInt32

/-- The policy of the filter: other ABIs kill the worker, and only sockets of the Unix
family can be made. -/
def socketPolicy (arch : Arch) (data : SeccompData) : UInt32 :=
  if data.arch ≠ arch.audit ∨ data.nr.toNat.testBit 30 then seccompRetKillProcess
  else if data.nr = arch.sysIoUringSetup ∨
      (data.nr = arch.sysSocket ∨ data.nr = arch.sysSocketpair) ∧ data.family ≠ afUnix then
    seccompRetErrno ||| eperm
  else seccompRetAllow

section Blocks

variable (arch : Arch) (data : SeccompData)

/-- A number has bit 30 in common with the mask if it has it at all. -/
theorem common_bit (n : UInt32) : Test.common.holds n 0x40000000 = n.toNat.testBit 30 := by
  have value : (n &&& 0x40000000).toNat = n.toNat &&& 2 ^ 30 := UInt32.toNat_and n 0x40000000
  have nonzero : (n &&& 0x40000000 != 0) = ((n &&& 0x40000000).toNat != 0) := by
    rw [Bool.eq_iff_iff, bne_iff_ne, bne_iff_ne, ne_eq, ne_eq, ← UInt32.toNat_inj]
    rfl
  rw [Test.holds, nonzero, value, Nat.and_two_pow]
  cases n.toNat.testBit 30 <;> decide

/-- A run of the filter on the call, from one of its instructions. -/
abbrev resume : Nat → Nat → UInt32 → Option UInt32 := run (socketFilter arch) data.word

/-- The first block kills calls for another architecture. -/
theorem run_arch (fuel : Nat) :
    resume arch data (fuel + 3) 0 0 =
      if data.arch = arch.audit then resume arch data (fuel + 1) 3 data.arch
      else some seccompRetKillProcess := by
  have loaded : resume arch data (fuel + 3) 0 0 =
      resume arch data (fuel + 2) 1 data.arch := run_load rfl rfl rfl
  have jumped : resume arch data (fuel + 2) 1 data.arch =
      if Test.equal.holds data.arch arch.audit then resume arch data (fuel + 1) 3 data.arch
      else resume arch data (fuel + 1) 2 data.arch := run_jump rfl rfl rfl rfl rfl
  have killed : resume arch data (fuel + 1) 2 data.arch = some seccompRetKillProcess :=
    run_ret rfl rfl rfl
  simp only [loaded, jumped, killed, equal_holds]

/-- The second block kills calls whose number has bit 30. -/
theorem run_abi (fuel : Nat) (acc : UInt32) :
    resume arch data (fuel + 3) 3 acc =
      if data.nr.toNat.testBit 30 then some seccompRetKillProcess
      else resume arch data (fuel + 1) 6 data.nr := by
  have loaded : resume arch data (fuel + 3) 3 acc =
      resume arch data (fuel + 2) 4 data.nr := run_load rfl rfl rfl
  have jumped : resume arch data (fuel + 2) 4 data.nr =
      if Test.common.holds data.nr 0x40000000 then resume arch data (fuel + 1) 5 data.nr
      else resume arch data (fuel + 1) 6 data.nr := run_jump rfl rfl rfl rfl rfl
  have killed : resume arch data (fuel + 1) 5 data.nr = some seccompRetKillProcess :=
    run_ret rfl rfl rfl
  rw [loaded, jumped, killed, common_bit]

/-- The last block admits the Unix family only. -/
theorem run_family (fuel : Nat) (acc : UInt32) :
    resume arch data (fuel + 3) 10 acc =
      if data.family = afUnix then some seccompRetAllow else some deny := by
  have loaded : resume arch data (fuel + 3) 10 acc =
      resume arch data (fuel + 2) 11 data.family := run_load rfl rfl rfl
  have jumped : resume arch data (fuel + 2) 11 data.family =
      if Test.equal.holds data.family afUnix then resume arch data (fuel + 1) 13 data.family
      else resume arch data (fuel + 1) 12 data.family := run_jump rfl rfl rfl rfl rfl
  have denied : resume arch data (fuel + 1) 12 data.family = some deny := run_ret rfl rfl rfl
  have allowed : resume arch data (fuel + 1) 13 data.family = some seccompRetAllow :=
    run_ret rfl rfl rfl
  simp only [loaded, jumped, denied, allowed, equal_holds]

/-- The third block sends both ways of making a socket to the last block, denies
`io_uring_setup` and allows every other call. -/
theorem run_number (fuel : Nat) :
    resume arch data (fuel + 5) 6 data.nr =
      if data.nr = arch.sysSocket ∨ data.nr = arch.sysSocketpair then
        if data.family = afUnix then some seccompRetAllow else some deny
      else if data.nr = arch.sysIoUringSetup then some deny
      else some seccompRetAllow := by
  have socket : resume arch data (fuel + 5) 6 data.nr =
      if Test.equal.holds data.nr arch.sysSocket then resume arch data (fuel + 4) 10 data.nr
      else resume arch data (fuel + 4) 7 data.nr := run_jump rfl rfl rfl rfl rfl
  have socketpair : resume arch data (fuel + 4) 7 data.nr =
      if Test.equal.holds data.nr arch.sysSocketpair then resume arch data (fuel + 3) 10 data.nr
      else resume arch data (fuel + 3) 8 data.nr := run_jump rfl rfl rfl rfl rfl
  have uring : resume arch data (fuel + 3) 8 data.nr =
      if Test.equal.holds data.nr arch.sysIoUringSetup then resume arch data (fuel + 2) 12 data.nr
      else resume arch data (fuel + 2) 9 data.nr := run_jump rfl rfl rfl rfl rfl
  have denied : resume arch data (fuel + 2) 12 data.nr = some deny := run_ret rfl rfl rfl
  have allowed : resume arch data (fuel + 2) 9 data.nr = some seccompRetAllow := run_ret rfl rfl rfl
  rw [socket, socketpair, uring, denied, allowed, run_family arch data (fuel + 1),
    run_family arch data fuel]
  simp only [equal_holds]
  by_cases direct : data.nr = arch.sysSocket
  · simp only [direct, if_true, true_or]
  · simp only [direct, if_false, false_or]

/-- No architecture numbers `io_uring_setup` as a way of making a socket. -/
theorem uring_apart (nr : UInt32) (socket : nr = arch.sysSocket ∨ nr = arch.sysSocketpair) :
    nr ≠ arch.sysIoUringSetup := by
  cases arch <;> rcases socket with rfl | rfl <;> decide

/-- The filter decides every system call as its policy says. -/
theorem exec_socketFilter : exec (socketFilter arch) data.word = some (socketPolicy arch data) := by
  have whole : exec (socketFilter arch) data.word = resume arch data 14 0 0 := rfl
  rw [whole, run_arch arch data 11, run_abi arch data 9, run_number arch data 5, socketPolicy]
  by_cases native : data.arch = arch.audit
  · by_cases x32 : data.nr.toNat.testBit 30 = true
    · simp only [native, x32, if_true, or_true]
    · by_cases socket : data.nr = arch.sysSocket ∨ data.nr = arch.sysSocketpair
      · have apart := uring_apart arch data.nr socket
        by_cases family : data.family = afUnix
        · simp [native, x32, socket, apart, family]
        · simp [native, x32, socket, apart, family, deny]
      · by_cases uring : data.nr = arch.sysIoUringSetup
        · rw [if_pos native, if_neg x32, if_neg socket, if_pos uring,
            if_neg (by simp [native, x32]), if_pos (Or.inl uring), deny]
        · simp [native, x32, socket, uring]
  · simp only [native, if_false, ne_eq, not_false_eq_true, true_or, if_true]

end Blocks

/-- The file that `networkSocketFilter` returns holds a program that implements its policy.
On both architectures it reads back, and whatever architecture, number and arguments a
system call carries, its run ends at a return within as many steps as it has instructions:
calls for another architecture and numbers with bit 30 kill the process, `io_uring_setup`
and sockets and socket pairs of another family than Unix are refused with `EPERM`, and all
other calls are allowed. -/
theorem networkSocketFilter_policy (arch : Arch) :
    ∃ file program, networkSocketFilter arch.goarch none = .ok file ∧ parse file = some program ∧
      ∀ data : SeccompData, exec program data.word = some (socketPolicy arch data) := by
  refine ⟨store (socketFilter arch), socketFilter arch, ?_, parse_store _, exec_socketFilter arch⟩
  cases arch <;> rfl

end TrustedCourier.TcExec
