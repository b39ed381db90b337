import Mathlib.Data.List.Basic
import TrustedCourier.ByteStrings

/-!
# Classic BPF

A program is a list of instructions with an operation code, two jump offsets and a
constant. It runs on an accumulator and reads words of its input; a conditional jump
compares the accumulator with the constant and skips as many of the instructions behind
it as the offset for the outcome says. A run ends at a return. It has no result if it
meets a code it does not know, reads outside its input or leaves the program.

Modelled are the codes for loading a word at a constant offset, for jumps on equality
and on common bits, and for returning a constant. Offsets only point forward, so a run
takes at most as many steps as the program has instructions.

A program is stored as its instructions one after another, each in eight bytes with the
low byte of a number first.
-/

namespace TrustedCourier.Bpf

/-- `sock_filter`. -/
structure Instr where
  code : UInt16
  jt : UInt8 := 0
  jf : UInt8 := 0
  k : UInt32 := 0
deriving DecidableEq, Repr

/-- What a jump asks about the accumulator and the constant. -/
inductive Test where
  | equal
  | common
deriving DecidableEq, Repr

/-- The answer. -/
def Test.holds (acc k : UInt32) : Test → Bool
  | .equal => acc == k
  | .common => acc &&& k != 0

@[simp] theorem equal_holds (acc k : UInt32) : Test.equal.holds acc k = true ↔ acc = k := beq_iff_eq

/-- What an instruction does. -/
inductive Op where
  | load
  | jump (test : Test)
  | ret
deriving DecidableEq, Repr

/-! ## Operation codes -/

def bpfLD : UInt16 := 0x00

def bpfJMP : UInt16 := 0x05

def bpfRET : UInt16 := 0x06

def bpfW : UInt16 := 0x00

def bpfABS : UInt16 := 0x20

def bpfJEQ : UInt16 := 0x10

def bpfJSET : UInt16 := 0x40

def bpfK : UInt16 := 0x00

/-- What a code stands for. -/
def decode (code : UInt16) : Option Op :=
  if code = bpfLD ||| bpfW ||| bpfABS then some .load
  else if code = bpfJMP ||| bpfJEQ ||| bpfK then some (.jump .equal)
  else if code = bpfJMP ||| bpfJSET ||| bpfK then some (.jump .common)
  else if code = bpfRET ||| bpfK then some .ret
  else none

/-! ## Running a program -/

section Run

variable (program : List Instr) (word : UInt32 → Option UInt32)

/-- Run from instruction `pc` with this accumulator, for so many steps. -/
def run : Nat → Nat → UInt32 → Option UInt32
  | 0, _, _ => none
  | fuel + 1, pc, acc =>
    match program[pc]? with
    | none => none
    | some instr =>
      match decode instr.code with
      | none => none
      | some .load =>
        match word instr.k with
        | none => none
        | some value => run fuel (pc + 1) value
      | some (.jump test) =>
        if test.holds acc instr.k then run fuel (pc + 1 + instr.jt.toNat) acc
        else run fuel (pc + 1 + instr.jf.toNat) acc
      | some .ret => some instr.k

/-- Run a program on its input from the start. -/
def exec : Option UInt32 := run program word program.length 0 0

variable {program word} {pc fuel : Nat} {acc : UInt32} {instr : Instr}

/-- A load puts the word it reads into the accumulator. -/
theorem run_load {value : UInt32} (here : program[pc]? = some instr)
    (does : decode instr.code = some .load) (read : word instr.k = some value) :
    run program word (fuel + 1) pc acc = run program word fuel (pc + 1) value := by
  simp only [run, here, does, read]

/-- A jump goes where its test says. -/
theorem run_jump {test : Test} {k : UInt32} {yes no : Nat} (here : program[pc]? = some instr)
    (does : decode instr.code = some (.jump test)) (compares : instr.k = k)
    (taken : pc + 1 + instr.jt.toNat = yes) (passed : pc + 1 + instr.jf.toNat = no) :
    run program word (fuel + 1) pc acc =
      if test.holds acc k then run program word fuel yes acc else run program word fuel no acc := by
  simp only [run, here, does, compares, taken, passed]

/-- A return ends the run. -/
theorem run_ret {k : UInt32} (here : program[pc]? = some instr)
    (does : decode instr.code = some .ret) (returns : instr.k = k) :
    run program word (fuel + 1) pc acc = some k := by
  simp only [run, here, does, returns]

end Run

/-! ## Programs as bytes -/

/-- The bytes of a 32-bit number, the lowest first. -/
def littleEndian32 (n : UInt32) : Bytes :=
  [UInt8.ofNat n.toNat, UInt8.ofNat (n.toNat / 256), UInt8.ofNat (n.toNat / 65536),
    UInt8.ofNat (n.toNat / 16777216)]

/-- An instruction as it is stored. -/
def Instr.bytes (instr : Instr) : Bytes :=
  [UInt8.ofNat instr.code.toNat, UInt8.ofNat (instr.code.toNat / 256), instr.jt, instr.jf] ++
    littleEndian32 instr.k

/-- A program as it is stored. -/
def store (program : List Instr) : Bytes := program.flatMap Instr.bytes

/-- The program that bytes hold. -/
def parse : Bytes → Option (List Instr)
  | [] => some []
  | c0 :: c1 :: jt :: jf :: k0 :: k1 :: k2 :: k3 :: rest =>
    (parse rest).map ({
      code := UInt16.ofNat (c0.toNat + 256 * c1.toNat)
      jt := jt
      jf := jf
      k := UInt32.ofNat (k0.toNat + 256 * k1.toNat + 65536 * k2.toNat + 16777216 * k3.toNat) } :: ·)
  | _ => none

theorem littleEndian32_inverse (n : UInt32) :
    UInt32.ofNat ((UInt8.ofNat n.toNat).toNat + 256 * (UInt8.ofNat (n.toNat / 256)).toNat +
      65536 * (UInt8.ofNat (n.toNat / 65536)).toNat + 16777216 *
        (UInt8.ofNat (n.toNat / 16777216)).toNat) = n := by
  have bound := n.toNat_lt
  apply UInt32.toNat_inj.mp
  simp only [UInt32.toNat_ofNat', UInt8.toNat_ofNat']
  omega

theorem littleEndian16_inverse (n : UInt16) :
    UInt16.ofNat ((UInt8.ofNat n.toNat).toNat + 256 * (UInt8.ofNat (n.toNat / 256)).toNat) = n := by
  have bound := n.toNat_lt
  apply UInt16.toNat_inj.mp
  simp only [UInt16.toNat_ofNat', UInt8.toNat_ofNat']
  omega

/-- A stored program is read back. -/
theorem parse_store (program : List Instr) : parse (store program) = some program := by
  induction program with
  | nil => rfl
  | cons instr rest ih =>
    have split : store (instr :: rest) = instr.bytes ++ store rest := List.flatMap_cons
    rw [split, Instr.bytes, littleEndian32]
    simp only [List.cons_append, List.nil_append, parse, ih, Option.map_some,
      littleEndian32_inverse, littleEndian16_inverse]

end TrustedCourier.Bpf
