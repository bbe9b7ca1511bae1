import Calynda.Decompiler.Isa

/-!
# Execution of one instruction

What the architecture does to the general purpose and the floating point registers in one step,
for the words that `ppcDecode` knows. The arithmetic of floating point values is left to a unit.
-/

namespace Calynda.Decompiler

/-- The contents of a floating point register. -/
abbrev Fpr := BitVec 64

/-- The floating point arithmetic, under the status and control register of the first argument. -/
structure FloatUnit where
  fadd : BitVec 32 → Fpr → Fpr → Fpr
  fsub : BitVec 32 → Fpr → Fpr → Fpr
  fmul : BitVec 32 → Fpr → Fpr → Fpr
  fdiv : BitVec 32 → Fpr → Fpr → Fpr
  fneg : Fpr → Fpr
  psAdd : BitVec 32 → Fpr → Fpr → Fpr
  psSub : BitVec 32 → Fpr → Fpr → Fpr
  psMul : BitVec 32 → Fpr → Fpr → Fpr
  psDiv : BitVec 32 → Fpr → Fpr → Fpr
  psMadd : BitVec 32 → Fpr → Fpr → Fpr → Fpr
  psMsub : BitVec 32 → Fpr → Fpr → Fpr → Fpr
  psNeg : Fpr → Fpr
  /-- The value of a single in memory. -/
  fromSingle : BitVec 32 → Fpr
  /-- The pair that a quantized load gives: its quantization register, its width bit, the memory
  and the address. -/
  dequantize : BitVec 32 → Nat → (BitVec 32 → BitVec 8) → BitVec 32 → Fpr

/-- The state that an instruction reads. -/
structure Machine where
  gpr : Gprs
  fpr : Nat → Fpr
  mem : BitVec 32 → BitVec 8
  spr : Nat → BitVec 32
  cr : BitVec 32
  fpscr : BitVec 32

/-- The writes of an instruction to the registers, in their order. -/
structure RegWrites where
  gprs : List (Nat × BitVec 32) := []
  fprs : List (Nat × Fpr) := []

/-- The contents of registers after some writes. -/
def writeAll {α : Type} (regs : Nat → α) (writes : List (Nat × α)) : Nat → α :=
  writes.foldl (fun regs p => Function.update regs p.1 p.2) regs

/-! ## Operands -/

def fieldB (w : BitVec 32) : Nat := ppcBits w 16 20

def fieldC (w : BitVec 32) : Nat := ppcBits w 21 25

def fieldMb (w : BitVec 32) : Nat := ppcBits w 21 25

def fieldMe (w : BitVec 32) : Nat := ppcBits w 26 30

def simm (w : BitVec 32) : BitVec 32 := ppcSext (ppcBits w 16 31) 16

def uimm (w : BitVec 32) : BitVec 32 := BitVec.ofNat 32 (ppcBits w 16 31)

/-- The displacement of the quantized accesses. -/
def qimm (w : BitVec 32) : BitVec 32 := ppcSext (ppcBits w 20 31) 12

/-- The mask of the bits `mb` to `me`, bit 0 being the most significant one. It goes around where
`me` is before `mb`. -/
def rotMask (mb me : Nat) : BitVec 32 :=
  let after := BitVec.allOnes 32 >>> mb
  let before := BitVec.allOnes 32 <<< (31 - me)
  if mb ≤ me then after &&& before else after ||| before

namespace Machine

variable (s : Machine)

def byteAt (ea : BitVec 32) : BitVec 8 := s.mem ea

def halfAt (ea : BitVec 32) : BitVec 16 := s.mem ea ++ s.mem (ea + 1)

def wordAt (ea : BitVec 32) : BitVec 32 := s.halfAt ea ++ s.halfAt (ea + 2)

def doubleAt (ea : BitVec 32) : BitVec 64 := s.wordAt ea ++ s.wordAt (ea + 4)

/-- The address of an access. -/
def address (w : BitVec 32) : BitVec 32 := s.gpr.base (fieldA w) + simm w

/-- The address of an access with update: register 0 stands for itself. -/
def addressU (w : BitVec 32) : BitVec 32 := s.gpr (fieldA w) + simm w

end Machine

/-! ## The instructions -/

section Exec

variable (fpu : FloatUnit) (w : BitVec 32) (s : Machine)

/-- The words of primary opcode 4. -/
def exec4 : RegWrites :=
  let d := fieldD w
  let a := s.fpr (fieldA w)
  let b := s.fpr (fieldB w)
  let c := s.fpr (fieldC w)
  match ppcBits w 21 30 with
  | 21 => { fprs := [(d, fpu.psAdd s.fpscr a b)] }
  | 20 => { fprs := [(d, fpu.psSub s.fpscr a b)] }
  | 18 => { fprs := [(d, fpu.psDiv s.fpscr a b)] }
  | 72 => { fprs := [(d, b)] }
  | 40 => { fprs := [(d, fpu.psNeg b)] }
  | _ =>
    match ppcBits w 26 30 with
    | 25 => { fprs := [(d, fpu.psMul s.fpscr a c)] }
    | 29 => { fprs := [(d, fpu.psMadd s.fpscr a c b)] }
    | 28 => { fprs := [(d, fpu.psMsub s.fpscr a c b)] }
    | _ => {}

/-- The high word of a product. -/
def highWord (x : BitVec 64) : BitVec 32 := (x >>> 32).setWidth 32

/-- The words of primary opcode 31, by their extended opcode: arithmetic has its result in `rD`,
logic and shifts in `rA`. -/
def exec31Xo (xo : Nat) : RegWrites :=
  let d := fieldD w
  let a := fieldA w
  let rs := s.gpr d
  let ra := s.gpr a
  let rb := s.gpr (fieldB w)
  match xo with
  | 235 => { gprs := [(d, ra * rb)] }
  | 75 => { gprs := [(d, highWord (ra.signExtend 64 * rb.signExtend 64))] }
  | 11 => { gprs := [(d, highWord (ra.setWidth 64 * rb.setWidth 64))] }
  | 491 => { gprs := [(d, ra.sdiv rb)] }
  | 459 => { gprs := [(d, ra / rb)] }
  | 266 => { gprs := [(d, ra + rb)] }
  | 40 => { gprs := [(d, rb - ra)] }
  | 104 => { gprs := [(d, -ra)] }
  | 28 => { gprs := [(a, rs &&& rb)] }
  | 444 => { gprs := [(a, rs ||| rb)] }
  | 316 => { gprs := [(a, rs ^^^ rb)] }
  | 476 => { gprs := [(a, ~~~(rs &&& rb))] }
  | 124 => { gprs := [(a, ~~~(rs ||| rb))] }
  | 284 => { gprs := [(a, ~~~(rs ^^^ rb))] }
  | 60 => { gprs := [(a, rs &&& ~~~rb)] }
  | 412 => { gprs := [(a, rs ||| ~~~rb)] }
  | 24 => { gprs := [(a, rs <<< (rb.toNat % 64))] }
  | 536 => { gprs := [(a, rs >>> (rb.toNat % 64))] }
  | 792 => { gprs := [(a, rs.sshiftRight (rb.toNat % 64))] }
  | 824 => { gprs := [(a, rs.sshiftRight (fieldB w))] }
  | 339 => { gprs := [(d, s.spr (decodeSpr w))] }
  | _ => {}

def exec31 : RegWrites := exec31Xo w s (ppcBits w 21 30)

/-- The words of primary opcode 63. -/
def exec63 : RegWrites :=
  let d := fieldD w
  let a := s.fpr (fieldA w)
  let b := s.fpr (fieldB w)
  let c := s.fpr (fieldC w)
  match ppcBits w 21 30 with
  | 72 => { fprs := [(d, b)] }
  | 40 => { fprs := [(d, fpu.fneg b)] }
  | 21 => { fprs := [(d, fpu.fadd s.fpscr a b)] }
  | 20 => { fprs := [(d, fpu.fsub s.fpscr a b)] }
  | 18 => { fprs := [(d, fpu.fdiv s.fpscr a b)] }
  | 25 => { fprs := [(d, fpu.fmul s.fpscr a c)] }
  | _ => {}

/-- A rotated and masked word. -/
def rotated (r mask : BitVec 32) (n : Nat) : BitVec 32 := r.rotateLeft n &&& mask

/-- The register writes of a word, by its primary opcode. A load with update is given its base
before the loaded value. Compares, branches and stores write no register. -/
def execPrimary (primary : Nat) : RegWrites :=
  let d := fieldD w
  let a := fieldA w
  let rs := s.gpr d
  let mask := rotMask (fieldMb w) (fieldMe w)
  let ea := s.address w
  let eaU := s.addressU w
  let qea := s.gpr.base a + qimm w
  let qeaU := s.gpr a + qimm w
  let gqr := s.spr (912 + ppcBits w 17 19)
  match primary with
  | 4 => exec4 fpu w s
  | 7 => { gprs := [(d, s.gpr a * simm w)] }
  | 14 => { gprs := [(d, s.gpr.base a + simm w)] }
  | 15 => { gprs := [(d, s.gpr.base a + simm w <<< 16)] }
  | 20 => { gprs := [(a, rotated rs mask (fieldB w) ||| s.gpr a &&& ~~~mask)] }
  | 21 => { gprs := [(a, rotated rs mask (fieldB w))] }
  | 23 => { gprs := [(a, rotated rs mask ((s.gpr (fieldB w)).toNat % 32))] }
  | 24 => { gprs := [(a, rs ||| uimm w)] }
  | 28 => { gprs := [(a, rs &&& uimm w)] }
  | 31 => exec31 w s
  | 32 => { gprs := [(d, s.wordAt ea)] }
  | 33 => { gprs := [(a, eaU), (d, s.wordAt eaU)] }
  | 34 => { gprs := [(d, (s.byteAt ea).setWidth 32)] }
  | 35 => { gprs := [(a, eaU), (d, (s.byteAt eaU).setWidth 32)] }
  | 40 => { gprs := [(d, (s.halfAt ea).setWidth 32)] }
  | 41 => { gprs := [(a, eaU), (d, (s.halfAt eaU).setWidth 32)] }
  | 42 => { gprs := [(d, (s.halfAt ea).signExtend 32)] }
  | 43 => { gprs := [(a, eaU), (d, (s.halfAt eaU).signExtend 32)] }
  | 46 =>
    { gprs := (List.range (32 - d)).map fun k => (d + k, s.wordAt (ea + BitVec.ofNat 32 (4 * k))) }
  | 37 | 39 | 45 | 53 | 55 => { gprs := [(a, eaU)] }
  | 48 => { fprs := [(d, fpu.fromSingle (s.wordAt ea))] }
  | 49 => { gprs := [(a, eaU)], fprs := [(d, fpu.fromSingle (s.wordAt eaU))] }
  | 50 => { fprs := [(d, s.doubleAt ea)] }
  | 51 => { gprs := [(a, eaU)], fprs := [(d, s.doubleAt eaU)] }
  | 56 => { fprs := [(d, fpu.dequantize gqr (ppcBits w 16 16) s.mem qea)] }
  | 57 =>
    { gprs := [(a, qeaU)], fprs := [(d, fpu.dequantize gqr (ppcBits w 16 16) s.mem qeaU)] }
  | 61 => { gprs := [(a, qeaU)] }
  | 63 => exec63 fpu w s
  | _ => {}

def exec : RegWrites := execPrimary fpu w s (ppcBits w 0 5)

end Exec

end Calynda.Decompiler
