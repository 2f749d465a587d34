import Mathlib.Tactic

namespace Kobox.Kvm

def memorySlotMax : Nat := 16
def runStorageBytes : Nat := 16384
def runExitReasonOffset : Nat := 0x8
def runIoDirectionOffset : Nat := 0x20
def runIoSizeOffset : Nat := 0x21
def runIoPortOffset : Nat := 0x22
def runIoCountOffset : Nat := 0x24
def runIoDataOffsetOffset : Nat := 0x28
def runMmioPhysAddrOffset : Nat := 0x20
def runMmioDataOffset : Nat := 0x28
def runMmioLenOffset : Nat := 0x30
def runMmioIsWriteOffset : Nat := 0x34
def runExitIoDataOffset : Nat := 0x100
def exitIo : BitVec 32 := 2
def exitHlt : BitVec 32 := 5
def exitMmio : BitVec 32 := 6

/-- Memory of the host, and the run area of a vcpu by offsets. -/
abbrev HostMemory := BitVec 64 → BitVec 8
abbrev RunArea := Nat → BitVec 8

structure Region where
  guestPhysAddr : BitVec 64
  memorySize : BitVec 64
  userspaceAddr : BitVec 64

/-- The record of a VM; a slot that is not active has no region. -/
structure VmRecord where
  hasMemoryRegion : Bool
  slots : Vector (Option Region) memorySlotMax

def Region.translate (r : Region) (gpa : BitVec 64) : Option (BitVec 64) :=
  let start := r.guestPhysAddr
  let stop := start+r.memorySize
  if stop<start ∨ gpa<start ∨ stop≤gpa then none
  else some (r.userspaceAddr+(gpa-start))

def translateGuestPhysical (vm : Option VmRecord) (gpa : BitVec 64) : Option (BitVec 64) :=
  match vm with
  | none => none
  | some vm =>
    if !vm.hasMemoryRegion then none
    else vm.slots.toList.findSome? fun slot => slot.bind fun r => r.translate gpa

structure Regs where
  rax : BitVec 64
  rdx : BitVec 64
  rsi : BitVec 64
  rip : BitVec 64
  rflags : BitVec 64
  deriving DecidableEq

inductive PendingExit
  | none
  | ioIn
  | mmioRead
  deriving DecidableEq

structure VcpuRecord where
  hasRegs : Bool
  regs : Regs
  pendingExit : PendingExit
  deriving DecidableEq

structure VcpuRun where
  record : VcpuRecord
  run : RunArea

/-- The little-endian bytes of a value, and the value of n bytes from an offset on. -/
def toBytes {w : Nat} (v : BitVec w) (n : Nat) : List (BitVec 8) :=
  (List.range n).map fun i => v.extractLsb' (8*i) 8

def fromBytes (fetch : Nat → BitVec 8) (offset n : Nat) : BitVec 64 :=
  (List.range n).foldr (fun i v => (v<<<8) ||| (fetch (offset+i)).setWidth 64) 0

def writeField {w : Nat} (run : RunArea) (offset n : Nat) (v : BitVec w) : RunArea := fun i =>
  if offset ≤ i ∧ i<offset+n then (toBytes v n).getD (i-offset) 0 else run i

def clearKvmRunExitArea (run : RunArea) : RunArea := fun i =>
  if runExitReasonOffset ≤ i ∧ i < runStorageBytes then 0 else run i

def writeKvmIoExit (run : RunArea) (direction : BitVec 8) (port : BitVec 16) (value : BitVec 8) :
    RunArea :=
  let run := writeField run runExitReasonOffset 4 exitIo
  let run := writeField run runIoDirectionOffset 1 direction
  let run := writeField run runIoSizeOffset 1 (1 : BitVec 8)
  let run := writeField run runIoPortOffset 2 port
  let run := writeField run runIoCountOffset 4 (1 : BitVec 32)
  let run := writeField run runIoDataOffsetOffset 8 (BitVec.ofNat 64 runExitIoDataOffset)
  writeField run runExitIoDataOffset 1 value

def writeKvmMmioExit (run : RunArea) (physAddr : BitVec 64) (isWrite value : BitVec 8) : RunArea :=
  let run := writeField run runExitReasonOffset 4 exitMmio
  let run := writeField run runMmioPhysAddrOffset 8 physAddr
  let run := writeField run runMmioDataOffset 1 value
  let run := writeField run runMmioLenOffset 4 (1 : BitVec 32)
  writeField run runMmioIsWriteOffset 1 isWrite

def Regs.setAl (r : Regs) (value : BitVec 8) : Regs :=
  {r with rax := (r.rax &&& ~~~0xff#64) ||| value.setWidth 64}

def Regs.al (r : Regs) : BitVec 8 := r.rax.setWidth 8

def Regs.skip (r : Regs) (n : BitVec 64) : Regs := {r with rip := r.rip+n}

/-- `complete_pending_read_exit`; nothing for an error. -/
def completePendingReadExit (v : VcpuRecord) (run : RunArea) : Option VcpuRecord :=
  match v.pendingExit with
  | .none => some v
  | .ioIn =>
    let offset := fromBytes run runIoDataOffsetOffset 8
    if runStorageBytes≤offset.toNat then none
    else some {v with regs := v.regs.setAl (run offset.toNat),pendingExit := .none}
  | .mmioRead => some {v with regs := v.regs.setAl (run runMmioDataOffset),pendingExit := .none}

/-- The cases of the switch over the first byte. -/
inductive Opcode
  | movAlImm
  | movDxImm
  | operandSize
  | movSiImm
  | lodsb
  | testAl
  | jz
  | jmp
  | hlt
  | inImm
  | outImm
  | inDx
  | outDx
  | addressSize
  | movAlMoffs
  | movMoffsAl
  | unknown
  deriving DecidableEq

def opcodeOf (b : BitVec 8) : Opcode :=
  match b.toNat with
  | 0xb0 => .movAlImm
  | 0xba => .movDxImm
  | 0x66 => .operandSize
  | 0xbe => .movSiImm
  | 0xac => .lodsb
  | 0x84 => .testAl
  | 0x74 => .jz
  | 0xeb => .jmp
  | 0xf4 => .hlt
  | 0xe4 => .inImm
  | 0xe6 => .outImm
  | 0xec => .inDx
  | 0xee => .outDx
  | 0x67 => .addressSize
  | 0xa0 => .movAlMoffs
  | 0xa2 => .movMoffsAl
  | _ => .unknown

/-- A turn of the loop goes on with the next instruction or returns a status. -/
inductive Turn
  | next (s : VcpuRun)
  | done (status : Int) (s : VcpuRun)

def VcpuRun.withRegs (s : VcpuRun) (r : Regs) : VcpuRun := {s with record := {s.record with regs := r}}

def Regs.setDx (r : Regs) (value : BitVec 64) : Regs :=
  {r with rdx := (r.rdx &&& ~~~0xffff#64) ||| value}

def Regs.setSi (r : Regs) (value : BitVec 64) : Regs :=
  {r with rsi := (r.rsi &&& ~~~0xffff#64) ||| value}

def Regs.zero (r : Regs) : Bool := r.rflags &&& 0x40#64≠0

def VcpuRun.exit (s : VcpuRun) (run : RunArea) (size : BitVec 64) (pending : PendingExit) : Turn :=
  .done 0 ⟨{s.record with regs := s.record.regs.skip size,pendingExit := pending},run⟩

/-- The switch of `kb_kvm_vcpu_run_exit`; fetch has the bytes at insn, load a byte of memory. -/
def execute (fetch : Nat → BitVec 8) (load : BitVec 64 → Option (BitVec 8)) (s : VcpuRun) : Turn :=
  let r := s.record.regs
  let pending := s.record.pendingExit
  match opcodeOf (fetch 0) with
  | .movAlImm => .next (s.withRegs ((r.setAl (fetch 1)).skip 2))
  | .movDxImm => .next (s.withRegs ((r.setDx (fromBytes fetch 1 2)).skip 3))
  | .operandSize =>
    if fetch 1=0xba then .next (s.withRegs ((r.setDx (fromBytes fetch 2 2)).skip 4))
    else .done (-95) s
  | .movSiImm => .next (s.withRegs ((r.setSi (fromBytes fetch 1 2)).skip 3))
  | .lodsb =>
    match load (r.rsi &&& 0xffff#64) with
    | none => .done (-22) s
    | some value => .next (s.withRegs (((r.setAl value).setSi ((r.rsi+1) &&& 0xffff#64)).skip 1))
  | .testAl =>
    if fetch 1≠0xc0 then .done (-95) s
    else if r.rax &&& 0xff#64=0 then
      .next (s.withRegs ({r with rflags := r.rflags ||| 0x40#64}.skip 2))
    else .next (s.withRegs ({r with rflags := r.rflags &&& ~~~0x40#64}.skip 2))
  | .jz =>
    if r.zero then .next (s.withRegs ((r.skip 2).skip ((fetch 1).signExtend 64)))
    else .next (s.withRegs (r.skip 2))
  | .jmp => .next (s.withRegs ((r.skip 2).skip ((fetch 1).signExtend 64)))
  | .hlt => s.exit (writeField s.run runExitReasonOffset 4 exitHlt) 1 pending
  | .inImm => s.exit (writeKvmIoExit s.run 0 ((fetch 1).setWidth 16) 0) 2 .ioIn
  | .outImm => s.exit (writeKvmIoExit s.run 1 ((fetch 1).setWidth 16) r.al) 2 pending
  | .inDx => s.exit (writeKvmIoExit s.run 0 (r.rdx.setWidth 16) 0) 1 .ioIn
  | .outDx => s.exit (writeKvmIoExit s.run 1 (r.rdx.setWidth 16) r.al) 1 pending
  | .addressSize =>
    if fetch 1=0xa0 then s.exit (writeKvmMmioExit s.run (fromBytes fetch 2 4) 0 0) 6 .mmioRead
    else if fetch 1=0xa2 then
      s.exit (writeKvmMmioExit s.run (fromBytes fetch 2 4) 1 r.al) 6 pending
    else .done (-95) s
  | .movAlMoffs => s.exit (writeKvmMmioExit s.run (fromBytes fetch 1 8) 0 0) 9 .mmioRead
  | .movMoffsAl => s.exit (writeKvmMmioExit s.run (fromBytes fetch 1 8) 1 r.al) 9 pending
  | .unknown => .done (-95) s

def translateGuestInstruction (vm : Option VmRecord) (v : VcpuRecord) : Option (BitVec 64) :=
  if v.hasRegs then translateGuestPhysical vm v.regs.rip else none

def behind (m : HostMemory) (insn : BitVec 64) (k : Nat) : BitVec 8 := m (insn+BitVec.ofNat 64 k)

/-- One turn: the first byte is translated, the others are read behind it. -/
def runTurn (m : HostMemory) (vm : Option VmRecord) (s : VcpuRun) : Turn :=
  match translateGuestInstruction vm s.record with
  | none => .done (-22) s
  | some insn => execute (behind m insn) (fun gpa => (translateGuestPhysical vm gpa).map m) s

def runTurns (turn : VcpuRun → Turn) : Nat → VcpuRun → Int × VcpuRun
  | 0,s => (-95,s)
  | n+1,s =>
    match turn s with
    | .next s' => runTurns turn n s'
    | .done status s' => (status,s')

def maxTurns : Nat := 1024

/-- The state with which the loop is entered, where the call comes to it with a record. -/
def loopStart (vcpu : Bool) (record : Option VcpuRecord) (run : Option RunArea) : Option VcpuRun :=
  match vcpu,record,run with
  | true,some v,some run =>
    (completePendingReadExit v run).map fun v => ⟨v,clearKvmRunExitArea run⟩
  | _,_,_ => none

/-- `kb_kvm_vcpu_run_exit`: status, record and run area; vcpu is false for NULL. -/
def vcpuRunExit (m : HostMemory) (vm : Option VmRecord) (vcpu : Bool) (record : Option VcpuRecord)
    (run : Option RunArea) : Int × Option VcpuRecord × Option RunArea :=
  match vcpu,run with
  | false,_ => (-22,record,run)
  | true,none => (-22,record,run)
  | true,some area =>
    match record with
    | none => (-22,none,some (clearKvmRunExitArea area))
    | some v =>
      match completePendingReadExit v area with
      | none => (-22,some v,some area)
      | some v =>
        let out := runTurns (runTurn m vm) maxTurns ⟨v,clearKvmRunExitArea area⟩
        (out.1,some out.2.record,some out.2.run)

end Kobox.Kvm
