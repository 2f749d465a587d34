import Kobox.Loader.ShimLookup

namespace Kobox.Loader

def startLayout (s : Load) : Layout where
  imageSize := 0
  previousProtection := none
  sections := s.module.sections
  percpuOffset := s.module.percpuOffset
  percpuSize := s.module.percpuSize
  percpuNext := s.globals.percpuNext

def Load.withLayout (s : Load) (l : Layout) : Load where
  globals := { s.globals with percpuNext := l.percpuNext }
  module := { s.module with
    sections := l.sections
    percpuOffset := l.percpuOffset
    percpuSize := l.percpuSize }

def layoutStage : Prog Load Status Nat := fun s =>
  match layoutSections s.module.elf s.module.sectionCount (startLayout s) with
  | (.error e,l) => (.error e,s.withLayout l)
  | (.ok _,l) => (.ok l.imageSize,s.withLayout l)

/-- The record with its zeroed, writable mapping; the named stubs are the first slots. -/
def KbModule.withImage (m : KbModule) (imageBase shimRegionOffset imageSize : Nat) : KbModule :=
  { m with
    imageBase := imageBase
    imageSize := imageSize
    image := fun _ => 0
    protection := fun _ => .readWrite
    shimRegionOffset := shimRegionOffset
    namedStubs := (List.range namedShimSymbols.length).map fun k =>
      (imageBase+shimRegionOffset+k*shimStubSize)%wordSize }

def mapImage (env : Env) (shimRegionOffset imageSize : Nat) : Prog Load Status Unit := fun s =>
  let r := allocSectionMemory env imageSize s.globals.process
  let globals := { s.globals with process := r.2 }
  if r.1=0 then (.error .nomem,{ s with globals := globals })
  else (.ok (),⟨globals,s.module.withImage r.1 shimRegionOffset imageSize⟩)

/-- Map an image of the rounded size with the shim region at its end. -/
def allocateImage (env : Env) (sum : Nat) : Prog Load Status Unit :=
  if sum=0 then Prog.fail .invalid
  else
    mapImage env (alignUpU64 sum pageSize) ((alignUpU64 sum pageSize+shimRegionSize)%wordSize)

def attachCurrentTask (env : Env) : Prog Load Status Unit := fun s =>
  let r := sharedCurrentTask env s.globals
  let t := { globals := r.2,module := { s.module with currentTask := r.1 } }
  if r.1=0 then (.error .nomem,t) else (.ok (),t)

def le32 (v : Nat) : List UInt8 := Bytes.leBytes 4 v
def le64 (v : Nat) : List UInt8 := Bytes.leBytes 8 v

/-- Stores into the shim region before the stubs are written. -/
def shimDataStores (env : Env) (m : KbModule) : List (Nat × List UInt8) :=
  [(shimDataOffset+3392,le64 1),(shimDataOffset+3408,le64 1),
    (shimDataOffset+3424,le64 (m.shimAddress (shimDataOffset+3392))),
    (shimDataOffset+3432,le64 (m.shimAddress (shimDataOffset+3408))),
    (shimDataOffset+3440,le32 1),(shimDataOffset+3448,le32 32),(shimDataOffset+3452,le32 0),
    (shimDataOffset+3456,le64 0),(shimDataOffset+3568,le64 env.kernelGs),
    (pvOpsOffset+0x98,le64 env.returnZero),(usbDataOffset,le32 1),
    (pageOffsetBaseOffset,le64 env.pageOffsetBase),(vmemmapBaseOffset,le64 env.vmemmapBase),
    (physBaseOffset,le64 env.physBase)]

def writeShimData (env : Env) : Prog Load Status Unit := Prog.modify fun s =>
    { globals := { s.globals with gs := s.globals.gs.put 0 (le64 env.kernelGs) }
      module := s.module.storeShim (shimDataStores env s.module) }

def linuxUserAccessSymbols : List String :=
  ["__get_user_1","__get_user_2","__get_user_4","__get_user_8","__put_user_4","__put_user_8"]

def symbolStubCode (env : Env) (symbol : ShimSymbol) : List UInt8 :=
  if symbol.address=env.staticCallPreserveNoop then retStub
  else if symbol.name=some "stackleak_track_stack" then retStub
  else if ∃ n∈linuxUserAccessSymbols,symbol.name=some n then absJumpRawStub symbol.address
  else absJumpStub env symbol.address env.kernelGs env.kernelGs

def emitSymbolStub (env : Env) (i : Nat) : Prog Load Status Unit :=
  match shimSymbolAt env i with
  | none => Prog.fail .invalid
  | some symbol =>
    Prog.modify (Load.onModule
      (KbModule.emitStub .symbol (i*shimStubSize) (symbolStubCode env symbol)))

def emitSymbolStubs (env : Env) : Prog Load Status Unit :=
  if shimStubCount<shimSymbolCount env then Prog.fail .nomem
  else Prog.loopFrom (emitSymbolStub env) 0 (shimSymbolCount env)

def bindNamedShimStubs (env : Env) : Prog Load Status Unit := fun s =>
  let stubs := namedShimSymbols.map (moduleShimStubByName env s.module)
  let t := s.onModule fun m => { m with namedStubs := stubs }
  if stubs.any (fun a => a==0) then (.error .invalid,t) else (.ok (),t)

def emitUsbControlMsgStub (env : Env) : Prog Load Status Unit := Prog.modify (Load.onModule
    (KbModule.emitStub .usbControlMsg usbControlMsgStubOffset
      (absJumpRawStub env.usbControlMsgEntry)))

/-- The pv_ops table: a default everywhere, then the entries with an implementation. -/
def writePvOps (env : Env) : Prog Load Status Unit := do
  let cpuid ← lookupModuleShimSymbol env "kobox_x86_cpuid"
  let readMsr ← lookupModuleShimSymbol env "kobox_x86_read_msr"
  let readMsrSafe ← lookupModuleShimSymbol env "kobox_x86_read_msr_safe"
  let saveFlags ← lookupModuleShimSymbol env "kobox_x86_save_flags_if_enabled"
  let writeMsr ← lookupModuleShimSymbol env "kobox_x86_write_msr"
  let writeMsrSafe ← lookupModuleShimSymbol env "kobox_x86_write_msr_safe"
  Prog.modify (Load.onModule (KbModule.storeShim
    ((List.range 64).map (fun k => (pvOpsOffset+8*k,le64 env.returnZero))++
      [(pvOpsOffset+0x94,le64 cpuid),(pvOpsOffset+0x9c,le64 readMsr),
        (pvOpsOffset+0xa4,le64 writeMsr),(pvOpsOffset+0xac,le64 readMsrSafe),
        (pvOpsOffset+0xb4,le64 writeMsrSafe),(pvOpsOffset+0xd4,le64 env.returnZero),
        (pvOpsOffset+0xdc,le64 env.returnZero),(pvOpsOffset+0xe4,le64 env.returnZero),
        (pvOpsOffset+0xf0,le64 saveFlags)])))

def gsSlotStores (current : Nat) : List (Nat × List UInt8) :=
  [(gsPcpuHotOffset,le64 current),(gsStackChkGuardOffset,le64 0x6b6f626f785f7370),
    (gsPreemptCountOffset,le32 0),(gsCpuNumberOffset,le32 0),(gsNumaNodeOffset,le32 0),
    (gsCpuInfoOffset,List.replicate 512 0),(gsCpuInfoOffset+2,[2]),
    (gsCpuInfoOffset+0x48,le64 4)]

def commText : List UInt8 := [0x6b,0x6f,0x62,0x6f,0x78,0x2d,0x72,0x75,0x6e,0]

def taskStores (m : KbModule) : List (Nat × List UInt8) :=
  [(0xe8,le64 (m.shimAddress currentMmOffset)),(0x548,le64 (m.shimAddress currentMmOffset)),
    (0x758,le64 (m.shimAddress currentSignalOffset)),
    (0x760,le64 (m.shimAddress currentSighandOffset)),
    (0x848,le64 (m.shimAddress currentSignalOffset)),
    (0x850,le64 (m.shimAddress currentSighandOffset)),
    (0x6f0,le64 (m.shimAddress currentCredOffset)),(0x6f8,le64 (m.shimAddress currentCredOffset)),
    (0x7d0,le64 (m.shimAddress currentCredOffset)),(0x7d8,le64 (m.shimAddress currentCredOffset)),
    (0x7f0,le64 (m.shimAddress currentCredOffset)),
    (0x750,le64 (m.shimAddress currentNsproxyOffset)),
    (0x840,le64 (m.shimAddress currentNsproxyOffset)),
    (0x938,le64 (m.shimAddress currentMmOffset)),(0x950,le64 ((m.currentTask+0x9b8)%wordSize)),
    (0x9b8,le32 1),(0x7e8,commText),(0xbd8,commText)]

/-- Stores into the shim region that belong to the current task and the CPU data. -/
def taskShimStores (m : KbModule) : List (Nat × List UInt8) :=
  [(bootCpuDataOffset,List.replicate 512 0),(bootCpuDataOffset+2,[2]),
    (currentSignalOffset,List.replicate 2048 0),(currentSighandOffset,List.replicate 4096 0),
    (currentSignalOffset+0x190,le32 0),(currentSignalOffset+0x198,le64 0),
    (currentSignalOffset+0x190,le64 0),(currentSignalOffset+0x198,le32 0),
    (currentSignalOffset+0x1a0,le64 0),(currentCredOffset+0x08,le32 0),
    (currentCredOffset+0x0c,le32 0),(currentCredOffset+0x20,le32 0),
    (currentCredOffset+0x24,le32 0),(currentCredOffset+0x90,le64 (m.shimAddress initUserNsOffset)),
    (currentNsproxyOffset+0x18,le64 (m.shimAddress currentMntNsOffset)),
    (nodeDataOffset,le64 m.node0),(nodeStatesOffset+0x80,le64 1),
    (bootCpuDataOffset+0x30,le32 0x10000),(bootCpuDataOffset+0x2c,le64 (2^52))]

/-- From here on the shared current task points into the new image. -/
def initCurrentTask (env : Env) : Prog Load Status Unit := Prog.modify fun s =>
    let r := kbLoaderCurrentTask env s.globals
    { globals := { r.2 with
        gs := r.2.gs.putAll 0 (gsSlotStores r.1)
        task := r.2.task.putAll 0 (taskStores s.module) }
      module := s.module.storeShim (taskShimStores s.module) }

def KbModule.withBase (i : Nat) (m : KbModule) : KbModule :=
  { m with
    sections := Function.update m.sections i
      { (m.sections i) with base := (m.imageBase+(m.sections i).offset)%wordSize } }

/-- Contents of section i from the file; a NOBITS section keeps its zeros. -/
def KbModule.copyContents (i : Nat) (sec : Section) (m : KbModule) : KbModule :=
  if sec.type=Elf.shtNobits then m
  else
    { m with
      image := m.image.copy (m.sections i).offset sec.size m.elf.data sec.offset
      writes := m.writes++[⟨i,0,sec.size⟩] }

/-- The GS copy of a per-CPU section, again from the file. -/
def Globals.copyPercpu (m : KbModule) (sec : Section) (g : Globals) : Globals :=
  if sec.type=Elf.shtNobits then g
  else { g with gs := g.gs.copy m.percpuOffset sec.size m.elf.data sec.offset }

def copySection (i : Nat) : Prog Load Status Unit := fun s =>
  match (kbElfSection s.module.elf i).val with
  | .error e => (.error e,s)
  | .ok sec =>
    let m := s.module
    if !Elf.shfAlloc sec.flags then (.ok (),s)
    else if (m.sections i).size=0 then (.ok (),{ s with module := m.withBase i })
    else if sec.type≠Elf.shtNobits ∧ !rangeFits m.elf.size sec.offset sec.size then
      (.error .invalid,s)
    else if !isPercpuSection sec then
      (.ok (),{ s with module := (m.copyContents i sec).withBase i })
    else if m.percpuOffset=0 ∨ sec.size≠m.percpuSize ∨ gsSize-m.percpuOffset<sec.size then
      (.error .invalid,{ s with module := m.copyContents i sec })
    else (.ok (),⟨s.globals.copyPercpu m sec,(m.copyContents i sec).withBase i⟩)

def copySections : Prog Load Status Unit := do
  let s ← Prog.get
  Prog.loopFrom copySection 0 s.module.sectionCount

def taskJournalInfoOffset : Nat := 0x930

/-- The template follows the shared task while that is the published one and carries no
journal handle. -/
def captureTemplate (env : Env) : Prog Load Status Unit := Prog.modify fun s =>
    let d := sharedCurrentTask env s.globals
    let c := kbLoaderCurrentTask env d.2
    if c.1=d.1 ∧ Bytes.leValue c.2.task taskJournalInfoOffset 8=0 then
      { s with globals := { c.2 with
          template := (c.2.template.copy 0 4096 c.2.task 0).put taskJournalInfoOffset
            (List.replicate 8 0)
          templateValid := true } }
    else { s with globals := c.2 }

/-- The shim region: data, stubs, and the table of paravirtual operations. -/
def writeShim (env : Env) : Prog Load Status Unit := do
  writeShimData env
  emitSymbolStubs env
  bindNamedShimStubs env
  emitUsbControlMsgStub env
  writePvOps env

/-- The stages between the mapping of the image and the task. -/
def fillShim (env : Env) : Prog Load Status Unit := do
  attachCurrentTask env
  writeShim env

/-- `load_sections` up to the point where the shared current task is rewritten. -/
def loadImage (env : Env) : Prog Load Status Unit := do
  let sum ← layoutStage
  allocateImage env sum
  fillShim env

def loadSections (env : Env) : Prog Load Status Unit := do
  loadImage env
  initCurrentTask env
  copySections
  captureTemplate env

end Kobox.Loader
