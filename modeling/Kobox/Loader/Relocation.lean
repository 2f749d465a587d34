import Kobox.Loader.LoadSections

namespace Kobox.Loader

namespace Elf

def r64 : Nat := 1
def rPc32 : Nat := 2
def rPlt32 : Nat := 4
def r32 : Nat := 10
def r32s : Nat := 11
def rPc64 : Nat := 24

/-- The two 32-bit PC-relative types, treated alike. -/
def isPcRelative (type : Nat) : Bool := type==rPc32 || type==rPlt32

end Elf

def loadedSectionAddress (m : KbModule) (sectionIndex value : Nat) : Except Status Nat :=
  if m.sectionCount ≤ sectionIndex then .error .invalid
  else if (m.sections sectionIndex).base=0 ∨ (m.sections sectionIndex).size<value then
    .error .invalid
  else .ok (((m.sections sectionIndex).base+value)%wordSize)

def symbolIsPercpuOffset (m : KbModule) (symbol : Symbol) : Bool :=
  if m.sectionCount ≤ symbol.sectionIndex then false
  else
    match (kbElfSection m.elf symbol.sectionIndex).val with
    | .error _ => false
    | .ok sec => isPercpuSection sec

def percpuSymbolAddress (m : KbModule) (symbol : Symbol) : Except Status Nat :=
  if m.percpuOffset=0 ∨ m.percpuSize<symbol.value then .error .invalid
  else .ok (m.percpuOffset+symbol.value)

def resolveSymbol (env : Env) (m : KbModule) (symbolTable symbolIndex : Nat) : Except Status Nat :=
  match (kbElfSymbol m.elf symbolTable symbolIndex).val with
  | .error e => .error e
  | .ok symbol =>
    if symbol.sectionIndex=Elf.shnUndef then
      if shimSymbolFindAddress env symbol.name.text=0 then .error .unsupported
      else .ok (shimSymbolFindAddress env symbol.name.text)
    else if symbol.sectionIndex=Elf.shnAbs then .ok symbol.value
    else if symbolIsPercpuOffset m symbol then percpuSymbolAddress m symbol
    else loadedSectionAddress m symbol.sectionIndex symbol.value

/-- `relocation_target` accepts the relocation. -/
def relocationTarget (m : KbModule) (r : Relocation) : Except Status Unit :=
  if m.sectionCount ≤ r.targetSectionIndex then .error .invalid
  else if (m.sections r.targetSectionIndex).base=0 ∨
      (m.sections r.targetSectionIndex).size ≤ r.offset then .error .invalid
  else .ok ()

def relocationOperandFits (m : KbModule) (r : Relocation) (width : Nat) : Bool :=
  decide (r.targetSectionIndex < m.sectionCount) &&
    decide ((m.sections r.targetSectionIndex).base≠0 ∧
      r.offset≤(m.sections r.targetSectionIndex).size ∧
      width≤(m.sections r.targetSectionIndex).size-r.offset)

/-- A word read as a signed number lies in the range of `uint32_t`, of `int32_t`. -/
def valueFitsU32 (v : Nat) : Bool := decide (v<2^32)
def valueFitsI32 (v : Nat) : Bool := decide (v<2^31 ∨ wordSize-2^31≤v)

def wordSub (a b : Nat) : Nat := (a+wordSize-b)%wordSize

def byteBefore (m : KbModule) (r : Relocation) : UInt8 :=
  m.image ((m.sections r.targetSectionIndex).offset+r.offset-1)

def indirectThunkRegister (name : String) : Option Nat :=
  ([("__x86_indirect_thunk_rax",0),("__x86_indirect_thunk_rcx",1),("__x86_indirect_thunk_rdx",2),
    ("__x86_indirect_thunk_rbx",3),("__x86_indirect_thunk_rbp",5),("__x86_indirect_thunk_rsi",6),
    ("__x86_indirect_thunk_r8",8),("__x86_indirect_thunk_r9",9),("__x86_indirect_thunk_r10",10),
    ("__x86_indirect_thunk_r11",11),("__x86_indirect_thunk_r12",12),("__x86_indirect_thunk_r13",13),
    ("__x86_indirect_thunk_r14",14),("__x86_indirect_thunk_r15",15)].find?
      fun e => e.1==name).map Prod.snd

/-- The five bytes for a call or jump to a thunk. Four registers the source repeats never apply. -/
def patchLocalExternal (m : KbModule) (symbol : Symbol) (r : Relocation) : Option (List UInt8) :=
  if !Elf.isPcRelative r.type then none
  else if symbol.name.text="__x86_return_thunk" then some [0xc3,0x90,0x90,0x90,0x90]
  else if symbol.name.text="__fentry__" then some [0x90,0x90,0x90,0x90,0x90]
  else
    match indirectThunkRegister symbol.name.text with
    | none => none
    | some register =>
      let opcode := byteBefore m r
      if opcode≠0xe8 ∧ opcode≠0xe9 then none
      else
        let modrm := if opcode=0xe8 then 0xd0 else 0xe0
        if register<8 then some [0xff,UInt8.ofNat (modrm+register),0x90,0x90,0x90]
        else some [0x41,0xff,UInt8.ofNat (modrm+(register-8)),0x90,0x90]

/-- What a symbol of the module itself is replaced by. -/
inductive Override
  | returnZero
  | usbControlMsg
  | lookup (name : String)

def returnZeroSymbols : List String :=
  ["_nv037805rm","nv_kthread_q_stop","os_flush_cpu_cache","os_flush_cpu_cache_all",
    "usb_enable_lpm","usb_disable_lpm","usb_unlocked_enable_lpm","usb_unlocked_disable_lpm",
    "usb_device_supports_lpm","usb_enable_usb2_hardware_lpm","usb_disable_usb2_hardware_lpm"]

def overrideNames : List (String × String) :=
  [("kvm_configure_mmu","kvm_configure_mmu"),("kvm_mmu_set_me_spte_mask","kvm_mmu_set_me_spte_mask"),
    ("kvm_mmu_set_mmio_spte_mask","kvm_mmu_set_mmio_spte_mask"),
    ("__SCT__kvm_x86_vcpu_precreate","__static_call_return0"),
    ("__SCT__kvm_x86_vcpu_pre_run","__static_call_return1"),
    ("__SCT__kvm_x86_vcpu_run","__kobox_kvm_vcpu_run_exit"),
    ("__SCT__kvm_x86_is_valid_cr0","__static_call_return1"),
    ("__SCT__kvm_x86_is_valid_cr4","__static_call_return1"),
    ("kvm_lapic_hv_timer_in_use","__static_call_return0"),
    ("__kvm_vcpu_update_apicv","rep_stos_alternative"),
    ("__ext4_fc_track_create","rep_stos_alternative"),("__ext4_fc_track_link","rep_stos_alternative"),
    ("__ext4_fc_track_unlink","rep_stos_alternative"),("ext4_fc_track_create","rep_stos_alternative"),
    ("ext4_fc_track_link","rep_stos_alternative"),("ext4_fc_track_unlink","rep_stos_alternative"),
    ("ext4_fc_track_inode","rep_stos_alternative"),("ext4_fc_track_range","rep_stos_alternative")]

def overrideOf (env : Env) (name : String) : Option Override :=
  if name∈returnZeroSymbols then some .returnZero
  else if name="usb_control_msg" then some .usbControlMsg
  else if name="hub_port_debounce" then
    if env.getenv "KOBOX_DEVICE_BACKEND"=some "pachaos" then some (.lookup name) else none
  else ((overrideNames.find? fun e => e.1==name).map Prod.snd).map Override.lookup

def lookupInternalSymbolOverride (env : Env) (name : String) : Prog Load Status Nat := do
  match overrideOf env name with
  | none => return 0
  | some .returnZero => return env.returnZero
  | some .usbControlMsg =>
    let s ← Prog.get
    return s.module.shimAddress usbControlMsgStubOffset
  | some (.lookup other) => lookupModuleShimSymbol env other

def interposedSymbols : List String :=
  ["usb_deregister","usb_deregister_dev","usb_find_common_endpoints","usb_find_interface",
    "usb_hcd_pci_probe","usb_hcd_pci_remove","usb_hcd_pci_shutdown","usb_kill_urb",
    "usb_register_driver","usb_submit_urb","usb_unlink_urb","kvm_configure_mmu",
    "kvm_mmu_set_me_spte_mask","kvm_mmu_set_mmio_spte_mask"]

def lookupInterposed (env : Env) (name : String) : Prog Load Status Nat :=
  if name∈interposedSymbols then lookupModuleShimSymbol env name else pure 0

/-- A call stub for code exported by another module; data and unowned addresses stay. -/
def crossModuleAddress (env : Env) (address : Nat) : Prog Load Status Nat := fun s =>
  if !isExecutableAddress s.globals address then (.ok address,s)
  else
    let calleeGs := kernelGsForAddress env s.globals address
    if calleeGs=0 then (.ok address,s)
    else
      let r := allocateExternalCallStubForCaller env .crossModule address env.kernelGs calleeGs
        s.module
      if r.1=0 then (.error .nomem,{ s with module := r.2 })
      else (.ok r.1,{ s with module := r.2 })

/-- Address of an undefined symbol: an interposed shim, an export of another module, or a
shim. -/
def externalSymbolAddress (env : Env) (name : String) : Prog Load Status Nat := do
  let interposed ← lookupInterposed env name
  if interposed≠0 then return interposed
  else
    let s ← Prog.get
    let exported := lookupExport s.globals.registry (some name)
    if exported≠0 then crossModuleAddress env exported
    else
      let address ← lookupModuleShimSymbol env name
      if address=0 then Prog.fail .unsupported else return address

/-- Two per-CPU symbols are addressed relative to GS when the access is PC-relative. -/
def percpuAdjusted (name : String) (type address : Nat) : Nat :=
  if Elf.isPcRelative type then
    if name="softnet_data" then gsPcpuHotOffset
    else if name="this_cpu_off" then 0
    else address
  else address

def localSymbolAddress (env : Env) (symbol : Symbol) : Prog Load Status Nat := do
  let s ← Prog.get
  if symbolIsPercpuOffset s.module symbol then
    Prog.ofExcept (percpuSymbolAddress s.module symbol)
  else
    let address ← Prog.ofExcept (loadedSectionAddress s.module symbol.sectionIndex symbol.value)
    let replaced ← lookupInternalSymbolOverride env symbol.name.text
    return if replaced≠0 then replaced else address

def symbolAddress (env : Env) (symbol : Symbol) (type : Nat) : Prog Load Status Nat :=
  if symbol.sectionIndex=Elf.shnUndef then do
    let address ← externalSymbolAddress env symbol.name.text
    return percpuAdjusted symbol.name.text type address
  else if symbol.sectionIndex=Elf.shnAbs then return symbol.value
  else localSymbolAddress env symbol

/-- The mock probe count replaces one direct call of a module symbol. -/
def mockedAddress (env : Env) (symbol : Symbol) (r : Relocation) (address : Nat) :
    Prog Load Status Nat := do
  let s ← Prog.get
  if symbol.sectionIndex≠Elf.shnUndef ∧ Elf.isPcRelative r.type ∧ 0 < r.offset ∧
      byteBefore s.module r=0xe8 ∧ symbol.name.text="nv_pci_count_devices" ∧
      (env.getenv "KOBOX_MOCK_NVIDIA_PROBE_COUNT").isSome then
    let stub ← lookupModuleShimSymbol env "kobox_nvidia_mock_nv_pci_count_devices"
    return if stub≠0 then stub else address
  else return address

/-- Store the operand if it fits the section and its value the width. -/
def storeOperand (r : Relocation) (width : Nat) (inRange : Bool) (value : Nat) :
    Prog Load Status Unit := fun s =>
  if !relocationOperandFits s.module r width then (.error .invalid,s)
  else if !inRange then (.error .unsupported,s)
  else
    (.ok (),s.onModule
      (KbModule.storeSection r.targetSectionIndex r.offset (Bytes.leBytes width value)))

/-- The switch over the relocation types; `value` is S+A and `place` the operand's address. -/
def storeRelocated (r : Relocation) (value place : Nat) : Prog Load Status Unit :=
  if r.type=0 then return ()
  else if r.type=Elf.r64 then storeOperand r 8 true value
  else if Elf.isPcRelative r.type then
    storeOperand r 4 (valueFitsI32 (wordSub value place)) (wordSub value place)
  else if r.type=Elf.rPc64 then storeOperand r 8 true (wordSub value place)
  else if r.type=Elf.r32 then storeOperand r 4 (valueFitsU32 value) value
  else if r.type=Elf.r32s then storeOperand r 4 (valueFitsI32 value) value
  else Prog.fail .unsupported

def localPatch (m : KbModule) (symbol : Symbol) (r : Relocation) : Option (List UInt8) :=
  if symbol.sectionIndex=Elf.shnUndef ∧ 0 < r.offset ∧ relocationOperandFits m r 4 then
    patchLocalExternal m symbol r
  else none

def applyOneRelocation (env : Env) (r : Relocation) : Prog Load Status Unit := do
  let s ← Prog.get
  Prog.ofExcept (relocationTarget s.module r)
  let symbol ← Prog.ofExcept (kbElfSymbol s.module.elf r.symbolTableSectionIndex r.symbolIndex).val
  match localPatch s.module symbol r with
  | some bytes =>
    Prog.modify (Load.onModule (KbModule.storeSection r.targetSectionIndex (r.offset-1) bytes))
  | none =>
    let address ← symbolAddress env symbol r.type
    let relocated ← mockedAddress env symbol r address
    let addend := if r.hasAddend then r.addend else 0
    let place := ((s.module.sections r.targetSectionIndex).base+r.offset)%wordSize
    storeRelocated r ((relocated+addend)%wordSize) place

def relocateSection (env : Env) (sectionIndex : Nat) : Prog Load Status Unit := do
  let s ← Prog.get
  let sec ← Prog.ofExcept (kbElfSection s.module.elf sectionIndex).val
  if !isRelocationTable sec.type then return ()
  else if s.module.sectionCount ≤ sec.info ∨ (s.module.sections sec.info).base=0 then return ()
  else
    let count ← Prog.ofExcept (kbElfRelocationCount s.module.elf sectionIndex).val
    Prog.loopFrom (fun k => do
      let r ← Prog.ofExcept (kbElfRelocation s.module.elf sectionIndex k).val
      applyOneRelocation env r) 0 count

def applyRelocations (env : Env) : Prog Load Status Unit := do
  let s ← Prog.get
  Prog.loopFrom (relocateSection env) 0 (kbElfSectionCount s.module.elf)

end Kobox.Loader
