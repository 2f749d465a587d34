import Kobox.Loader.Module

namespace Kobox.Loader

def nodeDataOffset : Nat := shimDataOffset+6144
def nodeStatesOffset : Nat := shimDataOffset+6400
def bootCpuDataOffset : Nat := shimDataOffset+6656
def pageOffsetBaseOffset : Nat := shimDataOffset+7168
def vmemmapBaseOffset : Nat := shimDataOffset+7176
def physBaseOffset : Nat := shimDataOffset+7184
def dmaOpsPtrOffset : Nat := shimDataOffset+7192
def initUserNsOffset : Nat := shimDataOffset+7200
def currentNsproxyOffset : Nat := shimDataOffset+7296
def currentMntNsOffset : Nat := shimDataOffset+7360
def currentCredOffset : Nat := shimDataOffset+7680
def currentMmOffset : Nat := shimDataOffset+4608
def usbDataOffset : Nat := shimDataOffset+11264
def usbControlMsgStubOffset : Nat := usbDataOffset+1024
def jiffiesOffset : Nat := shimDataOffset+4096
def currentSignalOffset : Nat := shimDataOffset+13312
def currentSighandOffset : Nat := shimDataOffset+15360
def pvOpsOffset : Nat := shimDataOffset+3840
def miscDataOffset : Nat := shimDataOffset+3584

def gsPcpuHotOffset : Nat := 0x100
def gsStackChkGuardOffset : Nat := 0x180
def gsPreemptCountOffset : Nat := 0x188
def gsCpuNumberOffset : Nat := 0x190
def gsNumaNodeOffset : Nat := 0x198
def gsCpuInfoOffset : Nat := 0x200

/-- Where a data symbol lives: in the module's shim region or at a GS offset. -/
inductive ShimPlace
  | region (off : Nat)
  | gs (off : Nat)

def ShimPlace.address (m : KbModule) : ShimPlace → Nat
  | .region off => m.shimAddress off
  | .gs off => off

def findPlace (table : List (String × ShimPlace)) (name : String) : Option ShimPlace :=
  (table.find? fun e => e.1==name).map Prod.snd

/-- Data symbols that go before any provider. -/
def firstPlaces : List (String × ShimPlace) :=
  [("__num_online_cpus",.region usbDataOffset),("pcpu_hot",.gs gsPcpuHotOffset),
    ("const_current_task",.gs gsPcpuHotOffset),("__ref_stack_chk_guard",.gs gsStackChkGuardOffset),
    ("__preempt_count",.gs gsPreemptCountOffset),("cpu_number",.gs gsCpuNumberOffset),
    ("numa_node",.gs gsNumaNodeOffset),("cpu_info",.gs gsCpuInfoOffset),
    ("page_offset_base",.region pageOffsetBaseOffset),("vmemmap_base",.region vmemmapBaseOffset),
    ("phys_base",.region physBaseOffset),("init_user_ns",.region initUserNsOffset)]

/-- Data symbols that go before the provider tables but behind the KVM provider. -/
def usbPlaces : List (String × ShimPlace) :=
  [("pm_suspend_target_state",.region (usbDataOffset+320)),
    ("usb_hcd_pci_pm_ops",.region (usbDataOffset+384)),
    ("__tracepoint_xhci_dbg_init",.region (usbDataOffset+704)),
    ("__tracepoint_xhci_dbg_quirks",.region (usbDataOffset+704))]

def lastPlaces : List (String × ShimPlace) :=
  [("kmalloc_caches",.region shimDataOffset),("random_kmalloc_seed",.region (shimDataOffset+2048)),
    ("param_ops_int",.region (shimDataOffset+3072)),("param_ops_uint",.region (shimDataOffset+3136)),
    ("param_ops_bool",.region (shimDataOffset+3200)),("param_ops_bint",.region (shimDataOffset+3200)),
    ("param_ops_byte",.region (shimDataOffset+3264)),("param_ops_ulong",.region (shimDataOffset+3328)),
    ("param_ops_charp",.region (shimDataOffset+3328)),
    ("param_array_ops",.region (shimDataOffset+3328)),
    ("__cpu_possible_mask",.region (shimDataOffset+3392)),
    ("cpu_possible_mask",.region (shimDataOffset+3424)),
    ("__cpu_online_mask",.region (shimDataOffset+3408)),
    ("cpu_online_mask",.region (shimDataOffset+3432)),("nr_cpu_ids",.region (shimDataOffset+3440)),
    ("percpu_counter_batch",.region (shimDataOffset+3448)),("const_pcpu_hot",.gs gsPcpuHotOffset),
    ("this_cpu_off",.region (shimDataOffset+3456)),
    ("__per_cpu_offset",.region (shimDataOffset+3568)),
    ("pernet_ops_rwsem",.region (shimDataOffset+3472)),
    ("panic_notifier_list",.region (shimDataOffset+3520)),("pv_ops",.region pvOpsOffset),
    ("pv_irq_ops",.region pvOpsOffset),("pv_lock_ops",.region pvOpsOffset),
    ("node_data",.region nodeDataOffset),("node_states",.region nodeStatesOffset),
    ("boot_cpu_data",.region bootCpuDataOffset)]

def miscDataSymbols : List String :=
  ["__default_kernel_pte_mask","_ctype","acpi_gbl_FADT","cpu_bit_bitmap","debug_locks_silent",
    "devmap_managed_key","dotdot_name","efi","hugetlb_optimize_vmemmap_key","iomem_resource",
    "ioport_resource","init_uts_ns","hv_vp_assist_page","fs_overflowgid","fs_overflowuid",
    "fs_bio_set","fs_holder_ops","gdt_page","__tss_limit_invalid","fs_kobj","latent_entropy",
    "l1tf_mitigation","kfree_link","kmalloc_caches","ms_hyperv","nop_posix_acl_access",
    "nop_posix_acl_default","nop_mnt_idmap","oops_in_progress","dquot_quotactl_sysfile_ops",
    "pci_bus_type","pci_power_names","pm_wq","preempt_model_full","power_group_name","screen_info",
    "sme_me_mask","system_freezable_wq","system_long_wq","system_percpu_wq","system_state",
    "system_unbound_wq","system_power_efficient_wq","system_wq","param_ops_string",
    "param_ops_ushort","param_ops_ullong","usb_debug_root","uuid_null","pm_suspend_global_flags",
    "freezer_active","x86_cpu_to_apicid","x2apic_mode","x86_verw_sel","x86_virt_spec_ctrl",
    "__x86_call_depth","irq_stat","x86_spec_ctrl_current","sched_smt_present"]

/-- The symbols `bind_named_shim_stubs` insists on, in the order of the module's fields. -/
def namedShimSymbols : List String :=
  ["_printk","kfree","kmalloc","kzalloc","kmalloc_trace","request_threaded_irq","free_irq",
    "dma_alloc_attrs","dma_free_attrs","__stack_chk_fail","__pci_register_driver",
    "pci_unregister_driver","pci_enable_device","pci_disable_device","pci_set_master",
    "pci_iomap","pci_iounmap","ioread32","iowrite32"]

def moduleShimStubByName (env : Env) (m : KbModule) (name : String) : Nat :=
  if m.shimAddress 0=0 then 0
  else
    match shimSymbolFindIndex env name with
    | some i => m.shimAddress (i*shimStubSize)
    | none => 0

/-- Field of the module that holds a named stub; `printk` shares the one of `_printk`. -/
def namedStub (m : KbModule) (name : String) : Option Nat :=
  let field := if name="printk" then "_printk" else name
  ((namedShimSymbols.zip m.namedStubs).find? fun e => e.1==field).map Prod.snd

def textContains (text part : String) : Bool := decide (part.toList <:+: text.toList)

def modulePrefersKvmSymbols (m : KbModule) : Bool :=
  ["kvm.ko","kvm-amd.ko","kvm-intel.ko","/kvm/","\\kvm\\"].any (textContains m.name)

def kvmProviderNames : List String :=
  ["anon_inode_getfd","anon_inode_getfile","anon_inode_getfile_fmode","fd_install",
    "get_unused_fd_flags","put_unused_fd"]

def lookupKvmProviderSymbol (env : Env) (name : String) : Nat :=
  if name∉kvmProviderNames then 0
  else ((env.kvmSymbols.find? fun e => e.name==some name).map ShimSymbol.address).getD 0

def moduleKvmProviderStubByName (env : Env) (m : KbModule) (name : String) : Nat :=
  let provider := lookupKvmProviderSymbol env name
  if m.shimAddress 0=0 ∨ provider=0 then 0
  else
    match firstSlot (fun i =>
        match shimSymbolAt env i with
        | none => false
        | some symbol => symbol.name==some name && symbol.address==provider)
      0 (shimSymbolCount env) with
    | some i => m.shimAddress (i*shimStubSize)
    | none => 0

/-- The lookups of `lookup_module_shim_symbol` that only read, in its order. -/
def readShimSymbol (env : Env) (m : KbModule) (name : String) : Option Nat :=
  match findPlace firstPlaces name with
  | some place => some (place.address m)
  | none =>
    if name="init_task" then some m.currentTask
    else if modulePrefersKvmSymbols m ∧ moduleKvmProviderStubByName env m name≠0 then
      some (moduleKvmProviderStubByName env m name)
    else
      match findPlace usbPlaces name with
      | some place => some (place.address m)
      | none =>
        if moduleShimStubByName env m name≠0 then some (moduleShimStubByName env m name)
        else
          match namedStub m name with
          | some stub => some stub
          | none =>
            match findPlace lastPlaces name with
            | some place => some (place.address m)
            | none => if name∈miscDataSymbols then some (m.shimAddress miscDataOffset) else none

/-- Address of a kernel symbol, 0 for NULL. Two mappings are made on first use, `dma_ops` is stored
again, `jiffies` is registered unless a provider has it. -/
def lookupModuleShimSymbol (env : Env) (name : String) : Prog Load Status Nat := fun s =>
  if name="blockdev_superblock" then
    let r := sharedBlockdevSuperblock env s.globals
    (.ok r.1,{ s with globals := r.2 })
  else if name="tasklist_lock" then
    let r := sharedTasklistLock env s.globals
    (.ok r.1,{ s with globals := r.2 })
  else if name="dma_ops" then
    (.ok (s.module.shimAddress dmaOpsPtrOffset),
      s.onModule (KbModule.storeShim [(dmaOpsPtrOffset,Bytes.leBytes 8 env.dmaOps)]))
  else
    match readShimSymbol env s.module name with
    | some address => (.ok address,s)
    | none =>
      if name="jiffies" then
        (.ok (s.module.shimAddress jiffiesOffset),
          s.onGlobals (registerJiffiesStorage (s.module.shimAddress jiffiesOffset)))
      else (.ok (shimSymbolFindAddress env name),s)

end Kobox.Loader
