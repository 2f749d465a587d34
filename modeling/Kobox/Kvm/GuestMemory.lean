import Kobox.Kvm.Vcpu

namespace Kobox.Kvm

open List
open BitVec (ofNat)

/-! The guest as a machine of its own, which reads guest memory only. -/

def guestByte (m : HostMemory) (vm : Option VmRecord) (gpa : BitVec 64) : Option (BitVec 8) :=
  (translateGuestPhysical vm gpa).map m

/-- Bytes of the instruction that starts with the given ones. -/
def insnLength (fetch : Nat → BitVec 8) : Nat :=
  match opcodeOf (fetch 0) with
  | .movAlImm => 2
  | .movDxImm => 3
  | .operandSize => if fetch 1=0xba then 4 else 2
  | .movSiImm => 3
  | .lodsb => 1
  | .testAl => 2
  | .jz => 2
  | .jmp => 2
  | .hlt => 1
  | .inImm => 2
  | .outImm => 2
  | .inDx => 1
  | .outDx => 1
  | .addressSize => if fetch 1=0xa0 ∨ fetch 1=0xa2 then 6 else 2
  | .movAlMoffs => 9
  | .movMoffsAl => 9
  | .unknown => 1

/-- How many of them are read: a jump that is not taken does not look at its distance. -/
def bytesRead (fetch : Nat → BitVec 8) (r : Regs) : Nat :=
  if opcodeOf (fetch 0)=.jz ∧ r.zero=false then 1 else insnLength fetch

/-- The address of the byte in memory that the instruction reads. -/
def operand (fetch : Nat → BitVec 8) (r : Regs) : Option (BitVec 64) :=
  if opcodeOf (fetch 0)=.lodsb then some (r.rsi &&& 0xffff#64) else none

variable {f g : Nat → BitVec 8}

theorem fromBytes_congr {offset n : Nat} (h : ∀ k<offset+n,f k=g k) :
    fromBytes f offset n=fromBytes g offset n := by
  refine foldr_ext _ _ _ fun i hi v => ?_
  have hlt := mem_range.mp hi
  rw [h (offset+i) (by omega)]

theorem insnLength_pos {f : Nat → BitVec 8} : 0 < insnLength f := by
  unfold insnLength
  cases opcodeOf (f 0) <;> simp only <;> first | decide | (split <;> decide)

theorem bytesRead_pos {f : Nat → BitVec 8} {r : Regs} : 0<bytesRead f r := by
  unfold bytesRead
  split
  · decide
  · exact insnLength_pos

theorem insnLength_congr {r : Regs} (h : ∀ k<bytesRead f r,f k=g k) :
    insnLength f=insnLength g := by
  have h0 := h 0 (bytesRead_pos)
  unfold insnLength
  rw [← h0]
  cases hop : opcodeOf (f 0) with
  | operandSize =>
    have h1 := h 1 (by simp only [bytesRead,insnLength,hop]; split <;> simp_all; split <;> decide)
    simp [h1]
  | addressSize =>
    have h1 := h 1 (by simp only [bytesRead,insnLength]; split <;> simp_all; split <;> decide)
    simp [h1]
  | _ => rfl

theorem bytesRead_congr {r : Regs} (h : ∀ k<bytesRead f r,f k=g k) :
    bytesRead f r=bytesRead g r := by
  simp [bytesRead,h 0 (bytesRead_pos),insnLength_congr h]

variable {s : VcpuRun} {load : BitVec 64 → Option (BitVec 8)}

theorem execute_congr {load' : BitVec 64 → Option (BitVec 8)}
    (h : ∀ k<bytesRead f s.record.regs,f k=g k) (hl : ∀ a∈operand f s.record.regs,load a=load' a) :
    execute f load s=execute g load' s := by
  have h0 := h 0 (bytesRead_pos)
  have hread : opcodeOf (f 0)≠.jz → bytesRead f s.record.regs=insnLength f :=
    fun hne => if_neg fun hj => hne hj.1
  have hbytes : ∀ offset n,offset+n≤bytesRead f s.record.regs →
      fromBytes f offset n=fromBytes g offset n :=
    fun offset n hle => fromBytes_congr fun k hk => h k (hk.trans_le hle)
  unfold execute
  rw [← h0]
  cases hop : opcodeOf (f 0) with
  | movAlImm | jmp | inImm | outImm | testAl =>
    rw [hop] at hread
    have h1 := h 1 (by rw [hread nofun]; simp [insnLength,hop])
    simp [h1]
  | movDxImm | movSiImm =>
    rw [hop] at hread
    have h2 := hbytes 1 2 (by rw [hread nofun]; simp [insnLength,hop])
    simp [h2]
  | operandSize =>
    rw [hop] at hread
    have h1 := h 1 (by rw [hread nofun]; simp only [insnLength,hop]; split <;> decide)
    simp only [← h1]
    split
    · next he => rw [hbytes 2 2 (by rw [hread nofun]; simp [insnLength,hop,he])]
    · rfl
  | lodsb =>
    have hload := hl (s.record.regs.rsi &&& 0xffff#64) (by simp [operand,hop])
    simp [hload]
  | jz =>
    simp only
    split
    · next hz => rw [h 1 (by simp [bytesRead,insnLength,hop,hz])]
    · rfl
  | addressSize =>
    rw [hop] at hread
    have h1 := h 1 (by rw [hread nofun]; simp only [insnLength,hop]; split <;> decide)
    simp only [← h1]
    split
    · next he => rw [hbytes 2 4 (by rw [hread nofun]; simp [insnLength,hop,he])]
    · split
      · next he => rw [hbytes 2 4 (by rw [hread nofun]; simp [insnLength,hop,he])]
      · rfl
  | movAlMoffs | movMoffsAl =>
    rw [hop] at hread
    have h8 := hbytes 1 8 (by rw [hread nofun]; simp [insnLength,hop])
    simp [h8]
  | hlt | inDx | outDx | unknown => rfl

theorem execute_operand_none {gpa : BitVec 64} (h : gpa∈operand f s.record.regs)
    (hl : load gpa=none) : execute f load s=.done (-22) s := by
  unfold operand at h
  split at h
  · next hop =>
    obtain rfl : s.record.regs.rsi &&& 0xffff#64=gpa := by simpa using h
    simp [execute,hop,hl]
  · simp at h

theorem execute_not_taken (hop : opcodeOf (f 0)=.jz) (hz : s.record.regs.zero=false) :
    execute f load s=.next (s.withRegs (s.record.regs.skip 2)) := by
  simp [execute,hop,hz]

def guestFetch (m : HostMemory) (vm : Option VmRecord) (rip : BitVec 64) (k : Nat) : BitVec 8 :=
  (guestByte m vm (rip+BitVec.ofNat 64 k)).getD 0

/-- An instruction with a byte outside guest memory is an error, and changes nothing. -/
def guestTurn (m : HostMemory) (vm : Option VmRecord) (s : VcpuRun) : Turn :=
  let rip := s.record.regs.rip
  if s.record.hasRegs ∧ ∀ k < insnLength (guestFetch m vm rip),
      (translateGuestPhysical vm (rip+BitVec.ofNat 64 k)).isSome then
    execute (guestFetch m vm rip) (guestByte m vm) s
  else .done (-22) s

def reached (turn : VcpuRun → Turn) : Nat → VcpuRun → Option VcpuRun
  | 0,s => some s
  | n+1,s =>
    match turn s with
    | .next s' => reached turn n s'
    | .done _ _ => none

/-- The guest-physical addresses of the bytes a turn uses, with the host addresses they come from. -/
def accesses (m : HostMemory) (vm : Option VmRecord) (s : VcpuRun) : List (BitVec 64 × BitVec 64) :=
  match translateGuestInstruction vm s.record with
  | none => []
  | some insn =>
    let r := s.record.regs
    (List.range (bytesRead (behind m insn) r)).map (fun k =>
        (r.rip+BitVec.ofNat 64 k,insn+BitVec.ofNat 64 k))++
      (operand (behind m insn) r).toList.filterMap fun gpa =>
        (translateGuestPhysical vm gpa).map fun a => (gpa,a)

/-- Some byte of the instruction to execute, or its memory operand, has no place in guest
memory. -/
def Uncovered (m : HostMemory) (vm : Option VmRecord) (s : VcpuRun) : Prop :=
  let r := s.record.regs
  (∃ k < insnLength (guestFetch m vm r.rip),translateGuestPhysical vm (r.rip+BitVec.ofNat 64 k)=none) ∨
    ∃ gpa∈operand (guestFetch m vm r.rip) r,translateGuestPhysical vm gpa=none

/-- If its first byte has a place, so have the others, and those read stand behind it in the host. -/
def Whole (m : HostMemory) (vm : Option VmRecord) (s : VcpuRun) : Prop :=
  let r := s.record.regs
  ∀ insn,translateGuestInstruction vm s.record=some insn →
    (∀ k < insnLength (guestFetch m vm r.rip),
      (translateGuestPhysical vm (r.rip+BitVec.ofNat 64 k)).isSome) ∧
    ∀ k<bytesRead (guestFetch m vm r.rip) r,
      translateGuestPhysical vm (r.rip+BitVec.ofNat 64 k)=some (insn+BitVec.ofNat 64 k)

section

variable {m m' : HostMemory} {vm : Option VmRecord} {s : VcpuRun}

theorem translateInsn_some {v : VcpuRecord} {insn : BitVec 64}
    (h : translateGuestInstruction vm v=some insn) :
    v.hasRegs=true ∧ translateGuestPhysical vm v.regs.rip=some insn := by
  unfold translateGuestInstruction at h
  split at h
  · next hr => exact ⟨hr,h⟩
  · cases h

theorem guestFetch_behind {rip insn : BitVec 64} {k : Nat}
    (h : translateGuestPhysical vm (rip+BitVec.ofNat 64 k)=some (insn+BitVec.ofNat 64 k)) :
    guestFetch m vm rip k=behind m insn k := by
  simp [guestFetch,guestByte,behind,h]

theorem Whole.turn (h : Whole m vm s) : runTurn m vm s=guestTurn m vm s := by
  unfold runTurn guestTurn
  cases ht : translateGuestInstruction vm s.record with
  | none =>
    rw [if_neg]
    rintro ⟨hr,hall⟩
    have h0 := hall 0 (insnLength_pos)
    simp only [translateGuestInstruction,hr,if_true] at ht
    simp [ht] at h0
  | some insn =>
    obtain ⟨hsome,hread⟩ := h insn ht
    rw [if_pos ⟨(translateInsn_some ht).1,hsome⟩]
    symm
    exact execute_congr (fun k hk => guestFetch_behind (hread k hk)) fun gpa _ => rfl

def Translated (m : HostMemory) (vm : Option VmRecord) (s : VcpuRun) : Prop :=
  ∀ a∈accesses m vm s,translateGuestPhysical vm a.1=some a.2

def Refused (m : HostMemory) (vm : Option VmRecord) (s : VcpuRun) : Prop :=
  Uncovered m vm s → ∃ status<0,runTurn m vm s=.done status s

theorem turn_of_untranslated (h : translateGuestInstruction vm s.record=none) :
    Translated m vm s ∧ Refused m vm s := by
  have hturn : runTurn m vm s=.done (-22) s := by simp [runTurn,h]
  exact ⟨by simp [Translated,accesses,h],fun _ => ⟨-22,by decide,hturn⟩⟩

theorem Whole.translated (h : Whole m vm s) : Translated m vm s := by
  cases ht : translateGuestInstruction vm s.record with
  | none => exact (turn_of_untranslated ht).1
  | some insn =>
    obtain ⟨-,hread⟩ := h insn ht
    have hagree : ∀ k<bytesRead (guestFetch m vm s.record.regs.rip) s.record.regs,
        guestFetch m vm s.record.regs.rip k=behind m insn k :=
      fun k hk => guestFetch_behind (hread k hk)
    intro a ha
    simp only [accesses,ht,mem_append,mem_map,mem_range,mem_filterMap] at ha
    rcases ha with ⟨k,hk,rfl⟩ | ⟨gpa,-,hgpa⟩
    · exact hread k (bytesRead_congr hagree ▸ hk)
    · obtain ⟨b,hb,rfl⟩ := Option.map_eq_some_iff.mp hgpa
      exact hb

theorem Whole.refused (h : Whole m vm s) : Refused m vm s := by
  cases ht : translateGuestInstruction vm s.record with
  | none => exact (turn_of_untranslated ht).2
  | some insn =>
    obtain ⟨hsome,-⟩ := h insn ht
    rintro (⟨k,hk,hnone⟩ | ⟨gpa,hgpa,hnone⟩)
    · have hk' := hsome k hk
      simp [hnone] at hk'
    · refine ⟨-22,by decide,?_⟩
      rw [h.turn,guestTurn,if_pos ⟨(translateInsn_some ht).1,hsome⟩]
      exact execute_operand_none hgpa (by simp [guestByte,hnone])

theorem whole_of_turn (hacc : Translated m vm s) (href : Refused m vm s) : Whole m vm s := by
  intro insn ht
  have hbehind : ∀ k<bytesRead (behind m insn) s.record.regs,
      translateGuestPhysical vm (s.record.regs.rip+ofNat 64 k)=some (insn+ofNat 64 k) := by
    intro k hk
    refine hacc (s.record.regs.rip+ofNat 64 k,insn+ofNat 64 k) ?_
    simp only [accesses,ht]
    exact mem_append_left _ (mem_map.mpr ⟨k,mem_range.mpr hk,rfl⟩)
  have hagree : ∀ k<bytesRead (behind m insn) s.record.regs,
      behind m insn k=guestFetch m vm s.record.regs.rip k :=
    fun k hk => (guestFetch_behind (hbehind k hk)).symm
  have hread : ∀ k<bytesRead (guestFetch m vm s.record.regs.rip) s.record.regs,
      translateGuestPhysical vm (s.record.regs.rip+ofNat 64 k)=some (insn+ofNat 64 k) :=
    fun k hk => hbehind k (bytesRead_congr hagree ▸ hk)
  refine ⟨fun k hk => ?_,hread⟩
  by_contra hnone
  obtain ⟨status,-,hdone⟩ := href (.inl ⟨k,hk,by simpa using hnone⟩)
  -- a byte that is not read and has no place: only a jump that is not taken goes on without it
  by_cases hj : opcodeOf (guestFetch m vm s.record.regs.rip 0)=.jz ∧ s.record.regs.zero=false
  · have hop : opcodeOf (behind m insn 0)=.jz := by
      rw [hagree 0 (bytesRead_pos)]
      exact hj.1
    simp only [runTurn,ht] at hdone
    rw [execute_not_taken hop hj.2] at hdone
    cases hdone
  · have hlen : bytesRead (guestFetch m vm s.record.regs.rip) s.record.regs=
        insnLength (guestFetch m vm s.record.regs.rip) := if_neg hj
    simp [hread k (hlen ▸ hk)] at hnone

def SameGuest (vm : Option VmRecord) (m m' : HostMemory) : Prop :=
  ∀ gpa a,translateGuestPhysical vm gpa=some a → m' a=m a

variable (h : SameGuest vm m m')

include h

theorem SameGuest.guestByte : guestByte m' vm=guestByte m vm := by
  funext gpa
  cases ha : translateGuestPhysical vm gpa with
  | none => simp [Kvm.guestByte,ha]
  | some a => simp [Kvm.guestByte,ha,h gpa a ha]

theorem SameGuest.guestFetch : guestFetch m' vm=guestFetch m vm := by
  funext rip k
  simp [Kvm.guestFetch,h.guestByte]

theorem SameGuest.guestTurn : guestTurn m' vm=guestTurn m vm := by
  funext s
  simp [Kvm.guestTurn,h.guestByte,h.guestFetch]

theorem SameGuest.whole (hw : Whole m vm s) : Whole m' vm s := by
  simpa only [Whole,h.guestFetch] using hw

end

section

variable {turn turn' : VcpuRun → Turn}

theorem turns_congr {n : Nat} {s : VcpuRun}
    (h : ∀ k<n,∀ t,reached turn k s=some t → turn t=turn' t) :
    reached turn n s=reached turn' n s ∧ runTurns turn n s=runTurns turn' n s := by
  induction n generalizing s with
  | zero => exact ⟨rfl,rfl⟩
  | succ n ih =>
    have h0 := h 0 n.succ_pos s rfl
    simp only [reached,runTurns,← h0]
    cases ht : turn s with
    | done status s' => exact ⟨rfl,rfl⟩
    | next s' => exact ih fun k hk t hr => h (k+1) (by omega) t (by simpa [reached,ht] using hr)

end

/-- Every byte used is the one its guest-physical address translates to, an instruction not in guest
memory changes nothing, and no other byte of the host matters. -/
structure GuestOnly (m : HostMemory) (vm : Option VmRecord) (vcpu : Bool)
    (record : Option VcpuRecord) (run : Option RunArea) : Prop where
  translated : ∀ start,loopStart vcpu record run=some start → ∀ n < maxTurns,∀ s,
    reached (runTurn m vm) n start=some s → Translated m vm s
  refused : ∀ start,loopStart vcpu record run=some start → ∀ n < maxTurns,∀ s,
    reached (runTurn m vm) n start=some s → Refused m vm s
  blind : ∀ m',SameGuest vm m m' → vcpuRunExit m' vm vcpu record run=vcpuRunExit m vm vcpu record run

def WholeProgram (m : HostMemory) (vm : Option VmRecord) (vcpu : Bool) (record : Option VcpuRecord)
    (run : Option RunArea) : Prop :=
  ∀ start,loopStart vcpu record run=some start → ∀ n < maxTurns,∀ s,
    reached (guestTurn m vm) n start=some s → Whole m vm s

section

variable {m m' : HostMemory} {vm : Option VmRecord} {vcpu : Bool} {record : Option VcpuRecord}
  {run : Option RunArea} {start : VcpuRun}

theorem WholeProgram.reached (h : WholeProgram m vm vcpu record run)
    (hs : loopStart vcpu record run=some start) {n : Nat} (hn : n < maxTurns) :
    reached (guestTurn m vm) n start=Kvm.reached (runTurn m vm) n start :=
  (turns_congr fun k hk s hr => (h start hs k (hk.trans hn) s hr).turn.symm).1

theorem WholeProgram.runs (h : WholeProgram m vm vcpu record run)
    (hs : loopStart vcpu record run=some start) :
    runTurns (runTurn m vm) maxTurns start=runTurns (guestTurn m vm) maxTurns start :=
  (turns_congr fun k hk s hr => (h start hs k hk s hr).turn.symm).2.symm

theorem vcpuRunExit_congr (h : ∀ start,loopStart vcpu record run=some start →
      runTurns (runTurn m' vm) maxTurns start=runTurns (runTurn m vm) maxTurns start) :
    vcpuRunExit m' vm vcpu record run=vcpuRunExit m vm vcpu record run := by
  unfold vcpuRunExit
  cases vcpu with
  | false => rfl
  | true =>
    cases run with
    | none => rfl
    | some area =>
      cases record with
      | none => rfl
      | some v =>
        cases hc : completePendingReadExit v area with
        | none => simp [hc]
        | some v' =>
          have hrun := h ⟨v',clearKvmRunExitArea area⟩ (by simp [loopStart,hc])
          simp [hc,hrun]

end

/-- A call sees guest memory only if and only if every instruction it comes to lies in it, in one
piece. -/
theorem guest_only_iff_whole (m : HostMemory) (vm : Option VmRecord) (vcpu : Bool)
    (record : Option VcpuRecord) (run : Option RunArea) :
    GuestOnly m vm vcpu record run ↔ WholeProgram m vm vcpu record run := by
  constructor
  · intro h start hs n hn s hr
    have hwhole : ∀ k < maxTurns,∀ t,reached (runTurn m vm) k start=some t → Whole m vm t :=
      fun k hk t ht => whole_of_turn (h.translated start hs k hk t ht) (h.refused start hs k hk t ht)
    have heq : reached (runTurn m vm) n start=reached (guestTurn m vm) n start :=
      (turns_congr fun k hk t ht => (hwhole k (hk.trans hn) t ht).turn).1
    exact hwhole n hn s (heq ▸ hr)
  · intro h
    have hwhole : ∀ start,loopStart vcpu record run=some start → ∀ n < maxTurns,∀ s,
        reached (runTurn m vm) n start=some s → Whole m vm s :=
      fun start hs n hn s hr => h start hs n hn s (h.reached hs hn ▸ hr)
    refine ⟨fun start hs n hn s hr => (hwhole start hs n hn s hr).translated,
      fun start hs n hn s hr => (hwhole start hs n hn s hr).refused,fun m' hm => ?_⟩
    have h' : WholeProgram m' vm vcpu record run := by
      intro start hs n hn s hr
      rw [hm.guestTurn] at hr
      exact hm.whole (h start hs n hn s hr)
    refine vcpuRunExit_congr fun start hs => ?_
    rw [h'.runs hs,hm.guestTurn,← h.runs hs]

/-- One page of guest memory at 0x1000, at 0x7f000000 in the host. -/
def pageRegion : Region := ⟨0x1000,0x1000,0x7f000000⟩

def onePage : VmRecord :=
  ⟨true,#v[some pageRegion,none,none,none,none,none,none,none,none,none,none,none,none,none,none,none]⟩

theorem Region.translate_some {r : Region} {gpa a : BitVec 64} (h : r.translate gpa=some a) :
    r.guestPhysAddr≤gpa ∧ gpa < r.guestPhysAddr+r.memorySize ∧
      a=r.userspaceAddr+(gpa-r.guestPhysAddr) := by
  simp only [Region.translate] at h
  split at h
  · cases h
  · next hin =>
    push Not at hin
    exact ⟨BitVec.not_lt.mp hin.2.1,BitVec.not_le.mp hin.2.2,(Option.some.inj h).symm⟩

theorem onePage_translate {gpa : BitVec 64} :
    translateGuestPhysical (some onePage) gpa=pageRegion.translate gpa := by
  have hslots : onePage.slots.toList=some pageRegion::replicate 15 none := rfl
  have hflag : onePage.hasMemoryRegion=true := rfl
  cases hr : pageRegion.translate gpa with
  | none => simp [translateGuestPhysical,hslots,hr]
  | some b => simp [translateGuestPhysical,hslots,hflag,hr]

/-- The first byte of mov al, imm8 at the end of the page; behind it a byte of the host. -/
def pageEnd (secret : BitVec 8) : HostMemory := fun a =>
  if a=0x7f000fff then 0xb0 else if a=0x7f001000 then secret else 0

/-- The byte behind the page comes into a register. -/
theorem byte_behind_slot_read :
    let v : VcpuRecord := ⟨true,⟨0,0,0,0x1fff,0⟩,.none⟩
    ((vcpuRunExit (pageEnd 0x5a) (some onePage) true (some v) (some fun _ => 0)).2.1.map
        fun v => v.regs.rax)=some 0x5a ∧
      ¬GuestOnly (pageEnd 0x5a) (some onePage) true (some v) (some fun _ => 0) := by
  refine ⟨by decide +kernel,fun h => ?_⟩
  have hblind := h.blind (pageEnd 0xa5) ?_
  · have hrax := congrArg (fun out => out.2.1.map fun v => v.regs.rax) hblind
    revert hrax
    decide +kernel
  intro gpa a ha
  have hne : a≠0x7f001000 := by
    rw [onePage_translate] at ha
    obtain ⟨hlow,hhigh,rfl⟩ := Region.translate_some ha
    simp only [pageRegion] at hlow hhigh ⊢
    bv_omega
  simp only [pageEnd,if_neg hne]

end Kobox.Kvm
