import Kobox.Loader.CopyProof

namespace Kobox.Loader

open List Prog Moves Patched

/-- What a relation needs for a relocation pass that stores only into sections of P. -/
structure Relocating (env : Env) (P : Nat → Prop) (R : Load → Load → Prop) : Prop where
  refl : ∀ s,R s s
  trans : ∀ a b c,R a b → R b c → R a c
  elf : ∀ a b,R a b → b.module.elf=a.module.elf
  lookup : ∀ name,Prog.Moves R (lookupModuleShimSymbol env name)
  cross : ∀ (s : Load) target callerGs calleeGs,R s { s with module :=
    (allocateExternalCallStubForCaller env .crossModule target callerGs calleeGs s.module).2 }
  store : ∀ (s : Load) i start bytes,P i → start+bytes.length≤(s.module.sections i).size →
    R s (s.onModule (KbModule.storeSection i start bytes))

/-- The same, for a pass that looks up `jiffies` only if J holds. -/
structure Resolving (env : Env) (P : Nat → Prop) (J : Prop) (R : Load → Load → Prop) : Prop where
  refl : ∀ s,R s s
  trans : ∀ a b c,R a b → R b c → R a c
  elf : ∀ a b,R a b → b.module.elf=a.module.elf
  lookup : ∀ name,(name="jiffies" → J) → Prog.Moves R (lookupModuleShimSymbol env name)
  cross : ∀ (s : Load) target callerGs calleeGs,R s { s with module :=
    (allocateExternalCallStubForCaller env .crossModule target callerGs calleeGs s.module).2 }
  store : ∀ (s : Load) i start bytes,P i → start+bytes.length≤(s.module.sections i).size →
    R s (s.onModule (KbModule.storeSection i start bytes))

theorem Relocating.resolving {env : Env} {P : Nat → Prop} {R : Load → Load → Prop}
    (h : Relocating env P R) : Resolving env P True R :=
  ⟨h.refl,h.trans,h.elf,fun name _ => h.lookup name,h.cross,h.store⟩

def Undefines (f : ElfFile) (name : String) : Prop :=
  ∃ table k symbol,(kbElfSymbol f table k).val=.ok symbol ∧ symbol.sectionIndex=Elf.shnUndef ∧
    symbol.name.text=name

/-- A relocation table of the file patches section i. -/
def Targeted (f : ElfFile) (i : Nat) : Prop :=
  ∃ j sec,(kbElfSection f j).val=.ok sec ∧ isRelocationTable sec.type=true ∧ sec.info=i

variable {m : KbModule}

theorem relocationOperandFits_iff {r : Relocation} {width : Nat} :
    relocationOperandFits m r width=true ↔ r.targetSectionIndex < m.sectionCount ∧
      (m.sections r.targetSectionIndex).base≠0 ∧
      r.offset≤(m.sections r.targetSectionIndex).size ∧
      width≤(m.sections r.targetSectionIndex).size-r.offset := by
  simp [relocationOperandFits]

variable {r : Relocation} {symbol : Symbol}

theorem patchLocalExternal_length {bytes : List UInt8}
    (h : patchLocalExternal m symbol r=some bytes) : bytes.length=5 := by
  unfold patchLocalExternal at h
  split at h
  · cases h
  split at h
  · cases h
    rfl
  split at h
  · cases h
    rfl
  split at h
  · cases h
  dsimp only at h
  split at h
  · cases h
  split at h
  · cases h
    rfl
  · cases h
    rfl

theorem localPatch_fits {bytes : List UInt8} (h : localPatch m symbol r=some bytes) :
    r.offset-1+bytes.length≤(m.sections r.targetSectionIndex).size := by
  unfold localPatch at h
  split at h
  · next hc =>
    have hf := (relocationOperandFits_iff).mp hc.2.2
    have hlen := patchLocalExternal_length h
    omega
  · cases h

theorem kbElfRelocation_target {f : ElfFile} {j k : Nat} {sec : Section}
    (hsec : (kbElfSection f j).val=.ok sec) (h : (kbElfRelocation f j k).val=.ok r) :
    r.targetSectionIndex=sec.info := by
  simp only [kbElfRelocation,Traced.val_bind,hsec,Traced.val_ite,Traced.val_pure,
    ite_error_eq_ok,Except.ok.injEq] at h
  obtain ⟨-,-,-,-,-,rfl⟩ := h
  rfl

theorem overrideOf_ne_jiffies {env : Env} {name other : String}
    (h : overrideOf env name=some (.lookup other)) : other≠"jiffies" := by
  have hall : ∀ e∈overrideNames,e.2≠"jiffies" := by decide
  unfold overrideOf at h
  split at h
  · cases h
  split at h
  · cases h
  split at h
  · next hname =>
    split at h
    · cases h
      rw [hname]
      decide
    · cases h
  · obtain ⟨target,htarget,he⟩ := Option.map_eq_some_iff.mp h
    obtain ⟨e,hfind,rfl⟩ := Option.map_eq_some_iff.mp htarget
    cases he
    exact hall e (mem_of_find?_eq_some hfind)

section

variable {env : Env} {P : Nat → Prop} {J : Prop} {R : Load → Load → Prop} (hR : Resolving env P J R)

include hR

variable {name : String}

theorem symbolOverride_moves : Moves R (lookupInternalSymbolOverride env name) := by
  unfold lookupInternalSymbolOverride
  split
  · exact pure hR.refl _
  · exact pure hR.refl _
  · exact get_bind hR.refl
  · next other hother => exact hR.lookup _ fun he => absurd he (overrideOf_ne_jiffies hother)

theorem lookupInterposed_moves : Moves R (lookupInterposed env name) := by
  have hne : ∀ n∈interposedSymbols,n≠"jiffies" := by decide
  exact ite (fun h => hR.lookup name fun he => absurd he (hne name h))
    fun _ => pure hR.refl _

theorem crossModuleAddress_moves {address : Nat} : Moves R (crossModuleAddress env address) := by
  intro s
  have h := hR.cross s address env.kernelGs (kernelGsForAddress env s.globals address)
  unfold crossModuleAddress
  split
  · exact hR.refl s
  dsimp only
  split
  · exact hR.refl s
  split <;> exact h

theorem externalAddress_moves (hJ : name="jiffies" → J) :
    Moves R (externalSymbolAddress env name) := by
  refine bind hR.trans (lookupInterposed_moves hR) fun interposed => ?_
  refine ite (fun _ => pure hR.refl _) fun _ => ?_
  refine get_bind fun s => ?_
  refine ite (fun _ => crossModuleAddress_moves hR) (fun _ => ?_) s
  refine bind hR.trans (hR.lookup name hJ) fun address => ?_
  exact ite (fun _ => fail hR.refl _) fun _ => pure hR.refl _

theorem localSymbolAddress_moves {symbol : Symbol} : Moves R (localSymbolAddress env symbol) := by
  refine get_bind fun s => ?_
  split
  · exact hR.refl s
  · refine check_bind (hR.refl s) fun address _ => ?_
    refine bind hR.trans (symbolOverride_moves hR) (fun replaced => ?_) s
    exact pure hR.refl _

theorem symbolAddress_moves (hJ : symbol.sectionIndex=Elf.shnUndef → symbol.name.text="jiffies" → J)
    {type : Nat} : Moves R (symbolAddress env symbol type) := by
  unfold symbolAddress
  split
  · next hundef =>
    exact bind hR.trans (externalAddress_moves hR (hJ hundef)) fun _ =>
      pure hR.refl _
  split
  · exact pure hR.refl _
  · exact localSymbolAddress_moves hR

theorem mockedAddress_moves {symbol : Symbol} {r : Relocation} {address : Nat} :
    Moves R (mockedAddress env symbol r address) := by
  refine get_bind fun s => ?_
  split
  · exact bind hR.trans (hR.lookup _ fun he => absurd he (by decide)) (fun _ => pure hR.refl _) s
  · exact hR.refl s

theorem storeOperand_moves (hr : P r.targetSectionIndex) (width : Nat) (inRange : Bool)
    (value : Nat) : Moves R (storeOperand r width inRange value) := by
  intro s
  unfold storeOperand
  split
  · exact hR.refl s
  next hfit =>
  split
  · exact hR.refl s
  have hf := (relocationOperandFits_iff).mp (by simpa using hfit)
  apply hR.store s _ _ _ hr
  rw [Bytes.leBytes_length]
  omega

theorem storeRelocated_moves (hr : P r.targetSectionIndex) {value place : Nat} :
    Moves R (storeRelocated r value place) := by
  have hstore := storeOperand_moves hR hr
  unfold storeRelocated
  split
  · exact pure hR.refl _
  split
  · exact hstore _ _ _
  split
  · exact hstore _ _ _
  split
  · exact hstore _ _ _
  split
  · exact hstore _ _ _
  split
  · exact hstore _ _ _
  · exact fail hR.refl _

theorem applyOneRelocation_moves (hr : P r.targetSectionIndex) {s : Load}
    (hJ : Undefines s.module.elf "jiffies" → J) : R s (applyOneRelocation env r s).2 := by
  refine get_bind (R := fun a b => a=s → R a b) (fun s hs => ?_) s rfl
  subst hs
  refine check_bind (hR.refl s) fun _ _ => ?_
  refine check_bind (hR.refl s) fun symbol hsym => ?_
  cases hb : localPatch s.module symbol r with
  | some bytes => exact hR.store s _ _ bytes hr (localPatch_fits hb)
  | none =>
    refine bind hR.trans (symbolAddress_moves hR
      (fun hundef hname => hJ ⟨_,_,symbol,hsym,hundef,hname⟩))
      (fun address => ?_) s
    refine bind hR.trans (mockedAddress_moves hR)
      fun relocated => ?_
    exact storeRelocated_moves hR hr

theorem relocateSection_moves {i : Nat} {s : Load} (hP : ∀ j,Targeted s.module.elf j → P j)
    (hJ : Undefines s.module.elf "jiffies" → J) : R s (relocateSection env i s).2 := by
  refine get_bind (R := fun a b => a=s → R a b) (fun u hu => ?_) s rfl
  subst hu
  refine check_bind (hR.refl u) fun sec hsec => ?_
  cases ht : isRelocationTable sec.type with
  | false => exact hR.refl u
  | true =>
    have hinfo : P sec.info := hP _ ⟨i,sec,hsec,ht,rfl⟩
    simp only [Bool.not_true,Bool.false_eq_true,if_false]
    split
    · exact hR.refl u
    refine check_bind (hR.refl u) fun count _ => ?_
    refine loopFrom_within (Q := fun x => x.module.elf=u.module.elf) hR.refl hR.trans
      (fun a b hab ha => (hR.elf a b hab).trans ha) (fun k x hx => ?_) 0 count rfl
    refine check_bind (hR.refl x) fun r hrel => ?_
    have htar := kbElfRelocation_target hsec hrel
    exact applyOneRelocation_moves hR (htar ▸ hinfo) (hx ▸ hJ)

theorem applyRelocations_resolving (s : Load) (hP : ∀ j,Targeted s.module.elf j → P j)
    (hJ : Undefines s.module.elf "jiffies" → J) : R s (applyRelocations env s).2 := by
  have hmove : ∀ n,R s (loopFrom (relocateSection env) 0 n s).2 := by
    intro n
    apply loopFrom_within (Q := fun u => u.module.elf=s.module.elf) hR.refl hR.trans
    · intro a b hab ha
      exact (hR.elf a b hab).trans ha
    · intro j u hu
      exact relocateSection_moves hR (fun k hk => hP k (hu ▸ hk)) (hu ▸ hJ)
    · rfl
  exact hmove _

end

theorem applyRelocations_relocating {env : Env} {P : Nat → Prop} {R : Load → Load → Prop}
    (hR : Relocating env P R) {s : Load} (hP : ∀ j,Targeted s.module.elf j → P j) :
    R s (applyRelocations env s).2 :=
  applyRelocations_resolving hR.resolving s hP fun _ => trivial

variable (env : Env)

theorem Patched.storeSection {env : Env} (s : Load) (i start : Nat) (bytes : List UInt8)
    (h : start+bytes.length≤(s.module.sections i).size) :
    Patched env s (s.onModule (KbModule.storeSection i start bytes)) :=
  onModule rfl rfl (Stored.section i start bytes h) rfl rfl

theorem allocateCrossStub_patched (s : Load) (target callerGs calleeGs : Nat) :
    Patched env s { s with module :=
      (allocateExternalCallStubForCaller env .crossModule target callerGs calleeGs s.module).2 } := by
  unfold allocateExternalCallStubForCaller
  dsimp only
  split
  · exact refl env s
  split
  · exact refl env s
  next hroom =>
  refine ⟨rfl,rfl,rfl,Grows.refl _,
    ⟨[],(Stored.stub .crossModule _ _).congr rfl rfl⟩,1,rfl,?_,Or.inr (by omega)⟩
  simp [crossStubs,KbModule.emitStub]

theorem Patched.relocating : Relocating env (fun _ => True) (Patched env) where
  refl := refl env
  trans := trans env
  elf := fun _ _ h => congrArg Plan.elf h.plan
  lookup := lookup_moves env
  cross := allocateCrossStub_patched env
  store := fun s i start bytes _ h => storeSection s i start bytes h

theorem applyRelocations_moves : Moves (Patched env) (applyRelocations env) := fun _ =>
  applyRelocations_relocating (relocating env) fun _ _ => trivial

/-- The recorded stores from s to t go into sections of P. -/
def Aimed (P : Nat → Prop) (s t : Load) : Prop := t.module.elf=s.module.elf ∧
    ∃ ws,t.module.writes=s.module.writes++ws ∧ ∀ w∈ws,P w.index

theorem Aimed.unwritten {P : Nat → Prop} {s t : Load} (he : t.module.elf=s.module.elf)
    (hw : t.module.writes=s.module.writes) : Aimed P s t :=
  ⟨he,[],by rw [hw,append_nil],fun _ h => absurd h not_mem_nil⟩

theorem Aimed.trans {P : Nat → Prop} (a b c : Load) (h : Aimed P a b) (k : Aimed P b c) :
    Aimed P a c := by
  obtain ⟨he,us,hus,hu⟩ := h
  obtain ⟨ke,ws,hws,hw⟩ := k
  refine ⟨ke.trans he,us++ws,by rw [hws,hus,append_assoc],?_⟩
  intro w hmem
  rcases mem_append.mp hmem with hmem|hmem
  · exact hu w hmem
  · exact hw w hmem

theorem Aimed.relocating (P : Nat → Prop) : Relocating env P (Aimed P) where
  refl := fun _ => Aimed.unwritten rfl rfl
  trans := Aimed.trans
  elf := fun _ _ h => h.1
  lookup := fun name s => by
    have h := shimSymbol_patched env name s
    exact Aimed.unwritten (congrArg Plan.elf h.1.plan) h.2
  cross := fun s target callerGs calleeGs => by
    apply Aimed.unwritten
    · exact congrArg Plan.elf (allocateCrossStub_patched env s target callerGs calleeGs).plan
    unfold allocateExternalCallStubForCaller
    dsimp only
    split
    · rfl
    split <;> rfl
  store := fun s i start bytes hi _ =>
    ⟨rfl,[⟨i,start,bytes.length⟩],rfl,fun w hw => by rw [mem_singleton.mp hw]; exact hi⟩

theorem applyRelocations_aimed (s : Load) :
    Aimed (Targeted s.module.elf) s (applyRelocations env s).2 :=
  applyRelocations_relocating (Aimed.relocating env _) fun _ h => h

end Kobox.Loader
