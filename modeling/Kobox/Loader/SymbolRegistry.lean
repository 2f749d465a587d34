import Kobox.Framework.Run
import Kobox.Framework.Scan
import Kobox.Loader.ElfReader

namespace Kobox.Loader

open List Function

/-- One slot of `exported_symbols`; a NULL name marks a free slot. -/
structure ExportedSymbol where
  name : Option String
  address : Nat
  owner : Nat
  deriving DecidableEq,Repr

def ExportedSymbol.zero : ExportedSymbol := ⟨none,0,0⟩

def exportedSymbolMax : Nat := 4096

/-- The table `exported_symbols`, read by slot number. -/
abbrev SymbolRegistry := Nat → ExportedSymbol

def SymbolRegistry.empty : SymbolRegistry := fun _ => ExportedSymbol.zero

/-- `symbol_name_matches` against a valid name; a NULL slot name matches nothing. -/
def symbolNameMatches (r : SymbolRegistry) (name : String) (i : Nat) : Bool := (r i).name==some name

/-- A name argument is `none` when the pointer is not a valid one. -/
def lookupExport (r : SymbolRegistry) (name : Option String) : Nat :=
  match name with
  | none => 0
  | some s =>
    if s="" then 0
    else
      match firstSlot (symbolNameMatches r s) 0 exportedSymbolMax with
      | some i => (r i).address
      | none => 0

def addExport (r : SymbolRegistry) (name : Option String) (address owner : Nat) :
    Except Status Unit × SymbolRegistry :=
  match name with
  | none => (.error .invalid,r)
  | some s =>
    if s="" ∨ address=0 ∨ owner=0 then (.error .invalid,r)
    else
      match firstSlot (symbolNameMatches r s) 0 exportedSymbolMax with
      | some _ => (.ok (),r)
      | none =>
        match firstSlot (fun i => (r i).name.isNone) 0 exportedSymbolMax with
        | some i => (.ok (),Function.update r i ⟨some s,address,owner⟩)
        | none => (.error .nomem,r)

def removeOwner (r : SymbolRegistry) (owner : Nat) : SymbolRegistry :=
  if owner=0 then r
  else fun i => if i<exportedSymbolMax ∧ (r i).owner=owner then ExportedSymbol.zero else r i

structure SlotsOk (r : SymbolRegistry) : Prop where
  filled : ∀ i s,(r i).name=some s → i<exportedSymbolMax ∧ s≠"" ∧ (r i).address≠0 ∧ (r i).owner≠0
  free : ∀ i,(r i).name=none → r i=ExportedSymbol.zero
  unique : ∀ i j s,(r i).name=some s → (r j).name=some s → i=j

theorem SlotsOk.empty : SlotsOk SymbolRegistry.empty := by
  constructor
  · intro i s h
    cases h
  · intro i _
    rfl
  · intro i j s h
    cases h

section

variable (r : SymbolRegistry)

include r

theorem symbolNameMatches_iff {s : String} {i : Nat} :
    symbolNameMatches r s i=true ↔ (r i).name=some s := by
  exact beq_iff_eq

variable (hr : SlotsOk r)

include hr

theorem scan_none {s : String} :
    firstSlot (symbolNameMatches r s) 0 exportedSymbolMax=none ↔ ∀ i,(r i).name≠some s := by
  rw [firstSlot_none]
  constructor
  · intro h i hi
    have hlt := (hr.filled i s hi).1
    have hf := h i (Nat.zero_le i) (by omega)
    rw [(symbolNameMatches_iff r).mpr hi] at hf
    cases hf
  · intro h i _ _
    cases hm : symbolNameMatches r s i with
    | false => rfl
    | true => exact absurd ((symbolNameMatches_iff r).mp hm) (h i)

theorem lookupExport_slot {i : Nat} {s : String} (hi : (r i).name=some s) :
    lookupExport r (some s)=(r i).address := by
  have hs := (hr.filled i s hi).2.1
  obtain ⟨k,hk⟩ := firstSlot_isSome (p := symbolNameMatches r s) (Nat.zero_le i)
    (n := exportedSymbolMax) (by have := (hr.filled i s hi).1; omega)
    ((symbolNameMatches_iff r).mpr hi)
  have hkn := (symbolNameMatches_iff r).mp (firstSlot_some hk).2.2.1
  have he := hr.unique i k s hi hkn
  unfold lookupExport
  simp only [if_neg hs,hk]
  rw [he]

theorem lookupExport_missing {s : String} (h : ∀ i,(r i).name≠some s) :
    lookupExport r (some s)=0 := by
  unfold lookupExport
  simp only [(scan_none r hr).mpr h]
  split <;> rfl

theorem addExport_cases (name : Option String) (address owner : Nat) :
    (∃ e,addExport r name address owner=(.error e,r)) ∨
    (∃ s i,name=some s ∧ address≠0 ∧ owner≠0 ∧ (r i).name=some s ∧
      addExport r name address owner=(.ok (),r)) ∨
    (∃ s i,name=some s ∧ s≠"" ∧ address≠0 ∧ owner≠0 ∧ i<exportedSymbolMax ∧
      (r i).name=none ∧ (∀ j,(r j).name≠some s) ∧
      addExport r name address owner=(.ok (),update r i ⟨some s,address,owner⟩)) := by
  cases name with
  | none => exact Or.inl ⟨_,rfl⟩
  | some s =>
    by_cases harg : s="" ∨ address=0 ∨ owner=0
    · exact Or.inl ⟨.invalid,by simp only [addExport,if_pos harg]⟩
    have hargs : s≠"" ∧ address≠0 ∧ owner≠0 := by
      simpa only [not_or] using harg
    cases hm : firstSlot (symbolNameMatches r s) 0 exportedSymbolMax with
    | some i =>
      have hi := (symbolNameMatches_iff r).mp (firstSlot_some hm).2.2.1
      exact Or.inr (Or.inl ⟨s,i,rfl,hargs.2.1,hargs.2.2,hi,by
        simp only [addExport,if_neg harg,hm]⟩)
    | none =>
      have hmiss := (scan_none r hr).mp hm
      cases hf : firstSlot (fun i => (r i).name.isNone) 0 exportedSymbolMax with
      | none => exact Or.inl ⟨.nomem,by simp only [addExport,if_neg harg,hm,hf]⟩
      | some i =>
        have hfree := firstSlot_some hf
        have hnone : (r i).name=none := Option.isNone_iff_eq_none.mp hfree.2.2.1
        exact Or.inr (Or.inr ⟨s,i,rfl,hargs.1,hargs.2.1,hargs.2.2,by omega,hnone,hmiss,by
          simp only [addExport,if_neg harg,hm,hf]⟩)

end

variable {r : SymbolRegistry}

theorem SlotsOk.store (hr : SlotsOk r) (i : Nat) (s : String) (address owner : Nat)
    (hi : i<exportedSymbolMax) (hs : s≠"") (ha : address≠0) (ho : owner≠0)
    (hmiss : ∀ j,(r j).name≠some s) : SlotsOk (update r i ⟨some s,address,owner⟩) := by
  constructor
  · intro j t hj
    by_cases he : j=i
    · subst he
      simp only [update_self,Option.some.injEq] at hj ⊢
      exact ⟨hi,hj ▸ hs,ha,ho⟩
    · simp only [update_of_ne he] at hj ⊢
      exact hr.filled j t hj
  · intro j hj
    by_cases he : j=i
    · simp [he] at hj
    · simp only [update_of_ne he] at hj ⊢
      exact hr.free j hj
  · intro j k t hj hk
    by_cases hej : j=i
    · by_cases hek : k=i
      · rw [hej,hek]
      · simp only [hej,update_self] at hj
        simp only [update_of_ne hek] at hk
        exact absurd (hj ▸ hk) (hmiss k)
    · simp only [update_of_ne hej] at hj
      by_cases hek : k=i
      · simp only [hek,update_self] at hk
        exact absurd (hk ▸ hj) (hmiss j)
      · simp only [update_of_ne hek] at hk
        exact hr.unique j k t hj hk

theorem SlotsOk.add (hr : SlotsOk r) (name : Option String) (address owner : Nat) :
    SlotsOk (addExport r name address owner).2 := by
  rcases addExport_cases r hr name address owner with
    ⟨e,h⟩|⟨s,i,-,-,-,-,h⟩|⟨s,i,-,hs,ha,ho,hi,-,hmiss,h⟩
  · rw [h]
    exact hr
  · rw [h]
    exact hr
  · rw [h]
    exact hr.store i s address owner hi hs ha ho hmiss

theorem removeOwner_slot {r : SymbolRegistry} (hr : SlotsOk r) {owner i : Nat} {s : String} :
    (removeOwner r owner i).name=some s ↔ (r i).name=some s ∧ (r i).owner≠owner := by
  unfold removeOwner
  by_cases h0 : owner=0
  · rw [if_pos h0]
    constructor
    · intro h
      exact ⟨h,h0 ▸ (hr.filled i s h).2.2.2⟩
    · exact fun h => h.1
  rw [if_neg h0]
  by_cases hd : i<exportedSymbolMax ∧ (r i).owner=owner
  · simp [hd.1,hd.2,ExportedSymbol.zero]
  rw [if_neg hd]
  constructor
  · intro h
    exact ⟨h,fun ho => hd ⟨(hr.filled i s h).1,ho⟩⟩
  · exact fun h => h.1

theorem removeOwner_kept {r : SymbolRegistry} {owner i : Nat} {s : String}
    (h : (removeOwner r owner i).name=some s) : removeOwner r owner i=r i := by
  unfold removeOwner at h ⊢
  by_cases h0 : owner=0
  · rw [if_pos h0]
  rw [if_neg h0] at h ⊢
  split at h
  · cases h
  · next hd => rw [if_neg hd]

theorem SlotsOk.remove (hr : SlotsOk r) (owner : Nat) : SlotsOk (removeOwner r owner) := by
  constructor
  · intro i s h
    have hi := (removeOwner_slot hr).mp h
    rw [removeOwner_kept h]
    exact hr.filled i s hi.1
  · intro i h
    unfold removeOwner at h ⊢
    by_cases h0 : owner=0
    · rw [if_pos h0] at h ⊢
      exact hr.free i h
    rw [if_neg h0] at h ⊢
    split
    · rfl
    · next hd =>
      rw [if_neg hd] at h
      exact hr.free i h
  · intro i j s hi hj
    exact hr.unique i j s ((removeOwner_slot hr).mp hi).1
      ((removeOwner_slot hr).mp hj).1

inductive RegistryCall
  | add (name : Option String) (address owner : Nat)
  | remove (owner : Nat)

/-- The table with the exports that were added with success by owners not removed since. -/
structure RegistryRun where
  table : SymbolRegistry
  live : List (String × Nat × Nat)

open RegistryRun

def RegistryRun.start : RegistryRun := ⟨SymbolRegistry.empty,[]⟩

def RegistryRun.step (s : RegistryRun) : RegistryCall → RegistryRun
  | .add name address owner =>
    match name,addExport s.table name address owner with
    | some n,(.ok _,t) => ⟨t,(n,address,owner)::s.live⟩
    | _,(_,t) => ⟨t,s.live⟩
  | .remove owner => ⟨removeOwner s.table owner,s.live.filter fun e => e.2.2≠owner⟩

/-- The lookup answers exactly for the names with a live export, with a live address. -/
def RegistryRun.Exact (s : RegistryRun) : Prop :=
  ∀ name,(lookupExport s.table (some name)≠0 ↔ ∃ address owner,(name,address,owner)∈s.live) ∧
    (lookupExport s.table (some name)≠0 →
      ∃ owner,(name,lookupExport s.table (some name),owner)∈s.live)

/-- No other live owner exported a name whose slot the removed owner holds. -/
def RegistryRun.Removable (s : RegistryRun) : RegistryCall → Prop
  | .add _ _ _ => True
  | .remove owner => ∀ i n,(s.table i).name=some n → (s.table i).owner=owner →
      ∀ address other,(n,address,other)∈s.live → other=owner

/-- Every slot is a live export and every live name has a slot. -/
structure RegistryRun.Agrees (s : RegistryRun) : Prop where
  slots : SlotsOk s.table
  slotLive : ∀ i n,(s.table i).name=some n → (n,(s.table i).address,(s.table i).owner)∈s.live
  liveSlot : ∀ n address owner,(n,address,owner)∈s.live → ∃ i,(s.table i).name=some n

theorem RegistryRun.Agrees.start : RegistryRun.start.Agrees := by
  refine ⟨SlotsOk.empty,?_,?_⟩
  · intro i n h
    cases h
  · intro n address owner h
    cases h

variable {s : RegistryRun}

section

variable (h : s.Agrees)

include h

theorem RegistryRun.Agrees.exact : s.Exact := by
  intro name
  by_cases hslot : ∃ i,(s.table i).name=some name
  · obtain ⟨i,hi⟩ := hslot
    have hl := lookupExport_slot s.table h.slots hi
    have hlive := h.slotLive i name hi
    rw [hl]
    have ha := (h.slots.filled i name hi).2.2.1
    exact ⟨⟨fun _ => ⟨_,_,hlive⟩,fun _ => ha⟩,fun _ => ⟨_,hlive⟩⟩
  · have hmiss : ∀ i,(s.table i).name≠some name := fun i hi => hslot ⟨i,hi⟩
    have hl := lookupExport_missing s.table h.slots hmiss
    rw [hl]
    refine ⟨⟨fun hc => absurd rfl hc,?_⟩,fun hc => absurd rfl hc⟩
    rintro ⟨address,owner,hm⟩
    exact absurd (h.liveSlot name address owner hm) hslot

theorem RegistryRun.Agrees.add (name : Option String) (address owner : Nat) :
    (s.step (.add name address owner)).Agrees := by
  rcases addExport_cases s.table h.slots name address owner with
    ⟨e,hadd⟩|⟨n,i,hname,-,-,hi,hadd⟩|⟨n,i,hname,hn,ha,ho,hi,hfree,hmiss,hadd⟩
  · have hs : s.step (.add name address owner)=s := by
      cases name <;> simp [step,hadd]
    rw [hs]
    exact h
  · subst hname
    have hs : s.step (.add (some n) address owner)=⟨s.table,(n,address,owner)::s.live⟩ := by
      simp [step,hadd]
    rw [hs]
    refine ⟨h.slots,?_,?_⟩
    · intro j m hj
      exact mem_cons_of_mem _ (h.slotLive j m hj)
    intro m address' owner' hm
    rcases mem_cons.mp hm with he|hm
    · cases he
      exact ⟨i,hi⟩
    · exact h.liveSlot m address' owner' hm
  · subst hname
    have hs : s.step (.add (some n) address owner)=
        ⟨update s.table i ⟨some n,address,owner⟩,(n,address,owner)::s.live⟩ := by
      simp [step,hadd]
    rw [hs]
    refine ⟨h.slots.store i n address owner hi hn ha ho hmiss,?_,?_⟩
    · intro j m hj
      by_cases he : j=i
      · subst he
        simp only [update_self,Option.some.injEq] at hj ⊢
        rw [hj]
        exact mem_cons_self
      · simp only [update_of_ne he] at hj ⊢
        exact mem_cons_of_mem _ (h.slotLive j m hj)
    · intro m address' owner' hm
      rcases mem_cons.mp hm with he|hm
      · cases he
        exact ⟨i,by simp⟩
      obtain ⟨j,hj⟩ := h.liveSlot m address' owner' hm
      have hne : j≠i := by
        rintro rfl
        rw [hfree] at hj
        cases hj
      exact ⟨j,by simp only [update_of_ne hne]; exact hj⟩

theorem RegistryRun.Agrees.remove (owner : Nat) (hok : s.Removable (.remove owner)) :
    (s.step (.remove owner)).Agrees := by
  refine ⟨h.slots.remove owner,?_,?_⟩
  · intro i n hi
    have hk := removeOwner_kept hi
    have hs := (removeOwner_slot h.slots).mp hi
    change (n,(removeOwner s.table owner i).address,(removeOwner s.table owner i).owner)∈
      s.live.filter fun e => e.2.2≠owner
    rw [hk]
    exact mem_filter.mpr ⟨h.slotLive i n hs.1,by simpa using hs.2⟩
  · intro n address other hm
    obtain ⟨hlive,hne⟩ := mem_filter.mp hm
    obtain ⟨i,hi⟩ := h.liveSlot n address other hlive
    have hno : (s.table i).owner≠owner := by
      intro ho
      have heq := hok i n hi ho address other hlive
      simp [heq] at hne
    exact ⟨i,(removeOwner_slot h.slots).mpr ⟨hi,hno⟩⟩

theorem RegistryRun.Agrees.step (c : RegistryCall) (hok : s.Removable c) : (s.step c).Agrees := by
  cases c with
  | add name address owner => exact h.add name address owner
  | remove owner => exact h.remove owner hok

theorem RegistryRun.Agrees.removable_of_exact (c : RegistryCall) (hex : (s.step c).Exact) :
    s.Removable c := by
  cases c with
  | add name address owner => trivial
  | remove owner =>
    intro i n hi ho address other hlive
    by_contra hne
    have hmem : (n,address,other)∈(s.step (.remove owner)).live :=
      mem_filter.mpr ⟨hlive,by simpa using hne⟩
    have hgone : ∀ j,(removeOwner s.table owner j).name≠some n := by
      intro j hj
      have hs := (removeOwner_slot h.slots).mp hj
      have he := h.slots.unique i j n hi hs.1
      exact hs.2 (he ▸ ho)
    have hl := lookupExport_missing _ (h.slots.remove owner) hgone
    exact ((hex n).1.mpr ⟨address,other,hmem⟩) hl

end

/-- The registry is exact throughout if and only if no removal takes another live owner's name. -/
theorem registry_exact_iff_removable (calls : List RegistryCall) :
    (∀ k,(runAll RegistryRun.step RegistryRun.start (calls.take k)).Exact) ↔
      Meets RegistryRun.step RegistryRun.Removable RegistryRun.start calls := by
  have hall : ∀ s : RegistryRun,s.Agrees → ((∀ k,(runAll step s (calls.take k)).Exact) ↔
        Meets step RegistryRun.Removable s calls) := by
    induction calls with
    | nil =>
      intro s hs
      simpa [Meets] using hs.exact
    | cons c cs ih =>
      intro s hs
      constructor
      · intro h
        have hok : s.Removable c := hs.removable_of_exact c (h 1)
        exact ⟨hok,(ih (s.step c) (hs.step c hok)).mp fun k => h (k+1)⟩
      · intro h k
        cases k with
        | zero => exact hs.exact
        | succ k => exact (ih (s.step c) (hs.step c h.1)).mpr h.2 k
  exact hall start RegistryRun.Agrees.start

/-- Two modules export `foo`; closing the first one loses the second one's export. -/
theorem registry_shared_name_lost : ¬(runAll RegistryRun.step RegistryRun.start
      [.add (some "foo") 0x1000 1,.add (some "foo") 0x2000 2,.remove 1]).Exact := by
  intro h
  have hlive : ("foo",0x2000,2)∈(runAll step start
      [.add (some "foo") 0x1000 1,.add (some "foo") 0x2000 2,.remove 1]).live := by
    decide +kernel
  have hlookup : lookupExport (runAll step start
      [.add (some "foo") 0x1000 1,.add (some "foo") 0x2000 2,.remove 1]).table (some "foo")=0 := by
    decide +kernel
  exact ((h "foo").1.mpr ⟨_,_,hlive⟩) hlookup

end Kobox.Loader
