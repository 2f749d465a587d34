import Kobox.Framework.Run
import Kobox.Framework.Scan

namespace Kobox.Registry

open List Function

/-- `kb_ida_record_t`; known if there is a record for the allocator. -/
structure Ida where
  known : Bool
  ids : List Nat
  capacity : Nat

abbrev IdaState := Nat → Ida

def noIdas : IdaState := fun _ => ⟨false,[],0⟩

/-- The doubling loop of `ida_ensure_capacity`. -/
def growTo (required : Nat) : Nat → Nat → Option Nat
  | 0,_ => none
  | fuel+1,next =>
    if required≤next then some next
    else if (2^64-1)/2<next then none
    else growTo required fuel (next*2)

/-- The new capacity; room is the answer of `kb_krealloc_managed`. -/
def idaEnsureCapacity (room : Bool) (capacity required : Nat) : Option Nat :=
  if required ≤ capacity then some capacity
  else (growTo required 64 (if capacity=0 then 8 else capacity*2%2^64)).filter fun next =>
    next≤(2^64-1)/4 && room

/-- The first id of the range that the record does not contain. -/
def idaFirst (min max : Nat) (ids : List Nat) : Option Nat :=
  firstSlot (fun id => !ids.contains id) min (max+1-min)

/-- The conversion of an unsigned id to int. -/
def intOf (id : Nat) : Int := if id<2^31 then id else id-2^32

/-- memory is the answer of `kb_kzalloc` for a new record. -/
def idaAllocRange (memory room : Bool) (ida min max : Nat) (s : IdaState) : Int × IdaState :=
  let r := s ida
  if ida=0 ∨ max < min then (-22,s)
  else if !r.known && !memory then (-12,s)
  else
    match idaFirst min max r.ids,idaEnsureCapacity room r.capacity (r.ids.length+1) with
    | none,_ => (-28,update s ida ⟨true,r.ids,r.capacity⟩)
    | some _,none => (-12,update s ida ⟨true,r.ids,r.capacity⟩)
    | some id,some capacity => (intOf id,update s ida ⟨true,r.ids++[id],capacity⟩)

/-- The last id takes the place of the freed one. -/
def idaFree (ida id : Nat) (s : IdaState) : IdaState :=
  let r := s ida
  if id∈r.ids then
    update s ida { r with ids := (r.ids.set (r.ids.idxOf id) (r.ids.getLastD 0)).dropLast }
  else s

inductive IdaCall
  | alloc (memory room : Bool) (ida : Nat) (min max : BitVec 32)
  | free (ida : Nat) (id : BitVec 32)

def idaStep (s : IdaState) : IdaCall → IdaState
  | .alloc memory room ida min max => (idaAllocRange memory room ida min.toNat max.toNat s).2
  | .free ida id => idaFree ida id.toNat s

def idaIds (s : IdaState) (ida : Nat) : List Nat := (s ida).ids

/-- A result is the least free id of the range, which is allocated, or negative and nothing is. -/
structure AllocOk (ida min max : Nat) (s : IdaState) (a : Int × IdaState) : Prop where
  least : 0≤a.1 → ∃ id : Nat,a.1=id ∧ min ≤ id ∧ id ≤ max ∧ id∉idaIds s ida ∧
    (∀ j,min≤j → j < id → j∈idaIds s ida) ∧ idaIds a.2=update (idaIds s) ida (idaIds s ida++[id])
  refused : a.1<0 → idaIds a.2=idaIds s

/-- The least free id is below 2^31, or there is no memory to store it. -/
def IdaFits (memory room : Bool) (ida min max : Nat) (s : IdaState) : Prop :=
  ∀ id,idaFirst min max (s ida).ids=some id → ida≠0 → ((s ida).known || memory)=true →
    (idaEnsureCapacity room (s ida).capacity ((s ida).ids.length+1)).isSome → id<2^31

@[simp] theorem idaIds_update (s : IdaState) (ida : Nat) (r : Ida) :
    idaIds (update s ida r)=update (idaIds s) ida r.ids := by
  funext x
  by_cases hx : x=ida
  · subst hx
    simp [idaIds]
  · simp [idaIds,hx]

theorem idaAllocRange_cases (memory room : Bool) (ida min max : Nat) (s : IdaState) :
    let a := idaAllocRange memory room ida min max s
    (a.1<0 ∧ idaIds a.2=idaIds s ∧ IdaFits memory room ida min max s) ∨
    ∃ id,a.1=intOf id ∧ min ≤ id ∧ id ≤ max ∧ id∉idaIds s ida ∧
      (∀ j,min≤j → j < id → j∈idaIds s ida) ∧
      idaIds a.2=update (idaIds s) ida (idaIds s ida++[id]) ∧
      (IdaFits memory room ida min max s ↔ id<2^31) := by
  have hsame : update (idaIds s) ida (s ida).ids=idaIds s := update_eq_self ida (idaIds s)
  simp only [idaAllocRange]
  split
  · next h =>
    refine Or.inl ⟨by simp,rfl,fun id hid h0 => ?_⟩
    simp [idaFirst,show max+1-min=0 by omega,firstSlot] at hid
  split
  · next h =>
    refine Or.inl ⟨by simp,rfl,fun id _ _ hk => ?_⟩
    simp only [Bool.and_eq_true,Bool.not_eq_true'] at h
    simp [h] at hk
  next h0 hknown =>
  cases hf : idaFirst min max (s ida).ids with
  | none => exact Or.inl ⟨by simp,by simp [hsame],fun id hid => by simp [hf] at hid⟩
  | some id =>
    cases hc : idaEnsureCapacity room (s ida).capacity ((s ida).ids.length+1) with
    | none => exact Or.inl ⟨by simp,by simp [hsame],fun _ _ _ _ hroom => by simp [hc] at hroom⟩
    | some capacity =>
      obtain ⟨h1,h2,h3,h4⟩ := firstSlot_some hf
      have hk : ((s ida).known || memory)=true := by
        simpa [or_iff_not_imp_left] using hknown
      refine Or.inr ⟨id,rfl,h1,by omega,by simpa [idaIds] using h3,
        fun j hj hlt => by simpa [idaIds] using h4 j hj hlt,by simp [idaIds],fun h => h id hf (by omega) hk (by simp [hc]),?_⟩
      intro hlt j hj
      cases hf.symm.trans hj
      exact fun _ _ _ => hlt

theorem swapRemove_perm {l : List Nat} {id : Nat} (h : id∈l) :
    ((l.set (l.idxOf id) (l.getLastD 0)).dropLast).Perm (l.erase id) := by
  obtain ⟨a,b,rfl,ha⟩ := eq_append_cons_of_mem h
  rw [erase_append_right _ ha,erase_cons_head,idxOf_append_of_notMem ha]
  rcases eq_nil_or_concat b with rfl|⟨b,y,rfl⟩
  · simp
  · have hlast : (a++id::b.concat y).getLastD 0=y := by
      rw [show a++id::b.concat y=(a++id::b)++[y] by simp,getLastD_concat]
    have hset : (a++id::b.concat y).set (a.length+(id::b.concat y).idxOf id) y=(a++y::b)++[y] := by
      simp
    rw [hlast,hset,dropLast_concat,concat_eq_append]
    exact (perm_append_singleton y b).symm.append_left a

theorem idaFree_ids (ida id : Nat) (s : IdaState) :
    ∃ l,l.Perm ((idaIds s ida).erase id) ∧ idaIds (idaFree ida id s)=update (idaIds s) ida l := by
  simp only [idaFree]
  split
  · next h => exact ⟨_,swapRemove_perm h,idaIds_update s ida _⟩
  · next h => exact ⟨_,by rw [idaIds,erase_of_not_mem h],(update_eq_self ida (idaIds s)).symm⟩

section

variable {s : IdaState} {ida : Nat} {c : IdaCall}

/-- What a call does to the ids: nothing, it stores a new one, or it frees one. -/
theorem idaStep_cases (s : IdaState) (c : IdaCall) :
    idaIds (idaStep s c)=idaIds s ∨
    (∃ ida id,id∉idaIds s ida ∧
      idaIds (idaStep s c)=update (idaIds s) ida (idaIds s ida++[id])) ∨
    ∃ ida id l,c=.free ida id ∧ l.Perm ((idaIds s ida).erase id.toNat) ∧
      idaIds (idaStep s c)=update (idaIds s) ida l := by
  cases c with
  | alloc memory room ida min max =>
    rcases idaAllocRange_cases memory room ida min.toNat max.toNat s with
      ⟨_,he,_⟩|⟨id,_,_,_,hnot,_,he,_⟩
    · exact .inl he
    · exact .inr (.inl ⟨ida,id,hnot,he⟩)
  | free ida id =>
    obtain ⟨l,hl,he⟩ := idaFree_ids ida id.toNat s
    exact .inr (.inr ⟨ida,id,l,rfl,hl,he⟩)

theorem idaStep_nodup (h : ∀ x,(idaIds s x).Nodup) : ∀ x,(idaIds (idaStep s c) x).Nodup := by
  rcases idaStep_cases s c with he|⟨ida,id,hnot,he⟩|⟨ida,id,l,_,hl,he⟩ <;> rw [he]
  · exact h
  · exact (forall_update_iff _ fun _ (l : List Nat) => l.Nodup).mpr
      ⟨by simpa using (h ida).concat hnot,fun x _ => h x⟩
  · exact (forall_update_iff _ fun _ (l : List Nat) => l.Nodup).mpr
      ⟨hl.nodup_iff.mpr ((h ida).erase _),fun x _ => h x⟩

theorem idaStep_keeps {id : BitVec 32} (h : id.toNat∈idaIds s ida) (hc : c≠.free ida id) :
    id.toNat∈idaIds (idaStep s c) ida := by
  rcases idaStep_cases s c with he|⟨x,k,_,he⟩|⟨x,k,l,rfl,hl,he⟩ <;> rw [he]
  · exact h
  · by_cases hx : ida=x
    · subst hx
      simp [h]
    · simpa [hx] using h
  · by_cases hx : ida=x
    · subst hx
      have hk : id.toNat≠k.toNat := fun h0 => hc (by rw [BitVec.eq_of_toNat_eq h0])
      simpa using hl.symm.subset ((mem_erase_of_ne hk).mpr h)
    · simpa [hx] using h

theorem idaRun_keeps {id : BitVec 32} {calls : List IdaCall} (h : id.toNat∈idaIds s ida)
    (hc : .free ida id∉calls) : id.toNat∈idaIds (runAll idaStep s calls) ida := by
  induction calls generalizing s with
  | nil => exact h
  | cons c calls ih =>
    rw [mem_cons,not_or] at hc
    exact ih (idaStep_keeps h (Ne.symm hc.1)) hc.2

theorem idaRun_nodup {calls : List IdaCall} (h : ∀ x,(idaIds s x).Nodup) :
    ∀ x,(idaIds (runAll idaStep s calls) x).Nodup := by
  induction calls generalizing s with
  | nil => exact h
  | cons c calls ih => exact ih (idaStep_nodup h)

theorem allocOk_iff {memory room : Bool} {min max : Nat} (hmax : max<2^32) :
    AllocOk ida min max s (idaAllocRange memory room ida min max s) ↔
      IdaFits memory room ida min max s := by
  rcases idaAllocRange_cases memory room ida min max s with
    ⟨h1,he,hfit⟩|⟨id,h1,h2,h3,h4,h5,he,hfit⟩
  · exact ⟨fun _ => hfit,fun _ => ⟨fun h => absurd h1 (not_lt.mpr h),fun _ => he⟩⟩
  rw [hfit]
  constructor
  · intro hok
    by_contra hbig
    have hneg : intOf id<0 := by
      rw [intOf,if_neg hbig]
      omega
    have hsame := congrArg length (congrFun (hok.refused (h1 ▸ hneg)) ida)
    simp [he] at hsame
  · intro hlt
    have hint : intOf id=id := if_pos hlt
    exact ⟨fun _ => ⟨id,h1.trans hint,h2,h3,h4,h5,he⟩,fun hneg => by omega⟩

end

/-- In every run an id stays allocated until it is freed, to free another one does nothing, and an
allocation is right exactly if it stores no id from 2^31 on. -/
theorem ida_least_iff (calls : List IdaCall) :
    let s := runAll idaStep noIdas calls
    (∀ ida id,(id∉idaIds s ida → idaFree ida id s=s) ∧ id∉idaIds (idaFree ida id s) ida) ∧
    (∀ ida (id : BitVec 32) later,id.toNat∈idaIds s ida → .free ida id∉later →
      id.toNat∈idaIds (runAll idaStep s later) ida) ∧
    ∀ memory room ida (min max : BitVec 32),
      AllocOk ida min.toNat max.toNat s (idaAllocRange memory room ida min.toNat max.toNat s) ↔
        IdaFits memory room ida min.toNat max.toNat s := by
  intro s
  have hs : ∀ x,(idaIds s x).Nodup := idaRun_nodup fun _ => nodup_nil
  refine ⟨fun ida id => ⟨fun hnot => if_neg hnot,?_⟩,fun _ _ _ => idaRun_keeps,
    fun _ _ _ _ max => allocOk_iff max.isLt⟩
  obtain ⟨l,hl,he⟩ := idaFree_ids ida id s
  rw [he,update_self]
  exact fun hin => (hs ida).not_mem_erase (hl.subset hin)

/-- An id from 2^31 on is stored although the call answers with an error. -/
theorem ida_high_id_lost :
    let a := idaAllocRange true true 4096 (2^31) (2^32-1) noIdas
    a.1=-2147483648 ∧ idaIds a.2 4096=[2^31] := by
  decide +kernel

theorem growTo_le {required fuel next n : Nat} (h : growTo required fuel next=some n) :
    required≤n := by
  induction fuel generalizing next with
  | zero => cases h
  | succ fuel ih =>
    simp only [growTo] at h
    split_ifs at h with hle
    · exact Option.some.inj h ▸ hle
    · exact ih h

theorem idaEnsureCapacity_le {room : Bool} {capacity required n : Nat}
    (h : idaEnsureCapacity room capacity required=some n) : required≤n := by
  simp only [idaEnsureCapacity] at h
  split at h
  · next hle => exact Option.some.inj h ▸ hle
  · exact growTo_le (Option.filter_eq_some_iff.mp h).1

/-- The ids of an allocator lie within its array. -/
abbrev Ida.Fits (r : Ida) : Prop := r.ids.length ≤ r.capacity

theorem idaStep_fits {s : IdaState} (h : ∀ x,(s x).Fits) (c : IdaCall) (x : Nat) :
    (idaStep s c x).Fits := by
  have hput : ∀ ida (r : Ida),r.Fits → (update s ida r x).Fits := fun ida r hr =>
    (forall_update_iff s fun _ => Ida.Fits).mpr ⟨hr,fun x _ => h x⟩ x
  cases c with
  | alloc memory room ida min max =>
    simp only [idaStep,idaAllocRange]
    split_ifs
    · exact h x
    · exact h x
    split
    · exact hput _ _ (h ida)
    · exact hput _ _ (h ida)
    · next hroom => exact hput _ _ (by simpa using idaEnsureCapacity_le hroom)
  | free ida id =>
    simp only [idaStep,idaFree]
    split_ifs
    · exact hput _ _ (le_trans (by simp) (h ida))
    · exact h x

/-- In every run the ids of an allocator are different and lie within its array. -/
theorem ida_array_bounded (calls : List IdaCall) (ida : Nat) :
    let s := runAll idaStep noIdas calls
    (idaIds s ida).Nodup ∧ (s ida).Fits :=
  ⟨idaRun_nodup (s := noIdas) (fun _ => nodup_nil) ida,
    runAll_keeps (I := fun s : IdaState => ∀ x,(s x).Fits) (fun _ c h => idaStep_fits h c)
      (fun _ => le_rfl) ida⟩

end Kobox.Registry
