import Kobox.Framework.Run

namespace Kobox.Registry

open List

def kernelObjectMax : Nat := 256

def uintSize : Nat := 2^32
def minorBits : Nat := 2^20

def decodeMajor (dev : Nat) : Nat := dev/minorBits
def decodeMinor (dev : Nat) : Nat := dev%minorBits

def encodeDev (major minor : Nat) : Nat := (major*minorBits%uintSize) ||| (minor%minorBits)

structure Chrdev where
  active : Bool
  major : Nat
  baseminor : Nat
  count : Nat
  deriving DecidableEq

/-- `kb_chrdev_records` up to the first slot without a name, and `kb_next_dynamic_major`. -/
structure Chrdevs where
  records : List Chrdev
  nextDynamicMajor : Nat
  deriving DecidableEq

def freshChrdevs : Chrdevs := ⟨[],240⟩

/-- Taking the first slot without a name, if there is one; named says that its name could be
copied. -/
def addChrdev (s : Chrdevs) (major baseminor count : Nat) (named : Bool) : Bool × Chrdevs :=
  if kernelObjectMax ≤ s.records.length then (false,s)
  else if !named then (false,s)
  else (true,{s with records := s.records++[⟨true,major,baseminor,count⟩]})

def nextMajor (s : Chrdevs) : Nat × Chrdevs :=
  (s.nextDynamicMajor,{s with nextDynamicMajor := (s.nextDynamicMajor+1)%uintSize})

def registerChrdev (s : Chrdevs) (major baseminor count : Nat) (named : Bool) : Int × Chrdevs :=
  let (assigned,s1) := if major=0 then nextMajor s else (major,s)
  match addChrdev s1 assigned baseminor count named with
  | (true,s2) => (if major=0 then (assigned : Int) else 0,s2)
  | (false,s2) => (-12,s2)

/-- `kb_linux_kernel_alloc_chrdev_region`; dev is what it stores through its pointer. -/
def allocChrdevRegion (s : Chrdevs) (devOk : Bool) (baseminor count : Nat) (named : Bool) :
    Int × Option Nat × Chrdevs :=
  if !devOk then (-22,none,s)
  else
    let (assigned,s1) := nextMajor s
    match addChrdev s1 assigned baseminor count named with
    | (true,s2) => (0,some (encodeDev assigned baseminor),s2)
    | (false,s2) => (-12,none,s2)

def deactivate (major minor : Nat) : List Chrdev → List Chrdev
  | [] => []
  | r::rs =>
    if r.active ∧ r.major=major ∧ r.baseminor=minor then {r with active := false}::rs
    else r::deactivate major minor rs

/-- `kb_linux_kernel_unregister_chrdev`; the count and the name are only traced. -/
def unregisterChrdev (s : Chrdevs) (major baseminor : Nat) : Chrdevs :=
  {s with records := deactivate major baseminor s.records}

def unregisterChrdevRegion (s : Chrdevs) (dev : Nat) : Chrdevs :=
  unregisterChrdev s (decodeMajor dev) (decodeMinor dev)

inductive ChrdevOp
  | register (major baseminor count : Nat) (named : Bool)
  | allocRegion (devOk : Bool) (baseminor count : Nat) (named : Bool)
  | unregister (major baseminor : Nat)
  | unregisterRegion (dev : Nat)

def chrdevStep (s : Chrdevs) : ChrdevOp → Chrdevs
  | .register major baseminor count named => (registerChrdev s major baseminor count named).2
  | .allocRegion devOk baseminor count named => (allocChrdevRegion s devOk baseminor count named).2.2
  | .unregister major baseminor => unregisterChrdev s major baseminor
  | .unregisterRegion dev => unregisterChrdevRegion s dev

/-- One of the count device numbers from the first on; majors follow one another. -/
def Chrdev.has (r : Chrdev) (major minor : Nat) : Prop :=
  minor < minorBits ∧ r.major*minorBits+r.baseminor ≤ major*minorBits+minor ∧
    major*minorBits+minor < r.major*minorBits+r.baseminor+r.count

instance (r : Chrdev) (major minor : Nat) : Decidable (r.has major minor) :=
  inferInstanceAs (Decidable (_ ∧ _))

def Chrdev.Meets (r q : Chrdev) : Prop := ∃ major minor,r.has major minor ∧ q.has major minor

def Chrdevs.actives (s : Chrdevs) : List Chrdev := s.records.filter (·.active)

def ChrdevOp.region (s : Chrdevs) : ChrdevOp → Option Chrdev
  | .register major baseminor count _ =>
    some ⟨true,if major=0 then s.nextDynamicMajor else major,baseminor,count⟩
  | .allocRegion _ baseminor count _ => some ⟨true,s.nextDynamicMajor,baseminor,count⟩
  | _ => none

def ChrdevOp.isDynamic : ChrdevOp → Bool
  | .register major _ _ _ => major=0
  | .allocRegion .. => true
  | _ => false

/-- Regions lie apart, a request that meets one changes nothing, a major given out is not in use. -/
structure RegionsKept (s : Chrdevs) (next : Option ChrdevOp) : Prop where
  apart : s.actives.Pairwise fun r q => ¬r.Meets q
  refused : ∀ op q,next=some op → op.region s=some q → (∃ r∈s.actives,r.Meets q) →
    (chrdevStep s op).records=s.records
  fresh : ∀ op q,next=some op → op.isDynamic=true → op.region s=some q →
    (chrdevStep s op).records≠s.records → ∀ r∈s.actives,r.major≠q.major

/-- Regions stay within their major; a named major is passed by the dynamic ones and free there;
dynamic majors have not run out. -/
def Orderly (s : Chrdevs) : ChrdevOp → Prop
  | .register major baseminor count _ =>
    baseminor+count ≤ minorBits ∧
      if major=0 then s.nextDynamicMajor+1<uintSize
      else major<s.nextDynamicMajor ∧ ∀ r∈s.actives,r.major=major →
        r.baseminor+r.count≤baseminor ∨ baseminor+count ≤ r.baseminor
  | .allocRegion _ baseminor count _ =>
    baseminor+count ≤ minorBits ∧ s.nextDynamicMajor+1<uintSize
  | _ => True

instance (s : Chrdevs) (op : ChrdevOp) : Decidable (Orderly s op) := by
  cases op <;> (simp only [Orderly]; infer_instance)

structure Kept (s : Chrdevs) : Prop where
  apart : s.actives.Pairwise fun r q => ¬r.Meets q
  within : ∀ r∈s.actives,r.baseminor+r.count ≤ minorBits
  below : ∀ r∈s.actives,r.major<s.nextDynamicMajor

theorem has_major {r : Chrdev} (h : r.baseminor+r.count ≤ minorBits) {major minor : Nat}
    (hin : r.has major minor) :
    major=r.major ∧ r.baseminor ≤ minor ∧ minor < r.baseminor+r.count := by
  obtain ⟨hm,h1,h2⟩ := hin
  have hlow : ¬major < r.major := by
    intro hlt
    have := Nat.mul_le_mul_right minorBits (Nat.succ_le_of_lt hlt)
    rw [Nat.succ_mul] at this
    omega
  have hhigh : ¬r.major < major := by
    intro hlt
    have := Nat.mul_le_mul_right minorBits (Nat.succ_le_of_lt hlt)
    rw [Nat.succ_mul] at this
    omega
  have heq : major=r.major := by omega
  subst heq
  exact ⟨rfl,by omega,by omega⟩

variable {q : Chrdev}

theorem not_meets {r : Chrdev} (hr : r.baseminor+r.count ≤ minorBits)
    (hq : q.baseminor+q.count ≤ minorBits)
    (h : r.major=q.major →
      r.baseminor+r.count≤q.baseminor ∨ q.baseminor+q.count ≤ r.baseminor) : ¬r.Meets q := by
  rintro ⟨major,minor,hinr,hinq⟩
  obtain ⟨rfl,h1,h2⟩ := has_major hr hinr
  obtain ⟨heq,h3,h4⟩ := has_major hq hinq
  omega

theorem fresh_kept : Kept freshChrdevs where
  apart := by simp [freshChrdevs,Chrdevs.actives]
  within := by simp [freshChrdevs,Chrdevs.actives]
  below := by simp [freshChrdevs,Chrdevs.actives]

theorem addChrdev_cases (s : Chrdevs) (major baseminor count : Nat) (named : Bool) :
    addChrdev s major baseminor count named=(false,s) ∨ addChrdev s major baseminor count named=
        (true,{s with records := s.records++[⟨true,major,baseminor,count⟩]}) := by
  simp only [addChrdev]
  split
  · exact Or.inl rfl
  split
  · exact Or.inl rfl
  · exact Or.inr rfl

variable {s : Chrdevs}

section

variable (h : Kept s)

include h

theorem Kept.add (hq : q.active=true) (hin : q.baseminor+q.count ≤ minorBits)
    (hbelow : q.major<s.nextDynamicMajor) (hnew : ∀ r∈s.actives,¬r.Meets q) :
    Kept {s with records := s.records++[q]} := by
  have hact : ({s with records := s.records++[q]} : Chrdevs).actives=s.actives++[q] := by
    simp [Chrdevs.actives,hq]
  constructor
  · rw [hact,pairwise_append]
    refine ⟨h.apart,pairwise_singleton _ _,?_⟩
    intro r hr x hx
    rw [mem_singleton.mp hx]
    exact hnew r hr
  · intro r hr
    rw [hact] at hr
    rcases mem_append.mp hr with hr | hr
    · exact h.within r hr
    · rw [mem_singleton.mp hr]
      exact hin
  · intro r hr
    rw [hact] at hr
    rcases mem_append.mp hr with hr | hr
    · exact h.below r hr
    · rw [mem_singleton.mp hr]
      exact hbelow

theorem Kept.next (hroom : s.nextDynamicMajor+1<uintSize) : Kept (nextMajor s).2 := by
  have hmod : (s.nextDynamicMajor+1)%uintSize=s.nextDynamicMajor+1 := Nat.mod_eq_of_lt hroom
  refine ⟨h.apart,h.within,?_⟩
  intro r hr
  simp only [nextMajor,hmod]
  exact Nat.lt_succ_of_lt (h.below r hr)

theorem Kept.dynamic (hq : q.major=s.nextDynamicMajor) (hin : q.baseminor+q.count ≤ minorBits) :
    ∀ r∈s.actives,¬r.Meets q := by
  intro r hr
  apply not_meets (h.within r hr) hin
  have := h.below r hr
  omega

omit h in
theorem deactivate_actives (major minor : Nat) (rs : List Chrdev) :
    ((deactivate major minor rs).filter (·.active)).Sublist (rs.filter (·.active)) := by
  induction rs with
  | nil => exact Sublist.refl _
  | cons r rs ih =>
    simp only [deactivate]
    split
    · next hr =>
      simp only [filter_cons,hr.1]
      exact sublist_cons_self _ _
    · by_cases ha : r.active=true
      · simp only [filter_cons,ha]
        exact ih.cons_cons r
      · simp only [filter_cons,ha]
        exact ih

theorem Kept.deactivate (major minor : Nat) : Kept (unregisterChrdev s major minor) := by
  have hsub := deactivate_actives major minor s.records
  exact ⟨h.apart.sublist hsub,fun r hr => h.within r (hsub.subset hr),
    fun r hr => h.below r (hsub.subset hr)⟩

theorem Kept.addDynamic {baseminor count : Nat} (named : Bool) (hin : baseminor+count ≤ minorBits)
    (hroom : s.nextDynamicMajor+1<uintSize) :
    Kept (addChrdev (nextMajor s).2 s.nextDynamicMajor baseminor count named).2 := by
  have hnext := h.next hroom
  rcases addChrdev_cases (nextMajor s).2 s.nextDynamicMajor baseminor count named with heq | heq
  · rw [heq]
    exact hnext
  · rw [heq]
    refine hnext.add rfl hin ?_ (h.dynamic rfl hin)
    simp only [nextMajor,Nat.mod_eq_of_lt hroom]
    exact Nat.lt_succ_self _

omit h in
theorem registerChrdev_state (s : Chrdevs) (major baseminor count : Nat) (named : Bool) :
    (registerChrdev s major baseminor count named).2=
      if major=0 then (addChrdev (nextMajor s).2 s.nextDynamicMajor baseminor count named).2
      else (addChrdev s major baseminor count named).2 := by
  simp only [registerChrdev]
  by_cases hz : major=0
  · simp only [hz,if_true]
    rcases addChrdev_cases (nextMajor s).2 s.nextDynamicMajor baseminor count named with heq | heq
    · simp only [nextMajor] at heq ⊢
      rw [heq]
    · simp only [nextMajor] at heq ⊢
      rw [heq]
  · simp only [hz,if_false]
    rcases addChrdev_cases s major baseminor count named with heq | heq
    · rw [heq]
    · rw [heq]

omit h in
theorem allocChrdevRegion_state (s : Chrdevs) (baseminor count : Nat) (named : Bool) :
    (allocChrdevRegion s true baseminor count named).2.2=
      (addChrdev (nextMajor s).2 s.nextDynamicMajor baseminor count named).2 := by
  simp only [allocChrdevRegion,nextMajor,Bool.not_true,Bool.false_eq_true,if_false]
  rcases addChrdev_cases (nextMajor s).2 s.nextDynamicMajor baseminor count named with heq | heq
  · simp only [nextMajor] at heq
    rw [heq]
  · simp only [nextMajor] at heq
    rw [heq]

theorem chrdevStep_kept (op : ChrdevOp) (hok : Orderly s op) : Kept (chrdevStep s op) := by
  cases op with
  | register major baseminor count named =>
    simp only [chrdevStep,registerChrdev_state]
    simp only [Orderly] at hok
    split
    · next hz =>
      rw [if_pos hz] at hok
      exact h.addDynamic named hok.1 hok.2
    next hz =>
    rw [if_neg hz] at hok
    obtain ⟨hin,hlt,hfree⟩ := hok
    rcases addChrdev_cases s major baseminor count named with heq | heq
    · rw [heq]
      exact h
    · rw [heq]
      refine h.add rfl hin hlt fun r hr => ?_
      exact not_meets (h.within r hr) hin (hfree r hr)
  | allocRegion devOk baseminor count named =>
    simp only [chrdevStep]
    cases devOk with
    | false => exact h
    | true =>
      rw [allocChrdevRegion_state]
      exact h.addDynamic named hok.1 hok.2
  | unregister major baseminor => exact h.deactivate major baseminor
  | unregisterRegion dev => exact h.deactivate (decodeMajor dev) (decodeMinor dev)

theorem Kept.region_free {op : ChrdevOp} (hok : Orderly s op) (hq : op.region s=some q) :
    ∀ r∈s.actives,¬r.Meets q := by
  cases op with
  | register major baseminor count named =>
    cases hq
    simp only [Orderly] at hok
    by_cases hz : major=0
    · exact h.dynamic (by simp [hz]) hok.1
    rw [if_neg hz] at hok
    intro r hr
    refine not_meets (h.within r hr) hok.1 ?_
    simp only [hz]
    exact hok.2.2 r hr
  | allocRegion devOk baseminor count named =>
    cases hq
    exact h.dynamic rfl hok.1
  | _ => cases hq

theorem Kept.regionsKept {next : Option ChrdevOp} (hok : ∀ op,next=some op → Orderly s op) :
    RegionsKept s next where
  apart := h.apart
  refused := by
    rintro op q hnext hq ⟨r,hr,hm⟩
    exact absurd hm (h.region_free (hok op hnext) hq r hr)
  fresh := by
    intro op q hnext hdyn hq _ r hr
    have hmajor : q.major=s.nextDynamicMajor := by
      cases op with
      | register major baseminor count named =>
        cases hq
        simp only [ChrdevOp.isDynamic,decide_eq_true_eq] at hdyn
        simp [hdyn]
      | allocRegion devOk baseminor count named =>
        cases hq
        rfl
      | _ => cases hq
    have := h.below r hr
    omega

end

def threeDevices : List ChrdevOp :=
  [.register 10 0 16 true,.allocRegion true 0 4 true,.register 10 16 16 true,.unregister 10 0]

end Kobox.Registry
