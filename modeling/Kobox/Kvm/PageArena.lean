import Mathlib.Tactic

namespace Kobox.Kvm

def pageRecordMax : Nat := 4096
def structPageSize : Nat := 64
def pageSize : Nat := 4096

inductive PageUse
  | free
  | head (order : Nat)
  | tail
  deriving DecidableEq

abbrev PageArena := Nat → PageUse

/-- Addresses of the page structs and of the pages themselves. -/
structure ArenaBase where
  records : Nat
  payloads : Nat
  recordsPos : 0 < records
  payloadsPos : 0<payloads
  inWord : payloads+pageRecordMax*pageSize≤2^64

namespace PageArena

def freeRun (a : PageArena) : Nat → Nat → Nat
  | _,0 => 0
  | i,n+1 => if a i=.free then freeRun a (i+1) n+1 else 0

/-- First free run of n pages, with the turns of the search as fuel. -/
def search (a : PageArena) (n : Nat) : Nat → Nat → Option Nat
  | 0,_ => none
  | fuel+1,candidate =>
    if pageRecordMax-n<candidate then none
    else
      let k := a.freeRun candidate n
      if k=n then some candidate else search a n fuel (candidate+k+1)

def mark (a : PageArena) (index order : Nat) : PageArena := fun i =>
  if i=index then .head order
  else if index < i ∧ i < index+2^order then .tail
  else a i

/-- `kb_kvm_alloc_pages_stub`: index of the first page. -/
def allocPages (a : PageArena) (order : Nat) : Option (Nat × PageArena) :=
  if 8≤order then none
  else (a.search (2^order) (pageRecordMax+1) 0).map fun index => (index,a.mark index order)

def tailRun (a : PageArena) : Nat → Nat → Bool
  | _,0 => true
  | i,n+1 => a i=.tail && tailRun a (i+1) n

def releaseIndex (a : PageArena) (index order : Nat) : PageArena :=
  if 8≤order ∨ pageRecordMax ≤ index ∨ a index≠.head order ∨ pageRecordMax-index<2^order ∨
      !a.tailRun (index+1) (2^order-1) then a
  else fun i => if index ≤ i ∧ i < index+2^order then .free else a i

def indexOf (base : ArenaBase) (page : Nat) : Option Nat :=
  if page<base.records ∨ pageRecordMax*structPageSize≤page-base.records ∨
      (page-base.records)%structPageSize≠0 then none
  else some ((page-base.records)/structPageSize)

def pageAt (base : ArenaBase) (index : Nat) : Nat := base.records+index*structPageSize

def releasePages (a : PageArena) (base : ArenaBase) (page order : Nat) : PageArena :=
  match indexOf base page with
  | none => a
  | some index => a.releaseIndex index order

def usedRun (a : PageArena) : Nat → Nat → Bool
  | _,0 => true
  | i,n+1 => a i≠.free && usedRun a (i+1) n

/-- `kb_linux_kvm_page_payload` at offset 0; 0 for NULL. -/
def pagePayload (a : PageArena) (base : ArenaBase) (page size : Nat) : Nat :=
  match indexOf base page with
  | none => 0
  | some index =>
    let count := (size+pageSize-1)/pageSize
    if size=0 ∨ count=0 ∨ pageRecordMax-index<count ∨ !a.usedRun index count then 0
    else base.payloads+index*pageSize

variable {a : PageArena}

theorem freeRun_full {i n : Nat} (h : a.freeRun i n=n) : ∀ j,i≤j → j < i+n → a j=.free := by
  induction n generalizing i with
  | zero => intro j _ _; omega
  | succ n ih =>
    intro j hj hlt
    by_cases hi : a i=.free
    · have hrun : a.freeRun (i+1) n=n := by
        have h' := h
        rw [freeRun,if_pos hi] at h'
        omega
      by_cases he : j=i
      · exact he ▸ hi
      · exact ih hrun j (by omega) (by omega)
    · rw [freeRun,if_neg hi] at h
      omega

variable {index : Nat}

theorem search_free {n fuel c : Nat} (h : a.search n fuel c=some index) :
    index≤pageRecordMax-n ∧ ∀ j,index≤j → j < index+n → a j=.free := by
  induction fuel generalizing c with
  | zero => cases h
  | succ fuel ih =>
    unfold search at h
    by_cases hc : pageRecordMax-n<c
    · rw [if_pos hc] at h
      cases h
    rw [if_neg hc] at h
    by_cases hk : a.freeRun c n=n
    · rw [if_pos hk] at h
      cases h
      exact ⟨by omega,freeRun_full hk⟩
    · rw [if_neg hk] at h
      exact ih h

def Covers (base : ArenaBase) (page order j : Nat) : Prop :=
  ∃ index,indexOf base page=some index ∧ index≤j ∧ j < index+2^order

theorem indexOf_pageAt (base : ArenaBase) (h : index<pageRecordMax) :
    indexOf base (pageAt base index)=some index := by
  unfold indexOf pageAt structPageSize
  rw [if_neg (by omega),Nat.add_sub_cancel_left,Nat.mul_div_cancel _ (by decide)]

variable {order j : Nat}

theorem covers_pageAt {base : ArenaBase} (h : index<pageRecordMax) :
    Covers base (pageAt base index) order j ↔ index≤j ∧ j < index+2^order := by
  unfold Covers
  rw [indexOf_pageAt base h]
  simp

theorem allocPages_spec {b : PageArena} (h : a.allocPages order=some (index,b)) :
    index+2^order≤pageRecordMax ∧ (∀ j,index≤j → j < index+2^order → a j=.free) ∧
      b=a.mark index order := by
  unfold allocPages at h
  split at h
  · cases h
  next ho =>
  have hpow : 2^order≤2^7 := Nat.pow_le_pow_right (by decide) (by omega)
  obtain ⟨i,hi,he⟩ := Option.map_eq_some_iff.mp h
  obtain ⟨h1,h2⟩ := search_free hi
  cases he
  refine ⟨?_,h2,rfl⟩
  unfold pageRecordMax at h1 ⊢
  omega

theorem mark_outside (a : PageArena) (h : ¬(index≤j ∧ j < index+2^order)) :
    a.mark index order j=a j := by
  have hpos := Nat.two_pow_pos order
  unfold mark
  rw [if_neg (by omega),if_neg (by omega)]

theorem mark_inside (a : PageArena) (h1 : index≤j) (h2 : j < index+2^order) :
    a.mark index order j≠.free := by
  unfold mark
  by_cases hj : j=index
  · rw [if_pos hj]
    exact fun h => by cases h
  · rw [if_neg hj,if_pos ⟨by omega,h2⟩]
    exact fun h => by cases h

theorem releasePages_outside {base : ArenaBase} {page : Nat} (h : ¬Covers base page order j) :
    a.releasePages base page order j=a j := by
  unfold releasePages
  cases hi : indexOf base page with
  | none => rfl
  | some index =>
    simp only [releaseIndex]
    split
    · rfl
    · exact if_neg fun hj => h ⟨index,hi,hj⟩

end PageArena

end Kobox.Kvm
