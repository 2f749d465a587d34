import Kobox.Framework.Run
import Kobox.Kvm.PageArena

namespace Kobox.Kvm

open List Option
open PageArena (allocPages_spec freeRun indexOf mark_outside pageAt releaseIndex search tailRun)

open Or (inl inr)

structure Block where
  start : Nat
  order : Nat
  deriving DecidableEq

def Block.stop (b : Block) : Nat := b.start+2^b.order

/-- The arena, once it exists, the two areas it hands out, byte by byte, and the blocks held. -/
structure Pages where
  base : Option ArenaBase
  use : PageArena
  records : Nat → Nat
  payloads : Nat → Nat
  held : List Block

/-- `kb_kvm_ensure_page_arena`; setup is what the host gives if it is asked. -/
def ensurePageArena (s : Pages) (setup : Option ArenaBase) : Option ArenaBase × Pages :=
  match s.base,setup with
  | some base,_ => (some base,s)
  | none,none => (none,s)
  | none,some base => (some base,{s with base := some base,use := fun _ => .free})

def zeroBytes (m : Nat → Nat) (start stop : Nat) : Nat → Nat := fun i =>
  if start ≤ i ∧ i<stop then 0 else m i

/-- `kb_kvm_alloc_pages_stub`; ready says that there is no backend or that it has the arena
mapped. -/
def allocPagesStub (s : Pages) (setup : Option ArenaBase) (ready : Bool) (order : Nat) :
    Option Nat × Pages :=
  if 8≤order then (none,s)
  else match ensurePageArena s setup with
    | (none,s1) => (none,s1)
    | (some base,s1) =>
      if !ready then (none,s1)
      else match s1.use.allocPages order with
        | none => (none,s1)
        | some (index,use) =>
          (some (PageArena.pageAt base index),{s1 with
            use := use,
            records := zeroBytes s1.records (index*structPageSize) ((index+2^order)*structPageSize),
            payloads := zeroBytes s1.payloads (index*pageSize) ((index+2^order)*pageSize),
            held := ⟨index,order⟩::s1.held})

/-- `kb_kvm_get_free_pages_stub`: the address of the pages themselves, 0 on failure. -/
def getFreePagesStub (s : Pages) (setup : Option ArenaBase) (ready : Bool) (order : Nat) :
    Nat × Pages :=
  match allocPagesStub s setup ready order with
  | (none,s1) => (0,s1)
  | (some page,s1) =>
    match s1.base with
    | none => (0,s1)
    | some base => (base.payloads+(page-base.records)/structPageSize*pageSize,s1)

/-- Giving back the block that starts at index, if its order is the one given. -/
def Pages.release (s : Pages) (index order : Nat) : Pages :=
  {s with use := s.use.releaseIndex index order,held := s.held.erase ⟨index,order⟩}

/-- `kb_kvm_release_pages`, and `kb_kvm_free_pages_stub` which is the same call. -/
def releasePages (s : Pages) (setup : Option ArenaBase) (page order : Nat) : Pages :=
  if page=0 then s
  else match ensurePageArena s setup with
    | (none,s1) => s1
    | (some base,s1) =>
      match PageArena.indexOf base page with
      | none => s1
      | some index => s1.release index order

def payloadIndex (base : ArenaBase) (addr : Nat) : Option Nat :=
  if addr<base.payloads ∨ pageRecordMax*pageSize≤addr-base.payloads ∨
      (addr-base.payloads)%pageSize≠0 then none
  else some ((addr-base.payloads)/pageSize)

def freePagesAddrStub (s : Pages) (setup : Option ArenaBase) (addr order : Nat) : Pages :=
  if addr=0 then s
  else match ensurePageArena s setup with
    | (none,s1) => s1
    | (some base,s1) =>
      match payloadIndex base addr with
      | none => s1
      | some index => s1.release index order

def freePagesExact (s : Pages) (setup : Option ArenaBase) (virt size : Nat) : Pages :=
  if virt=0 then s
  else match ensurePageArena s setup with
    | (none,s1) => s1
    | (some base,s1) =>
      match payloadIndex base virt with
      | none => s1
      | some index =>
        match s1.use index with
        | .head order =>
          if size=0 ∨ 2^order*pageSize<size then s1 else s1.release index order
        | _ => s1

/-- The calls on the arena, and the use that holders make of their pages. -/
inductive PageCall
  | allocPages (setup : Option ArenaBase) (ready : Bool) (order : Nat)
  | getFreePages (setup : Option ArenaBase) (ready : Bool) (order : Nat)
  | releasePages (setup : Option ArenaBase) (page order : Nat)
  | freePagesAddr (setup : Option ArenaBase) (addr order : Nat)
  | freePagesExact (setup : Option ArenaBase) (virt size : Nat)
  | store (records payloads : Nat → Nat)

def pageStep (s : Pages) : PageCall → Pages
  | .allocPages setup ready order => (allocPagesStub s setup ready order).2
  | .getFreePages setup ready order => (getFreePagesStub s setup ready order).2
  | .releasePages setup page order => releasePages s setup page order
  | .freePagesAddr setup addr order => freePagesAddrStub s setup addr order
  | .freePagesExact setup virt size => freePagesExact s setup virt size
  | .store records payloads => {s with records := records,payloads := payloads}

def freshPages (records payloads : Nat → Nat) : Pages := ⟨none,fun _ => .free,records,payloads,[]⟩

/-- From page i on the uses are free pages and whole blocks. -/
inductive TiledFrom (a : PageArena) : Nat → Prop
  | stop : TiledFrom a pageRecordMax
  | free (i : Nat) : a i=.free → TiledFrom a (i+1) → TiledFrom a i
  | block (i order : Nat) : order<8 → a i=.head order → (∀ j,i<j → j < i+2^order → a j=.tail) →
      TiledFrom a (i+2^order) → TiledFrom a i

def Block.Apart (b c : Block) : Prop := b.stop ≤ c.start ∨ c.stop≤b.start

def HasRoom (a : PageArena) (order : Nat) : Prop :=
  ∃ i,i+2^order≤pageRecordMax ∧ ∀ j,i≤j → j < i+2^order → a j=.free

/-- The call names a held block: by its first page, with its order or a size that it has room for. -/
def PageCall.Names (base : ArenaBase) (b : Block) : PageCall → Prop
  | .releasePages _ page order => page=PageArena.pageAt base b.start ∧ order=b.order
  | .freePagesAddr _ addr order => addr=base.payloads+b.start*pageSize ∧ order=b.order
  | .freePagesExact _ virt size =>
    virt=base.payloads+b.start*pageSize ∧ size≠0 ∧ size≤2^b.order*pageSize
  | _ => False

def PageCall.isFree : PageCall → Bool
  | .releasePages .. => true
  | .freePagesAddr .. => true
  | .freePagesExact .. => true
  | _ => false

/-- The uses are those of the blocks held. -/
structure Laid (s : Pages) : Prop where
  apart : s.held.Pairwise Block.Apart
  order : ∀ b∈s.held,b.order<8
  inside : ∀ b∈s.held,b.stop≤pageRecordMax
  head : ∀ b∈s.held,s.use b.start=.head b.order
  tails : ∀ b∈s.held,∀ j,b.start<j → j<b.stop → s.use j=.tail
  rest : ∀ j,(∀ b∈s.held,¬(b.start≤j ∧ j<b.stop)) → s.use j=.free
  unset : s.base=none → s.held=[]

theorem Block.start_lt_stop (b : Block) : b.start<b.stop := by
  have := Nat.two_pow_pos b.order
  simp only [Block.stop]
  omega

variable {b : Block}

theorem Block.Apart.symm {c : Block} (h : b.Apart c) : c.Apart b := Or.symm h

instance : Std.Symm Block.Apart := ⟨fun _ _ h => h.symm⟩

variable {s : Pages}

variable {order i : Nat} {index : Nat} {a : PageArena} {base : ArenaBase}

theorem fresh_laid {records payloads : Nat → Nat} : Laid (freshPages records payloads) where
  apart := List.Pairwise.nil
  order := by simp [freshPages]
  inside := by simp [freshPages]
  head := by simp [freshPages]
  tails := by simp [freshPages]
  rest := fun _ _ => rfl
  unset := fun _ => rfl

theorem ensurePageArena_base (s : Pages) (setup : Option ArenaBase) :
    (ensurePageArena s setup).2.base=(s.base <|> setup) := by
  cases hbase : s.base <;> cases setup <;> simp [ensurePageArena,hbase]

theorem tailRun_iff {a : PageArena} (i n : Nat) :
    a.tailRun i n=true ↔ ∀ j,i≤j → j < i+n → a j=.tail := by
  induction n generalizing i with
  | zero =>
    simp only [tailRun,true_iff]
    omega
  | succ n ih =>
    simp only [tailRun,Bool.and_eq_true,decide_eq_true_eq,ih]
    constructor
    · rintro ⟨hi,hrest⟩ j h1 h2
      rcases Nat.lt_or_eq_of_le h1 with hlt | rfl
      · exact hrest j hlt (by omega)
      · exact hi
    · intro h
      exact ⟨h i le_rfl (by omega),fun j h1 h2 => h j (by omega) (by omega)⟩

theorem freeRun_stops {n : Nat} (h : a.freeRun i n≠n) :
    a.freeRun i n<n ∧ a (i+a.freeRun i n)≠.free := by
  induction n generalizing i with
  | zero => exact absurd rfl h
  | succ n ih =>
    simp only [freeRun] at h ⊢
    split
    · next hi =>
      rw [if_pos hi] at h
      obtain ⟨hlt,hne⟩ := ih (i := i+1) (by omega)
      refine ⟨by omega,?_⟩
      rwa [show i+(a.freeRun (i+1) n+1)=i+1+a.freeRun (i+1) n by omega]
    · next hi => exact ⟨by omega,hi⟩

theorem search_none {n fuel c : Nat} (h : a.search n fuel c=none) (hfuel : pageRecordMax-n<c+fuel) :
    ∀ i,c ≤ i → i≤pageRecordMax-n → ∃ j,i≤j ∧ j < i+n ∧ a j≠.free := by
  induction fuel generalizing c with
  | zero =>
    omega
  | succ fuel ih =>
    intro i h1 h2
    simp only [search] at h
    rw [if_neg (by omega)] at h
    split at h
    · cases h
    next hk =>
    obtain ⟨hlt,hne⟩ := freeRun_stops hk
    by_cases hpast : c+a.freeRun c n+1 ≤ i
    · exact ih h (by omega) i hpast h2
    · exact ⟨c+a.freeRun c n,by omega,by omega,hne⟩

theorem allocPages_eq_none (ho : order<8) : a.allocPages order=none ↔ ¬HasRoom a order := by
  constructor
  · intro h
    simp only [PageArena.allocPages,if_neg (Nat.not_le.mpr ho),map_eq_none_iff] at h
    rintro ⟨i,hin,hfree⟩
    have hfuel : pageRecordMax-2^order<0+(pageRecordMax+1) := by
      exact Nat.lt_succ_of_le (Nat.sub_le _ _)
    obtain ⟨j,h1,h2,hne⟩ := search_none h hfuel i (Nat.zero_le _) (Nat.le_sub_of_add_le hin)
    exact hne (hfree j h1 h2)
  · intro h
    cases halloc : a.allocPages order with
    | none => rfl
    | some r =>
      obtain ⟨index,use⟩ := r
      obtain ⟨hin,hfree,-⟩ := allocPages_spec halloc
      exact absurd ⟨index,hin,hfree⟩ h

theorem getFreePagesStub_state (s : Pages) (setup : Option ArenaBase) (ready : Bool) (order : Nat) :
    (getFreePagesStub s setup ready order).2=(allocPagesStub s setup ready order).2 := by
  simp only [getFreePagesStub]
  split
  · next heq => rw [heq]
  · next heq =>
    split <;> rw [heq]

theorem indexOf_iff {page : Nat} (h : PageArena.indexOf base page=some index) :
    page=PageArena.pageAt base index ∧ index<pageRecordMax := by
  simp only [indexOf] at h
  split at h
  · cases h
  next hin =>
  cases h
  simp only [structPageSize,pageRecordMax] at hin
  simp only [pageAt,structPageSize,pageRecordMax]
  omega

theorem payloadIndex_iff {addr : Nat} (h : payloadIndex base addr=some index) :
    addr=base.payloads+index*pageSize ∧ index<pageRecordMax := by
  simp only [payloadIndex] at h
  split at h
  · cases h
  next hin =>
  cases h
  simp only [pageSize,pageRecordMax] at hin
  simp only [pageSize,pageRecordMax]
  omega

/-- The setup and the null test of a call that gives pages back. -/
def PageCall.setup : PageCall → Option ArenaBase
  | .releasePages setup _ _ => setup
  | .freePagesAddr setup _ _ => setup
  | .freePagesExact setup _ _ => setup
  | _ => none

def PageCall.isNull : PageCall → Bool
  | .releasePages _ page _ => page=0
  | .freePagesAddr _ addr _ => addr=0
  | .freePagesExact _ virt _ => virt=0
  | _ => true

def PageCall.target (base : ArenaBase) (a : PageArena) : PageCall → Option Block
  | .releasePages _ page order => (PageArena.indexOf base page).map fun index => ⟨index,order⟩
  | .freePagesAddr _ addr order => (payloadIndex base addr).map fun index => ⟨index,order⟩
  | .freePagesExact _ virt size =>
    match payloadIndex base virt with
    | none => none
    | some index =>
      match a index with
      | .head order => if size=0 ∨ 2^order*pageSize<size then none else some ⟨index,order⟩
      | _ => none
  | _ => none

variable {c : PageCall}

theorem free_eq {s : Pages} (hc : c.isFree=true) :
    pageStep s c=if c.isNull then s else
      match ensurePageArena s c.setup with
      | (none,s1) => s1
      | (some base,s1) =>
        match c.target base s1.use with
        | none => s1
        | some b => s1.release b.start b.order := by
  cases c with
  | releasePages setup page order =>
    simp only [pageStep,releasePages,PageCall.isNull,PageCall.setup,PageCall.target,
      decide_eq_true_eq]
    split
    · rfl
    split
    · rfl
    · next base s1 _ => cases indexOf base page <;> rfl
  | freePagesAddr setup addr order =>
    simp only [pageStep,freePagesAddrStub,PageCall.isNull,PageCall.setup,PageCall.target,
      decide_eq_true_eq]
    split
    · rfl
    split
    · rfl
    · next base s1 _ => cases payloadIndex base addr <;> rfl
  | freePagesExact setup virt size =>
    simp only [pageStep,freePagesExact,PageCall.isNull,PageCall.setup,PageCall.target,
      decide_eq_true_eq]
    split
    · rfl
    split
    · rfl
    next base s1 _ =>
    cases payloadIndex base virt with
    | none => rfl
    | some index =>
      simp only
      cases s1.use index with
      | head order =>
        simp only
        split <;> rfl
      | _ => rfl
  | _ => cases hc

theorem payloadIndex_at {base : ArenaBase} (h : index<pageRecordMax) :
    payloadIndex base (base.payloads+index*pageSize)=some index := by
  have hlt : ¬(base.payloads+index*pageSize<base.payloads ∨
      pageRecordMax*pageSize≤base.payloads+index*pageSize-base.payloads ∨
      (base.payloads+index*pageSize-base.payloads)%pageSize≠0) := by
    simp only [pageSize] at h ⊢
    omega
  rw [payloadIndex,if_neg hlt,Nat.add_sub_cancel_left,Nat.mul_div_cancel _ (by decide)]

theorem names_of_target (ht : c.target base a=some b) : c.Names base b := by
  cases c with
  | releasePages setup page order =>
    simp only [PageCall.target,map_eq_some_iff] at ht
    obtain ⟨index,hidx,rfl⟩ := ht
    exact ⟨(indexOf_iff hidx).1,rfl⟩
  | freePagesAddr setup addr order =>
    simp only [PageCall.target,map_eq_some_iff] at ht
    obtain ⟨index,hidx,rfl⟩ := ht
    exact ⟨(payloadIndex_iff hidx).1,rfl⟩
  | freePagesExact setup virt size =>
    simp only [PageCall.target] at ht
    split at ht
    · cases ht
    next index hidx =>
    split at ht
    · split at ht
      · cases ht
      · next hsize =>
        cases ht
        simp only [not_or,not_lt] at hsize
        exact ⟨(payloadIndex_iff hidx).1,hsize.1,hsize.2⟩
    · cases ht
  | _ => cases ht

/-- What one state of the arena owes its callers. -/
structure ArenaKept (s : Pages) : Prop where
  tiled : TiledFrom s.use 0
  apart : s.held.Pairwise Block.Apart
  blocks : ∀ b∈s.held,b.order<8 ∧ b.stop≤pageRecordMax ∧ s.use b.start=.head b.order ∧
    ∀ j,b.start<j → j<b.stop → s.use j=.tail
  /-- A call that names no block held changes no page and no block. -/
  strangers : ∀ c,c.isFree=true → (∀ base b,(pageStep s c).base=some base → b∈s.held →
      ¬c.Names base b) →
    (pageStep s c).use=s.use ∧ (pageStep s c).held=s.held ∧
      (pageStep s c).records=s.records ∧ (pageStep s c).payloads=s.payloads
  /-- A call that names one gives back its pages and no others. -/
  named : ∀ c,c.isFree=true → ∀ base b,s.base=some base → b∈s.held → c.Names base b →
    (pageStep s c).held=s.held.erase b ∧
      ∀ j,(pageStep s c).use j=if b.start≤j ∧ j<b.stop then .free else s.use j
  /-- With the arena there and the backend ready, an allocation fails only for want of room. -/
  complete : ∀ setup order,order<8 → (s.base≠none ∨ setup≠none) →
    ((allocPagesStub s setup true order).1=none ↔ ¬HasRoom s.use order) ∧
      ((getFreePagesStub s setup true order).1=0 ↔ ¬HasRoom s.use order)
  /-- What an allocation hands out was free, is zeroed, and is where its address says. -/
  zeroed : ∀ setup ready order page,(allocPagesStub s setup ready order).1=some page →
    ∃ base index,(allocPagesStub s setup ready order).2.base=some base ∧
      page=PageArena.pageAt base index ∧
      (getFreePagesStub s setup ready order).1=base.payloads+index*pageSize ∧
      (allocPagesStub s setup ready order).2.held=⟨index,order⟩::s.held ∧
      (∀ j,index≤j → j < index+2^order → s.use j=.free) ∧
      (∀ i,index*pageSize ≤ i → i<(index+2^order)*pageSize →
        (allocPagesStub s setup ready order).2.payloads i=0) ∧
      ∀ i,index*structPageSize ≤ i → i<(index+2^order)*structPageSize →
        (allocPagesStub s setup ready order).2.records i=0

theorem zeroBytes_inside {m : Nat → Nat} {start stop : Nat} (h1 : start ≤ i) (h2 : i<stop) :
    zeroBytes m start stop i=0 := if_pos ⟨h1,h2⟩

variable {setup : Option ArenaBase}

theorem getFreePagesStub_addr {s1 : Pages} {ready : Bool} (hbase : s1.base=some base)
    (h : allocPagesStub s setup ready order=(some (PageArena.pageAt base index),s1)) :
    (getFreePagesStub s setup ready order).1=base.payloads+index*pageSize := by
  simp only [getFreePagesStub,h,hbase,pageAt,Nat.add_sub_cancel_left]
  rw [Nat.mul_div_cancel _ (by decide)]

theorem getFreePagesStub_none {ready : Bool} (h : (allocPagesStub s setup ready order).1=none) :
    (getFreePagesStub s setup ready order).1=0 := by
  simp only [getFreePagesStub]
  split
  · rfl
  · next heq =>
    rw [heq] at h
    cases h

theorem ensurePageArena_some (h : s.base≠none ∨ setup≠none) :
    ∃ base,(ensurePageArena s setup).1=some base := by
  cases hbase : s.base with
  | some base => exact ⟨base,by simp [ensurePageArena,hbase]⟩
  | none =>
    cases setup with
    | some base => exact ⟨base,by simp [ensurePageArena,hbase]⟩
    | none => simp [hbase] at h

section

variable (h : Laid s)

include h

theorem Laid.same {c : Block} (hb : b∈s.held) (hc : c∈s.held) {j : Nat}
    (hbj : b.start≤j ∧ j<b.stop) (hcj : c.start≤j ∧ j<c.stop) : b=c := by
  by_contra hne
  have hap := h.apart.forall hb hc hne
  simp only [Block.Apart] at hap
  omega

theorem Laid.covered {j : Nat} (hj : s.use j≠.free) : ∃ b∈s.held,b.start≤j ∧ j<b.stop := by
  by_contra hno
  push Not at hno
  exact hj (h.rest j fun b hb hin => absurd hin.2 (Nat.not_lt.mpr (hno b hb hin.1)))

theorem Laid.head_held (hi : s.use i=.head order) : ⟨i,order⟩∈s.held := by
  obtain ⟨b,hb,hle,hlt⟩ := h.covered (j := i) (by simp [hi])
  rcases Nat.lt_or_eq_of_le hle with hin | rfl
  · rw [h.tails b hb i hin hlt] at hi
    cases hi
  · rw [h.head b hb] at hi
    cases hi
    exact hb

/-- Induction on the pages left: a free page or the whole block that starts there comes off the
front. -/
theorem Laid.tiledFrom (n : Nat) : ∀ i,i+n=pageRecordMax →
    (∀ b∈s.held,b.stop ≤ i ∨ i≤b.start) → TiledFrom s.use i := by
  induction n using Nat.strong_induction_on with
  | _ n ih =>
    intro i hi hcut
    rcases Nat.eq_zero_or_pos n with rfl | hpos
    · obtain rfl : i=pageRecordMax := by omega
      exact .stop
    by_cases hfree : s.use i=.free
    · refine .free i hfree (ih (n-1) (by omega) (i+1) (by omega) fun b hb => ?_)
      rcases hcut b hb with hle | hle
      · exact inl (by omega)
      · rcases Nat.lt_or_eq_of_le hle with hlt | rfl
        · exact inr hlt
        · rw [h.head b hb] at hfree
          cases hfree
    obtain ⟨b,hb,hle,hlt⟩ := h.covered hfree
    obtain rfl : i=b.start := by
      rcases hcut b hb with hs | hs <;> omega
    have hin := h.inside b hb
    refine .block b.start b.order (h.order b hb) (h.head b hb) (h.tails b hb) ?_
    refine ih (pageRecordMax-b.stop) (by omega) b.stop (by omega) fun c hc => ?_
    by_cases hbc : c=b
    · exact inl (hbc ▸ le_refl _)
    · rcases h.apart.forall hc hb hbc with hs | hs
      · exact inl (by omega)
      · exact inr hs

theorem Laid.tiled : TiledFrom s.use 0 :=
  h.tiledFrom pageRecordMax 0 (by simp) fun _ _ => inr (Nat.zero_le _)

theorem ensurePageArena_keeps (setup : Option ArenaBase) :
    Laid (ensurePageArena s setup).2 ∧ (ensurePageArena s setup).2.use=s.use ∧
      (ensurePageArena s setup).2.held=s.held ∧
      (ensurePageArena s setup).2.records=s.records ∧
      (ensurePageArena s setup).2.payloads=s.payloads ∧
      (ensurePageArena s setup).1=(ensurePageArena s setup).2.base := by
  cases hbase : s.base with
  | some base => simp [ensurePageArena,hbase,h]
  | none =>
    cases setup with
    | none => simp [ensurePageArena,hbase,h]
    | some base =>
      have hempty := h.unset hbase
      have huse : s.use=fun _ => .free := by
        funext j
        exact h.rest j (by simp [hempty])
      refine ⟨?_,by simp [ensurePageArena,hbase,huse],by simp [ensurePageArena,hbase],
        by simp [ensurePageArena,hbase]⟩
      simp only [ensurePageArena,hbase]
      constructor <;> simp [hempty]

theorem Laid.mark (ho : order<8) (hin : index+2^order≤pageRecordMax)
    (hfree : ∀ j,index≤j → j < index+2^order → s.use j=.free) (hbase : s.base≠none)
    (records payloads : Nat → Nat) : Laid {s with
      use := s.use.mark index order,records := records,payloads := payloads,
      held := ⟨index,order⟩::s.held} := by
  have hpos := Nat.two_pow_pos order
  have hnew : ∀ b∈s.held,b.stop ≤ index ∨ index+2^order≤b.start := by
    intro b hb
    by_contra hno
    push Not at hno
    -- the first page of the two that both have is used by b and free
    rcases Nat.le_total index b.start with hle | hle
    · have hf := hfree b.start hle hno.2
      rw [h.head b hb] at hf
      cases hf
    rcases Nat.lt_or_eq_of_le hle with hs | hs
    · have hf := hfree index le_rfl (by omega)
      rw [h.tails b hb index hs hno.1] at hf
      cases hf
    · have hf := hfree b.start (by omega) (by omega)
      rw [h.head b hb] at hf
      cases hf
  have hout : ∀ b∈s.held,∀ j,b.start≤j → j<b.stop → s.use.mark index order j=s.use j := by
    intro b hb j h1 h2
    apply mark_outside
    have := hnew b hb
    omega
  constructor
  · refine pairwise_cons.mpr ⟨?_,h.apart⟩
    intro b hb
    exact (hnew b hb).symm
  · simp only [mem_cons,forall_eq_or_imp]
    exact ⟨ho,h.order⟩
  · simp only [mem_cons,forall_eq_or_imp]
    exact ⟨hin,h.inside⟩
  · intro b hb
    rcases mem_cons.mp hb with rfl | hb
    · simp [PageArena.mark]
    · exact (hout b hb _ le_rfl b.start_lt_stop).trans (h.head b hb)
  · intro b hb j h1 h2
    rcases mem_cons.mp hb with rfl | hb
    · simp only [Block.stop] at h1 h2
      simp only [PageArena.mark]
      rw [if_neg (by omega),if_pos ⟨h1,h2⟩]
    · exact (hout b hb j (by omega) h2).trans (h.tails b hb j h1 h2)
  · intro j hj
    have hnot := hj ⟨index,order⟩ mem_cons_self
    refine (mark_outside _ hnot).trans (h.rest j fun b hb => ?_)
    exact hj b (mem_cons_of_mem _ hb)
  · exact fun hn => absurd hn hbase

theorem Laid.releaseIndex_held (hb : b∈s.held) : s.use.releaseIndex b.start b.order=
      fun i => if b.start ≤ i ∧ i < b.start+2^b.order then .free else s.use i := by
  have hin := h.inside b hb
  have ho := h.order b hb
  have hlt := b.start_lt_stop
  simp only [Block.stop] at hin hlt
  have htail : s.use.tailRun (b.start+1) (2^b.order-1)=true := by
    rw [tailRun_iff]
    intro j h1 h2
    exact h.tails b hb j h1 (by simp only [Block.stop]; omega)
  rw [releaseIndex,if_neg]
  simp only [h.head b hb,htail,ne_eq,not_true_eq_false,Bool.not_true,Bool.false_eq_true,or_false,
    false_or]
  omega

theorem Laid.releaseIndex_other (hno : ⟨index,order⟩∉s.held) : s.release index order=s := by
  have hne : s.use index≠.head order := fun hi => hno (h.head_held hi)
  simp [Pages.release,releaseIndex,hne,erase_of_not_mem hno]

theorem Laid.release (index order : Nat) : Laid (s.release index order) := by
  by_cases hb : (⟨index,order⟩ : Block)∈s.held
  swap
  · rw [h.releaseIndex_other hb]
    exact h
  have hnd : s.held.Nodup := by
    refine h.apart.imp ?_
    intro b c hap hbc
    have := b.start_lt_stop
    subst hbc
    simp only [Block.Apart] at hap
    omega
  have hmem : ∀ c,c∈s.held.erase ⟨index,order⟩ ↔ c≠⟨index,order⟩ ∧ c∈s.held :=
    fun c => hnd.mem_erase_iff
  have huse := h.releaseIndex_held hb
  have hother : ∀ c∈s.held.erase ⟨index,order⟩,∀ j,c.start≤j → j<c.stop →
      s.use.releaseIndex index order j=s.use j := by
    intro c hc j h1 h2
    obtain ⟨hne,hin⟩ := (hmem c).mp hc
    rw [huse]
    exact if_neg fun hj => hne (h.same hin hb ⟨h1,h2⟩ hj)
  constructor
  · exact h.apart.sublist erase_sublist
  · exact fun c hc => h.order c ((hmem c).mp hc).2
  · exact fun c hc => h.inside c ((hmem c).mp hc).2
  · intro c hc
    exact (hother c hc _ le_rfl c.start_lt_stop).trans (h.head c ((hmem c).mp hc).2)
  · intro c hc j h1 h2
    exact (hother c hc j (by omega) h2).trans (h.tails c ((hmem c).mp hc).2 j h1 h2)
  · intro j hj
    simp only [Pages.release,huse]
    split
    · rfl
    next hnot =>
    refine h.rest j fun c hc hin => ?_
    by_cases hcb : c=⟨index,order⟩
    · subst hcb
      exact hnot hin
    · exact hj c ((hmem c).mpr ⟨hcb,hc⟩) hin
  · intro hn
    simp [h.unset hn] at hb

theorem allocPagesStub_cases (setup : Option ArenaBase) (ready : Bool) (order : Nat) :
    ((allocPagesStub s setup ready order).1=none ∧ Laid (allocPagesStub s setup ready order).2 ∧
        ((allocPagesStub s setup ready order).2.base=s.base ∨
          (allocPagesStub s setup ready order).2.base=(s.base <|> setup))) ∨
      ∃ base index,order<8 ∧ index+2^order≤pageRecordMax ∧
        (∀ j,index≤j → j < index+2^order → s.use j=.free) ∧ ready=true ∧
        (s.base <|> setup)=some base ∧
        allocPagesStub s setup ready order=(some (PageArena.pageAt base index),{s with
          base := some base,use := s.use.mark index order,
          records := zeroBytes s.records (index*structPageSize) ((index+2^order)*structPageSize),
          payloads := zeroBytes s.payloads (index*pageSize) ((index+2^order)*pageSize),
          held := ⟨index,order⟩::s.held}) := by
  obtain ⟨hlaid,huse,hheld,hrec,hpay,hbase⟩ := ensurePageArena_keeps h setup
  have hset := ensurePageArena_base s setup
  simp only [allocPagesStub]
  split
  · exact inl ⟨rfl,h,inl rfl⟩
  next ho =>
  split
  · next s1 hens =>
    rw [hens] at hlaid hset
    exact inl ⟨rfl,hlaid,inr hset⟩
  next base s1 hens =>
  rw [hens] at hlaid huse hheld hrec hpay hbase hset
  split
  · exact inl ⟨rfl,hlaid,inr hset⟩
  next hready =>
  split
  · exact inl ⟨rfl,hlaid,inr hset⟩
  next index use halloc =>
  obtain ⟨hin,hfree,rfl⟩ := allocPages_spec halloc
  refine inr ⟨base,index,Nat.not_le.mp ho,hin,huse ▸ hfree,by simpa using hready,
    hset.symm.trans hbase.symm,?_⟩
  simp only at huse hheld hrec hpay hbase
  rw [←huse,←hheld,←hrec,←hpay,hbase]

theorem allocPagesStub_laid (setup : Option ArenaBase) (ready : Bool) (order : Nat) :
    Laid (allocPagesStub s setup ready order).2 := by
  rcases allocPagesStub_cases h setup ready order with
    ⟨-,hlaid,-⟩ | ⟨base,index,ho,hin,hfree,-,-,heq⟩
  · exact hlaid
  · rw [heq]
    have hset : Laid {s with base := some base} :=
      ⟨h.apart,h.order,h.inside,h.head,h.tails,h.rest,fun hn => by cases hn⟩
    exact hset.mark ho hin hfree (by simp) _ _

theorem Laid.start_lt (hb : b∈s.held) : b.start<pageRecordMax :=
  lt_of_lt_of_le b.start_lt_stop (h.inside b hb)

theorem Laid.target_of_names (hb : b∈s.held) (hn : c.Names base b) :
    c.isNull=false ∧ c.target base s.use=some b := by
  have hlt := h.start_lt hb
  have hr := base.recordsPos
  have hp := base.payloadsPos
  cases c with
  | releasePages setup page order =>
    obtain ⟨rfl,rfl⟩ := hn
    refine ⟨by simp [PageCall.isNull,pageAt]; omega,?_⟩
    simp [PageCall.target,PageArena.indexOf_pageAt base hlt]
  | freePagesAddr setup addr order =>
    obtain ⟨rfl,rfl⟩ := hn
    refine ⟨by simp [PageCall.isNull]; omega,?_⟩
    simp [PageCall.target,payloadIndex_at hlt]
  | freePagesExact setup virt size =>
    obtain ⟨rfl,hz,hle⟩ := hn
    refine ⟨by simp [PageCall.isNull]; omega,?_⟩
    simp only [PageCall.target,payloadIndex_at hlt,h.head b hb]
    rw [if_neg (not_or.mpr ⟨hz,Nat.not_lt.mpr hle⟩)]
  | _ => exact hn.elim

theorem free_cases (c : PageCall) (hc : c.isFree=true) :
    ∃ s1,Laid s1 ∧ s1.use=s.use ∧ s1.held=s.held ∧ s1.records=s.records ∧
      s1.payloads=s.payloads ∧ (s.base=none ∨ s1.base=s.base) ∧
      (((∀ base b,s1.base=some base → b∈s.held → ¬c.Names base b) ∧ pageStep s c=s1) ∨
        ∃ base b,s1.base=some base ∧ c.Names base b ∧ b∈s.held ∧
          pageStep s c=s1.release b.start b.order) := by
  rw [free_eq hc]
  cases hnull : c.isNull with
  | true =>
    refine ⟨s,h,rfl,rfl,rfl,rfl,inr rfl,inl ⟨?_,by simp⟩⟩
    intro base b _ hb hn
    rw [(h.target_of_names hb hn).1] at hnull
    cases hnull
  | false =>
  simp only [Bool.false_eq_true,if_false]
  obtain ⟨hlaid,huse,hheld,hrec,hpay,hbase⟩ := ensurePageArena_keeps h c.setup
  have hold : s.base=none ∨ (ensurePageArena s c.setup).2.base=s.base := by
    cases hb : s.base with
    | none => exact inl rfl
    | some base => exact inr (by simp [ensurePageArena,hb])
  refine ⟨(ensurePageArena s c.setup).2,hlaid,huse,hheld,hrec,hpay,hold,?_⟩
  split
  · next s1 hens =>
    rw [hens] at hbase ⊢
    refine inl ⟨?_,rfl⟩
    intro base b hb
    rw [←hbase] at hb
    cases hb
  next base s1 hens =>
  rw [hens] at hlaid huse hheld hbase ⊢
  split
  · next htar =>
    refine inl ⟨?_,rfl⟩
    intro base' b hb' hb hn
    obtain rfl : base=base' := some.inj (hbase.trans hb')
    rw [(hlaid.target_of_names (hheld ▸ hb) hn).2] at htar
    cases htar
  next b htar =>
  have hn := names_of_target htar
  by_cases hb : b∈s.held
  · exact inr ⟨base,b,hbase.symm,hn,hb,rfl⟩
  refine inl ⟨?_,hlaid.releaseIndex_other (hheld ▸ hb)⟩
  intro base' b' hb' hmem hn'
  obtain rfl : base=base' := some.inj (hbase.trans hb')
  rw [(hlaid.target_of_names (hheld ▸ hmem) hn').2] at htar
  cases htar
  exact hb hmem

theorem pageStep_laid (c : PageCall) : Laid (pageStep s c) := by
  by_cases hfree : c.isFree=true
  · obtain ⟨s1,hs1,-,-,-,-,-,⟨-,heq⟩ | ⟨-,b,-,-,-,heq⟩⟩ := free_cases h c hfree
    · exact heq ▸ hs1
    · exact heq ▸ hs1.release b.start b.order
  cases c with
  | allocPages setup ready order => exact allocPagesStub_laid h setup ready order
  | getFreePages setup ready order =>
    simp only [pageStep,getFreePagesStub_state]
    exact allocPagesStub_laid h setup ready order
  | store records payloads =>
    exact ⟨h.apart,h.order,h.inside,h.head,h.tails,h.rest,h.unset⟩
  | _ => simp [PageCall.isFree] at hfree

theorem allocPagesStub_none (ho : order<8) (hset : s.base≠none ∨ setup≠none) :
    (allocPagesStub s setup true order).1=none ↔ ¬HasRoom s.use order := by
  obtain ⟨base,hens⟩ := ensurePageArena_some hset
  obtain ⟨-,huse,-⟩ := ensurePageArena_keeps h setup
  rw [←allocPages_eq_none ho,←huse]
  have hpair : ensurePageArena s setup=(some base,(ensurePageArena s setup).2) := Prod.ext hens rfl
  simp only [allocPagesStub,if_neg (Nat.not_le.mpr ho)]
  rw [hpair]
  simp only [Bool.not_true]
  cases (ensurePageArena s setup).2.use.allocPages order with
  | none => simp
  | some r => simp

theorem Laid.kept : ArenaKept s where
  tiled := h.tiled
  apart := h.apart
  blocks := fun b hb => ⟨h.order b hb,h.inside b hb,h.head b hb,h.tails b hb⟩
  strangers := by
    intro c hc hno
    obtain ⟨s1,-,huse,hheld,hrec,hpay,-,⟨-,heq⟩ | ⟨base,b,hbase,hn,hb,heq⟩⟩ := free_cases h c hc
    · rw [heq]
      exact ⟨huse,hheld,hrec,hpay⟩
    · exact absurd hn (hno base b (by rw [heq]; exact hbase) hb)
  named := by
    intro c hc base b hbase hb hn
    obtain ⟨s1,hs1,huse,hheld,-,-,hold,⟨hno,-⟩ | ⟨base',b',hbase',hn',hb',heq⟩⟩ := free_cases h c hc
    · have hs1base := hold.resolve_left (by simp [hbase])
      exact absurd hn (hno base b (hs1base.trans hbase) hb)
    have hs1base := hold.resolve_left (by simp [hbase])
    obtain rfl : base=base' := by
      rw [hs1base,hbase] at hbase'
      exact some.inj hbase'
    obtain rfl : b=b' := by
      have h1 := (h.target_of_names hb hn).2
      rw [(h.target_of_names hb' hn').2] at h1
      exact (some.inj h1).symm
    rw [heq]
    refine ⟨by simp [Pages.release,hheld],fun j => ?_⟩
    have hrel := congrFun (hs1.releaseIndex_held (hheld ▸ hb)) j
    rw [huse] at hrel
    simp only [Pages.release,huse]
    exact hrel
  complete := by
    intro setup order ho hset
    have hnone := allocPagesStub_none h ho hset
    refine ⟨hnone,?_⟩
    rw [←hnone]
    rcases allocPagesStub_cases h setup true order with ⟨hn,-⟩ | ⟨base,index,-,-,-,-,-,heq⟩
    · simp only [hn,iff_true]
      exact getFreePagesStub_none hn
    · rw [getFreePagesStub_addr rfl heq,heq]
      have := base.payloadsPos
      simp only [reduceCtorEq,iff_false]
      omega
  zeroed := by
    intro setup ready order page hpage
    rcases allocPagesStub_cases h setup ready order with
      ⟨hn,-⟩ | ⟨base,index,-,-,hfree,-,-,heq⟩
    · rw [hn] at hpage
      cases hpage
    have haddr := getFreePagesStub_addr rfl heq
    rw [heq] at hpage ⊢
    cases hpage
    exact ⟨base,index,rfl,rfl,haddr,rfl,hfree,fun i h1 h2 => zeroBytes_inside h1 h2,
      fun i h1 h2 => zeroBytes_inside h1 h2⟩

end

/-- Whatever calls are made and holders store, free pages and whole blocks tile the arena, and every
call does what it owes. -/
theorem page_arena_kept (records payloads : Nat → Nat) (calls : List PageCall) :
    ArenaKept (runAll pageStep (freshPages records payloads) calls) := by
  have hrun : Laid (runAll pageStep (freshPages records payloads) calls) := by
    induction calls using reverseRecOn with
    | nil => exact fresh_laid
    | append_singleton calls c ih =>
      rw [runAll_append]
      exact pageStep_laid ih c
  exact hrun.kept

end Kobox.Kvm
