import Kobox.PageCache.Reclaim

namespace Kobox.PageCache

open List PageState FolioRecord
open Fs (pageSize einval)

/-- A call of `writepage`: the slot of the folio, chosen in this state. -/
structure WriteTurn where
  slot : Nat
  state : PageState

/-- A call of `write_cache_pages`: its status, `nr_to_write` behind it, and its turns. -/
structure WriteRun where
  status : Int
  left : Int
  turns : List WriteTurn
  state : PageState

section

variable (env : PageEnv) (writepage mapping : Nat)

/-- `writeCacheLoop` with its bookkeeping. -/
def writeCacheRun (last : Nat) : Nat → Nat → PageState → WriteRun
  | 0,_,s => ⟨0,0,[],s⟩
  | n+1,cursor,s =>
    if last<cursor then ⟨0,n+1,[],s⟩
    else
      match nextDirty s mapping cursor last with
      | none => ⟨0,n+1,[],s⟩
      | some i =>
        let w := writeFolio env writepage i s
        let r :=
          if w.1≠0 then ⟨w.1,n+1,[],w.2⟩
          else if (s.records i).index=ulongMax then ⟨0,n,[],w.2⟩
          else writeCacheRun last n ((s.records i).index+1) w.2
        { r with turns := ⟨i,s⟩::r.turns }

def lastIndex (stop : Int) : Nat := if stop=int64Max then ulongMax else stop.toNat/pageSize

def writeCacheCall (nrToWrite start stop : Int) (s : PageState) : WriteRun :=
  if mapping=0 ∨ writepage=0 then ⟨einval,nrToWrite,[],s⟩
  else if nrToWrite≤0 ∨ start<0 ∨ stop<start then ⟨0,nrToWrite,[],s⟩
  else
    let r := writeCacheRun env writepage mapping (lastIndex stop) nrToWrite.toNat
      (start.toNat/pageSize) s
    { r with state := filemapMappingRefreshMarks mapping r.state }

theorem writeCacheRun_loop (last n cursor : Nat) (s : PageState) :
    writeCacheLoop env writepage mapping last n cursor s=
      ((writeCacheRun env writepage mapping last n cursor s).status,
        (writeCacheRun env writepage mapping last n cursor s).state) := by
  induction n generalizing cursor s with
  | zero => rfl
  | succ n ih =>
    rw [writeCacheLoop,writeCacheRun]
    split
    · rfl
    cases nextDirty s mapping cursor last with
    | none => rfl
    | some i =>
      dsimp only
      rw [ih]
      split_ifs <;> rfl

theorem writeCacheCall_eq {nrToWrite start stop : Int} {s : PageState} :
    writeCachePages env writepage mapping nrToWrite start stop s=
      ((writeCacheCall env writepage mapping nrToWrite start stop s).status,
        (writeCacheCall env writepage mapping nrToWrite start stop s).state) := by
  unfold writeCachePages writeCacheCall
  split
  · rfl
  split
  · rfl
  · dsimp only
    rw [writeCacheRun_loop]
    rfl

end

def PageState.refs (s : PageState) (folio : Nat) : Nat := (s.folios folio).refcount

/-- A put of the folio drops a reference: one that is cached keeps its last one. -/
def PageState.drops (s : PageState) (folio : Nat) : Bool :=
  folio≠0 && (if (filemapFolioRecord s folio).isSome then 1 else 0)<s.refs folio

namespace WriteTurn

variable (c : WriteTurn)

def record : FolioRecord := c.state.records c.slot
def folio : Nat := c.record.folio

def passed : PageState := c.state.onFolio c.folio fun f => { f with
  flags := { f.flags with locked := true }
  refcount := if f.refcount≠refcountMax then f.refcount+1 else f.refcount }

variable (env : PageEnv) (writepage : Nat)

def back : PageState := (env.writepage writepage c.folio c.passed).2
def result : Int × PageState := writeFolio env writepage c.slot c.state

/-- The folio is free, its count not at its end; behind `writepage` it is in its slot with the
reference that is to be dropped. -/
structure Fits : Prop where
  free : (c.state.folios c.folio).flags.locked=false
  counted : c.state.refs c.folio≠refcountMax
  slot : ((c.back env writepage).records c.slot).folio=c.folio
  held : (c.back env writepage).drops c.folio=true

/-- A turn takes one reference and gives it back. -/
def Balanced : Prop := ∀ g, c.passed.refs g=c.state.refs g+(if g=c.folio then 1 else 0) ∧
    (c.result env writepage).2.refs g+(if g=c.folio then 1 else 0)=(c.back env writepage).refs g

end WriteTurn

/-- Every call takes folios in the order of their indices, each dirty at its turn; if the turns are
balanced, references change only as `writepage` changes them. -/
structure RunOk (env : PageEnv) (writepage mapping first last : Nat) (n : Int) (s : PageState)
    (r : WriteRun) : Prop where
  ordered : r.turns.Pairwise fun c d => c.record.index<d.record.index
  dirty : ∀ c∈r.turns,first ≤ c.record.index ∧ dirtyIn c.state mapping 0 last c.record=true
  left : r.left=n-r.turns.countP fun c => (c.result env writepage).1=0
  kept : (∀ c∈r.turns,c.Balanced env writepage) → ∀ g,(r.state.refs g : Int)=s.refs g+
    (r.turns.map fun c => ((c.back env writepage).refs g : Int)-c.passed.refs g).sum

structure WriteContract (env : PageEnv) (writepage mapping first last : Nat) (nrToWrite : Int)
    (s : PageState) (r : WriteRun) : Prop
    extends RunOk env writepage mapping first last nrToWrite s r where
  locked : ∀ c∈r.turns,(c.passed.folios c.folio).flags.locked=true
  free : ∀ c∈r.turns,(c.state.folios c.folio).flags.locked=false
  balanced : ∀ c∈r.turns,c.Balanced env writepage

section

variable (env : PageEnv) {writepage mapping : Nat}

theorem folioPut_refs (folio : Nat) (s : PageState) (g : Nat) :
    (folioPut env folio s).refs g+(if g=folio ∧ s.drops folio=true then 1 else 0)=s.refs g := by
  unfold folioPut drops refs
  by_cases hf : folio=0
  · simp [hf]
  rw [if_neg hf]
  cases filemapFolioRecord s folio <;> by_cases hg : g=folio
  · unfold unrefFolio
    split_ifs <;> simp_all [onFolio] <;> omega
  · unfold unrefFolio
    split_ifs <;> simp_all [onFolio]
  · subst hg
    simp [onFolio,hf]
    split_ifs <;> omega
  · simp [onFolio,hg]

theorem folioUnlock_refs (folio : Nat) (s : PageState) :
    (folioUnlock folio s).records=s.records ∧ (folioUnlock folio s).refs=s.refs := by
  unfold folioUnlock
  split
  · exact ⟨rfl,rfl⟩
  · refine ⟨rfl,funext fun g => ?_⟩
    unfold refs
    rcases onFolio_cases with h|h <;> rw [h]

theorem WriteTurn.result_refs (writepage : Nat) (c : WriteTurn) (g : Nat) :
    (c.result env writepage).2.refs g+ (if g=((c.back env writepage).records c.slot).folio ∧
        (c.back env writepage).drops ((c.back env writepage).records c.slot).folio=true
      then 1 else 0)=(c.back env writepage).refs g := by
  obtain ⟨t,ht,hrec,hrefs⟩ : ∃ t,(c.result env writepage).2=
      folioPut env (t.records c.slot).folio t ∧ t.records=(c.back env writepage).records ∧
      t.refs=(c.back env writepage).refs := by
    refine ⟨_,rfl,?_⟩
    split
    · exact folioUnlock_refs _ _
    · exact ⟨rfl,rfl⟩
  have hput := folioPut_refs env (t.records c.slot).folio t g
  unfold drops filemapFolioRecord at hput ⊢
  rw [ht]
  rw [hrec,hrefs] at hput
  rw [hrec]
  exact hput

theorem WriteTurn.balanced_iff {writepage : Nat} (c : WriteTurn) :
    c.Balanced env writepage ↔ c.state.refs c.folio≠refcountMax ∧
      ((c.back env writepage).records c.slot).folio=c.folio ∧
      (c.back env writepage).drops c.folio=true := by
  have hres := c.result_refs env writepage
  have hpass : ∀ g,c.passed.refs g=if g=c.folio ∧ c.state.refs c.folio≠refcountMax then
      c.state.refs g+1 else c.state.refs g := by
    intro g
    by_cases hg : g=c.folio
    · subst hg
      simp [passed,refs,onFolio]
    · simp [passed,refs,onFolio,hg]
  constructor
  · intro h
    obtain ⟨h1,h2⟩ := h c.folio
    have h3 := hres c.folio
    rw [hpass] at h1
    simp only [true_and,if_true] at h1 h2
    split at h3
    · next hd =>
      obtain ⟨ha,hb⟩ := hd
      rw [← ha] at hb
      exact ⟨by split at h1 <;> [assumption; omega],ha.symm,hb⟩
    · omega
  · rintro ⟨h1,h2,h3⟩ g
    have h4 := hres g
    rw [h2] at h4
    simp only [h3,and_true] at h4
    rw [hpass]
    simp only [h1,ne_eq,not_false_eq_true,and_true]
    exact ⟨by split <;> rfl,h4⟩

variable {s : PageState}

theorem nextDirty_dirty {start stop i : Nat} (h : nextDirty s mapping start stop=some i) :
    dirtyIn s mapping start stop (s.records i)=true := by
  unfold nextDirty at h
  exact ((leastSlot_spec _ _ _ _).1 i h).2.1

theorem RunOk.none {first last : Nat} {n status : Int} :
    RunOk env writepage mapping first last n s ⟨status,n,[],s⟩ :=
  ⟨Pairwise.nil,by simp,by simp,by simp⟩

theorem RunOk.cons {first last i : Nat} {n : Int} {r : WriteRun} (hi : first≤(s.records i).index)
    (hd : dirtyIn s mapping 0 last (s.records i)=true)
    (h : RunOk env writepage mapping ((s.records i).index+1) last (if
      (writeFolio env writepage i s).1=0 then n-1 else n) (writeFolio env writepage i s).2 r) :
    RunOk env writepage mapping first last n s { r with turns := ⟨i,s⟩::r.turns } := by
  refine ⟨?_,?_,?_,?_⟩
  · exact pairwise_cons.mpr ⟨fun c hc => (h.dirty c hc).1,h.ordered⟩
  · rintro c (_|⟨_,hc⟩)
    · exact ⟨hi,hd⟩
    · exact ⟨by have := (h.dirty c hc).1; omega,(h.dirty c hc).2⟩
  · have hl := h.left
    simp only [countP_cons,WriteTurn.result] at hl ⊢
    split at hl <;> simp_all
    omega
  · intro hb g
    obtain ⟨h1,h2⟩ := hb ⟨i,s⟩ mem_cons_self g
    have hk := h.kept (fun c hc => hb c (mem_cons_of_mem _ hc)) g
    have hst : (⟨i,s⟩ : WriteTurn).state=s := rfl
    have hw : (⟨i,s⟩ : WriteTurn).result env writepage=writeFolio env writepage i s := rfl
    rw [hst] at h1
    rw [hw] at h2
    simp only [map_cons,sum_cons]
    omega

theorem writeCacheRun_ok (writepage mapping last n cursor : Nat) (s : PageState) :
    RunOk env writepage mapping cursor last n s
      (writeCacheRun env writepage mapping last n cursor s) := by
  induction n generalizing cursor s with
  | zero => exact .none env
  | succ n ih =>
    rw [writeCacheRun]
    split
    · exact .none env
    cases hn : nextDirty s mapping cursor last with
    | none => exact .none env
    | some i =>
      have hd := nextDirty_dirty hn
      simp only [dirtyIn,Bool.and_eq_true,decide_eq_true_eq] at hd
      refine .cons env hd.1.1.2 (by simp [dirtyIn,hd]) ?_
      have hsub : ((n+1 : Nat) : Int)-1=n := by omega
      rw [hsub]
      split_ifs with h1 h2 h3
      · exact absurd h1 h2
      · exact .none env
      · exact ih _ _
      · exact .none env

end

/-- The contract is kept exactly when every folio come to is free and not referenced too often, and
`writepage` leaves it in its slot, with a reference to drop. -/
theorem write_cache_contract_iff (env : PageEnv) (writepage mapping : Nat)
    (nrToWrite start stop : Int) (s : PageState) :
    let r := writeCacheCall env writepage mapping nrToWrite start stop s
    writeCachePages env writepage mapping nrToWrite start stop s=(r.status,r.state) ∧
    (WriteContract env writepage mapping (start.toNat/pageSize) (lastIndex stop) nrToWrite s r ↔
      ∀ c∈r.turns,c.Fits env writepage) := by
  intro r
  refine ⟨writeCacheCall_eq env writepage mapping,?_⟩
  have hok : RunOk env writepage mapping (start.toNat/pageSize) (lastIndex stop) nrToWrite s r := by
    unfold r writeCacheCall
    split
    · exact .none env
    split
    · exact .none env
    have h := writeCacheRun_ok env writepage mapping (lastIndex stop) nrToWrite.toNat
      (start.toNat/pageSize) s
    rw [Int.toNat_of_nonneg (by omega)] at h
    exact ⟨h.ordered,h.dirty,h.left,fun hb g => by
      rw [← h.kept hb g]
      unfold filemapMappingRefreshMarks
      split <;> rfl⟩
  constructor
  · intro h c hc
    obtain ⟨h1,h2,h3⟩ := (c.balanced_iff env).mp (h.balanced c hc)
    exact ⟨h.free c hc,h1,h2,h3⟩
  · intro h
    have hb := fun (c : WriteTurn) hc => (c.balanced_iff env).mpr
      ⟨(h c hc).counted,(h c hc).slot,(h c hc).held⟩
    exact ⟨hok,fun c _ => by simp [WriteTurn.passed,onFolio],fun c hc => (h c hc).free,hb⟩

/-- A `writepage` that takes its folio out of the cache. -/
def removing : PageEnv :=
  { stillEnv with writepage := fun _ folio s => (0,filemapFolioDiscard stillEnv folio s) }

/-- Dirty folios, the first of them locked. -/
def dirtyPages : PageState := { fullPages true with
  folios := fun f => { (fullPages true).folios f with flags := ⟨f==4096,false,true,false,false⟩ } }

/-- A locked folio is passed, and the reference to it never dropped once `writepage` has emptied its
slot. -/
theorem locked_folio_passed :
    let r := writeCacheCall removing 1 8192 1 0 0 dirtyPages
    r.turns=[⟨0,dirtyPages⟩] ∧ (dirtyPages.folios 4096).flags.locked=true ∧
      dirtyPages.refs 4096=1 ∧ (r.state.records 0).active=false ∧ r.state.refs 4096=1 := by
  have hnext : nextDirty dirtyPages 8192 0 0=some 0 := by
    have h := leastSlot_spec (dirtyIn dirtyPages 8192 0 0) index dirtyPages.records folioCacheMax
    unfold nextDirty
    generalize leastSlot (dirtyIn dirtyPages 8192 0 0) index dirtyPages.records
      folioCacheMax=best at h
    cases best with
    | none => exact absurd (h.2 rfl 0 (by decide)) (by decide)
    | some i =>
      obtain ⟨_,hd,_⟩ := h.1 i rfl
      simp only [dirtyIn,caches,Bool.and_eq_true,decide_eq_true_eq] at hd
      have hact : ((fullPages true).records i).active=true := hd.1.1.1.1.1
      have hrec : dirtyPages.records i=_ := (fullPages_record hact).2
      have hz := hd.1.2
      rw [hrec] at hz
      exact congrArg some (Nat.le_zero.mp hz)
  have hzero : (writeFolio removing 1 0 dirtyPages).1=0 := rfl
  have hrun : writeCacheCall removing 1 8192 1 0 0 dirtyPages=⟨0,0,[⟨0,dirtyPages⟩],
      filemapMappingRefreshMarks 8192 (writeFolio removing 1 0 dirtyPages).2⟩ := by
    simp [writeCacheCall,writeCacheRun,lastIndex,int64Max,hnext,hzero]
  rw [hrun]
  exact ⟨rfl,rfl,rfl,by decide +kernel,by decide +kernel⟩

end Kobox.PageCache
