import Kobox.Framework.Unlink
import Kobox.Sync.Rcu

namespace Kobox.Sync

open List
open Sync.Frame (drains holds)

def Frame.sections : Frame → List Nat
  | .body secs => secs
  | _ => []

/-- The record taken from the list and not invoked yet. -/
def Frame.held : Frame → List Nat
  | .hold r => [r.id]
  | _ => []

def stackSections (fs : List Frame) : List Nat := fs.flatMap Frame.sections

def stackHeld (fs : List Frame) : List Nat := fs.flatMap Frame.held

/-- Every section open when a drain loop is entered again belongs to the calls above it. -/
def Guarded (opened : List Nat) : List Nat → List Frame → Prop
  | _,[] => True
  | acc,f::fs => (f.drains=true → ∀ n∈opened,n∈acc) ∧ Guarded opened (acc++f.sections) fs

/-- What a wait of a thread remembers from its start. -/
def FrameOk (s : Rcu) : Frame → Prop
  | .sync watched => ∀ n∈watched,n<s.nextSection
  | .syncEnd watched => ∀ n∈watched,n<s.nextSection ∧ n∉s.opened
  | .barrier before => before ≤ s.nextRecord
  | .barrierLook before => before ≤ s.nextRecord
  | _ => True

/-- Readers are the open sections, each of a thread; a record is listed, held by one thread or
invoked. -/
structure RcuOk (s : Rcu) : Prop where
  counted : s.readers=s.opened.length
  few : s.opened.length < readersSize
  single : s.opened.Nodup
  born : ∀ n∈s.opened,n<s.nextSection
  owned : s.opened.Perm (s.threads.flatMap stackSections)
  records : (s.callbacks.map RcuRecord.id++(s.invoked++s.threads.flatMap stackHeld)).Perm
    (List.range s.nextRecord)
  guarded : ∀ (u : Nat) (fs : List Frame),s.threads[u]?=some fs → Guarded s.opened [] fs
  frames : ∀ (u : Nat) (fs : List Frame),s.threads[u]?=some fs → ∀ f∈fs,FrameOk s f
  kept : GraceKept s

theorem Guarded.change {opened opened' acc acc' : List Nat} {fs : List Frame}
    (h : Guarded opened acc fs)
    (hc : ∀ n∈opened',n∈acc' ∨ n∈opened ∧ (n∈acc → n∈acc')) : Guarded opened' acc' fs := by
  induction fs generalizing acc acc' with
  | nil => trivial
  | cons f fs ih =>
    refine ⟨fun hf n hn => ?_,ih h.2 fun n hn => ?_⟩
    · rcases hc n hn with hacc | ⟨ho,himp⟩
      · exact hacc
      · exact himp (h.1 hf n ho)
    rcases hc n hn with hacc | ⟨ho,himp⟩
    · exact .inl (mem_append_left _ hacc)
    · refine .inr ⟨ho,fun hm => ?_⟩
      rcases mem_append.mp hm with hm | hm
      · exact mem_append_left _ (himp hm)
      · exact mem_append_right _ hm

theorem guarded_of_quiet {opened acc : List Nat} {fs : List Frame}
    (h : fs.any Frame.drains=false) : Guarded opened acc fs := by
  induction fs generalizing acc with
  | nil => trivial
  | cons f fs ih =>
    simp only [any_cons,Bool.or_eq_false_iff] at h
    exact ⟨fun hf => by simp [h.1] at hf,ih h.2⟩

theorem stackHeld_of_quiet {fs : List Frame} (h : fs.any Frame.holds=false) : stackHeld fs=[] := by
  induction fs with
  | nil => rfl
  | cons f fs ih =>
    simp only [any_cons,Bool.or_eq_false_iff] at h
    have hf : f.held=[] := by
      cases f <;> first | rfl | simp [holds] at h
    simpa [stackHeld,hf] using ih h.2

theorem FrameOk.later {s s' : Rcu} {f : Frame} (h : FrameOk s f)
    (hsec : s.nextSection ≤ s'.nextSection) (hrec : s.nextRecord ≤ s'.nextRecord)
    (hopen : ∀ n∈s'.opened,n<s.nextSection → n∈s.opened) : FrameOk s' f := by
  cases f with
  | sync watched => exact fun n hn => (h n hn).trans_le hsec
  | syncEnd watched =>
    exact fun n hn => ⟨(h n hn).1.trans_le hsec,fun ho => (h n hn).2 (hopen n ho (h n hn).1)⟩
  | barrier before => exact le_trans h hrec
  | barrierLook before => exact le_trans h hrec
  | _ => trivial

theorem forall_set {threads : List (List Frame)} {t : Nat} {fs' : List Frame}
    {P : List Frame → Prop} (hnew : P fs')
    (hold : ∀ (u : Nat) (fs : List Frame),u≠t → threads[u]?=some fs → P fs) :
    ∀ (u : Nat) (fs : List Frame),(threads.set t fs')[u]?=some fs → P fs := by
  intro u fs hu
  rw [getElem?_set] at hu
  by_cases he : t=u
  · rw [if_pos he] at hu
    by_cases hl : t<threads.length
    · rw [if_pos hl] at hu
      cases hu
      exact hnew
    · rw [if_neg hl] at hu
      cases hu
  · rw [if_neg he] at hu
    exact hold u fs (Ne.symm he) hu

section

variable {s : Rcu} {t : Nat} {fs fs' : List Frame}

variable (h : RcuOk s)

include h

theorem RcuOk.moves (ht : s.threads[t]?=some fs) (hs : stackSections fs'=stackSections fs)
    (hh : stackHeld fs'=stackHeld fs) (hg : Guarded s.opened [] fs') (hf : ∀ f∈fs',FrameOk s f) :
    RcuOk (s.setThread t fs') := by
  obtain ⟨rest,hold,hnew⟩ := flatMap_set_perm stackSections ht
  obtain ⟨rest',hold',hnew'⟩ := flatMap_set_perm stackHeld ht
  have howned : ((s.threads.set t fs').flatMap stackSections).Perm
      (s.threads.flatMap stackSections) := (hnew fs').trans (hs ▸ hold.symm)
  have hheld : ((s.threads.set t fs').flatMap stackHeld).Perm (s.threads.flatMap stackHeld) :=
    (hnew' fs').trans (hh ▸ hold'.symm)
  exact {
    counted := h.counted
    few := h.few
    single := h.single
    born := h.born
    owned := h.owned.trans howned.symm
    records := ((hheld.append_left s.invoked).append_left _).trans h.records
    guarded := forall_set hg fun u fs _ hu => h.guarded u fs hu
    frames := forall_set hf fun u fs _ hu => h.frames u fs hu
    kept := ⟨h.kept.once,h.kept.grace,h.kept.waited,h.kept.barred⟩ }

theorem RcuOk.above {g : Frame} (ht : s.threads[t]?=some (g::fs)) (top : List Frame)
    (htop : ∀ f∈top,FrameOk s f) : ∀ f∈top++fs,FrameOk s f :=
  forall_mem_append.mpr ⟨htop,(forall_mem_cons.mp (h.frames t _ ht)).2⟩

theorem RcuOk.opened_nil (hr : s.readers=0) : s.opened=[] :=
  eq_nil_of_length_eq_zero (h.counted ▸ hr)

theorem RcuOk.enqueue (frees : Bool) : RcuOk (rcuEnqueue s frees) := by
  have hrec : ((s.callbacks++[(⟨s.nextRecord,s.opened,frees⟩ : RcuRecord)]).map RcuRecord.id++
      (s.invoked++s.threads.flatMap stackHeld)).Perm (range (s.nextRecord+1)) := by
    rw [range_succ,map_append,append_assoc]
    have hmid : (s.callbacks.map RcuRecord.id++s.nextRecord::
        (s.invoked++s.threads.flatMap stackHeld)).Perm
        (s.nextRecord::range s.nextRecord) :=
      perm_middle.trans (h.records.cons _)
    exact hmid.trans (perm_append_singleton _ _).symm
  exact {
    counted := h.counted
    few := h.few
    single := h.single
    born := h.born
    owned := h.owned
    records := hrec
    guarded := h.guarded
    frames := fun u fs hu f hf =>
      (h.frames u fs hu f hf).later le_rfl (Nat.le_succ _) fun n hn _ => hn
    kept := ⟨h.kept.once,h.kept.grace,h.kept.waited,h.kept.barred⟩ }

theorem RcuOk.logs {e : RcuEvent} (hgrace : ∀ r now,e=.invoked r now → ∀ n∈r.opened,n∉now)
    (hwait : ∀ watched now,e=.synchronized watched now → ∀ n∈watched,n∉now)
    (hbar : ∀ before done,e=.barred before done → ∀ n<before,n∈done) :
    RcuOk {s with events := e::s.events} := by
  refine ⟨h.counted,h.few,h.single,h.born,h.owned,h.records,h.guarded,h.frames,h.kept.once,?_,?_,?_⟩
  · intro r now hm
    rcases mem_cons.mp hm with he | hm
    · exact hgrace r now he.symm
    · exact h.kept.grace r now hm
  · intro watched now hm
    rcases mem_cons.mp hm with he | hm
    · exact hwait watched now he.symm
    · exact h.kept.waited watched now hm
  · intro before done hm
    rcases mem_cons.mp hm with he | hm
    · exact hbar before done he.symm
    · exact h.kept.barred before done hm

theorem readLock_ok {secs : List Nat} (ht : s.threads[t]?=some (.body secs::fs))
    (hok : Careful s (t,.readLock)) : RcuOk (threadStep s t (.body secs::fs) .readLock) := by
  obtain ⟨hroom,hquiet⟩ := hok
  have hfresh : s.nextSection∉s.opened := fun hm => absurd (h.born _ hm) (lt_irrefl _)
  have hlen : (s.nextSection::s.opened).length=s.readers+1 := by simp [h.counted]
  obtain ⟨rest,hold,hnew⟩ := flatMap_set_perm stackSections ht
  obtain ⟨rest',hold',hnew'⟩ := flatMap_set_perm stackHeld ht
  refine ⟨?_,?_,?_,?_,?_,?_,?_,?_,h.kept.once,h.kept.grace,h.kept.waited,h.kept.barred⟩
  · exact (Nat.mod_eq_of_lt hroom).trans hlen.symm
  · exact hlen.trans_lt hroom
  · exact nodup_cons.mpr ⟨hfresh,h.single⟩
  · exact forall_mem_cons.mpr ⟨Nat.lt_succ_self _,fun n hn => (h.born n hn).trans (Nat.lt_succ_self _)⟩
  · exact ((h.owned.trans hold).cons s.nextSection).trans
      (hnew (.body (s.nextSection::secs)::fs)).symm
  · have hheld := (hnew' (.body (s.nextSection::secs)::fs)).trans hold'.symm
    exact ((hheld.append_left s.invoked).append_left _).trans h.records
  · refine forall_set ⟨by simp [drains],?_⟩ fun u g hu hg => ?_
    · refine (h.guarded t _ ht).2.change fun n hn => ?_
      rcases mem_cons.mp hn with rfl | hn
      · exact .inl (by simp [Frame.sections])
      · exact .inr ⟨hn,fun hm => by simp [Frame.sections] at hm ⊢; exact .inr hm⟩
    · have hl : u<s.threads.length := (List.getElem?_eq_some_iff.mp hg).1
      have hq := hquiet u hl hu
      rw [getD_eq_getElem?_getD,hg] at hq
      exact guarded_of_quiet hq
  · have hlater : ∀ f,FrameOk s f → FrameOk (threadStep s t (.body secs::fs) .readLock) f := by
      intro f hf
      refine hf.later (Nat.le_succ _) le_rfl fun n hn hlt => ?_
      rcases mem_cons.mp hn with rfl | hn
      · exact absurd hlt (lt_irrefl _)
      · exact hn
    refine forall_set (fun f hf => hlater f ?_) fun u g _ hg f hf => hlater f (h.frames u g hg f hf)
    exact h.above ht [.body _] (by simp [FrameOk]) f hf

theorem close_ok {n : Nat} {secs : List Nat} (ht : s.threads[t]?=some (.body (n::secs)::fs)) :
    RcuOk ({s with readers := s.readers-1,opened := s.opened.erase n}.setThread t
      (.body secs::fs)) := by
  obtain ⟨rest,hold,hnew⟩ := flatMap_set_perm stackSections ht
  obtain ⟨rest',hold',hnew'⟩ := flatMap_set_perm stackHeld ht
  have hperm : s.opened.Perm (n::(stackSections (.body secs::fs)++rest)) := h.owned.trans hold
  have hmem : n∈s.opened := hperm.symm.subset mem_cons_self
  have hne : ∀ m∈s.opened.erase n,m∈s.opened ∧ m≠n := fun m hm =>
    ⟨mem_of_mem_erase hm,fun he => h.single.not_mem_erase (he ▸ hm)⟩
  have hlen : (s.opened.erase n).length=s.readers-1 := by
    rw [length_erase_of_mem hmem,h.counted]
  have hlater : ∀ f,FrameOk s f →
      FrameOk ({s with readers := s.readers-1,opened := s.opened.erase n}.setThread t
        (.body secs::fs)) f :=
    fun f hf => hf.later le_rfl le_rfl fun m hm _ => (hne m hm).1
  refine ⟨hlen.symm,?_,h.single.erase n,fun m hm => h.born m (hne m hm).1,?_,?_,?_,?_,h.kept.once,
    h.kept.grace,h.kept.waited,h.kept.barred⟩
  · exact (length_erase_le).trans_lt h.few
  · have he : (s.opened.erase n).Perm (stackSections (.body secs::fs)++rest) := by
      simpa using hperm.erase n
    exact he.trans (hnew _).symm
  · have hheld := (hnew' (.body secs::fs)).trans hold'.symm
    exact ((hheld.append_left s.invoked).append_left _).trans h.records
  · refine forall_set ⟨by simp [drains],?_⟩ fun u g _ hg =>
      (h.guarded u g hg).change fun m hm => .inr ⟨(hne m hm).1,id⟩
    refine (h.guarded t _ ht).2.change fun m hm => .inr ⟨(hne m hm).1,fun hacc => ?_⟩
    have hor : m=n ∨ m∈secs := by simpa [Frame.sections] using hacc
    simpa [Frame.sections] using hor.resolve_left (hne m hm).2
  · refine forall_set (fun f hf => hlater f ?_) fun u g _ hg f hf => hlater f (h.frames u g hg f hf)
    exact h.above ht [.body _] (by simp [FrameOk]) f hf

theorem pop_ok {r : RcuRecord} {rs : List RcuRecord} (ht : s.threads[t]?=some (.loop::fs))
    (hq : s.callbacks=r::rs) : RcuOk ({s with callbacks := rs}.setThread t (.hold r::fs)) := by
  obtain ⟨rest,hold,hnew⟩ := flatMap_set_perm stackSections ht
  obtain ⟨rest',hold',hnew'⟩ := flatMap_set_perm stackHeld ht
  refine ⟨h.counted,h.few,h.single,h.born,h.owned.trans (hold.trans (hnew (.hold r::fs)).symm),
    ?_,?_,?_,h.kept.once,h.kept.grace,h.kept.waited,h.kept.barred⟩
  · have hrec := h.records
    rw [hq] at hrec
    have hset : ((s.threads.set t (.hold r::fs)).flatMap stackHeld).Perm
        (r.id::s.threads.flatMap stackHeld) := (hnew' _).trans (hold'.symm.cons r.id)
    have hmid : (rs.map RcuRecord.id++(s.invoked++r.id::s.threads.flatMap stackHeld)).Perm
        (r.id::(rs.map RcuRecord.id++(s.invoked++s.threads.flatMap stackHeld))) := by
      have h : ((rs.map RcuRecord.id++s.invoked)++r.id::s.threads.flatMap stackHeld).Perm
          (r.id::((rs.map RcuRecord.id++s.invoked)++s.threads.flatMap stackHeld)) := perm_middle
      simpa using h
    exact (((hset.append_left s.invoked).append_left _).trans hmid).trans hrec
  · have hguard : Guarded s.opened [] (.hold r::fs) := h.guarded t (.loop::fs) ht
    exact forall_set hguard fun u g _ hg => h.guarded u g hg
  · exact forall_set (h.above ht [.hold r] (by simp [FrameOk])) fun u g _ hg => h.frames u g hg

theorem invoke_ok {r : RcuRecord} (ht : s.threads[t]?=some (.hold r::fs)) :
    RcuOk (threadStep s t (.hold r::fs) .advance) := by
  have hnone : s.opened=[] :=
    eq_nil_iff_forall_not_mem.mpr fun n hn => by simpa using (h.guarded t _ ht).1 rfl n hn
  -- both continuations stand at the loop again, with neither a section nor a record of their own
  obtain ⟨fs',hfs',hsec,hheld,hguard,hsub⟩ : ∃ fs',
      (if r.frees then .loop::fs else .body []::.loop::fs)=fs' ∧
      stackSections fs'=stackSections (.hold r::fs) ∧ r.id::stackHeld fs'=stackHeld (.hold r::fs) ∧
      Guarded s.opened [] fs' ∧ ∀ f∈fs',f∈fs ∨ f=.loop ∨ f=.body [] := by
    cases r.frees with
    | true => exact ⟨.loop::fs,rfl,rfl,rfl,h.guarded t (.hold r::fs) ht,by simp +contextual⟩
    | false =>
      exact ⟨.body []::.loop::fs,rfl,rfl,rfl,⟨by simp [drains],h.guarded t (.hold r::fs) ht⟩,
        by simp +contextual⟩
  obtain ⟨rest,hold,hnew⟩ := flatMap_set_perm stackSections ht
  obtain ⟨rest',hold',hnew'⟩ := flatMap_set_perm stackHeld ht
  have hset : (r.id::(s.threads.set t fs').flatMap stackHeld).Perm
      (s.threads.flatMap stackHeld) := by
    rw [← hheld] at hold'
    exact ((hnew' fs').cons r.id).trans hold'.symm
  have hrec : (s.callbacks.map RcuRecord.id++(r.id::s.invoked++
      (s.threads.set t fs').flatMap stackHeld)).Perm (range s.nextRecord) := by
    have hmid : (r.id::s.invoked++(s.threads.set t fs').flatMap stackHeld).Perm
        (s.invoked++r.id::(s.threads.set t fs').flatMap stackHeld) := perm_middle.symm
    exact ((hmid.trans (hset.append_left s.invoked)).append_left _).trans h.records
  have honce : (r.id::s.invoked).Nodup :=
    (hrec.nodup_iff.mpr nodup_range).of_append_right.of_append_left
  have hlog := h.logs (e := .invoked r s.opened)
    (fun r' now he n _ hn => by cases he; simp [hnone] at hn) nofun nofun
  simp only [threadStep,hfs']
  refine ⟨h.counted,h.few,h.single,h.born,h.owned.trans (hold.trans (hsec ▸ (hnew fs').symm)),hrec,
    forall_set hguard fun u g _ hg => h.guarded u g hg,?_,honce,hlog.kept.grace,hlog.kept.waited,
    hlog.kept.barred⟩
  refine forall_set (fun f hf => ?_) fun u g _ hg => h.frames u g hg
  rcases hsub f hf with hf | rfl | rfl
  · exact h.frames t _ ht f (mem_cons_of_mem _ hf)
  · trivial
  · trivial

theorem RcuOk.all_invoked (hq : s.callbacks=[]) (hquiet : ∀ fs∈s.threads,(fs.any Frame.holds)=false) :
    ∀ n<s.nextRecord,n∈s.invoked := by
  intro n hn
  have hheld : s.threads.flatMap stackHeld=[] :=
    flatMap_eq_nil_iff.mpr fun fs hfs => stackHeld_of_quiet (hquiet fs hfs)
  have hrec := h.records
  rw [hq,hheld] at hrec
  exact (by simpa using hrec : s.invoked.Perm _).symm.subset (mem_range.mpr hn)

theorem RcuOk.calls {f : Frame} (ht : s.threads[t]?=some fs) (hs : f.sections=[]) (hh : f.held=[])
    (hd : f.drains=false) (hf : FrameOk s f) : RcuOk (s.setThread t (f::fs)) := by
  refine h.moves ht (by simp [stackSections,hs]) (by simp [stackHeld,hh]) ⟨by simp [hd],?_⟩ ?_
  · rw [hs]
    exact h.guarded t fs ht
  · exact forall_mem_cons.mpr ⟨hf,h.frames t fs ht⟩

theorem RcuOk.returns {f : Frame} (ht : s.threads[t]?=some (f::fs)) (hs : f.sections=[])
    (hh : f.held=[]) : RcuOk (s.setThread t fs) := by
  refine h.moves ht (by simp [stackSections,hs]) (by simp [stackHeld,hh]) ?_
    (h.above ht [] nofun)
  have hg := (h.guarded t _ ht).2
  rw [hs] at hg
  exact hg

theorem threadStep_ok (ht : s.threads[t]?=some fs) {m : RcuMove} (hok : Careful s (t,m)) :
    RcuOk (threadStep s t fs m) := by
  have hget : s.threads.getD t []=fs := by simp [ht]
  unfold threadStep
  split
  · exact readLock_ok h ht hok
  · next n secs fs =>
    have hclosed := close_ok h ht
    split
    · have ht' : ({s with readers := s.readers-1,opened := s.opened.erase n}.setThread t
          (.body secs::fs)).threads[t]?=some (.body secs::fs) := by
        simp [Rcu.setThread,(List.getElem?_eq_some_iff.mp ht).1]
      simpa [Rcu.setThread] using hclosed.calls (f := .check) ht' rfl rfl rfl trivial
    · exact hclosed
  · exact (h.enqueue false).calls ht rfl rfl rfl trivial
  · exact (h.enqueue true).calls ht rfl rfl rfl trivial
  · exact h.calls ht rfl rfl rfl h.born
  · exact h.calls ht rfl rfl rfl le_rfl
  · exact h.returns ht rfl rfl
  · split
    · exact h.returns ht rfl rfl
    next hr =>
    have hnone := h.opened_nil (not_not.mp hr)
    refine h.moves ht rfl rfl ⟨fun _ n hn => by simp [hnone] at hn,(h.guarded t _ ht).2⟩ ?_
    exact h.above ht [.loop] (by simp [FrameOk])
  · split
    · exact h.returns ht rfl rfl
    · next r rs hq => exact pop_ok h ht hq
  · next r fs => simpa only [threadStep] using invoke_ok h ht
  · next watched fs =>
    have hwatch : FrameOk s (.sync watched) := h.frames t _ ht _ mem_cons_self
    split
    · refine h.moves ht rfl rfl (h.guarded t _ ht) (h.frames t _ ht)
    next hr =>
    have hnone := h.opened_nil (not_not.mp hr)
    refine h.moves ht rfl rfl
      ⟨by simp [drains],by simp [drains],(h.guarded t _ ht).2⟩ ?_
    have hend : FrameOk s (.syncEnd watched) := fun n hn => ⟨hwatch n hn,by simp [hnone]⟩
    exact h.above ht [.check,.syncEnd watched] (by simpa [FrameOk] using hend)
  · next watched fs =>
    have hwatch : FrameOk s (.syncEnd watched) := h.frames t _ ht _ mem_cons_self
    have hlog := h.logs (e := .synchronized watched s.opened) nofun
      (fun w now he n hn => by cases he; exact (hwatch n hn).2) nofun
    exact hlog.returns ht rfl rfl
  · next before fs =>
    have hbefore : FrameOk s (.barrier before) := h.frames t _ ht _ mem_cons_self
    refine h.moves ht rfl rfl
      ⟨by simp [drains],by simp [drains],(h.guarded t _ ht).2⟩ ?_
    exact h.above ht [.sync s.opened,.barrierLook before] (by simpa [FrameOk] using ⟨h.born,hbefore⟩)
  · next before fs =>
    have hbefore : FrameOk s (.barrierLook before) := h.frames t _ ht _ mem_cons_self
    split
    · next hq =>
      have hquiet : ∀ fs∈s.threads,(fs.any holds)=false := by
        simpa only [Careful,hget] using hok
      have hlog := h.logs (e := .barred before s.invoked) nofun nofun
        fun b done he n hn => by cases he; exact h.all_invoked hq hquiet n (hn.trans_le hbefore)
      exact hlog.returns ht rfl rfl
    · refine h.moves ht rfl rfl ⟨by simp [drains],(h.guarded t _ ht).2⟩ ?_
      exact h.above ht [.barrier before] (by simpa [FrameOk] using hbefore)
  · exact h

end

theorem rcuStep_ok {s : Rcu} {a : Nat × RcuMove} (h : RcuOk s) (hok : Careful s a) :
    RcuOk (rcuStep s a) := by
  unfold rcuStep
  split
  · next fs ht => exact threadStep_ok h ht hok
  · exact h

theorem start_ok (threads : Nat) : RcuOk (startRcu threads) := by
  have hbody : ∀ (u : Nat) (fs : List Frame),(startRcu threads).threads[u]?=some fs →
      fs=[.body []] := by
    intro u fs hu
    exact eq_of_mem_replicate (mem_of_getElem? hu)
  refine ⟨rfl,Nat.two_pow_pos 32,nodup_nil,by simp [startRcu],?_,?_,?_,?_,nodup_nil,?_,?_,?_⟩
  · simp [startRcu,stackSections,Frame.sections]
  · simp [startRcu,stackHeld,Frame.held]
  · intro u fs hu
    rw [hbody u fs hu]
    simp [Guarded,drains]
  · intro u fs hu f hf
    rw [hbody u fs hu] at hf
    rw [mem_singleton.mp hf]
    trivial
  all_goals simp [startRcu]

/-- Grace periods are kept if sections open only while no other thread runs callbacks, and barrier
looks only while nobody holds one. -/
theorem grace_periods_kept (threads : Nat) (as : List (Nat × RcuMove))
    (h : Meets rcuStep Careful (startRcu threads) as) (n : Nat) :
    GraceKept (runAll rcuStep (startRcu threads) (as.take n)) := by
  have hstep : ∀ s a,RcuOk s → Careful s a → RcuOk (rcuStep s a) :=
    fun s a hs hok => rcuStep_ok hs hok
  exact (runAll_invariant hstep (start_ok threads) (h.take n)).kept

/-- A callback waits for the other thread's section and queues another one; both are waited for. -/
def graceful : List (Nat × RcuMove) :=
  [(0,.readLock),(1,.callRcu),(1,.advance),(1,.synchronizeRcu),(1,.advance),(0,.readUnlock),
    (0,.advance),(0,.advance),(0,.advance),(0,.readLock),(0,.callRcu),(0,.advance),(0,.readUnlock),
    (0,.advance),(0,.advance),(0,.advance),(0,.callbackReturns),(0,.advance),(0,.callbackReturns),
    (0,.advance),(1,.advance),(1,.advance),(1,.advance),(1,.advance),(1,.rcuBarrier),(1,.advance),
    (1,.advance),(1,.advance),(1,.advance),(1,.advance),(1,.advance)]

theorem grace_periods_kept_two_threads :
    Meets rcuStep Careful (startRcu 2) graceful ∧
      (runAll rcuStep (startRcu 2) (graceful.take 31)).invoked=[1,0] ∧
      .barred 2 [1,0]∈(runAll rcuStep (startRcu 2) (graceful.take 31)).events ∧
      GraceKept (runAll rcuStep (startRcu 2) (graceful.take 31)) :=
  ⟨by decide +kernel,by decide +kernel,by decide +kernel,
    grace_periods_kept 2 graceful (by decide +kernel) 31⟩

/-- A section opened after the only look holds back no callback queued in it; barrier returns before
a callback that is taken is invoked. -/
theorem late_reader_missed :
    ¬GraceKept (runAll rcuStep (startRcu 2)
      [(0,.callRcu),(0,.advance),(1,.readLock),(1,.callRcu),(1,.advance),(0,.advance),(0,.advance),
        (0,.callbackReturns),(0,.advance),(0,.advance)]) ∧
    ¬GraceKept (runAll rcuStep (startRcu 2)
      [(0,.callRcu),(0,.advance),(0,.advance),(1,.rcuBarrier),(1,.advance),(1,.advance),
        (1,.advance),(1,.advance),(1,.advance),(1,.advance)]) := by
  constructor
  · intro h
    exact h.grace ⟨1,[0],false⟩ [0] (by decide +kernel) 0 (by decide) (by decide)
  · intro h
    have := h.barred 1 [] (by decide +kernel) 0 (by decide)
    simp at this

/-- Where a callback can be: in the list, invoked, or with a thread that took it. -/
def callbackPlaces (s : Rcu) : List Nat :=
  s.callbacks.map RcuRecord.id++(s.invoked++s.threads.flatMap stackHeld)

theorem threadStep_places {s : Rcu} {t : Nat} {fs : List Frame} (ht : s.threads[t]?=some fs)
    (m : RcuMove) (h : (callbackPlaces s).Perm (range s.nextRecord)) :
    (callbackPlaces (threadStep s t fs m)).Perm (range (threadStep s t fs m).nextRecord) := by
  obtain ⟨rest,hold,hnew⟩ := flatMap_set_perm stackHeld ht
  have hs := ((hold.symm.append_left s.invoked).append_left _).trans h
  have moves : ∀ ids invoked fs',
      (ids++(invoked++(stackHeld fs'++rest))).Perm
        (s.callbacks.map RcuRecord.id++(s.invoked++(stackHeld fs++rest))) →
      (ids++(invoked++(s.threads.set t fs').flatMap stackHeld)).Perm (range s.nextRecord) :=
    fun ids invoked fs' hp => (((hnew fs').append_left invoked).append_left ids).trans (hp.trans hs)
  have stays : ∀ fs',stackHeld fs'=stackHeld fs →
      (callbackPlaces (s.setThread t fs')).Perm (range s.nextRecord) := fun fs' he =>
    moves _ _ fs' (he ▸ Perm.refl _)
  have queued : ∀ frees,(callbackPlaces ((rcuEnqueue s frees).setThread t (.check::fs))).Perm
      (range (s.nextRecord+1)) := by
    intro frees
    have hlast := (stays (.check::fs) rfl).append_right [s.nextRecord]
    rw [← range_succ] at hlast
    refine Perm.trans ?_ hlast
    simp only [callbackPlaces,rcuEnqueue,Rcu.setThread,map_append,append_assoc]
    rw [← append_assoc s.invoked]
    exact perm_append_comm.append_left _
  unfold threadStep
  split
  · exact stays _ rfl
  · exact stays _ (by split <;> rfl)
  · exact queued false
  · exact queued true
  · exact stays _ rfl
  · exact stays _ rfl
  · exact stays _ rfl
  · exact stays _ (by split <;> rfl)
  · next fs =>
    split
    · exact stays _ rfl
    · next r rs hq =>
      refine moves (rs.map RcuRecord.id) s.invoked (.hold r::fs) ?_
      rw [hq]
      simpa [stackHeld,Frame.held] using @perm_middle _ _ (rs.map RcuRecord.id++s.invoked) _
  · next r fs =>
    have hheld : stackHeld (if r.frees then .loop::fs else .body []::.loop::fs)=stackHeld fs := by
      split <;> rfl
    refine moves _ (r.id::s.invoked) _ (Perm.append_left _ ?_)
    rw [hheld]
    exact perm_middle.symm
  · exact stays _ (by split <;> rfl)
  · exact stays _ rfl
  · exact stays _ rfl
  · split <;> exact stays _ rfl
  · exact h

/-- However the threads interleave, each callback queued is in one place, and in no other. -/
theorem callbacks_conserved (threads : Nat) (as : List (Nat × RcuMove)) :
    let s := runAll rcuStep (startRcu threads) as
    (callbackPlaces s).Perm (range s.nextRecord) := by
  refine runAll_keeps (I := fun s => (callbackPlaces s).Perm (range s.nextRecord)) ?_ ?_
  · intro s a h
    unfold rcuStep
    split
    · next fs ht => exact threadStep_places ht a.2 h
    · exact h
  · exact (start_ok threads).records

end Kobox.Sync
