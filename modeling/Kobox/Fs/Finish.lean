import Kobox.Fs.Core
import Kobox.Fs.Transfer

namespace Kobox.Fs

open FsState

variable {δ : Type} {env : Env δ} {callback : Call → FsState δ → FsState δ}

def FsState.io (s : FsState δ) (disks : Nat → δ) (mem : Bytes) : FsState δ :=
  { s with disks := disks,mem := mem }

/-- Completion code: it sees only the core of a state, and leaves disks and memory alone. -/
structure Tidy (f : FsState δ → FsState δ) : Prop where
  sees : Sees f
  io : ∀ s disks mem,(f (s.io disks mem)).core=((f s).io disks mem).core

open Tidy

variable (s : FsState δ) {head bio : Nat}

theorem core_io {disks : Nat → δ} {mem : Bytes} : (s.io disks mem).core=s.core.io disks mem := rfl

theorem io_congr {s t : FsState δ} (h : s.core=t.core) {disks : Nat → δ} {mem : Bytes} :
    (s.io disks mem).core=(t.io disks mem).core := by
  rw [core_io,core_io,h]

theorem Tidy.comp {f g : FsState δ → FsState δ} (hg : Tidy g) (hf : Tidy f) :
    Tidy fun s => g (f s) := by
  refine ⟨hg.sees.comp hf.sees,fun s disks mem => ?_⟩
  exact (hg.sees.congr (hf.io s disks mem)).trans (hg.io (f s) disks mem)

theorem Tidy.of_hidden {f : FsState δ → FsState δ} (h : ∀ s,(f s).core=s.core) : Tidy f := by
  refine ⟨Blind.of_hidden core_core h,fun s disks mem => ?_⟩
  rw [h]
  exact io_congr (h s).symm

theorem Tidy.choose {α : Type} {f : FsState δ → FsState δ} {g : α → FsState δ → FsState δ}
    {h : FsState δ → α} (hf : ∀ s,f s=g (h s) s) (hcore : ∀ s,h s.core=h s)
    (hio : ∀ s disks mem,h (s.io disks mem)=h s) (hg : ∀ a,Tidy (g a)) : Tidy f := by
  obtain rfl := funext hf
  refine ⟨fun s => ?_,fun s disks mem => ?_⟩
  · rw [hcore]
    exact (hg (h s)).sees s
  · rw [hio]
    exact (hg (h s)).io s disks mem

theorem Tidy.ite {c : FsState δ → Prop} [DecidablePred c] {f g : FsState δ → FsState δ}
    (hcore : ∀ s,c s.core ↔ c s) (hio : ∀ s disks mem,c (s.io disks mem) ↔ c s) (hf : Tidy f)
    (hg : Tidy g) : Tidy fun s => if c s then f s else g s := by
  refine ⟨Blind.ite hcore hf.sees hg.sees,fun s disks mem => ?_⟩
  by_cases h : c s
  · rw [if_pos h,if_pos ((hio s disks mem).mpr h)]
    exact hf.io s disks mem
  · rw [if_neg h,if_neg fun he => h ((hio s disks mem).mp he)]
    exact hg.io s disks mem

@[simp] theorem core_note {e : Event} : (s.note e).core=s.core := rfl

theorem core_onHead {f : BufferHead → BufferHead}
    (hf : (f (s.heads head)).endIo=(s.heads head).endIo) : (s.onHead head f).core=s.core := by
  have hheads : ∀ h,((s.onHead head f).heads h).endIo=(s.heads h).endIo := by
    intro h
    by_cases he : h=head
    · subst he
      simpa [onHead] using hf
    · simp [onHead,he]
  simp only [core,hheads]
  rfl

theorem tidy_onBio {f : BioRecord → BioRecord}
    (hf : ∀ r : BioRecord,({ f { r with submitted := 0,queued := false } with
      submitted := 0,queued := false } : BioRecord)={ f r with submitted := 0,queued := false }) :
    Tidy fun s : FsState δ => s.onBio bio f :=
  ⟨fun s => core_onBio s hf,fun _ _ _ => rfl⟩

theorem setDirty_tidy {slot : Option Nat} {dirty : Bool} :
    Tidy (bufferCacheSetDirty slot dirty : FsState δ → FsState δ) := by
  cases slot with
  | none => exact of_hidden fun _ => rfl
  | some i =>
    exact ite (fun _ => Iff.rfl) (fun _ _ _ => Iff.rfl) (of_hidden fun _ => rfl)
      ⟨fun _ => rfl,fun _ _ _ => rfl⟩

variable {uptodate : Bool}

theorem endReadSync_hidden {s : FsState δ} : (endBufferReadSync head uptodate s).core=s.core := by
  rw [endBufferReadSync,core_note]
  exact core_onHead s rfl

theorem endWriteSync_core {s : FsState δ} : (endBufferWriteSync head uptodate s).core=
      (if uptodate then bufferCacheSetDirty (bufferCacheRecordForHead s head) false s
        else s).core := by
  obtain ⟨f,hf⟩ : ∃ f : BufferHead → BufferHead,f=fun h => { h with
      flags := { h.flags with
        uptodate := uptodate
        dirty := if uptodate then false else h.flags.dirty
        writeEio := !uptodate
        lock := false
        req := false } } := ⟨_,rfl⟩
  have hmid : ((s.onHead head f).note (.wrote head uptodate)).core=s.core := by
    rw [core_note,hf]
    exact core_onHead s rfl
  unfold endBufferWriteSync
  rw [core_onHead _ rfl,← hf]
  cases uptodate with
  | false => exact hmid
  | true =>
    simp only [if_true]
    exact (setDirty_tidy).sees.congr hmid

theorem recordForHead_congr {s t : FsState δ} (h : t.cache=s.cache) {head : Nat} :
    bufferCacheRecordForHead t head=bufferCacheRecordForHead s head := by
  unfold bufferCacheRecordForHead
  rw [h]

theorem endWriteSync_tidy : Tidy (endBufferWriteSync head uptodate : FsState δ → FsState δ) := by
  have hclean : Tidy fun s : FsState δ => if uptodate then
      bufferCacheSetDirty (bufferCacheRecordForHead s head) false s else s := by
    cases uptodate with
    | false => exact of_hidden fun _ => rfl
    | true =>
      simp only [if_true]
      exact choose (g := fun slot s => bufferCacheSetDirty slot false s) (fun _ => rfl)
        (fun _ => recordForHead_congr rfl)
        (fun _ _ _ => recordForHead_congr rfl)
        fun slot => setDirty_tidy
  refine ⟨fun s => ?_,fun s disks mem => ?_⟩
  · rw [endWriteSync_core,endWriteSync_core]
    exact hclean.sees s
  · rw [endWriteSync_core,hclean.io s disks mem]
    exact io_congr (endWriteSync_core).symm

variable (hq : ∀ call,Tidy (callback call))

include hq

theorem headComplete_tidy {head : Nat} {success : Bool} :
    Tidy (bufferHeadComplete callback head success) := by
  refine choose (h := fun s : FsState δ => (s.heads head).endIo) (g := fun endIo s =>
    endIo.casesOn (endBufferReadSync head success s) (endBufferReadSync head success s)
      (endBufferWriteSync head success s) fun c => callback (.head c head success) s)
    (fun s => ?_) (fun _ => rfl) (fun _ _ _ => rfl) ?_
  · unfold bufferHeadComplete
    cases (s.heads head).endIo <;> rfl
  intro endIo
  cases endIo with
  | none => exact of_hidden fun s => endReadSync_hidden
  | readSync => exact of_hidden fun s => endReadSync_hidden
  | writeSync => exact endWriteSync_tidy
  | module c => exact hq _

omit hq in
theorem core_unqueued : (s.onBio bio fun r => { r with queued := false }).core=s.core := by
  have hbios : ∀ b,({ (s.onBio bio fun r => { r with queued := false }).bios b with
      submitted := 0,queued := false } : BioRecord)=
      { s.bios b with submitted := 0,queued := false } := by
    intro b
    by_cases hb : b=bio
    · subst hb
      simp [onBio]
    · simp [onBio,hb]
  simp only [core,hbios]
  rfl

omit hq in
theorem bioQueueRemove_hidden (bio : Nat) (s : FsState δ) : (bioQueueRemove bio s).core=s.core := by
  unfold bioQueueRemove
  split
  · rfl
  · split
    · exact core_unqueued s
    · exact core_unqueued s

omit hq in
theorem bioPut_tidy : Tidy (bioPut bio : FsState δ → FsState δ) := by
  refine ite (fun _ => Iff.rfl) (fun _ _ _ => Iff.rfl) (of_hidden fun _ => rfl) ?_
  exact (tidy_onBio fun _ => rfl).comp (of_hidden (bioQueueRemove_hidden bio))

theorem bufferHeadBioEndIo_tidy {bio : Nat} : Tidy (bufferHeadBioEndIo callback bio) := by
  refine choose (h := fun s : FsState δ => ((s.bios bio).magic,(s.bios bio).bio.privateData,
    (s.bios bio).result=0 && (s.bios bio).bio.status=0)) (g := fun p s =>
      if !p.1 then s else bioPut bio (bufferHeadComplete callback p.2.1 p.2.2 s)) (fun _ => rfl)
    (fun _ => rfl) (fun _ _ _ => rfl) ?_
  intro p
  split
  · exact of_hidden fun _ => rfl
  · exact (bioPut_tidy).comp (headComplete_tidy hq)

theorem bioCallEndIo_tidy {bio : Nat} : Tidy (bioCallEndIo callback bio) := by
  have hmark : Tidy fun s : FsState δ => s.onBio bio fun r => { r with completed := true } :=
    tidy_onBio fun _ => rfl
  refine ite (fun _ => Iff.rfl) (fun _ _ _ => Iff.rfl) (of_hidden fun _ => rfl) ?_
  refine choose (h := fun s : FsState δ => (s.bios bio).bio.endIo) (g := fun endIo s =>
    let t := s.onBio bio fun r => { r with completed := true }
    endIo.casesOn t (bufferHeadBioEndIo callback bio t) fun c => callback (.bio c bio) t)
    (fun s => by cases (s.bios bio).bio.endIo <;> rfl) (fun _ => rfl) (fun _ _ _ => rfl) ?_
  intro endIo
  cases endIo with
  | none => exact hmark
  | bufferHead => exact (bufferHeadBioEndIo_tidy hq).comp hmark
  | module c => exact (hq _).comp hmark

theorem bioFinishRecord_tidy (bio : Nat) (status : Int) :
    Tidy (bioFinishRecord callback bio status) := by
  refine (bioCallEndIo_tidy hq).comp ?_
  refine comp (g := fun s : FsState δ => s.note (.done bio status)) (of_hidden fun _ => rfl) ?_
  exact tidy_onBio fun _ => rfl

end Kobox.Fs
