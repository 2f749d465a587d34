import Kobox.Fs.BlockDevice
import Kobox.Framework.Span

namespace Kobox.Fs

open List Bytes

variable {δ : Type} {s t : FsState δ} {d : BlockDevice} {r : IoRequest}

/-- What a read leaves in memory: dirty blocks of the cache over the bytes of the disk. -/
def readPatch (s : FsState δ) (d : BlockDevice) (r : IoRequest) (m : Bytes) : Bytes :=
  if s.bindingDevice=some d then
    (overlayDirtyBufferCacheOnRead r.offset r.buffer r.size { s with mem := m }).mem
  else m

/-- What a write to the device leaves in memory: the blocks of the cache that it touches. -/
def writePatch (s : FsState δ) (d : BlockDevice) (r : IoRequest) (m : Bytes) : Bytes :=
  if s.bindingDevice=some d then
    (updateBufferCacheFromWrite r.offset (.memory r.buffer) r.size { s with mem := m }).mem
  else m

/-- The memory of a request, and of a block in the cache. -/
def IoRequest.span (r : IoRequest) : Span := ⟨r.buffer,r.size⟩

def CacheRecord.span (c : CacheRecord) : Span := ⟨c.data,c.blockSize⟩

/-- The part of a block's memory that a write to the device changes. -/
def CacheRecord.patched (c : CacheRecord) (r : IoRequest) : Option Span :=
  (c.overlap r.offset (r.offset+r.size)).map fun p => ⟨c.data+(p.2.1-p.1),p.2.2-p.2.1⟩

variable {c : CacheRecord}

theorem overlap_some {offset stop start lo hi : Nat} (h : c.overlap offset stop=some (start,lo,hi)) :
    start=c.blockNumber*c.blockSize ∧ lo=max offset start ∧ hi=min stop (start+c.blockSize) ∧
      start<stop ∧ offset<start+c.blockSize := by
  simp only [CacheRecord.overlap] at h
  split_ifs at h with h1 h2 h3
  obtain ⟨rfl,rfl,rfl⟩ := h
  simp only [not_or,not_le] at h3
  exact ⟨rfl,rfl,rfl,h3.1,h3.2⟩

def overlaySlot (r : IoRequest) (c : CacheRecord) (m : Bytes) : Bytes :=
  match c.overlap r.offset (r.offset+r.size) with
  | some (start,lo,hi) =>
    if c.dirty then m.copy (r.buffer+(lo-r.offset)) (hi-lo) m (c.data+(lo-start)) else m
  | none => m

def updateSlot (r : IoRequest) (c : CacheRecord) (m : Bytes) : Bytes :=
  match c.overlap r.offset (r.offset+r.size) with
  | some (start,lo,hi) => m.put (c.data+(lo-start)) (m.slice (r.buffer+(lo-r.offset)) (hi-lo))
  | none => m

variable {m : Bytes}

theorem readPatch_eq {s : FsState δ} {d : BlockDevice} {r : IoRequest} :
    readPatch s d r m=if s.bindingDevice=some d then
      if r.buffer=0 ∨ r.size=0 ∨ s.dirtyCount=0 ∨ wordSize ≤ r.offset+r.size then m
      else (range bufferCacheMax).foldl (fun m i => overlaySlot r (s.cache i) m) m
    else m := by
  simp only [readPatch,overlayDirtyBufferCacheOnRead]
  split
  · split
    · rfl
    · apply foldl_ext
      intro m i _
      rfl
  · rfl

theorem writePatch_eq {s : FsState δ} {d : BlockDevice} {r : IoRequest} :
    writePatch s d r m=if s.bindingDevice=some d then
      if r.size=0 ∨ wordSize ≤ r.offset+r.size then m
      else (range bufferCacheMax).foldl (fun m i => updateSlot r (s.cache i) m) m
    else m := by
  simp only [writePatch,updateBufferCacheFromWrite]
  split
  · split
    · rfl
    · apply foldl_ext
      intro m i _
      rfl
  · rfl

theorem readPatch_congr (hb : t.bindingDevice=s.bindingDevice) (hc : t.cache=s.cache)
    (hd : t.dirtyCount=s.dirtyCount) : readPatch t d r=readPatch s d r := by
  funext m
  rw [readPatch_eq,readPatch_eq,hb,hc,hd]

theorem writePatch_congr (hb : t.bindingDevice=s.bindingDevice)
    (hc : ∀ i,∃ dirty,t.cache i={ s.cache i with dirty := dirty }) :
    writePatch t d r=writePatch s d r := by
  have hslot : ∀ i m,updateSlot r (t.cache i) m=updateSlot r (s.cache i) m := by
    intro i m
    obtain ⟨dirty,hi⟩ := hc i
    rw [hi]
    rfl
  funext m
  simp [writePatch_eq,hb,hslot]

variable {off : Nat} {xs : List UInt8}

theorem copy_put {dst len src : Nat} (hdst : Span.Apart ⟨off,xs.length⟩ ⟨dst,len⟩)
    (hsrc : Span.Apart ⟨off,xs.length⟩ ⟨src,len⟩) :
    (m.put off xs).copy dst len (m.put off xs) src=(m.copy dst len m src).put off xs := by
  simp only [Span.Apart,Span.stop] at hdst hsrc
  funext a
  by_cases ha : dst≤a ∧ a<dst+len
  · have hout : a<off ∨ off+xs.length≤a := by omega
    rw [put_outside _ _ _ _ hout]
    simp only [copy,if_pos ha]
    exact put_outside m off xs _ (by omega)
  · simp only [copy,if_neg ha,put]

theorem overlaySlot_put (hbuffer : Span.Apart ⟨off,xs.length⟩ r.span)
    (hblock : c.dirty=true → Span.Apart ⟨off,xs.length⟩ c.span) :
    overlaySlot r c (m.put off xs)=(overlaySlot r c m).put off xs := by
  unfold overlaySlot
  cases ho : c.overlap r.offset (r.offset+r.size) with
  | none => rfl
  | some p =>
    obtain ⟨-,hlo,hhi,hstart,hstop⟩ := overlap_some ho
    dsimp only
    split
    · next hd =>
      have hbl := hblock hd
      simp only [Span.Apart,Span.stop,IoRequest.span,CacheRecord.span] at hbuffer hbl
      apply copy_put
      · simp only [Span.Apart,Span.stop]
        omega
      · simp only [Span.Apart,Span.stop]
        omega
    · rfl

theorem foldl_put {f : Bytes → Nat → Bytes} {is : List Nat}
    (hf : ∀ i∈is,∀ m : Bytes,f (m.put off xs) i=(f m i).put off xs) (m : Bytes) :
    is.foldl f (m.put off xs)=(is.foldl f m).put off xs := by
  induction is generalizing m with
  | nil => rfl
  | cons i is ih =>
    rw [foldl_cons,hf i mem_cons_self m]
    exact ih (fun j hj => hf j (mem_cons_of_mem _ hj)) (f m i)

theorem readPatch_put (hbuffer : Span.Apart ⟨off,xs.length⟩ r.span)
    (hblocks : s.bindingDevice=some d → ∀ i<bufferCacheMax,(s.cache i).dirty=true →
      Span.Apart ⟨off,xs.length⟩ (s.cache i).span) (m : Bytes) :
    readPatch s d r (m.put off xs)=(readPatch s d r m).put off xs := by
  rw [readPatch_eq,readPatch_eq]
  split
  · next hd =>
    split
    · rfl
    · apply foldl_put
      intro i hi m
      exact overlaySlot_put hbuffer (hblocks hd i (mem_range.mp hi))
  · rfl

theorem updateSlot_outside {a : Nat} (h : ∀ p,c.patched r=some p → a<p.start ∨ p.stop≤a) :
    updateSlot r c m a=m a := by
  unfold updateSlot
  cases ho : c.overlap r.offset (r.offset+r.size) with
  | none => rfl
  | some p =>
    have hp := h ⟨c.data+(p.2.1-p.1),p.2.2-p.2.1⟩ (by rw [CacheRecord.patched,ho]; rfl)
    apply put_outside
    rw [slice_length]
    exact hp

theorem writePatch_outside {a : Nat} (m : Bytes) (h : s.bindingDevice=some d →
      ∀ i<bufferCacheMax,∀ p,(s.cache i).patched r=some p → a<p.start ∨ p.stop≤a) :
    writePatch s d r m a=m a := by
  rw [writePatch_eq]
  split
  · next hd =>
    split
    · rfl
    have hfold : ∀ is : List Nat,(∀ i∈is,i<bufferCacheMax) → ∀ m : Bytes,
        is.foldl (fun m i => updateSlot r (s.cache i) m) m a=m a := by
      intro is
      induction is with
      | nil => exact fun _ _ => rfl
      | cons i is ih =>
        intro hlt m
        rw [foldl_cons,ih (fun j hj => hlt j (mem_cons_of_mem _ hj))]
        exact updateSlot_outside (h hd i (hlt i mem_cons_self))
    exact hfold _ (fun i hi => mem_range.mp hi) m
  · rfl

end Kobox.Fs
