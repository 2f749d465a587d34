import Kobox.Fs.Finish
import Kobox.Fs.Patches

namespace Kobox.Fs

open List Function Prog

/-- A request that the single and the batch routines both let through. -/
structure Sound (d : BlockDevice) (r : IoRequest) : Prop where
  buffer : r.buffer≠0
  size : 0 < r.size
  offsetAligned : r.offset%512=0
  sizeAligned : r.size%512=0
  inDevice : r.offset+r.size≤d.sizeBytes

instance (d : BlockDevice) (r : IoRequest) : Decidable (Sound d r) :=
  decidable_of_iff (r.buffer≠0 ∧ 0 < r.size ∧ r.offset%512=0 ∧ r.size%512=0 ∧
    r.offset+r.size≤d.sizeBytes)
    ⟨fun ⟨h1,h2,h3,h4,h5⟩ => ⟨h1,h2,h3,h4,h5⟩,fun ⟨h1,h2,h3,h4,h5⟩ => ⟨h1,h2,h3,h4,h5⟩⟩

def sectorOf (d : BlockDevice) (r : IoRequest) : Nat := d.startSector+r.offset/512

variable {δ : Type} {env : Env δ} {d : BlockDevice} {r : IoRequest} {rs : List IoRequest}

def serialReads (env : Env δ) : δ → List (Nat × Nat) → List (List UInt8) × δ
  | st,[] => ([],st)
  | st,p::ps =>
    let q := env.reply st (.read p.1 p.2)
    let rest := serialReads env q.2 ps
    (q.1.data.getD 0 []::rest.1,rest.2)

def serialWrites (env : Env δ) (st : δ) (parts : List (Nat × List UInt8)) : δ :=
  parts.foldl (fun st p => (env.reply st (.write p.1 p.2)).2) st

def ServesRead (env : Env δ) (d : BlockDevice) (r : IoRequest) : Prop :=
  ∀ st,(env.reply st (.read (sectorOf d r) r.size)).1.status=0

/-- The disk serves the batch of these reads like the reads in their order. -/
def ServesReads (env : Env δ) (d : BlockDevice) (rs : List IoRequest) : Prop :=
  ∀ st parts,parts=rs.map (fun r => (sectorOf d r,r.size)) →
    (env.reply st (.readBatch parts)).1.status=0 ∧
    (∀ i,(env.reply st (.readBatch parts)).1.data.getD i []=(serialReads env st parts).1.getD i []) ∧
    (env.reply st (.readBatch parts)).2=(serialReads env st parts).2

/-- The disk serves these writes, and batches of them like the writes in their order. -/
structure ServesWrites (env : Env δ) (d : BlockDevice) (rs : List IoRequest) : Prop where
  one : ∀ r∈rs,∀ st data,data.length=r.size →
    (env.reply st (.write (sectorOf d r) data)).1.status=0
  batch : ∀ st parts,(parts.map fun p => (p.1,p.2.length)).Sublist
      (rs.map fun r => (sectorOf d r,r.size)) →
    (env.reply st (.writeBatch parts)).1.status=0 ∧
    (env.reply st (.writeBatch parts)).2=serialWrites env st parts

theorem ServesWrites.sub {qs : List IoRequest} (h : ServesWrites env d rs) (hsub : qs.Sublist rs) :
    ServesWrites env d qs :=
  ⟨fun r hr => h.one r (hsub.subset hr),fun st parts hp => h.batch st parts (hp.trans (hsub.map _))⟩

section

variable (h : Sound d r)

include h

theorem Sound.end_lt : r.offset+r.size<wordSize := h.inDevice.trans_lt d.inWord

theorem Sound.rangeValid : blockDeviceRangeValid d r.offset r.size=.ok () := by
  exact rangeValid_ok.mpr ⟨h.size,h.end_lt,h.inDevice⟩

theorem Sound.sector : ¬wordSize≤d.startSector+r.offset/512 := by
  have hs := d.sized
  have hb := d.bounded
  have hi := h.inDevice
  unfold sectorSize at hs
  omega

theorem batchSector_sound : batchSector d r=.ok (sectorOf d r) := by
  have hno : ¬(r.buffer=0 ∨ r.size=0 ∨ r.offset%512≠0 ∨ r.size%512≠0) := by
    have h1 := h.buffer
    have h2 := h.size
    have h3 := h.offsetAligned
    have h4 := h.sizeAligned
    omega
  rw [batchSector,if_neg hno,if_neg h.sector]
  rfl

end

theorem batchSectors_sound (h : ∀ r∈rs,Sound d r) :
    rs.mapM (batchSector d)=.ok (rs.map (sectorOf d)) := by
  induction rs with
  | nil => rfl
  | cons r rs ih =>
    rw [mapM_cons,batchSector_sound (h r mem_cons_self), ih fun q hq => h q (mem_cons_of_mem _ hq)]
    rfl

theorem batchValid_sound (h : ∀ r∈rs,Sound d r) : batchValid d rs=.ok () := by
  have hall : (rs.all fun r => r.buffer≠0 ∧ (blockDeviceRangeValid d r.offset r.size).isOk)=true := by
    rw [all_eq_true]
    intro r hr
    have hs := h r hr
    simp [hs.buffer,hs.rangeValid,Except.toBool]
  rw [batchValid,if_pos hall]

variable {s : FsState δ} {u : FsState δ}

theorem patches_run {d : BlockDevice} {f : FsState δ → IoRequest → FsState δ}
    {g : Bytes → IoRequest → Bytes} (hf : ∀ r,Updates fun s => f s r)
    (hg : ∀ m r,g m r=if u.bindingDevice=some d then (f { u with mem := m } r).mem else m)
    {rs : List IoRequest} :
    onActiveDevice d (fun s => rs.foldl f s) u=(.ok (),{ u with mem := rs.foldl g u.mem }) := by
  have hrun : ∀ m,(if u.bindingDevice=some d then rs.foldl f { u with mem := m }
      else { u with mem := m })={ u with mem := rs.foldl g m } := by
    induction rs with
    | nil => simp
    | cons r rs ih =>
      intro m
      rw [foldl_cons,foldl_cons,hg,← ih]
      split
      · obtain ⟨k,hk⟩ := (hf r).mem { u with mem := m }
        rw [hk]
      · rfl
  rw [onActiveDevice,modify_run,← hrun]

theorem overlays_run (d : BlockDevice) (rs : List IoRequest) (u : FsState δ) :
    onActiveDevice d (fun s => rs.foldl (fun s r =>
      overlayDirtyBufferCacheOnRead r.offset r.buffer r.size s) s) u=
      (.ok (),{ u with mem := rs.foldl (fun m r => readPatch u d r m) u.mem }) :=
  patches_run (fun _ => overlay_updates) (fun _ _ => rfl)

theorem overlay_run {d : BlockDevice} {r : IoRequest} :
    onActiveDevice d (overlayDirtyBufferCacheOnRead r.offset r.buffer r.size) u=
      (.ok (),{ u with mem := readPatch u d r u.mem }) := overlays_run d [r] u

theorem updates_run (d : BlockDevice) (rs : List IoRequest) (u : FsState δ) :
    onActiveDevice d (fun s => rs.foldl (fun s r =>
      updateBufferCacheFromWrite r.offset (.memory r.buffer) r.size s) s) u=
      (.ok (),{ u with mem := rs.foldl (fun m r => writePatch u d r m) u.mem }) :=
  patches_run (fun _ => update_updates) (fun _ _ => rfl)

theorem update_run {d : BlockDevice} {r : IoRequest} :
    onActiveDevice d (updateBufferCacheFromWrite r.offset (.memory r.buffer) r.size) u=
      (.ok (),{ u with mem := writePatch u d r u.mem }) := updates_run d [r] u

theorem ask_run {d : BlockDevice} {q : Request} {s : FsState δ} :
    ask env d q s=(.ok (env.reply (s.disks d.disk) q).1,
      { s with
        disks := update s.disks d.disk (env.reply (s.disks d.disk) q).2
        trace := s.trace++[.disk d q (env.reply (s.disks d.disk) q).1.status s.mem] }) := rfl

theorem checkStatus_zero {status : Int} (h : status=0) {s : FsState δ} :
    checkStatus status s=(.ok (),s) := by
  rw [checkStatus,if_pos h]
  rfl

/-- The disks after a request to the disk of a device, and after the reads or writes of a list. -/
def afterRead (env : Env δ) (d : BlockDevice) (disks : Nat → δ) (rs : List IoRequest) : Nat → δ :=
  Function.update disks d.disk
    (serialReads env (disks d.disk) (rs.map fun r => (sectorOf d r,r.size))).2

def afterWrite (env : Env δ) (d : BlockDevice) (disks : Nat → δ) (mem : Bytes)
    (rs : List IoRequest) : Nat → δ :=
  Function.update disks d.disk
    (serialWrites env (disks d.disk) (rs.map fun r => (sectorOf d r,requestData mem r)))

def readData (env : Env δ) (d : BlockDevice) (disks : Nat → δ) (rs : List IoRequest) :
    List (List UInt8) :=
  (serialReads env (disks d.disk) (rs.map fun r => (sectorOf d r,r.size))).1

def fillAll (m : Bytes) (ps : List (IoRequest × List UInt8)) : Bytes :=
  ps.foldl (fun m p => m.put p.1.buffer (p.2.take p.1.size)) m

theorem read_sound (hr : Sound d r) (hs : ServesRead env d r) (s : FsState δ) :
    (kbFsBlockDeviceRead env d r.offset r.buffer r.size s).1=.ok () ∧
    (kbFsBlockDeviceRead env d r.offset r.buffer r.size s).2.core=
      (s.io (afterRead env d s.disks [r]) (readPatch s d r
        (s.mem.put r.buffer (((readData env d s.disks [r]).getD 0 []).take r.size)))).core := by
  have hstatus := hs (s.disks d.disk)
  obtain ⟨u,hu⟩ : ∃ u : FsState δ,u={ s with
      disks := update s.disks d.disk (env.reply (s.disks d.disk) (.read (sectorOf d r) r.size)).2
      trace := s.trace++[.disk d (.read (sectorOf d r) r.size)
        (env.reply (s.disks d.disk) (.read (sectorOf d r) r.size)).1.status s.mem]
      mem := s.mem.put r.buffer
        ((env.reply (s.disks d.disk) (.read (sectorOf d r) r.size)).1.part 0 r.size) } := ⟨_,rfl⟩
  have hdisk : blockDiskRead env d r.offset r.buffer r.size s=(.ok (),u) := by
    rw [blockDiskRead,if_pos ⟨hr.offsetAligned,hr.sizeAligned⟩,if_neg hr.sector]
    rw [hu]
    exact checkStatus_zero hstatus
  have hrun : kbFsBlockDeviceRead env d r.offset r.buffer r.size s=
      (.ok (),{ u with mem := readPatch u d r u.mem }) := by
    rw [kbFsBlockDeviceRead,if_neg hr.buffer,hr.rangeValid]
    rw [bind_ok (ofExcept_run),bind_ok hdisk]
    exact overlay_run
  rw [hrun]
  refine ⟨rfl,?_⟩
  rw [readPatch_congr (s := s) (t := u) (by rw [hu]) (by rw [hu]) (by rw [hu]),hu]
  rfl

theorem serialReads_length (st : δ) {parts : List (Nat × Nat)} :
    (serialReads env st parts).1.length=parts.length := by
  induction parts generalizing st with
  | nil => rfl
  | cons p parts ih => simp [serialReads,ih]

theorem fillBuffers_run {reply : Reply} {i : Nat} (xs : List (List UInt8))
    (hdata : ∀ k,reply.data.getD (i+k) []=xs.getD k []) (hlen : xs.length=rs.length) (s : FsState δ) :
    fillBuffers reply i rs s=(.ok (),{ s with mem := fillAll s.mem (rs.zip xs) }) := by
  induction rs generalizing i xs s with
  | nil => rfl
  | cons r rs ih =>
    cases xs with
    | nil => cases hlen
    | cons x xs =>
      have hfirst : reply.part i r.size=x.take r.size := by
        have h0 := hdata 0
        rw [Nat.add_zero] at h0
        rw [Reply.part,h0]
        rfl
      have hrest : ∀ k,reply.data.getD (i+1+k) []=xs.getD k [] := by
        intro k
        have hk := hdata (k+1)
        rwa [← Nat.add_assoc,Nat.add_right_comm] at hk
      rw [fillBuffers,hfirst]
      exact ih xs hrest (by simpa using hlen) _

theorem batchCountValid_ok (h2 : 2 ≤ rs.length) (hmax : rs.length≤batchMax) :
    batchCountValid rs=.ok () := by
  rw [batchCountValid,if_neg (by omega)]

theorem deviceReadBatch_many (h : 2 ≤ rs.length) : kbFsBlockDeviceReadBatch env d rs=(do
      ofExcept (batchValid d rs)
      blockDiskReadBatch env d rs
      onActiveDevice d fun s => rs.foldl (fun s r =>
        overlayDirtyBufferCacheOnRead r.offset r.buffer r.size s) s) := by
  match rs,h with
  | _::_::_,_ => rfl

theorem deviceWriteBatch_many (h : 2 ≤ rs.length) : kbFsBlockDeviceWriteBatch env d rs=(do
      ofExcept (batchValid d rs)
      blockDiskWriteBatch env d rs
      onActiveDevice d fun s => rs.foldl (fun s r =>
        updateBufferCacheFromWrite r.offset (.memory r.buffer) r.size s) s) := by
  match rs,h with
  | _::_::_,_ => rfl

theorem readBatch_sound (hr : ∀ r∈rs,Sound d r) (hs : ServesReads env d rs) (h2 : 2 ≤ rs.length)
    (hmax : rs.length≤batchMax) (s : FsState δ) :
    (kbFsBlockDeviceReadBatch env d rs s).1=.ok () ∧
    (kbFsBlockDeviceReadBatch env d rs s).2.core=
      (s.io (afterRead env d s.disks rs) (rs.foldl (fun m r => readPatch s d r m)
        (fillAll s.mem (rs.zip (readData env d s.disks rs))))).core := by
  obtain ⟨parts,hparts⟩ : ∃ parts,rs.map (fun r => (sectorOf d r,r.size))=parts := ⟨_,rfl⟩
  obtain ⟨hstatus,hdata,hdisk⟩ := hs (s.disks d.disk) parts hparts.symm
  obtain ⟨u,hu⟩ : ∃ u : FsState δ,u={ (ask env d (.readBatch parts) s).2 with
      mem := fillAll s.mem (rs.zip (serialReads env (s.disks d.disk) parts).1) } := ⟨_,rfl⟩
  have hrun : blockDiskReadBatch env d rs s=(.ok (),u) := by
    rw [blockDiskReadBatch,batchCountValid_ok h2 hmax,batchSectors_sound hr]
    rw [bind_ok (ofExcept_run),bind_ok (ofExcept_run)]
    rw [zip_map',hparts,bind_ok (ask_run)]
    rw [bind_ok (fillBuffers_run (serialReads env (s.disks d.disk) parts).1
      (fun k => by rw [Nat.zero_add]; exact hdata k)
      (by rw [serialReads_length,← hparts,length_map]) _),hu]
    exact checkStatus_zero hstatus
  have hall : kbFsBlockDeviceReadBatch env d rs s=
      (.ok (),{ u with mem := rs.foldl (fun m r => readPatch u d r m) u.mem }) := by
    rw [deviceReadBatch_many h2,batchValid_sound hr]
    rw [bind_ok (ofExcept_run),bind_ok hrun]
    exact overlays_run d rs u
  have hpatch : ∀ r,readPatch u d r=readPatch s d r := by
    intro r
    rw [hu]
    exact readPatch_congr rfl rfl rfl
  rw [hall]
  refine ⟨rfl,?_⟩
  simp only [hpatch,afterRead,readData,hparts,← hdisk]
  rw [hu]
  rfl

theorem write_sound (hr : Sound d r) (hs : ServesWrites env d [r]) {s : FsState δ} :
    (kbFsBlockDeviceWrite env d r.offset r.buffer r.size s).1=.ok () ∧
    (kbFsBlockDeviceWrite env d r.offset r.buffer r.size s).2.core=
      (s.io (afterWrite env d s.disks s.mem [r]) (writePatch s d r s.mem)).core := by
  have hstatus := hs.one r mem_cons_self (s.disks d.disk) (requestData s.mem r)
    (Bytes.slice_length ..)
  obtain ⟨u,hu⟩ : ∃ u : FsState δ,u=
      (ask env d (.write (sectorOf d r) (requestData s.mem r)) s).2 := ⟨_,rfl⟩
  have hdisk : blockDiskWrite env d r.offset (requestData s.mem r) s=(.ok (),u) := by
    have hlen : (requestData s.mem r).length%512=0 := by
      rw [requestData,Bytes.slice_length]
      exact hr.sizeAligned
    rw [blockDiskWrite,if_pos ⟨hr.offsetAligned,hlen⟩,if_neg hr.sector]
    rw [hu]
    exact checkStatus_zero hstatus
  have hrun : kbFsBlockDeviceWrite env d r.offset r.buffer r.size s=
      (.ok (),{ u with mem := writePatch u d r u.mem }) := by
    rw [kbFsBlockDeviceWrite,if_neg hr.buffer,writeFrom,hr.rangeValid]
    rw [bind_ok (ofExcept_run),bind_ok (get_run)]
    rw [show (Source.memory r.buffer).bytes s.mem 0 r.size=requestData s.mem r from rfl,
      bind_ok hdisk]
    exact update_run
  have hpatch : writePatch u d r=writePatch s d r := by
    rw [hu]
    exact writePatch_congr rfl fun i => ⟨_,rfl⟩
  rw [hrun]
  refine ⟨rfl,?_⟩
  rw [hpatch,hu]
  rfl

theorem writeBatch_sound (hr : ∀ r∈rs,Sound d r) (hs : ServesWrites env d rs) (h1 : rs≠[])
    (hmax : rs.length≤batchMax) (s : FsState δ) :
    (kbFsBlockDeviceWriteBatch env d rs s).1=.ok () ∧
    (kbFsBlockDeviceWriteBatch env d rs s).2.core=(s.io (afterWrite env d s.disks s.mem rs)
        (rs.foldl (fun m r => writePatch s d r m) s.mem)).core := by
  by_cases h2 : 2 ≤ rs.length
  · obtain ⟨parts,hparts⟩ :
        ∃ parts,rs.map (fun r => (sectorOf d r,requestData s.mem r))=parts := ⟨_,rfl⟩
    have hsizes : parts.map (fun p => (p.1,p.2.length))=rs.map fun r => (sectorOf d r,r.size) := by
      simp [← hparts,requestData,Bytes.slice_length]
    obtain ⟨hstatus,hdisk⟩ := hs.batch (s.disks d.disk) parts (hsizes ▸ .refl _)
    obtain ⟨u,hu⟩ : ∃ u : FsState δ,u=(ask env d (.writeBatch parts) s).2 := ⟨_,rfl⟩
    have hrun : blockDiskWriteBatch env d rs s=(.ok (),u) := by
      rw [blockDiskWriteBatch,batchCountValid_ok h2 hmax,batchSectors_sound hr]
      rw [bind_ok (ofExcept_run),bind_ok (ofExcept_run)]
      rw [bind_ok (get_run),zip_map',hparts,hu]
      exact checkStatus_zero hstatus
    have hall : kbFsBlockDeviceWriteBatch env d rs s=
        (.ok (),{ u with mem := rs.foldl (fun m r => writePatch u d r m) u.mem }) := by
      rw [deviceWriteBatch_many h2,batchValid_sound hr]
      rw [bind_ok (ofExcept_run),bind_ok hrun]
      exact updates_run d rs u
    have hpatch : ∀ r,writePatch u d r=writePatch s d r := by
      intro r
      rw [hu]
      exact writePatch_congr rfl fun i => ⟨_,rfl⟩
    rw [hall]
    refine ⟨rfl,?_⟩
    simp only [hpatch,afterWrite,hparts,← hdisk]
    rw [hu]
    rfl
  · rcases rs with _|⟨r,_|_⟩
    · exact absurd rfl h1
    · exact write_sound (hr r mem_cons_self) hs
    · exact absurd (by simp) h2

/-- Disks and memory after one read, and after the writes of one bio. -/
def readEffect (env : Env δ) (s : FsState δ) (d : BlockDevice) (p : (Nat → δ) × Bytes)
    (r : IoRequest) : (Nat → δ) × Bytes :=
  (afterRead env d p.1 [r],
    readPatch s d r (p.2.put r.buffer (((readData env d p.1 [r]).getD 0 []).take r.size)))

def writeEffect (env : Env δ) (s : FsState δ) (d : BlockDevice) (p : (Nat → δ) × Bytes)
    (g : List IoRequest) : (Nat → δ) × Bytes :=
  (afterWrite env d p.1 p.2 g,g.foldl (fun m r => writePatch s d r m) p.2)

variable {disks : Nat → δ}

theorem afterRead_cons {r : IoRequest} {rs : List IoRequest} :
    afterRead env d disks (r::rs)=afterRead env d (afterRead env d disks [r]) rs := by
  simp [afterRead,serialReads]

theorem readData_cons {r : IoRequest} {rs : List IoRequest} :
    readData env d disks (r::rs)=(readData env d disks [r]).getD 0 []::
      readData env d (afterRead env d disks [r]) rs := by
  simp [readData,afterRead,serialReads]

theorem fillAll_readPatch {ps : List (IoRequest × List UInt8)}
    (happart : ∀ p∈ps,p.1.span.Apart r.span)
    (hclear : s.bindingDevice=some d → ∀ p∈ps,∀ i<bufferCacheMax,(s.cache i).dirty=true →
      p.1.span.Apart (s.cache i).span) (m : Bytes) :
    fillAll (readPatch s d r m) ps=readPatch s d r (fillAll m ps) := by
  induction ps generalizing m with
  | nil => rfl
  | cons p ps ih =>
    have hwithin : Span.Within ⟨p.1.buffer,(p.2.take p.1.size).length⟩ p.1.span := by
      simp only [Span.Within,Span.stop,IoRequest.span,length_take]
      omega
    have hput : readPatch s d r (m.put p.1.buffer (p.2.take p.1.size))=
        (readPatch s d r m).put p.1.buffer (p.2.take p.1.size) := by
      apply readPatch_put ((happart p mem_cons_self).within hwithin)
      exact fun hd i hi hdirty => (hclear hd p mem_cons_self i hi hdirty).within hwithin
    have hrest := ih (fun q hq => happart q (mem_cons_of_mem _ hq))
      (fun hd q hq => hclear hd q (mem_cons_of_mem _ hq)) (m.put p.1.buffer (p.2.take p.1.size))
    rw [hput] at hrest
    exact hrest

theorem reads_merge (happart : rs.Pairwise fun a b => a.span.Apart b.span)
    (hclear : s.bindingDevice=some d → ∀ r∈rs,∀ i<bufferCacheMax,(s.cache i).dirty=true →
      r.span.Apart (s.cache i).span) (p : (Nat → δ) × Bytes) :
    rs.foldl (readEffect env s d) p=(afterRead env d p.1 rs,
      rs.foldl (fun m r => readPatch s d r m) (fillAll p.2 (rs.zip (readData env d p.1 rs)))) := by
  induction rs generalizing p with
  | nil => simp [afterRead,serialReads,fillAll]
  | cons r rs ih =>
    obtain ⟨hfirst,hrest⟩ := pairwise_cons.mp happart
    rw [foldl_cons,ih hrest fun hd q hq => hclear hd q (mem_cons_of_mem _ hq)]
    rw [afterRead_cons,readData_cons,zip_cons_cons,foldl_cons]
    rw [show fillAll p.2 ((r,(readData env d p.1 [r]).getD 0 [])::
        rs.zip (readData env d (afterRead env d p.1 [r]) rs))=
        fillAll (p.2.put r.buffer (((readData env d p.1 [r]).getD 0 []).take r.size))
          (rs.zip (readData env d (afterRead env d p.1 [r]) rs)) from rfl]
    rw [← fillAll_readPatch]
    · rfl
    · intro q hq
      exact (hfirst q.1 (of_mem_zip hq).1).symm
    · intro hd q hq
      exact hclear hd q.1 (mem_cons_of_mem _ (of_mem_zip hq).1)

theorem writePatch_data {q : IoRequest} {m : Bytes}
    (h : s.bindingDevice=some d → ∀ i<bufferCacheMax,∀ p,(s.cache i).patched r=some p →
      p.Apart q.span) : requestData (writePatch s d r m) q=requestData m q := by
  apply map_congr_left
  intro k hk
  apply writePatch_outside
  intro hd i hi p hp
  have hpq := h hd i hi p hp
  have hlt := mem_range.mp hk
  simp only [Span.Apart,Span.stop,IoRequest.span] at hpq ⊢
  omega

theorem writePatches_data {g : List IoRequest} {q : IoRequest} (m : Bytes)
    (h : s.bindingDevice=some d → ∀ r∈g,∀ i<bufferCacheMax,∀ p,(s.cache i).patched r=some p →
      p.Apart q.span) :
    requestData (g.foldl (fun m r => writePatch s d r m) m) q=requestData m q := by
  induction g generalizing m with
  | nil => rfl
  | cons r g ih =>
    rw [foldl_cons,ih _ fun hd a ha => h hd a (mem_cons_of_mem _ ha)]
    exact writePatch_data fun hd => h hd r mem_cons_self

theorem afterWrite_append {m m' : Bytes} {g : List IoRequest}
    (h : ∀ r∈rs,requestData m' r=requestData m r) :
    afterWrite env d (afterWrite env d disks m g) m' rs=afterWrite env d disks m (g++rs) := by
  have hmap : rs.map (fun r => (sectorOf d r,requestData m' r))=
      rs.map fun r => (sectorOf d r,requestData m r) := by
    apply map_congr_left
    intro r hr
    rw [h r hr]
  simp [afterWrite,serialWrites,hmap]

theorem writes_merge {gs : List (List IoRequest)}
    (hclear : s.bindingDevice=some d → gs.flatten.Pairwise fun a b => ∀ i<bufferCacheMax,
      ∀ p,(s.cache i).patched a=some p → p.Apart b.span) (p : (Nat → δ) × Bytes) :
    gs.foldl (writeEffect env s d) p=writeEffect env s d p gs.flatten := by
  induction gs generalizing p with
  | nil => simp [writeEffect,afterWrite,serialWrites]
  | cons g gs ih =>
    have hsplit := fun hd => pairwise_append.mp (hclear hd)
    have hdata : ∀ r∈gs.flatten,
        requestData (g.foldl (fun m r => writePatch s d r m) p.2) r=requestData p.2 r := by
      intro r hr
      apply writePatches_data
      intro hd a ha
      exact (hsplit hd).2.2 a ha r hr
    rw [foldl_cons,ih fun hd => (hsplit hd).2.1,flatten_cons]
    simp only [writeEffect,foldl_append]
    rw [afterWrite_append hdata]

end Kobox.Fs
