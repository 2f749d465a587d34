import Kobox.Framework.Run
import Kobox.Fs.DirectIo

namespace Kobox.Fs

/-- What a loaded module can do, at top level or out of a callback; the first ones are its own
stores. -/
inductive Cmd
  | store (address : Nat) (bytes : List UInt8)
  | setBio (bio : Nat) (fields : Bio)
  | setHead (head : Nat) (fields : BufferHead)
  | setIter (iter : Nat) (fields : Iter)
  | setMountDevice (device : Option BlockDevice)
  | bindBdev (bdev : Nat)
  | allocPages (order : Nat)
  | freePages (page order : Nat)
  | bioAlloc (bdev nrVecs opf : Nat)
  | bioAddPage (bio page len offset : Nat)
  | submitBio (bio : Nat)
  | bioEndio (bio : Nat)
  | bioPut (bio : Nat)
  | startPlug
  | finishPlug
  | setAutoDrain (enabled : Bool)
  | drain
  | submitBh (opf head : Nat)
  | bhRead (head opFlags : Nat) (wait : Bool)
  | lockBuffer (head : Nat)
  | unlockBuffer (head : Nat)
  | waitOnBuffer (head : Nat)
  | writeDirtyBuffer (head opFlags : Nat)
  | syncDirtyBuffer (head : Nat)
  | markBufferDirty (head : Nat)
  | bufferHeadPut (head : Nat)
  | bforget (head : Nat)
  | flushDirtyBuffers
  | findGetBlock (bdev blockNumber blockSize : Nat)
  | bdevGetblk (bdev blockNumber blockSize : Nat)
  | bread (bdev blockNumber blockSize : Nat)
  | invalidateBdev (bdev : Nat)
  | setBlocksize (bdev size : Nat)
  | read (device : BlockDevice) (offset buffer size : Nat)
  | readBatch (device : BlockDevice) (requests : List IoRequest)
  | write (device : BlockDevice) (offset buffer size : Nat)
  | writeBatch (device : BlockDevice) (requests : List IoRequest)
  | issueFlush (bdev : Nat)
  | issueZeroout (bdev sector sectorCount : Nat) (noFallback : Bool)
  | dioTransfer (address mapOffset bdev position length iter : Nat) (write fua : Bool)

variable {δ : Type} (env : Env δ) (callback : Call → FsState δ → FsState δ) (fuel : Nat)

def exec (s : FsState δ) : Cmd → FsState δ
  | .store address bytes => { s with mem := s.mem.put address bytes }
  | .setBio bio fields => s.onBio bio fun r => { r with bio := fields }
  | .setHead head fields => s.onHead head fun _ => fields
  | .setIter iter fields => s.onIter iter fun _ => fields
  | .setMountDevice device => { s with mountDevice := device }
  | .bindBdev bdev => { s with bindingBdev := bdev,bindingDevice := s.mountDevice }
  | .allocPages order => (allocPages env order s).2
  | .freePages page order => freePages env page order s
  | .bioAlloc bdev nrVecs opf => (bioAllocBioset env bdev nrVecs opf s).2
  | .bioAddPage bio page len offset => (bioAddPage env bio page len offset s).2
  | .submitBio bio => kbFsSubsystemSubmitBio env callback fuel bio s
  | .bioEndio bio => if (s.bios bio).magic then bioCallEndIo callback bio s else s
  | .bioPut bio => bioPut bio s
  | .startPlug => kbFsSubsystemBlkStartPlug s
  | .finishPlug => kbFsSubsystemBlkFinishPlug env callback fuel s
  | .setAutoDrain enabled => { s with autoDrain := enabled }
  | .drain => (kbFsSubsystemBioDrain env callback fuel s).2
  | .submitBh opf head => submitBh env callback fuel opf head s
  | .bhRead head opFlags wait => (bhRead env callback fuel head opFlags wait s).2
  | .lockBuffer head => lockBuffer env callback fuel head s
  | .unlockBuffer head => setLock head false s
  | .waitOnBuffer head => waitOnBuffer env callback fuel head s
  | .writeDirtyBuffer head opFlags => writeDirtyBuffer env callback fuel head opFlags s
  | .syncDirtyBuffer head => (syncDirtyBuffer env callback fuel head s).2
  | .markBufferDirty head => markBufferDirty head s
  | .bufferHeadPut head => bufferHeadPut head s
  | .bforget head => bforget head s
  | .flushDirtyBuffers => (flushDirtyBuffers env callback fuel s).2
  | .findGetBlock bdev blockNumber blockSize => (findGetBlock env bdev blockNumber blockSize s).2
  | .bdevGetblk bdev blockNumber blockSize => (bdevGetblk env bdev blockNumber blockSize s).2
  | .bread bdev blockNumber blockSize =>
    (breadGfp env callback fuel bdev blockNumber blockSize s).2
  | .invalidateBdev bdev => invalidateBdev env bdev s
  | .setBlocksize bdev size => (setBlocksize env callback fuel bdev size s).2
  | .read d offset buffer size => (kbFsBlockDeviceRead env d offset buffer size s).2
  | .readBatch d requests => (kbFsBlockDeviceReadBatch env d requests s).2
  | .write d offset buffer size => (kbFsBlockDeviceWrite env d offset buffer size s).2
  | .writeBatch d requests => (kbFsBlockDeviceWriteBatch env d requests s).2
  | .issueFlush bdev => (kbFsSubsystemIssueFlush env bdev s).2
  | .issueZeroout bdev sector sectorCount noFallback =>
    (kbFsSubsystemIssueZeroout env bdev sector sectorCount noFallback s).2
  | .dioTransfer address mapOffset bdev position length iter write fua =>
    (kbFsIomapDioTransfer env callback fuel address mapOffset bdev position length iter write fua
      s).2

/-- Callbacks of a module that does `calls`, nested to a depth; past it they do not return. -/
def moduleCallback (calls : FsState δ → Call → List Cmd) : Nat → Call → FsState δ → FsState δ
  | 0,_,s => { s with hung := true }
  | depth+1,c,s => runAll (exec env (moduleCallback calls depth) fuel) s (calls s c)

end Kobox.Fs
