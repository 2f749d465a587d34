import Kobox.PageCache.State

namespace Kobox.PageCache

open Fs (pageSize einval eopnotsupp)

def efault : Int := -14

def readBatchMax : Nat := 128

/-- The page cache, `read_folio`, the readahead passes, how much of a chunk the iterator takes. -/
structure FileEnv where
  page : PageEnv
  readFolio : Nat → Option (Nat → PageState → Int × PageState)
  syncRa : Nat → Nat → Nat → PageState → PageState
  asyncRa : Nat → Nat → Nat → Nat → PageState → PageState
  copyToIter : Nat → Nat → Nat

/-- A folio or an error, and the UPTODATE flag behind a callback that the folio came from. -/
structure PageRead where
  result : Except Int Nat
  state : PageState
  answer : Option Bool

section

variable (env : FileEnv) (mapping index : Nat)

def uptodate (s : PageState) (folio : Nat) : Bool := (s.folios folio).flags.uptodate

/-- `read_folio` of a folio that is not up to date: only a negative status counts as failure. -/
def fillFolio (folio : Nat) (s : PageState) : PageRead :=
  match env.readFolio mapping with
  | none => ⟨.error eopnotsupp,folioPut env.page folio s,none⟩
  | some op =>
    let w := op folio (s.onFolio folio fun f => { f with flags := { f.flags with locked := true } })
    if w.1<0 then ⟨.error w.1,folioPut env.page folio (folioUnlock folio w.2),none⟩
    else ⟨.ok folio,w.2,some (uptodate w.2 folio)⟩

def readCacheFolio (s : PageState) : PageRead :=
  if mapping=0 then ⟨.error einval,s,none⟩
  else
    match filemapGetFolio env.page mapping index 4 0 s with
    | (.error e,t) => ⟨.error e,t,none⟩
    | (.ok folio,t) => if uptodate t folio then ⟨.ok folio,t,none⟩ else fillFolio env mapping folio t

def requestedPages (pageOffset remaining : Nat) : Nat :=
  let tail := remaining%pageSize
  let pages := remaining/pageSize+(if tail≠0 ∨ pageOffset≠0 then 1 else 0)+
    (if pageOffset≠0 ∧ tail≠0 ∧ pageSize<pageOffset+tail then 1 else 0)
  min (max pages 1) readBatchMax

/-- A folio that is in the cache: its flags are read before a readahead pass that it starts. -/
def cachedFolio (folio requested : Nat) (s : PageState) : PageRead :=
  let ahead := (s.folios folio).flags.readahead
  let t := if ahead then env.asyncRa mapping index folio requested s else s
  if uptodate s folio then ⟨.ok folio,t,if ahead then some (uptodate t folio) else none⟩
  else readCacheFolio env mapping index (folioPut env.page folio t)

def filemapReadCacheFolio (pageOffset remaining : Nat) (s : PageState) : PageRead :=
  let requested := requestedPages pageOffset remaining
  match filemapGetFolio env.page mapping index 0 0 s with
  | (.ok folio,t) => cachedFolio env mapping index folio requested t
  | (.error e,t) =>
    if e≠enoent then ⟨.error e,t,none⟩
    else readCacheFolio env mapping index (env.syncRa mapping index requested t)

end

/-- Bytes that went to the caller, and the UPTODATE flag of their folio at that moment. -/
structure Copied where
  folio : Nat
  start : Nat
  length : Nat
  uptodate : Bool
  deriving DecidableEq

/-- The flag behind a callback, and whether bytes of its folio were copied. -/
structure Answer where
  uptodate : Bool
  used : Bool
  deriving DecidableEq

structure FileRead where
  result : Int
  state : PageState
  copies : List Copied
  answers : List Answer

/-- The loop of `generic_file_read_iter`, one page a turn. -/
def readLoop (env : FileEnv) (mapping : Nat) : Nat → Nat → Nat → Nat → PageState → FileRead
  | 0,_,_,copied,s => ⟨copied,s,[],[]⟩
  | fuel+1,pos,remaining,copied,s =>
    if remaining=0 then ⟨copied,s,[],[]⟩
    else
      let pageOffset := pos%pageSize
      let chunk := min (pageSize-pageOffset) remaining
      let p := filemapReadCacheFolio env mapping (pos/pageSize) pageOffset remaining s
      match p.result with
      | .error e => ⟨if copied≠0 then copied else e,p.state,[],[]⟩
      | .ok folio =>
        if folioPagePayload env.page p.state folio=0 then
          ⟨if copied≠0 then copied else efault,folioPut env.page folio p.state,[],
            (p.answer.map (Answer.mk · false)).toList⟩
        else
          let taken := min (env.copyToIter copied chunk) chunk
          let copies := if taken=0 then [] else
            [Copied.mk folio pos taken (uptodate p.state folio)]
          let answers := (p.answer.map (Answer.mk · (taken≠0))).toList
          if taken≠chunk then
            ⟨if copied≠0 then copied else efault,folioPut env.page folio p.state,copies,answers⟩
          else
            let r := readLoop env mapping fuel (pos+chunk) (remaining-chunk) (copied+chunk)
              (folioPut env.page folio p.state)
            ⟨r.result,r.state,copies++r.copies,answers++r.answers⟩

/-- `generic_file_read_iter` of a file with a mapping and a size. -/
def genericFileReadIter (env : FileEnv) (mapping pos count size : Nat) (s : PageState) : FileRead :=
  if mapping=0 then ⟨einval,s,[],[]⟩
  else if size≤pos ∨ count=0 then ⟨0,s,[],[]⟩
  else readLoop env mapping (min (size-pos) count) pos (min (size-pos) count) 0 s

section

variable (env : FileEnv) {mapping index folio : Nat} {s : PageState}

/-- Where a folio comes from tells its flag: the code has just seen it set, or a callback ran. -/
def PageRead.Told (p : PageRead) : Prop :=
  ∀ folio,p.result=.ok folio → uptodate p.state folio=p.answer.getD true

theorem fillFolio_told : (fillFolio env mapping folio s).Told := by
  unfold fillFolio
  split
  · exact fun f h => nomatch h
  dsimp only
  split
  · exact fun f h => nomatch h
  · intro f h
    cases h
    rfl

theorem readCacheFolio_told : (readCacheFolio env mapping index s).Told := by
  unfold readCacheFolio
  split
  · exact fun f h => nomatch h
  split
  · exact fun f h => nomatch h
  split
  · next hup =>
    intro f h
    cases h
    exact hup
  · exact fillFolio_told env

theorem cachedFolio_told {requested : Nat} : (cachedFolio env mapping index folio requested s).Told := by
  simp only [cachedFolio]
  split
  · next hup =>
    intro f h
    cases h
    by_cases hra : (s.folios folio).flags.readahead=true
    · simp [hra]
    · simp [hra,hup]
  · exact readCacheFolio_told env

theorem filemapReadCacheFolio_told {pageOffset remaining : Nat} :
    (filemapReadCacheFolio env mapping index pageOffset remaining s).Told := by
  simp only [filemapReadCacheFolio]
  split
  · exact cachedFolio_told env
  · split
    · exact fun f h => nomatch h
    · exact readCacheFolio_told env

theorem readLoop_uptodate (fuel pos remaining copied : Nat) :
    (∀ c∈(readLoop env mapping fuel pos remaining copied s).copies,c.uptodate=true) ↔
      ∀ a∈(readLoop env mapping fuel pos remaining copied s).answers,
        a.used=true → a.uptodate=true := by
  induction fuel generalizing pos remaining copied s with
  | zero => simp [readLoop]
  | succ fuel ih =>
    simp only [readLoop]
    split
    · simp
    have htold : (filemapReadCacheFolio env mapping (pos/pageSize) (pos%pageSize)
        remaining s).Told := filemapReadCacheFolio_told env
    generalize filemapReadCacheFolio env mapping (pos/pageSize) (pos%pageSize) remaining s=p
      at htold
    split
    · simp
    next folio hok =>
    have hflag := htold folio hok
    split
    · cases p.answer <;> simp
    have hone : ∀ n : Nat,
        (∀ c∈(if n=0 then [] else [Copied.mk folio pos n (uptodate p.state folio)]),
          c.uptodate=true) ↔
        ∀ a∈(p.answer.map (Answer.mk · (decide (n≠0)))).toList, a.used=true → a.uptodate=true := by
      intro n
      rw [hflag]
      by_cases hn : n=0
      · cases p.answer <;> simp
      · cases p.answer <;> simp
    split
    · exact hone _
    · simp only [List.forall_mem_append]
      exact and_congr (hone _) (ih _ _ _)

theorem readLoop_error {fuel pos remaining copied : Nat} {e : Int} (hr : remaining≠0)
    (h : (filemapReadCacheFolio env mapping (pos/pageSize) (pos%pageSize) remaining s).result=
      .error e) :
    (readLoop env mapping (fuel+1) pos remaining copied s).result=
      (if copied≠0 then (copied : Int) else e) ∧
    (readLoop env mapping (fuel+1) pos remaining copied s).copies=[] := by
  simp only [readLoop,if_neg hr]
  rw [h]
  exact ⟨rfl,rfl⟩

end

/-- Copied bytes are of folios up to date exactly when every `read_folio` that did not fail, and
every readahead pass, left its folio so; a page that cannot be read ends the call. -/
theorem reads_are_uptodate (env : FileEnv) (mapping pos count size : Nat) (s : PageState) :
    ((∀ c∈(genericFileReadIter env mapping pos count size s).copies,c.uptodate=true) ↔
      ∀ a∈(genericFileReadIter env mapping pos count size s).answers,
        a.used=true → a.uptodate=true) ∧
    ∀ fuel here remaining copied t e,remaining≠0 →
      (filemapReadCacheFolio env mapping (here/pageSize) (here%pageSize) remaining t).result=.error e →
      (readLoop env mapping (fuel+1) here remaining copied t).result=
        (if copied≠0 then (copied : Int) else e) ∧
      (readLoop env mapping (fuel+1) here remaining copied t).copies=[] := by
  constructor
  · unfold genericFileReadIter
    split
    · simp
    · split
      · simp
      · exact readLoop_uptodate env _ _ _ _
  · intro fuel here remaining copied t e hr h
    exact readLoop_error env hr h

/-- `read_folio` ends without success and returns 0, as `block_read_full_folio` does. -/
def failingReads : FileEnv where
  page := stillEnv
  readFolio := fun _ => some fun folio s => (0,folioEndRead folio false s)
  syncRa := fun _ _ _ s => s
  asyncRa := fun _ _ _ _ s => s
  copyToIter := fun _ chunk => chunk

/-- The bytes of a page that could not be read go to the caller, and the call succeeds. -/
theorem read_copies_failed_page :
    (genericFileReadIter failingReads 8192 0 100 4096 freshPages).result=100 ∧
    (genericFileReadIter failingReads 8192 0 100 4096 freshPages).copies=[⟨4096,0,100,false⟩] := by
  decide +kernel

end Kobox.PageCache
