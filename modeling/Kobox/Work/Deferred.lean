import Kobox.Framework.Run

namespace Kobox.Work

def linuxHz : Nat := 1000
def nsecPerSec : Nat := 1000000000
def deferredDrainLimit : Nat := 1024
def deferredMaxDrainDepth : Nat := 8
def deferredListWalkLimit : Nat := 65536
def workContextMaxDepth : Nat := 16
def wordSize : Nat := 2^64

inductive DeferredKind
  | work
  | tasklet
  | timer
  deriving DecidableEq

/-- An item with the number of its record; token tells apart what is queued one after the other. -/
structure DeferredItem where
  record : Nat
  kind : DeferredKind
  object : Nat
  workqueue : Nat
  sequence : Nat
  due : Nat
  token : Nat
  deriving DecidableEq

def DeferredItem.is (kind : DeferredKind) (object : Nat) (item : DeferredItem) : Bool :=
  item.kind=kind && item.object=object

/-- How an item left the list. -/
inductive Departure
  | ran (item : DeferredItem)
  | cancelled (item : DeferredItem)
  | replaced (item : DeferredItem)
  deriving DecidableEq

def Departure.item : Departure → DeferredItem
  | .ran item => item
  | .cancelled item => item
  | .replaced item => item

/-- Behind the run of an item: a loop, with the turns it has left, or a flush of this work. -/
inductive Resume
  | drain (includeWork : Bool) (left : Nat)
  | flushQueue (workqueue through left : Nat)
  | once
  deriving DecidableEq

/-- Innermost first: module code, a loop before its next turn, the call of an item's function. -/
inductive Frame
  | body
  | loop (r : Resume)
  | running (item : DeferredItem) (r : Resume)
  deriving DecidableEq

/-- The list, its tail and the free list; pending bits and usable functions; destroyed queues; the
runner. made, queued, gone and spoiled are bookkeeping. -/
structure Deferred where
  list : List DeferredItem
  tail : Option Nat
  free : List Nat
  made : Nat
  sequence : Nat
  pending : Nat → Bool
  usable : Nat → Bool
  destroying : Nat → Bool
  active : List Nat
  poisoned : Nat → Bool
  drainDepth : Nat
  frames : List Frame
  queued : Nat
  gone : List Departure
  spoiled : Nat → Bool

namespace Deferred

/-- `refresh_deferred_tail`, which cuts off a list that is too long. -/
def refreshTail (s : Deferred) : Deferred :=
  let kept := s.list.take deferredListWalkLimit
  {s with list := kept,tail := kept.getLast?.map DeferredItem.record}

/-- `find_deferred`; `repair_deferred_tail` is `refresh_deferred_tail` over again. -/
def find (kind : DeferredKind) (object : Nat) (s : Deferred) : Option DeferredItem × Deferred :=
  match (s.list.take deferredListWalkLimit).find? (DeferredItem.is kind object) with
  | some item => (some item,s)
  | none => (none,if deferredListWalkLimit<s.list.length then s.refreshTail else s)

def contains (kind : DeferredKind) (object : Nat) (s : Deferred) : Bool × Deferred :=
  ((s.find kind object).1.isSome,(s.find kind object).2)

def allocateItem (room : Bool) (s : Deferred) : Option Nat × Deferred :=
  match s.free with
  | r::rs => (some r,{s with free := rs})
  | [] => if room then (some s.made,{s with made := s.made+1}) else (none,s)

def release (record : Nat) (s : Deferred) : Deferred := {s with free := record::s.free}

def prepend (item : DeferredItem) (s : Deferred) : Deferred :=
  {s with list := item::s.list,tail := if s.tail=none then some item.record else s.tail}

/-- `remove_deferred`: what is removed goes to the free list, one after the other. -/
def remove (kind : DeferredKind) (object : Nat) (s : Deferred) : List DeferredItem × Deferred :=
  let removed := s.list.filter (DeferredItem.is kind object)
  let rest := s.list.filter fun item => !item.is kind object
  (removed,{s with list := rest,free := (removed.map DeferredItem.record).reverse++s.free}.refreshTail)

/-- The first item that meets a test is taken from the list. -/
def take (p : DeferredItem → Bool) (s : Deferred) : Option (DeferredItem × Deferred) :=
  (s.list.find? p).map fun item =>
    let rest := {s with list := s.list.eraseP p}
    (item,if s.tail=some item.record then rest.refreshTail else rest)

/-- `queue_deferred`; room tells whether a block can be allocated. -/
def queue (kind : DeferredKind) (object workqueue due : Nat) (room : Bool) (s : Deferred) :
    Bool × Deferred :=
  if object=0 then (false,s)
  else
    match s.contains kind object with
    | (true,s) => (false,s)
    | (false,s) =>
      match s.allocateItem room with
      | (none,s) => (false,s)
      | (some record,s) =>
        let next := (s.sequence+1)%wordSize
        let sequence := if next=0 then 1 else next
        let s := s.refreshTail
        (true,{s with
          list := s.list++[⟨record,kind,object,workqueue,sequence,due,s.queued⟩],
          tail := some record,
          sequence := sequence,
          queued := s.queued+1})

def clearPending (work : Nat) (s : Deferred) : Deferred :=
  if work=0 then s else {s with pending := Function.update s.pending work false}

def setPending (work : Nat) (s : Deferred) : Deferred :=
  if work=0 then s else {s with pending := Function.update s.pending work true}

/-- The common body of `kb_queue_work_on` and `kb_queue_delayed_work_on`. -/
def queueWork (workqueue work due : Nat) (room : Bool) (s : Deferred) : Bool × Deferred :=
  if s.destroying workqueue then (false,s)
  else if work=0 then (false,s)
  else if !s.usable work then (false,s.clearPending work)
  else
    let (found,s) := if s.pending work then s.contains .work work else (false,s)
    if found then (false,s)
    else
      match ((s.clearPending work).setPending work).queue .work work workqueue due room with
      | (true,s) => (true,s)
      | (false,s) => (false,s.clearPending work)

def queueWorkOn (workqueue work : Nat) (room : Bool) : Deferred → Bool × Deferred :=
  queueWork workqueue work 0 room

def jiffiesToNs (jiffies : Nat) : Nat := jiffies*nsecPerSec%wordSize/linuxHz

def delayedDue (now delay : Nat) : Nat := if delay=0 then 0 else (now+jiffiesToNs delay)%wordSize

def queueDelayedWorkOn (workqueue work delay now : Nat) (room : Bool) : Deferred → Bool × Deferred :=
  queueWork workqueue work (delayedDue now delay) room

def modDelayedWorkOn (workqueue work delay now : Nat) (room : Bool) (s : Deferred) : Deferred :=
  let removed := s.remove .work work
  let queued := queueDelayedWorkOn workqueue work delay now room (removed.2.clearPending work)
  {queued.2 with
    gone := removed.1.map (if queued.1 then .replaced else .cancelled)++queued.2.gone}

def cancelWorkSync (work : Nat) (s : Deferred) : Deferred :=
  let removed := s.remove .work work
  {removed.2.clearPending work with gone := removed.1.map .cancelled++s.gone}

def taskletSchedule (tasklet : Nat) (room : Bool) (s : Deferred) : Deferred :=
  (s.queue .tasklet tasklet 0 0 room).2

/-- `kb_mod_timer`: the expiry of a queued timer is changed in place. -/
def modTimer (timer expires : Nat) (room : Bool) (s : Deferred) : Deferred :=
  match s.find .timer timer with
  | (some item,s) =>
    {s with list := s.list.map fun i =>
      if i.record=item.record then {i with due := jiffiesToNs expires} else i}
  | (none,s) => (s.queue .timer timer 0 (jiffiesToNs expires) room).2

def addTimer (timer expires : Nat) (room : Bool) (s : Deferred) : Deferred :=
  (s.queue .timer timer 0 (jiffiesToNs expires) room).2

def timerDelete (timer : Nat) (s : Deferred) : Deferred :=
  let removed := s.remove .timer timer
  {removed.2 with gone := removed.1.map .cancelled++s.gone}

end Deferred

/-- The task and its journal handle, a skipped function, the switch of GS, a usable function. -/
structure RunInput where
  task : Bool
  dirty : Bool
  skip : Bool
  gs : Bool
  callable : Bool
  deriving DecidableEq

inductive RunResult
  | retry
  | finished
  | called
  deriving DecidableEq

namespace Deferred

/-- `run_work` up to the call of the function. -/
def beginWork (i : RunInput) (work : Nat) (s : Deferred) : RunResult × Deferred :=
  let depth := s.active.length
  if work=0 then (.finished,s)
  else if !s.usable work then (.finished,s.clearPending work)
  else if work∈s.active then (.retry,s)
  else if workContextMaxDepth≤depth then (.retry,s)
  else if s.poisoned depth then (.retry,s)
  else if !i.task then (.retry,s)
  else if i.dirty then (.retry,{s with poisoned := Function.update s.poisoned depth true})
  else if i.skip then (.finished,s.clearPending work)
  else if !i.gs then (.retry,(s.clearPending work).setPending work)
  else (.called,{s.clearPending work with active := s.active++[work]})

/-- `run_work` after the call: the context is left, and poisoned where a journal handle is. -/
def endWork (dirty : Bool) (s : Deferred) : Deferred :=
  let depth := s.active.length-1
  {s with
    active := s.active.dropLast,
    poisoned := if dirty then Function.update s.poisoned depth true else s.poisoned}

def beginItem (i : RunInput) (item : DeferredItem) (s : Deferred) : RunResult × Deferred :=
  match item.kind with
  | .work => s.beginWork i item.object
  | _ => (if i.callable then .called else .finished,s)

def leave (rest : List Frame) (s : Deferred) : Deferred :=
  {s with drainDepth := s.drainDepth-1,frames := rest}

def again (r : Resume) (rest : List Frame) : List Frame :=
  match r with
  | .once => rest
  | r => .loop r::rest

/-- An item that has been taken is run, or put back and the loop left. -/
def runItem (i : RunInput) (item : DeferredItem) (r : Resume) (rest : List Frame) (s : Deferred) :
    Deferred :=
  match s.beginItem i item with
  | (.retry,s) => if r=.once then {s.prepend item with frames := rest} else (s.prepend item).leave rest
  | (.finished,s) => {s.release item.record with gone := .ran item::s.gone,frames := again r rest}
  | (.called,s) => {s with gone := .ran item::s.gone,frames := .body::.running item r::rest}

/-- The tests of `pop_due_deferred_at`, `pop_workqueue_deferred` and `take_deferred_work`. -/
def dueItem (includeWork : Bool) (now : Nat) (s : Deferred) (item : DeferredItem) : Bool :=
  (includeWork || item.kind≠.work) && (item.kind≠.work || item.object∉s.active) &&
    (item.due=0 || item.due≤now)

def queueItem (workqueue through : Nat) (s : Deferred) (item : DeferredItem) : Bool :=
  item.kind=.work && item.workqueue=workqueue && item.object∉s.active && item.sequence≤through

def workItem (work : Nat) (requireDue : Bool) (now : Nat) (item : DeferredItem) : Bool :=
  item.is .work work && (!requireDue || item.due=0 || item.due≤now)

def takeDeferredWork (work : Nat) (requireDue : Bool) (now : Nat) (s : Deferred) :
    Option (DeferredItem × Deferred) :=
  if work=0 ∨ work∈s.active then none else s.take (workItem work requireDue now)

end Deferred

/-- What module code does next, or the next turn of the loop or return of the function it is in. -/
inductive WorkMove
  | queueWork (workqueue work : Nat) (room : Bool)
  | queueDelayedWork (workqueue work delay now : Nat) (room : Bool)
  | modDelayedWork (workqueue work delay now : Nat) (room : Bool)
  | cancelWork (work : Nat)
  | taskletSchedule (tasklet : Nat) (room : Bool)
  | modTimer (timer expires : Nat) (room : Bool)
  | addTimer (timer expires : Nat) (room : Bool)
  | timerDelete (timer : Nat)
  | flushWork (work : Nat) (requireDue : Bool) (now : Nat) (i : RunInput)
  | flushWorkqueue (workqueue : Nat)
  | runDeferred (includeWork : Bool)
  | turn (now : Nat) (i : RunInput)
  | returns (dirty : Bool)
  | setUsable (work : Nat) (usable : Bool)
  | setDestroying (workqueue : Nat) (destroying : Bool)

namespace Deferred

def enter (r : Resume) (s : Deferred) : Deferred :=
  if deferredMaxDrainDepth ≤ s.drainDepth then s
  else {s with drainDepth := s.drainDepth+1,frames := .loop r::s.frames}

def bodyStep (s : Deferred) : WorkMove → Deferred
  | .queueWork workqueue work room => (queueWorkOn workqueue work room s).2
  | .queueDelayedWork workqueue work delay now room =>
    (queueDelayedWorkOn workqueue work delay now room s).2
  | .modDelayedWork workqueue work delay now room => s.modDelayedWorkOn workqueue work delay now room
  | .cancelWork work => s.cancelWorkSync work
  | .taskletSchedule tasklet room => s.taskletSchedule tasklet room
  | .modTimer timer expires room => s.modTimer timer expires room
  | .addTimer timer expires room => s.addTimer timer expires room
  | .timerDelete timer => s.timerDelete timer
  | .flushWork work requireDue now i =>
    match s.takeDeferredWork work requireDue now with
    | none => s
    | some (item,t) => t.runItem i item .once s.frames
  | .flushWorkqueue workqueue => s.enter (.flushQueue workqueue s.sequence deferredDrainLimit)
  | .runDeferred includeWork => s.enter (.drain includeWork deferredDrainLimit)
  | .setUsable work usable =>
    {s with
      usable := Function.update s.usable work usable,
      spoiled := Function.update s.spoiled work (s.spoiled work || !usable)}
  | .setDestroying workqueue destroying =>
    {s with destroying := Function.update s.destroying workqueue destroying}
  | _ => s

/-- A turn of a loop: the next item is taken, or the loop left. -/
def loopStep (s : Deferred) (rest : List Frame) (now : Nat) (i : RunInput) : Resume → Deferred
  | .drain _ 0 => s.leave rest
  | .drain includeWork (left+1) =>
    match s.take (s.dueItem includeWork now) with
    | none => s.leave rest
    | some (item,t) => t.runItem i item (.drain includeWork left) rest
  | .flushQueue _ _ 0 => s.leave rest
  | .flushQueue workqueue through (left+1) =>
    match s.take (s.queueItem workqueue through) with
    | none => s.leave rest
    | some (item,t) => t.runItem i item (.flushQueue workqueue through left) rest
  | .once => s

def returnStep (s : Deferred) (item : DeferredItem) (r : Resume) (rest : List Frame)
    (dirty : Bool) : Deferred :=
  let s := if item.kind=.work then s.endWork dirty else s
  {s.release item.record with frames := again r rest}

def step (s : Deferred) (m : WorkMove) : Deferred :=
  match s.frames,m with
  | .body::.running item r::rest,.returns dirty => s.returnStep item r rest dirty
  | .body::_,m => s.bodyStep m
  | .loop r::rest,.turn now i => s.loopStep rest now i r
  | _,_ => s

/-- Nothing queued, no pending bit set; the works' functions may be usable or not. -/
def start (usable : Nat → Bool) : Deferred where
  list := []
  tail := none
  free := []
  made := 0
  sequence := 0
  pending := fun _ => false
  usable := usable
  destroying := fun _ => false
  active := []
  poisoned := fun _ => false
  drainDepth := 0
  frames := [.body]
  queued := 0
  gone := []
  spoiled := fun work => !usable work

def running (frames : List Frame) : List Nat := frames.flatMap fun
    | .running item _ => [item.record]
    | _ => []

end Deferred

/-- Each work is queued at most once, each record listed, free or being run; the tail is the last
item; what was queued is queued or left once; the pending bit tells which. -/
structure WorkKept (s : Deferred) : Prop where
  unique : (s.list.map fun item => (item.kind,item.object)).Nodup
  placed : (s.list.map DeferredItem.record++(s.free++Deferred.running s.frames)).Perm
    (List.range s.made)
  tail : s.tail=s.list.getLast?.map DeferredItem.record
  accounted : (s.list.map DeferredItem.token++s.gone.map fun d => d.item.token).Perm
    (List.range s.queued)
  pending : ∀ work,work≠0 → s.spoiled work=false →
    (s.pending work=true ↔ ∃ item∈s.list,item.kind=.work ∧ item.object=work)

/-- No more items are queued than a walk over the list covers. -/
def WithinWalk (s : Deferred) (_ : WorkMove) : Prop := s.list.length≤deferredListWalkLimit

instance (s : Deferred) (m : WorkMove) : Decidable (WithinWalk s m) := by
  unfold WithinWalk
  infer_instance

end Kobox.Work
