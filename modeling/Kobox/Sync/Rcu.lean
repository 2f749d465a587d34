import Kobox.Framework.Run

namespace Kobox.Sync

/-- opened has the sections open when it was queued; one of `kb_kvfree_call_rcu` has no function. -/
structure RcuRecord where
  id : Nat
  opened : List Nat
  frees : Bool
  deriving DecidableEq

/-- What a thread is in the middle of, innermost first. -/
inductive Frame
  /-- Module code, with the sections it has open, innermost first. -/
  | body (sections : List Nat)
  /-- `rcu_drain_callbacks` before it looks at the readers. -/
  | check
  /-- Its loop, before the next record is popped. -/
  | loop
  /-- Its loop, with a record popped and not invoked. -/
  | hold (r : RcuRecord)
  /-- `kb_synchronize_rcu` before it has seen no reader; watched were open at its start. -/
  | sync (watched : List Nat)
  | syncEnd (watched : List Nat)
  /-- `kb_rcu_barrier` before a turn of its loop, and before its look at the list; the callbacks
  with a lower number were queued before it. -/
  | barrier (before : Nat)
  | barrierLook (before : Nat)
  deriving DecidableEq

/-- A callback is invoked, or a wait returns, with the sections open or the callbacks invoked then. -/
inductive RcuEvent
  | invoked (r : RcuRecord) (opened : List Nat)
  | synchronized (watched opened : List Nat)
  | barred (before : Nat) (invoked : List Nat)
  deriving DecidableEq

/-- `rcu_readers`, the list and the threads; the rest is bookkeeping. -/
structure Rcu where
  readers : Nat
  callbacks : List RcuRecord
  threads : List (List Frame)
  opened : List Nat
  nextSection : Nat
  nextRecord : Nat
  invoked : List Nat
  events : List RcuEvent
  deriving DecidableEq

def readersSize : Nat := 2^32

/-- What a thread does next; advance is the next step of the call it is in. -/
inductive RcuMove
  | readLock
  | readUnlock
  | callRcu
  | kvfreeCallRcu
  | synchronizeRcu
  | rcuBarrier
  | callbackReturns
  | advance
  deriving DecidableEq

def Rcu.setThread (s : Rcu) (t : Nat) (fs : List Frame) : Rcu := {s with threads := s.threads.set t fs}

/-- `rcu_enqueue`, with the allocation succeeding. -/
def rcuEnqueue (s : Rcu) (frees : Bool) : Rcu :=
  {s with
    callbacks := s.callbacks++[⟨s.nextRecord,s.opened,frees⟩],
    nextRecord := s.nextRecord+1}

/-- One atomic step of a thread whose stack of calls is given. -/
def threadStep (s : Rcu) (t : Nat) : List Frame → RcuMove → Rcu
  | .body secs::fs,.readLock =>
    {s with
      readers := (s.readers+1)%readersSize,
      opened := s.nextSection::s.opened,
      nextSection := s.nextSection+1}.setThread t (.body (s.nextSection::secs)::fs)
  | .body (n::secs)::fs,.readUnlock =>
    {s with readers := s.readers-1,opened := s.opened.erase n}.setThread t
      (if s.readers=1 then .check::.body secs::fs else .body secs::fs)
  | .body secs::fs,.callRcu => (rcuEnqueue s false).setThread t (.check::.body secs::fs)
  | .body secs::fs,.kvfreeCallRcu => (rcuEnqueue s true).setThread t (.check::.body secs::fs)
  | .body secs::fs,.synchronizeRcu => s.setThread t (.sync s.opened::.body secs::fs)
  | .body secs::fs,.rcuBarrier => s.setThread t (.barrier s.nextRecord::.body secs::fs)
  | .body []::.loop::fs,.callbackReturns => s.setThread t (.loop::fs)
  | .check::fs,.advance => s.setThread t (if s.readers≠0 then fs else .loop::fs)
  | .loop::fs,.advance =>
    match s.callbacks with
    | [] => s.setThread t fs
    | r::rs => {s with callbacks := rs}.setThread t (.hold r::fs)
  | .hold r::fs,.advance =>
    {s with
      invoked := r.id::s.invoked,
      events := .invoked r s.opened::s.events}.setThread t
        (if r.frees then .loop::fs else .body []::.loop::fs)
  | .sync watched::fs,.advance =>
    s.setThread t (if s.readers≠0 then .sync watched::fs else .check::.syncEnd watched::fs)
  | .syncEnd watched::fs,.advance =>
    {s with events := .synchronized watched s.opened::s.events}.setThread t fs
  | .barrier before::fs,.advance => s.setThread t (.sync s.opened::.barrierLook before::fs)
  | .barrierLook before::fs,.advance =>
    if s.callbacks=[] then
      {s with events := .barred before s.invoked::s.events}.setThread t fs
    else s.setThread t (.barrier before::fs)
  | _,_ => s

def rcuStep (s : Rcu) (a : Nat × RcuMove) : Rcu :=
  match s.threads[a.1]? with
  | some fs => threadStep s a.1 fs a.2
  | none => s

def startRcu (threads : Nat) : Rcu := ⟨0,[],List.replicate threads [.body []],[],0,0,[],[]⟩

/-- No callback is invoked twice or within a section open when it was queued; synchronize outlasts
the sections, barrier the callbacks, from before it. -/
structure GraceKept (s : Rcu) : Prop where
  once : s.invoked.Nodup
  grace : ∀ r now,.invoked r now∈s.events → ∀ n∈r.opened,n∉now
  waited : ∀ watched now,.synchronized watched now∈s.events → ∀ n∈watched,n∉now
  barred : ∀ before done,.barred before done∈s.events → ∀ n<before,n∈done

def Frame.drains : Frame → Bool
  | .loop => true
  | .hold _ => true
  | _ => false

def Frame.holds : Frame → Bool
  | .hold _ => true
  | _ => false

/-- A section opens only while no other thread runs callbacks and fewer than 2^32 are open; barrier
looks only while none is taken. -/
def Careful (s : Rcu) (a : Nat × RcuMove) : Prop :=
  match a.2 with
  | .readLock =>
    s.readers+1 < readersSize ∧
      ∀ u<s.threads.length,u≠a.1 → ((s.threads.getD u []).any Frame.drains)=false
  | .advance =>
    match s.threads.getD a.1 [] with
    | .barrierLook _::_ => ∀ fs∈s.threads,(fs.any Frame.holds)=false
    | _ => True
  | _ => True

instance (s : Rcu) (a : Nat × RcuMove) : Decidable (Careful s a) := by
  unfold Careful
  split
  · infer_instance
  · split <;> infer_instance
  · infer_instance

end Kobox.Sync
