import Ripc.Trace
import Mathlib.Logic.Function.Basic

namespace Ripc

/-- The two waits of `call`: for the answer to an earlier request, and to its own. -/
inductive WaitFor
  | earlier
  | own
  deriving DecidableEq, Repr

/-- Where a thread of the application stands in `call` or in `setBlockingMode`, one access a step. -/
inductive CallPc
  | idle
  | testSent
  | testBlocking
  /-- At the mutex, before a wait or after it was woken. -/
  | lock (w : WaitFor)
  /-- `!m_is_request_sent` in the predicate. -/
  | predicateSent (w : WaitFor)
  /-- `!m_is_running` in the predicate. -/
  | predicateRunning (w : WaitFor)
  /-- The predicate was false. -/
  | fallAsleep (w : WaitFor)
  | asleep (w : WaitFor)
  /-- Behind `wait`. -/
  | testRunning (w : WaitFor)
  | unlock (goOn : Bool)
  | write
  /-- `IOCTL_CLIENT_END_WRITING` is next. -/
  | announce
  | setUnsent
  | setSent
  | finishBlocking
  | finishSent
  | lockMode (mode : Bool)
  | setMode (mode : Bool)
  deriving DecidableEq, Repr

/-- Where the listener stands in `dispatchNewMessage` or in `dispatchRemoteDisconnect`. -/
inductive HandlerPc
  | idle
  | message
  | unset
  | testBlocking
  | lock
  | notify
  | unlock
  | disconnect
  | stop
  | clear
  deriving DecidableEq, Repr

inductive MutexOwner
  | listener
  | thread (i : Nat)
  deriving DecidableEq, Repr

/-- The fields of a client that the waiting is about; `isReady` stands for `CHECK_MAPPED`, `lock` is who holds
`m_lock`. -/
structure Waiters where
  isRequestSent : Bool
  isUsingBlocking : Bool
  isRunning : Bool
  isReady : Bool
  lock : Option MutexOwner
  pcs : Nat → CallPc
  listener : HandlerPc

inductive WaitMove
  | call (i : Nat)
  | setBlockingMode (i : Nat) (mode : Bool)
  /-- A thread goes on; `ok` is how an `ioctl` that it makes ends. -/
  | thread (i : Nat) (ok : Bool)
  /-- A thread wakes up although nobody has notified it. -/
  | wake (i : Nat)
  | newMessage
  | remoteDisconnect
  /-- The listener goes on. -/
  | listener
  /-- The application connects or disconnects. -/
  | setReady (ready : Bool)

def CallPc.notified : CallPc → CallPc
  | .asleep w => .lock w
  | pc => pc

namespace Waiters

def start : Waiters := ⟨false, false, true, false, none, fun _ => .idle, .idle⟩

/-- The predicate of both waits: `!m_is_request_sent || !m_is_running`. -/
def mayGoOn (s : Waiters) : Bool := !s.isRequestSent || !s.isRunning

def goto (s : Waiters) (i : Nat) (pc : CallPc) : Waiters := { s with pcs := Function.update s.pcs i pc }

/-- The thread takes the mutex if it is free. -/
def acquire (s : Waiters) (i : Nat) (pc : CallPc) : Option Waiters :=
  if s.lock = none then some { s.goto i pc with lock := some (.thread i) } else none

def release (s : Waiters) (i : Nat) (pc : CallPc) : Waiters := { s.goto i pc with lock := none }

def threadStep (s : Waiters) (i : Nat) (ok : Bool) : Option Waiters :=
  match s.pcs i with
  | .idle | .asleep _ => none
  | .testSent => some (s.goto i (if s.isRequestSent then .testBlocking else .write))
  | .testBlocking => some (s.goto i (if s.isUsingBlocking then .lock .earlier else .idle))
  | .lock w => s.acquire i (.predicateSent w)
  | .predicateSent w => some (s.goto i (if s.isRequestSent then .predicateRunning w else .testRunning w))
  | .predicateRunning w => some (s.goto i (if s.isRunning then .fallAsleep w else .testRunning w))
  -- falling asleep and giving the mutex back are one
  | .fallAsleep w => some (s.release i (.asleep w))
  | .testRunning w => some (s.goto i (.unlock (s.isRunning && w = .earlier)))
  | .unlock goOn => some (s.release i (if goOn then .write else .idle))
  | .write => some (s.goto i .announce)
  | .announce => some (s.goto i (if ok then .setSent else .setUnsent))
  | .setUnsent => some { s.goto i .finishBlocking with isRequestSent := false }
  | .setSent => some { s.goto i .finishBlocking with isRequestSent := true }
  | .finishBlocking => some (s.goto i (if s.isUsingBlocking then .finishSent else .idle))
  | .finishSent => some (s.goto i (if s.isRequestSent then .lock .own else .idle))
  | .lockMode mode => s.acquire i (.setMode mode)
  | .setMode mode => some { s.goto i (.unlock false) with isUsingBlocking := mode }

def listenerStep (s : Waiters) : Option Waiters :=
  match s.listener with
  | .idle => none
  | .message => some { s with listener := if s.isReady then .unset else .idle }
  | .unset => some { s with isRequestSent := false, listener := .testBlocking }
  | .testBlocking => some { s with listener := if s.isUsingBlocking then .lock else .idle }
  | .lock => if s.lock = none then some { s with lock := some .listener, listener := .notify } else none
  | .notify => some { s with pcs := fun i => (s.pcs i).notified, listener := .unlock }
  | .unlock => some { s with lock := none, listener := .idle }
  | .disconnect => some { s with listener := if s.isReady then .stop else .idle }
  -- nobody is notified here
  | .stop => some { s with isRunning := false, listener := .clear }
  | .clear => some { s with isReady := false, listener := .idle }

def step (s : Waiters) : WaitMove → Option Waiters
  | .call i =>
    if s.pcs i = .idle then some (if s.isReady then s.goto i .testSent else s) else none
  | .setBlockingMode i mode => if s.pcs i = .idle then some (s.goto i (.lockMode mode)) else none
  | .thread i ok => s.threadStep i ok
  | .wake i =>
    match s.pcs i with
    | .asleep w => some (s.goto i (.lock w))
    | _ => none
  | .newMessage => if s.listener = .idle then some { s with listener := .message } else none
  | .remoteDisconnect => if s.listener = .idle then some { s with listener := .disconnect } else none
  | .listener => s.listenerStep
  | .setReady ready => some { s with isReady := ready }

end Waiters

end Ripc
