import Ripc.Trace
import Mathlib.Logic.Function.Basic

namespace Ripc

/-- What the manager needs of `RipcContext`. -/
structure DeviceContext where
  deviceFd : Int
  initialized : Bool

/-- Without a device `CHECK_INIT` returns `false`, which is the descriptor 0. -/
def DeviceContext.getFd (d : DeviceContext) : Int := if d.initialized then d.deviceFd else 0

inductive PollResult
  | error (interrupted : Bool)
  | timeout
  /-- Whether one of `POLLERR`, `POLLHUP` and `POLLNVAL` is set, and `POLLIN`. -/
  | event (failed readable : Bool)

inductive ReadResult
  | notification (valid : Bool)
  | interrupted
  /-- Nothing to read, an error or less than a notification. -/
  | nothing

/-- What the kernel, the logger and the handlers do in one step. -/
structure Surroundings where
  /-- `LOG_CRIT` throws: the level lets it through and the behaviour is `THROW_EXCEPTION`. -/
  critThrows : Bool
  deviceFd : Int
  threadStarts : Bool
  poll : PollResult
  read : ReadResult
  handlerThrows : Bool

/-- Where a listener stands in `notificationListenerLoop`. -/
inductive LoopPc
  | getContext
  | getFd
  | testRunning
  | poll
  | polled (result : PollResult)
  /-- `LOG_CRIT` before the flag is cleared. -/
  | critical
  | clearRunning
  | testReading
  | read
  /-- `dispatchNotification` at the mutex. -/
  | lock
  | dispatch
  | stopped
  | returned

def LoopPc.isReturned : LoopPc → Bool
  | .returned => true
  | _ => false

/-- Where the application stands, one access to a shared field, the mutex or the kernel a step. `last` says that the
destructor calls; no result is an exception. -/
inductive LifecyclePc
  | outside
  | returned (result : Option Bool)
  | initLock
  | initTest
  | newContext
  | openDevice
  | setRunning
  | startThread
  | clearRunning
  | resetFailed
  | setInitialized
  /-- `listener_running.exchange(false)`. -/
  | exchange (last : Bool)
  | join (last : Bool)
  | lock (last : Bool)
  | test (last : Bool)
  | clear (last : Bool)
  | reset (last : Bool)
  | clearInitialized (last : Bool)
  | unlock (last : Bool) (result : Option Bool)
  /-- The members are destroyed. -/
  | destroy
  deriving DecidableEq

inductive LifecycleOwner
  | application
  | listener (i : Nat)
  deriving DecidableEq

/-- How the process or the manager ends. -/
inductive Ending
  /-- `std::terminate`. -/
  | terminated
  /-- A reference to no context. -/
  | undefined
  | destroyed
  deriving DecidableEq

structure Lifecycle where
  isInitialized : Bool
  context : Option DeviceContext
  listenerRunning : Bool
  /-- The listener that `listener_thread` stands for; the thread is joinable exactly if there is one. -/
  listenerThread : Option Nat
  managerMutex : Option LifecycleOwner
  pc : LifecyclePc
  loops : Nat → LoopPc
  /-- How many listeners have been started. -/
  started : Nat
  ending : Option Ending

inductive LifecycleMove
  | doInitialize
  | doShutdown
  | destructor
  /-- The call that is on its way goes on. -/
  | call (env : Surroundings)
  | listener (i : Nat) (env : Surroundings)

namespace Lifecycle

def start : Lifecycle := ⟨false, none, false, none, none, .outside, fun _ => .returned, 0, none⟩

def goto (c : Lifecycle) (pc : LifecyclePc) : Lifecycle := { c with pc }

def gotoLoop (c : Lifecycle) (i : Nat) (pc : LoopPc) : Lifecycle := { c with loops := Function.update c.loops i pc }

def finish (c : Lifecycle) (e : Ending) : Lifecycle := { c with ending := some e }

/-- A new listener begins; then `listener_thread` is assigned to. -/
def startThread (c : Lifecycle) : Lifecycle :=
  let next := { c with loops := Function.update c.loops c.started .getContext, started := c.started + 1 }
  if c.listenerThread.isSome then next.finish .terminated
  else { next with listenerThread := some c.started, pc := .setInitialized }

def callStep (c : Lifecycle) (env : Surroundings) : Option Lifecycle :=
  match c.pc with
  | .outside | .returned _ => none
  | .initLock =>
    if c.managerMutex = none then some { c.goto .initTest with managerMutex := some .application } else none
  | .initTest => some (c.goto (if c.isInitialized then .unlock false (some false) else .newContext))
  | .newContext => some { c.goto .openDevice with context := some ⟨-1, false⟩ }
  | .openDevice =>
    if env.deviceFd < 0 then
      some { c.goto (.unlock false (if env.critThrows then none else some false)) with
        context := some ⟨env.deviceFd, false⟩ }
    else some { c.goto .setRunning with context := some ⟨env.deviceFd, true⟩ }
  | .setRunning => some { c.goto .startThread with listenerRunning := true }
  | .startThread => some (if env.threadStarts then c.startThread else c.goto .clearRunning)
  | .clearRunning => some { c.goto .resetFailed with listenerRunning := false }
  | .resetFailed =>
    some { c.goto (.unlock false (if env.critThrows then none else some false)) with
      context := none
      isInitialized := false }
  | .setInitialized => some { c.goto (.unlock false (some true)) with isInitialized := true }
  | .exchange last =>
    some { c.goto (if c.listenerRunning then .join last else .lock last) with listenerRunning := false }
  | .join last =>
    match c.listenerThread with
    | none => some (c.goto (.lock last))
    | some i => if (c.loops i).isReturned then some { c.goto (.lock last) with listenerThread := none } else none
  | .lock last =>
    if c.managerMutex = none then some { c.goto (.test last) with managerMutex := some .application } else none
  | .test last => some (c.goto (if c.isInitialized then .clear last else .unlock last (some false)))
  -- the clients, the servers and the handlers
  | .clear last => some (c.goto (.reset last))
  | .reset last => some { c.goto (.clearInitialized last) with context := none }
  | .clearInitialized last => some { c.goto (.unlock last (some true)) with isInitialized := false }
  | .unlock last result =>
    some { c.goto (if last then .destroy else .returned result) with managerMutex := none }
  | .destroy => some (c.finish (if c.listenerThread.isSome then .terminated else .destroyed))

def loopStep (c : Lifecycle) (i : Nat) (env : Surroundings) : Option Lifecycle :=
  match c.loops i with
  | .returned => none
  | .getContext =>
    if c.managerMutex ≠ none then none
    else if c.isInitialized && c.context.isSome then some (c.gotoLoop i .getFd)
    -- the exception is caught, and logged in the same way
    else if env.critThrows then some (c.gotoLoop i .critical)
    else if c.context.isSome then some (c.gotoLoop i .getFd)
    else some (c.finish .undefined)
  | .getFd =>
    match c.context with
    | none => some (c.finish .undefined)
    | some d => some (c.gotoLoop i (if d.getFd < 0 then .critical else .testRunning))
  | .testRunning => some (c.gotoLoop i (if c.listenerRunning then .poll else .stopped))
  | .poll => some (c.gotoLoop i (.polled env.poll))
  | .polled result =>
    if c.listenerRunning then
      match result with
      | .error true | .timeout | .event false false => some (c.gotoLoop i .testRunning)
      | .error false | .event true _ => some (c.gotoLoop i .critical)
      | .event false true => some (c.gotoLoop i .testReading)
    else some (c.gotoLoop i .stopped)
  -- nothing catches what is thrown in the thread
  | .critical => some (if env.critThrows then c.finish .terminated else c.gotoLoop i .clearRunning)
  | .clearRunning => some { c.gotoLoop i .stopped with listenerRunning := false }
  | .testReading => some (c.gotoLoop i (if c.listenerRunning then .read else .testRunning))
  | .read =>
    match env.read with
    | .notification valid => some (c.gotoLoop i (if valid then .lock else .testReading))
    | .interrupted => some (c.gotoLoop i .testReading)
    | .nothing => some (c.gotoLoop i .testRunning)
  | .lock =>
    if c.managerMutex = none then some { c.gotoLoop i .dispatch with managerMutex := some (.listener i) } else none
  | .dispatch =>
    if (if c.isInitialized then env.handlerThrows else env.critThrows) then some (c.finish .terminated)
    else some { c.gotoLoop i .testReading with managerMutex := none }
  | .stopped => some (c.gotoLoop i .returned)

/-- The application makes its next call when the one before has returned. -/
def begin (c : Lifecycle) (pc : LifecyclePc) : Option Lifecycle :=
  match c.pc with
  | .outside | .returned _ => some (c.goto pc)
  | _ => none

def step (c : Lifecycle) (move : LifecycleMove) : Option Lifecycle :=
  if c.ending.isSome then none else
  match move with
  | .doInitialize => c.begin .initLock
  | .doShutdown => c.begin (.exchange false)
  | .destructor => c.begin (.exchange true)
  | .call env => c.callStep env
  | .listener i env => c.loopStep i env

end Lifecycle

end Ripc
