import Ripc.DriverCalls
import Ripc.Trace
import Mathlib.Logic.Function.Basic

namespace Ripc

/-- What a process can register. -/
inductive Member
  | server
  | client
  deriving DecidableEq

inductive Registration
  | server (reg : ServerRegistration)
  | client

def Registration.member : Registration → Member
  | .server _ => .server
  | .client => .client

def Member.limit : Member → Nat
  | .server => maxServersPerPid
  | .client => maxClientsPerPid

def RegTask.numOf (t : RegTask) : Member → Int
  | .server => t.numOfServers
  | .client => t.numOfClients

/-- The length of `m_servers` or `m_clients`. -/
def Drv.members (s : Drv) (m : Member) (regTask : Ptr) : Nat :=
  match m with
  | .server => (s.serversOf regTask).length
  | .client => (s.clientsOf regTask).length

/-- What a call does next, cut where other calls can come between. Memory that a call has just allocated is nobody
else's until it is linked, so allocating and linking are one step; so is `private_data`, since nobody else has the
file. -/
inductive LimitPc
  | idle
  | canAddTask (task : TaskStruct)
  | findTask (task : TaskStruct)
  | createTask (task : TaskStruct)
  /-- `reg_task_is_monitor` in the first test. -/
  | testMonitor (r : Registration) (t : Ptr)
  | testCount (r : Registration) (t : Ptr)
  | copyRequest (r : Registration) (t : Ptr)
  | findServer (reg : ServerRegistration) (t : Ptr)
  | create (r : Registration) (t : Ptr)
  | copyId (m : Member) (t obj : Ptr)
  /-- The second test, in `reg_task_add_server` or `reg_task_add_client`. -/
  | retestMonitor (m : Member) (t obj : Ptr)
  | retestCount (m : Member) (t obj : Ptr)
  | link (m : Member) (t obj : Ptr)
  | setTask (m : Member) (t obj entry : Ptr)
  | count (m : Member) (t obj : Ptr)
  | done (m : Member) (obj : Ptr)
  | monitorClients (t : Ptr)
  | monitorServers (t : Ptr)
  | scanTasks (t : Ptr)
  | setMonitor (t : Ptr)
  | returned (ret : Int)

/-- One more server or client is counted. -/
def RegTask.countUp (m : Member) (t : RegTask) : RegTask :=
  match m with
  | .server => { t with numOfServers := t.numOfServers + 1 }
  | .client => { t with numOfClients := t.numOfClients + 1 }

def LimitPc.step (K : Kernel) (s : Drv) : LimitPc → Except Fault (LimitPc × Drv)
  | .idle => .ok (.idle, s)
  | .returned ret => .ok (.returned ret, s)
  | .canAddTask task =>
    .ok (if (K.kmalloc .filp s).isNone then .returned (-ENFILE)
      else if regTaskCanAddTask s then .findTask task else .returned (-ENOSPC), s)
  | .findTask task =>
    .ok (if !K.pidAlive task then .returned (-ENOMEM)
      else if (regTaskFindByTaskStruct K s task).isSome then .returned (-ENOMEM) else .createTask task, s)
  | .createTask task =>
    match K.kmalloc .regTask s, K.kmalloc .filp s with
    | some t, some filp => .ok (.returned 0, { s with
        gRegTaskList := s.gRegTaskList.pushFront t ⟨task, 0, [], 0, 0, 0⟩
        gRegTaskCount := s.gRegTaskCount + 1
        files := s.files.pushFront filp t })
    | _, _ => .ok (.returned (-ENOMEM), s)
  | .testMonitor r t => do
    let task ← deref s.gRegTaskList (some t)
    .ok (if task.isMonitor = 0 then .testCount r t else .returned (-ENOSPC), s)
  | .testCount r t => do
    let task ← deref s.gRegTaskList (some t)
    .ok (if task.numOf r.member < r.member.limit then .copyRequest r t else .returned (-ENOSPC), s)
  | .copyRequest .client t => .ok (.create .client t, s)
  | .copyRequest (.server reg) t => .ok (if K.copyFromUser then .findServer reg t else .returned (-EFAULT), s)
  | .findServer reg t => do
    match ← findServerByName s reg.name.toList with
    | some _ => .ok (.returned (-EEXIST), s)
    | none => .ok (.create (.server reg) t, s)
  | .create (.server reg) t => do
    let (server, s) ← serverCreate K s (reg.name.toList ++ reg.serverId.toList)
    match server with
    | none => .error .nullDeref
    | some v => .ok (.copyId .server t v, s)
  | .create .client t =>
    let (client, s) := clientCreate K s
    match client with
    | none => .error .nullDeref
    | some k => .ok (.copyId .client t k, s)
  | .copyId m t obj => .ok (if K.copyToUser then .retestMonitor m t obj else .returned (-EFAULT), s)
  | .retestMonitor m t obj => do
    let task ← deref s.gRegTaskList (some t)
    .ok (if task.isMonitor = 0 then .retestCount m t obj else .done m obj, s)
  | .retestCount m t obj => do
    let task ← deref s.gRegTaskList (some t)
    .ok (if task.numOf m < m.limit then .link m t obj else .done m obj, s)
  | .link .server t obj =>
    match K.kmalloc .serversEntry s with
    | none => .ok (.done .server obj, s)
    | some e =>
      .ok (.setTask .server t obj e, { s with serversEntries := s.serversEntries.pushFront e ⟨t, obj⟩ })
  | .link .client t obj =>
    match K.kmalloc .clientsEntry s with
    | none => .ok (.done .client obj, s)
    | some e =>
      .ok (.setTask .client t obj e, { s with clientsEntries := s.clientsEntries.pushFront e ⟨t, obj⟩ })
  | .setTask .server t obj e => do
    let s ← serverAddTask s obj e
    .ok (.count .server t obj, s)
  | .setTask .client t obj e => do
    let s ← clientAddTask s obj e
    .ok (.count .client t obj, s)
  | .count m t obj =>
    .ok (.done m obj, { s with gRegTaskList := s.gRegTaskList.modify t (RegTask.countUp m) })
  | .done .server obj => do
    let srv ← deref s.gServersList (some obj)
    .ok (.returned (if srv.taskP.isNone then -ENOENT else 0), s)
  | .done .client obj => do
    let cli ← deref s.gClientsList (some obj)
    .ok (.returned (if cli.taskP.isNone then -ENOENT else 0), s)
  | .monitorClients t => do
    let task ← deref s.gRegTaskList (some t)
    .ok (if task.numOfClients > 0 then .returned (-EFAULT) else .monitorServers t, s)
  | .monitorServers t => do
    let task ← deref s.gRegTaskList (some t)
    .ok (if task.numOfServers > 0 then .returned (-EFAULT) else .scanTasks t, s)
  | .scanTasks t =>
    .ok (if (s.gRegTaskList.find? fun t => t.isMonitor ≠ 0).isSome then .returned (-EEXIST) else .setMonitor t, s)
  | .setMonitor t =>
    .ok (.returned 0, { s with
      gRegTaskList := s.gRegTaskList.modify t fun t => { t with isMonitor := t.isMonitor + 1 } })

/-- The task that a call works on. -/
def LimitPc.task : LimitPc → Option Ptr
  | .testMonitor _ t | .testCount _ t | .copyRequest _ t | .findServer _ t | .create _ t | .copyId _ t _
  | .retestMonitor _ t _ | .retestCount _ t _ | .link _ t _ | .setTask _ t _ _ | .count _ t _
  | .monitorClients t | .monitorServers t | .scanTasks t | .setMonitor t => some t
  | _ => none

def LimitPc.outside : LimitPc → Bool
  | .idle | .returned _ => true
  | _ => false

/-- The driver and the calls that are on their way, one a thread. -/
structure Openers where
  drv : Drv
  pcs : Nat → LimitPc

inductive LimitMove
  | open (i : Nat) (task : TaskStruct)
  | register (i : Nat) (filp : Ptr) (r : Registration)
  | registerMonitor (i : Nat) (filp : Ptr)
  | run (i : Nat) (K : Kernel)

def LimitMove.thread : LimitMove → Nat
  | .open i _ | .register i _ _ | .registerMonitor i _ | .run i _ => i

namespace Openers

def goto (c : Openers) (i : Nat) (pc : LimitPc) : Openers := ⟨c.drv, Function.update c.pcs i pc⟩

/-- A call through a file begins with the task behind it. -/
def ioctl (c : Openers) (i : Nat) (filp : Ptr) (first : Ptr → LimitPc) : Option Openers :=
  if (c.pcs i).outside then
    some (c.goto i ((c.drv.files.get? filp).elim (.returned (-ENOENT)) first))
  else none

def step (c : Openers) : LimitMove → Option Openers
  | .open i task => if (c.pcs i).outside then some (c.goto i (.canAddTask task)) else none
  | .register i filp r => c.ioctl i filp (.testMonitor r)
  | .registerMonitor i filp => c.ioctl i filp .monitorClients
  | .run i K => ((c.pcs i).step K c.drv).toOption.map fun r => ⟨r.2, Function.update c.pcs i r.1⟩

def start : Openers := ⟨Drv.init, fun _ => .idle⟩

end Openers

end Ripc
