import Ripc.DriverMonitor

namespace Ripc

abbrev U32 := BitVec 32

/-- `(u32)-EINVAL`, the error value of `pack_ids`. -/
def packError : U32 := BitVec.ofInt 32 (-EINVAL)

def packIds (id1 id2 : Int) : U32 :=
  if isIdValid id1 ∧ isIdValid id2 then
    BitVec.ofInt 32 id1 <<< 16 ||| (BitVec.ofInt 32 id2 &&& 0xFFFF#32)
  else packError

def unpackId1 (packedId : U32) : Int := (packedId >>> 16).toNat

def unpackId2 (packedId : U32) : Int := (packedId &&& 0xFFFF#32).toNat

/-- `server_registration`; `serverId` are the bytes of the member after the name. -/
structure ServerRegistration where
  name : Vector UInt8 maxServerName
  serverId : Vector UInt8 4

/-- `connect_to_server`; the name is the last member. -/
structure ConnectToServer where
  clientId : Int
  serverName : Vector UInt8 maxServerName

inductive Cmd
  | registerServer (reg : ServerRegistration)
  | registerClient
  | connectToServer (con : ConnectToServer)
  | clientEndWriting (arg : U32)
  | serverEndWriting (arg : U32)
  | clientDisconnect (arg : U32)
  | serverDisconnect (arg : U32)
  | clientUnregister (arg : U32)
  | serverUnregister (arg : U32)
  | registerMonitor
  | unknown

/-- What a call hands back besides its return code. -/
inductive Out
  | nothing
  | filp (filp : Ptr)
  | id (id : Int)
  | notif (data : NotificationData)
  | snapshot (data : StRegTasks)
  | mapped (frame size : Nat)

structure Reply where
  ret : Int
  out : Out

abbrev Answer := Except Fault (Reply × Drv)

def returns (ret : Int) (s : Drv) : Answer := .ok (⟨ret, .nothing⟩, s)

def registerServer (K : Kernel) (s : Drv) (regTask : Ptr) (reg : ServerRegistration) : Answer := do
  let t ← deref s.gRegTaskList (some regTask)
  if !t.canAddServer then returns (-ENOSPC) s else
  if !K.copyFromUser then returns (-EFAULT) s else
  match ← findServerByName s reg.name.toList with
  | some _ => returns (-EEXIST) s
  | none =>
    let (server, s) ← serverCreate K s (reg.name.toList ++ reg.serverId.toList)
    let srv ← deref s.gServersList server
    if !K.copyToUser then returns (-EFAULT) s else
    match server with
    | none => .error .nullDeref
    | some v =>
      let s ← regTaskAddServer K s regTask v
      let after ← deref s.gServersList (some v)
      .ok (⟨if after.taskP.isNone then -ENOENT else 0, .id srv.id⟩, s)

def registerClient (K : Kernel) (s : Drv) (regTask : Ptr) : Answer := do
  let t ← deref s.gRegTaskList (some regTask)
  if !t.canAddClient then returns (-ENOSPC) s else
  let (client, s) := clientCreate K s
  let cli ← deref s.gClientsList client
  if !K.copyToUser then returns (-EFAULT) s else
  match client with
  | none => .error .nullDeref
  | some k =>
    let s ← regTaskAddClient K s regTask k
    let after ← deref s.gClientsList (some k)
    .ok (⟨if after.taskP.isNone then -ENOENT else 0, .id cli.id⟩, s)

def connectToServer (K : Kernel) (s : Drv) (con : ConnectToServer) : Answer := do
  if !K.copyFromUser then returns (-EFAULT) s else
  let client := findClientById s con.clientId
  let cli ← deref s.gClientsList client
  if cli.connP.isSome then returns (-EEXIST) s else
  match ← findServerByName s con.serverName.toList with
  | none =>
    -- the message prints the name with %s
    match strlen con.serverName.toList with
    | none => .error .overRead
    | some _ => returns (-ENODATA) s
  | some server =>
    match client with
    | none => .error .nullDeref
    | some k =>
      let (ret, s) ← connectClientToServer K s server k
      returns ret s

def clientEndWriting (K : Kernel) (s : Drv) (arg : U32) : Answer := do
  match findClientByIdPid s (unpackId1 arg) K.current.pid with
  | none => returns (-ENODATA) s
  | some k =>
    let cli ← deref s.gClientsList (some k)
    match cli.connP with
    | none => returns (-ENOENT) s
    | some conn =>
      let c ← deref s.gConnsList (some conn)
      if c.serverP.isNone then returns (-ENOMEM) s else
      let (ret, s) ← notificationSend K s .client .newMessage conn
      returns ret s

def serverEndWriting (K : Kernel) (s : Drv) (arg : U32) : Answer := do
  match findServerById s (unpackId1 arg) with
  | none => returns (-ENODATA) s
  | some v =>
    -- the result of the search is dereferenced without a test
    let scon ← deref s.servConns (← serverFindConnBySubMemId s v (unpackId2 arg))
    let c ← deref s.gConnsList (some scon.conn)
    if c.clientP.isNone then returns (-ENOMEM) s else
    let (ret, s) ← notificationSend K s .server .newMessage scon.conn
    returns ret s

def clientDisconnect (K : Kernel) (s : Drv) (arg : U32) : Answer := do
  match findClientById s (unpackId1 arg) with
  | none => returns (-ENOENT) s
  | some k =>
    let cli ← deref s.gClientsList (some k)
    match cli.connP with
    | none => returns (-ENOENT) s
    | some conn =>
      let (ret, s) ← notificationSend K s .client .remoteDisconnect conn
      returns ret (← clientCleanupConnection K s k)

def serverDisconnect (K : Kernel) (s : Drv) (arg : U32) : Answer := do
  match findServerById s (unpackId1 arg) with
  | none => returns (-ENODATA) s
  | some v =>
    match ← serverFindConnBySubMemId s v (unpackId2 arg) with
    | none => returns (-ENOENT) s
    | some scon =>
      let e ← deref s.servConns (some scon)
      let c ← deref s.gConnsList (some e.conn)
      if c.clientP.isNone then returns (-ENOMEM) s else
      let (ret, s) ← notificationSend K s .server .remoteDisconnect e.conn
      returns ret (← serverCleanupConnection K s v scon)

def clientUnregister (K : Kernel) (s : Drv) (arg : U32) : Answer := do
  match findClientById s (unpackId1 arg) with
  | none => returns (-ENOENT) s
  | some k =>
    let cli ← deref s.gClientsList (some k)
    match cli.connP with
    | none => returns (-ENOENT) s
    | some conn =>
      let (ret, s) ← notificationSend K s .client .remoteDisconnect conn
      let s ← clientCleanupConnection K s k
      let cli ← deref s.gClientsList (some k)
      returns ret (← regTaskDeleteClient s cli.taskP)

def serverUnregister (K : Kernel) (s : Drv) (arg : U32) : Answer := do
  match findServerById s (unpackId1 arg) with
  | none => returns (-ENODATA) s
  | some v =>
    let s ← serverCleanupConnections K s v
    let srv ← deref s.gServersList (some v)
    returns 0 (← regTaskDeleteServer s srv.taskP)

def ipcIoctl (K : Kernel) (s : Drv) (filp : Ptr) (cmd : Cmd) : Answer :=
  match s.files.get? filp with
  | none => returns (-ENOENT) s
  | some regTask =>
    match cmd with
    | .registerServer reg => registerServer K s regTask reg
    | .registerClient => registerClient K s regTask
    | .connectToServer con => connectToServer K s con
    | .clientEndWriting arg => clientEndWriting K s arg
    | .serverEndWriting arg => serverEndWriting K s arg
    | .clientDisconnect arg => clientDisconnect K s arg
    | .serverDisconnect arg => serverDisconnect K s arg
    | .clientUnregister arg => clientUnregister K s arg
    | .serverUnregister arg => serverUnregister K s arg
    | .registerMonitor => do
      let (ret, s) ← regTaskSetMonitor s regTask
      returns ret s
    | .unknown => returns (-ENOTTY) s

/-- The end of `ipc_mmap`, after the label `found`. -/
def mmapFound (K : Kernel) (s : Drv) (conn : Ptr) : Answer := do
  let c ← deref s.gConnsList (some conn)
  match c.memP with
  | none => returns (-EFAULT) s
  | some m =>
    let sub ← derefSubMem s m
    .ok (⟨K.remapPfnRange, .mapped sub.pages sub.size⟩, s)

def mmapClient (K : Kernel) (s : Drv) (client : Ptr) : Answer := do
  let cli ← deref s.gClientsList (some client)
  match cli.connP with
  | none => returns (-EINVAL) s
  | some conn =>
    let c ← deref s.gConnsList (some conn)
    match c.memP with
    | none => .error .nullDeref
    | some m =>
      let sub ← derefSubMem s m
      if packIds cli.id sub.id = packError then mmapFound K s conn else
      let _ ← deref s.gServersList c.serverP
      let (_, s) ← notificationSend K s .client .newConnection conn
      mmapFound K { s with gConnsList :=
        s.gConnsList.modify conn fun c => { c with servMmaped := true } } conn

def mmapServer (K : Kernel) (s : Drv) (server : Ptr) (subId : Int) : Answer := do
  if (s.connectionList server).isEmpty then returns (-ENOENT) s else
  if subId = 0 then returns (-EINVAL) s else
  match ← serverFindConnBySubMemId s server subId with
  | none => returns (-ENOENT) s
  | some scon =>
    let e ← deref s.servConns (some scon)
    mmapFound K s e.conn

def ipcMmap (K : Kernel) (s : Drv) (vmPgoff : U32) : Answer :=
  match findClientByIdPid s (unpackId1 vmPgoff) K.current.pid with
  | some client => mmapClient K s client
  | none =>
    match findServerById s (unpackId1 vmPgoff) with
    | some server => mmapServer K s server (unpackId2 vmPgoff)
    | none => returns (-ENOENT) s

def ipcOpen (K : Kernel) (s : Drv) : Answer :=
  match K.kmalloc .filp s with
  | none => returns (-ENFILE) s
  | some filp =>
    if !regTaskCanAddTask s then returns (-ENOSPC) s else
    match regTaskCreate K s with
    | (none, s) => returns (-ENOMEM) s
    | (some t, s) => .ok (⟨0, .filp filp⟩, { s with files := s.files.pushFront filp t })

def ipcRelease (K : Kernel) (s : Drv) (filp : Ptr) : Answer :=
  match s.files.get? filp with
  | none => returns 0 s
  | some regTask => do
    let s ← regTaskDelete K s regTask
    returns 0 { s with files := s.files.erase filp }

def sizeofNotificationData : Nat := 16
def sizeofStRegTasks : Nat := 37060

def RegTask.dequeue (t : RegTask) : RegTask :=
  { t with notifList := t.notifList.tail, numOfNotif := t.numOfNotif - 1 }

def ipcRead (K : Kernel) (s : Drv) (filp : Ptr) (count : Nat) : Answer :=
  match s.files.get? filp with
  | none => returns (-ENOENT) s
  | some regTask => do
    let t ← deref s.gRegTaskList (some regTask)
    if t.isMonitor ≠ 0 then
      if count < sizeofStRegTasks then returns (-EMSGSIZE) s else
      match K.kmalloc .snapshot s with
      | none => .error .nullDeref
      | some _ =>
        let data ← regTaskGetData s K.garbage
        if !K.copyToUser then returns (-EFAULT) s else
        .ok (⟨sizeofStRegTasks, .snapshot data⟩, s)
    else
      match t.notifList with
      | [] => returns (-ENOENT) s
      | notif :: _ =>
        -- the notification leaves the queue before the caller's buffer is looked at
        let s := { s with gRegTaskList := s.gRegTaskList.modify regTask RegTask.dequeue }
        if sizeofNotificationData > count then returns (-EMSGSIZE) s else
        if !K.copyToUser then returns (-EFAULT) s else
        .ok (⟨sizeofNotificationData, .notif notif⟩, s)

inductive Op
  | open
  | ioctl (filp : Ptr) (cmd : Cmd)
  | mmap (filp : Ptr) (vmPgoff : U32)
  | read (filp : Ptr) (count : Nat)
  | release (filp : Ptr)

structure Call where
  kernel : Kernel
  op : Op

def step (s : Drv) (call : Call) : Answer :=
  match call.op with
  | .open => ipcOpen call.kernel s
  | .ioctl filp cmd => ipcIoctl call.kernel s filp cmd
  | .mmap filp vmPgoff =>
    -- the kernel itself refuses a file that is not open
    if filp ∈ s.files.keys then ipcMmap call.kernel s vmPgoff else returns (-EBADF) s
  | .read filp count => ipcRead call.kernel s filp count
  | .release filp => ipcRelease call.kernel s filp

end Ripc
