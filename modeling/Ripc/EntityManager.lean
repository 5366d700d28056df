import Ripc.DriverQueues

namespace Ripc

/-- The request whose reply a callback waits for: the connection it was sent over, by its number, and the
server it went to. -/
structure Awaited where
  connection : Nat
  server : Option Int
  deriving DecidableEq, Repr

/-- The fields of a `Client`; `connection` is the number of the connection that its last successful
`connect` made. -/
structure RipcClient where
  connectedServerName : List UInt8
  isMapped : Bool
  isRequestSent : Bool
  isRunning : Bool
  callback : Option Awaited
  connection : Option Nat
  deriving DecidableEq, Repr

namespace RipcClient

def new : RipcClient := ⟨[], false, false, true, none, none⟩

def isConnected (c : RipcClient) : Bool := !c.connectedServerName.isEmpty

def isReady (c : RipcClient) : Bool := c.isConnected && c.isMapped

/-- `Memory::unmap`; `munmap` fails for the address of a mapping that failed. -/
def unmap (c : RipcClient) (munmap : Bool) : RipcClient := { c with isMapped := c.isMapped && !munmap }

def dispatchNewMessage (c : RipcClient) : RipcClient :=
  if c.isReady then { c with callback := none, isRequestSent := false } else c

def dispatchRemoteDisconnect (c : RipcClient) (munmap : Bool) : RipcClient :=
  if c.isReady then { c with isRunning := false, connectedServerName := [] }.unmap munmap else c

def handleNotification (c : RipcClient) (munmap : Bool) (ntf : NotificationData) : RipcClient :=
  match ntf.type with
  | .newMessage => c.dispatchNewMessage
  | .remoteDisconnect => c.dispatchRemoteDisconnect munmap
  | .newConnection => c

end RipcClient

/-- The server at the other end of a client's connection. -/
def Drv.serverOf (s : Drv) (id : Int) : Option Int := do
  let k ← findClientById s id
  let cli ← s.gClientsList.get? k
  let p ← cli.connP
  let c ← s.gConnsList.get? p
  let v ← c.serverP
  let srv ← s.gServersList.get? v
  return srv.id

def Drv.queueOf (s : Drv) (fd : Ptr) : List NotificationData := (s.files.get? fd).elim [] s.queue

/-- A process with its file of the driver. `connections` counts the connections made for each client id,
whoever made them; `queue` is the queue of the file, each notification with the number of the connection
that it is about. -/
structure Process where
  drv : Drv
  fd : Ptr
  maxClients : Nat
  clients : Table RipcClient
  queue : List (NotificationData × Nat)
  connections : Int → Nat

/-- The client id for which a call has made a connection. -/
def Call.connected (call : Call) (r : Reply) : Option Int :=
  match call.op with
  | .ioctl _ (.connectToServer con) => if r.ret = 0 then some con.clientId else none
  | _ => none

/-- The id that a registration has filled in; it is -1 before. -/
def Out.clientId : Out → Int
  | .id registered => registered
  | _ => -1

namespace Process

def start (drv : Drv) (fd : Ptr) (maxClients : Nat) : Process :=
  ⟨drv, fd, maxClients, .empty, (drv.queueOf fd).map (·, 0), fun _ => 0⟩

/-- After a driver call. What the call has queued for a client is about the last connection that was made
for the client's id. -/
def after (p : Process) (call : Call) (r : Reply) (drv : Drv) : Process :=
  let connections := fun id => if call.connected r = some id then p.connections id + 1 else p.connections id
  let old := (p.drv.queueOf p.fd).length
  let now := drv.queueOf p.fd
  { p with
    drv
    connections
    queue := p.queue.drop (old - now.length) ++ (now.drop old).map fun d => (d, connections d.reciverId) }

def driver (p : Process) (call : Call) : Option (Reply × Process) :=
  match step p.drv call with
  | .error _ => none
  | .ok (r, drv) => some (r, p.after call r drv)

def ioctl (p : Process) (K : Kernel) (cmd : Cmd) : Option (Reply × Process) := p.driver ⟨K, .ioctl p.fd cmd⟩

def setClient (p : Process) (id : Nat) (c : RipcClient) : Process :=
  { p with clients := p.clients.modify id fun _ => c }

def destroyClient (p : Process) (K : Kernel) (id : Int) : Option Process :=
  (p.ioctl K (.clientUnregister (packIds id 0))).map Prod.snd

def createClient (p : Process) (K K' : Kernel) : Option Process :=
  if p.maxClients ≤ p.clients.keys.length then some p else
  (p.ioctl K .registerClient).bind fun (r, p) =>
    if r.ret < 0 ∨ isIdValid r.out.clientId = false then p.destroyClient K' (-1)
    else if r.out.clientId.toNat ∈ p.clients.keys then p.destroyClient K' r.out.clientId
    else some { p with clients := p.clients.pushBack r.out.clientId.toNat .new }

/-- `strncpy` into a field that is terminated in any case. -/
def nameField (name : List UInt8) : Vector UInt8 maxServerName :=
  Vector.ofFn fun i => if i.val = maxServerName - 1 then 0 else ((name.takeWhile (· ≠ 0))[i.val]?).getD 0

/-- `Memory::mmap` of a client; a mapping that fails counts as mapped. -/
def mmap (p : Process) (K : Kernel) (id : Nat) (c : RipcClient) : Option (Process × RipcClient) :=
  if packIds id 0 = packError then some (p, c) else
  (p.driver ⟨K, .mmap p.fd (packIds id 0)⟩).map fun (_, p) => (p, { c with isMapped := true })

def connect (p : Process) (K K' : Kernel) (id : Nat) (serverName : List UInt8) : Option Process :=
  (p.clients.get? id).bind fun c =>
    if serverName = [] ∨ maxServerName ≤ serverName.length then some p else
    (p.ioctl K (.connectToServer ⟨id, nameField serverName⟩)).bind fun (r, p) =>
      if r.ret < 0 then some p else
      (if c.isMapped then some (p, c) else p.mmap K' id c).map fun (p, c) =>
        p.setClient id
          { c with connectedServerName := serverName, connection := some (p.connections id) }

def disconnect (p : Process) (K : Kernel) (id : Nat) (munmap : Bool) : Option Process :=
  (p.clients.get? id).bind fun c =>
    if !c.isConnected then some p else
    (p.ioctl K (.clientDisconnect (packIds id 0))).map fun (r, p) =>
      if r.ret < 0 then p else p.setClient id ({ c with connectedServerName := [] }.unmap munmap)

/-- `Client::call`, with or without a callback for the reply. A call that finds an earlier request
unanswered is refused; one that waits for the answer instead is made when it goes on. -/
def call (p : Process) (K : Kernel) (id : Nat) (input : Bool) : Option Process :=
  (p.clients.get? id).bind fun c =>
    if !c.isReady || c.isRequestSent then some p
    else if packIds id 0 = packError then some (p.setClient id { c with isRequestSent := false })
    else (p.ioctl K (.clientEndWriting (packIds id 0))).map fun (r, p') =>
      if r.ret < 0 then p'.setClient id { c with isRequestSent := false }
      else p'.setClient id { c with
        isRequestSent := true
        callback := if input then some ⟨p.connections id, p.drv.serverOf id⟩ else none }

def deleteClient (p : Process) (K : Kernel) (id : Nat) : Option Process :=
  if isIdValid id = false ∨ id ∉ p.clients.keys then some p
  else { p with clients := p.clients.erase id }.destroyClient K id

/-- The clients after `dispatchNotification`. What a client sends goes to a server of the process. -/
def dispatchNotification (p : Process) (munmap : Bool) (ntf : NotificationData) : Table RipcClient :=
  if isIdValid ntf.reciverId ∧ isIdValid ntf.subMemId ∧ isIdValid ntf.senderId then
    match ntf.whoSends with
    | .client => p.clients
    | .server => p.clients.modify ntf.reciverId.toNat (·.handleNotification munmap ntf)
  else p.clients

/-- One round of `notificationListenerLoop`: a notification that was read in full is dispatched. -/
def listen (p : Process) (K : Kernel) (munmap : Bool) : Option Process :=
  (p.driver ⟨K, .read p.fd sizeofNotificationData⟩).map fun (r, p) =>
    match r.out with
    | .notif ntf => { p with clients := p.dispatchNotification munmap ntf }
    | _ => p

end Process

/-- The steps of a process, and the driver calls that others make in between. -/
inductive Action
  | createClient (K K' : Kernel)
  | connect (K K' : Kernel) (id : Nat) (serverName : List UInt8)
  | disconnect (K : Kernel) (id : Nat) (munmap : Bool)
  | call (K : Kernel) (id : Nat) (input : Bool)
  | deleteClient (K : Kernel) (id : Nat)
  | listen (K : Kernel) (munmap : Bool)
  | other (call : Call)

/-- Nobody closes the file of the process. -/
def Process.act (p : Process) : Action → Option Process
  | .createClient K K' => p.createClient K K'
  | .connect K K' id serverName => p.connect K K' id serverName
  | .disconnect K id munmap => p.disconnect K id munmap
  | .call K id input => p.call K id input
  | .deleteClient K id => p.deleteClient K id
  | .listen K munmap => p.listen K munmap
  | .other call =>
    match call.op with
    | .release fd => if fd = p.fd then none else (p.driver call).map Prod.snd
    | _ => (p.driver call).map Prod.snd

end Ripc
