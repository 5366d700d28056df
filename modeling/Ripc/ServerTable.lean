import Ripc.DriverJoins
import Ripc.DisconnectNotices

namespace Ripc

/-- An element of `m_connections`; all of them are active. `subMemId` is the key of its memory in `m_mappings`. -/
structure ConnectionInfo where
  clientId : Int
  subMemId : Int
  deriving DecidableEq, Repr

/-- `m_mappings` keeps for the id of a sub-memory whether its memory is marked as mapped. -/
structure LibServer where
  serverId : Int
  connections : List ConnectionInfo
  mappings : List (Int × Bool)

def maxServersConnections : Nat := maxClientsPerServer
def maxServersMapping : Nat := maxClientsPerServer

namespace LibServer

/-- What the function returns, where it returns: of an invalid id, its message takes the number for a string. -/
def findConnection (s : LibServer) (clientId : Int) : Option ConnectionInfo :=
  if isIdValid clientId then s.connections.find? fun el => el.clientId = clientId else none

/-- The memory of the slot is marked as mapped or not; `none` is the null memory. -/
def findOrCreateSHM (s : LibServer) (shmId : Int) : Option (Bool × LibServer) :=
  if !isIdValid shmId then none else
  if maxServersMapping ≤ s.mappings.length then none else
  match s.mappings.find? fun el => el.1 = shmId with
  | some el => some (el.2, s)
  | none => some (false, { s with mappings := s.mappings ++ [(shmId, false)] })

/-- The argument of the `mmap` that the handling of a notification calls, and the server after it; the listener only
logs the answer. -/
structure Handled where
  mmap : Option U32
  server : LibServer

/-- `Memory::mmap` marks the memory as mapped whatever the driver answers. -/
def mark (s : LibServer) (shmId : Int) : LibServer :=
  { s with mappings := s.mappings.map fun el => (el.1, el.2 || el.1 = shmId) }

def addConnection (s : LibServer) (clientId shmId : Int) : Handled :=
  if !isIdValid shmId then ⟨none, s⟩ else
  if !isIdValid clientId then ⟨none, s⟩ else
  match s.findConnection clientId with
  | some _ => ⟨none, s⟩
  | none =>
    if maxServersConnections ≤ s.connections.length then ⟨none, s⟩ else
    match s.findOrCreateSHM shmId with
    | none => ⟨none, s⟩
    | some (isMapped, s) =>
      let added := { s with connections := s.connections ++ [⟨clientId, shmId⟩] }
      let packedId := packIds s.serverId shmId
      if isMapped || packedId = packError then ⟨none, added⟩ else ⟨some packedId, added.mark shmId⟩

def disconnectFromClient (s : LibServer) (con : Option ConnectionInfo) : Bool × LibServer :=
  match con with
  | none => (false, s)
  | some con => (true, { s with
      mappings := s.mappings.filter fun el => el.1 ≠ con.subMemId
      connections := s.connections.eraseP fun el => el.clientId = con.clientId })

/-- `none` is the crash in the message about an invalid id; `logs` says whether errors are logged. -/
def disconnect (s : LibServer) (logs : Bool) (id : Int) : Option (Bool × LibServer) :=
  if logs && !isIdValid id then none else some (s.disconnectFromClient (s.findConnection id))

/-- A message leaves the tables alone; the answer to it is a driver call of its own. -/
def handleNotification (s : LibServer) (ntf : NotificationData) : Handled :=
  if ntf.reciverId ≠ s.serverId then ⟨none, s⟩ else
  if ntf.whoSends ≠ .client then ⟨none, s⟩ else
  if !isIdValid ntf.senderId || !isIdValid ntf.subMemId then ⟨none, s⟩ else
  match ntf.type with
  | .newConnection => s.addConnection ntf.senderId ntf.subMemId
  | .newMessage => ⟨none, s⟩
  | .remoteDisconnect => ⟨none, (s.disconnectFromClient (s.findConnection ntf.senderId)).2⟩

end LibServer

/-- The server beside the driver. `pending` has been read and is yet to be handled; `returned` is the client for
which `Server::disconnect` has just returned true; `told` are the clients to which a `REMOTE_DISCONNECT` of the
server has been queued since they last mapped its memory. -/
structure ServerSide where
  drv : Drv
  server : LibServer
  pending : Option NotificationData
  returned : Option Int
  told : List Int

inductive ServerMove
  | disconnect (logs : Bool) (id : Int)
  | read (K : Kernel)
  | handle (K : Kernel)
  | other (call : Call)

/-- What the change from `s` to `s'` has added to the queue of task `t`. -/
def Drv.added (s s' : Drv) (t : Ptr) : List NotificationData := (s'.queue t).drop (s.queue t).length

/-- What the call from `s` to `s'` has sent to task `t`, whether or not the task is left. -/
def Call.sentTo (call : Call) (s s' : Drv) (t : Ptr) : List NotificationData :=
  s.added (if t ∈ s'.gRegTaskList.keys then s' else call.sent s s') t

/-- A client's notification for server `a`. -/
def NotificationData.For (d : NotificationData) (a : Int) : Prop := d.whoSends = .client ∧ d.reciverId = a

instance (d : NotificationData) (a : Int) : Decidable (d.For a) := inferInstanceAs (Decidable (_ ∧ _))

namespace ServerSide

def start (drv : Drv) (id : Int) : ServerSide := ⟨drv, ⟨id, [], []⟩, none, none, []⟩

section

variable (seat : Seat)

/-- The clients that server `seat.id` has told of the end of their connection, after a call from `s` to `s'`. -/
def toldBy (call : Call) (s s' : Drv) (told : List Int) : List Int :=
  let joined := (s.added s' seat.task).filter fun d => d.For seat.id ∧ d.type = .newConnection
  let sent := (s.gRegTaskList.keys.flatMap (call.sentTo s s')).filter fun d =>
    d.whoSends = .server ∧ d.senderId = seat.id ∧ d.type = .remoteDisconnect
  (told.filter fun c => c ∉ joined.map NotificationData.senderId) ++ sent.map NotificationData.reciverId

/-- A driver call, whoever makes it. -/
def driver (m : ServerSide) (call : Call) : Option (Reply × ServerSide) :=
  match step m.drv call with
  | .error _ => none
  | .ok (r, drv) => some (r, { m with drv, returned := none, told := toldBy seat call m.drv drv m.told })

def disconnect (m : ServerSide) (logs : Bool) (id : Int) : Option ServerSide :=
  (m.server.disconnect logs id).map fun (result, server) =>
    { m with server, returned := if result then some id else none }

def read (m : ServerSide) (K : Kernel) : Option ServerSide :=
  (m.driver seat ⟨K, .read seat.fd sizeofNotificationData⟩).map fun (r, m) =>
    match r.out with
    | .notif ntf => { m with pending := some ntf }
    | _ => m

/-- `dispatchNotification`, as far as it is about the server. -/
def handle (m : ServerSide) (K : Kernel) : Option ServerSide :=
  match m.pending with
  | none => none
  | some ntf =>
    let handled := m.server.handleNotification ntf
    let m := { m with server := handled.server, pending := none, returned := none }
    match handled.mmap with
    | none => some m
    | some packedId => (m.driver seat ⟨K, .mmap seat.fd packedId⟩).map Prod.snd

/-- Nobody else unregisters the server, or reads from or closes the file of its process. -/
def act (m : ServerSide) : ServerMove → Option ServerSide
  | .disconnect logs id => m.disconnect logs id
  | .read K => if m.pending = none then m.read seat K else none
  | .handle K => m.handle seat K
  | .other call => if call.op.keeps seat then (m.driver seat call).map Prod.snd else none

/-- The notifications of the process that are yet to be handled, oldest first. -/
def waiting (m : ServerSide) : List NotificationData := m.pending.toList ++ m.drv.queue seat.task

/-- Once the server has handled what was queued for it, its connections are those that their clients have mapped;
and the client of a disconnection that has returned true is disconnected and has been told. -/
def Agrees (m : ServerSide) : Prop :=
  ((∀ d ∈ m.waiting seat, ¬d.For seat.id) → ∀ c x, ⟨c, x⟩ ∈ m.server.connections ↔ m.drv.Mapped seat.server c x) ∧
    ∀ c, m.returned = some c → ¬m.drv.Joined seat.server c ∧ c ∈ m.told

end

end ServerSide

end Ripc
