import Ripc.Dispatch
import Ripc.NodeMap

namespace Ripc

/-- `m_sub_mem_p` refers to the element `subMem` of `m_mappings`; `subMemId` is the key that the element was made
with. -/
structure RefConnection extends ConnectionInfo where
  subMem : Nat
  deriving DecidableEq, Repr

/-- `m_mappings` keeps for the id of a sub-memory whether its memory is marked as mapped. -/
structure RefServer where
  serverId : Int
  isInitialized : Bool
  connections : List RefConnection
  mappings : NodeMap Int Bool

namespace RefServer

def findConnection (s : RefServer) (clientId : Int) : Option RefConnection :=
  if !s.isInitialized then none else
  if isIdValid clientId then s.connections.find? fun el => el.clientId = clientId else none

/-- A reference to the element of the sub-memory; `none` is `m_null_submem`. -/
def findOrCreateSHM (s : RefServer) (shmId : Int) : Option (Nat × RefServer) :=
  if !s.isInitialized then none else
  if !isIdValid shmId then none else
  if maxServersMapping ≤ s.mappings.size then none else
  let (map, _, mappings) := s.mappings.tryEmplace shmId false
  some (map, { s with mappings })

/-- What a function of the server returns, the argument of the `mmap` that it calls, and the server after it. -/
structure Handled where
  result : Bool
  mmap : Option U32
  server : RefServer

/-- `Memory::mmap` marks the memory as mapped whatever the driver answers. -/
def mark (s : RefServer) (map : Nat) : RefServer := { s with mappings := s.mappings.modify map fun _ => true }

def addConnection (s : RefServer) (clientId shmId : Int) : Except Stop Handled :=
  if !s.isInitialized then .ok ⟨false, none, s⟩ else
  if !isIdValid shmId then .ok ⟨false, none, s⟩ else
  if !isIdValid clientId then .ok ⟨false, none, s⟩ else
  match s.findConnection clientId with
  | some _ => .ok ⟨false, none, s⟩
  | none =>
    if maxServersConnections ≤ s.connections.length then .ok ⟨false, none, s⟩ else
    match s.findOrCreateSHM shmId with
    | none => .ok ⟨false, none, s⟩
    | some (map, s) =>
      match s.mappings.deref map with
      | none => .error .badPointer
      | some el =>
        let added := { s with connections := s.connections ++ [⟨⟨clientId, el.key⟩, map⟩] }
        let packedId := packIds s.serverId shmId
        if el.val || packedId = packError then .ok ⟨true, none, added⟩
        else .ok ⟨true, some packedId, added.mark map⟩

/-- The key of the element to erase is read through the reference of the connection. -/
def disconnectFromClient (s : RefServer) (con : Option RefConnection) : Except Stop (Bool × RefServer) :=
  if !s.isInitialized then .ok (false, s) else
  match con with
  | none => .ok (false, s)
  | some con =>
    match s.mappings.deref con.subMem with
    | none => .error .badPointer
    | some el => .ok (true, { s with
        mappings := s.mappings.erase el.key
        connections := s.connections.eraseP fun other => other.clientId = con.clientId })

def disconnect (s : RefServer) (id : Int) : Except Stop (Bool × RefServer) :=
  s.disconnectFromClient (s.findConnection id)

/-- A message leaves the tables alone. -/
def handleNotification (s : RefServer) (ntf : NotificationData) : Except Stop Handled :=
  if !s.isInitialized then .ok ⟨false, none, s⟩ else
  if ntf.reciverId ≠ s.serverId then .ok ⟨false, none, s⟩ else
  if ntf.whoSends ≠ .client then .ok ⟨false, none, s⟩ else
  if !isIdValid ntf.senderId || !isIdValid ntf.subMemId then .ok ⟨false, none, s⟩ else
  match ntf.type with
  | .newConnection => s.addConnection ntf.senderId ntf.subMemId
  | .newMessage => .ok ⟨false, none, s⟩
  | .remoteDisconnect => do
    let (result, server) ← s.disconnectFromClient (s.findConnection ntf.senderId)
    .ok ⟨result, none, server⟩

end RefServer

/-- A server and the types of notifications that the application handles itself. -/
structure RefManager where
  server : RefServer
  notificationHandlers : NotifType → Bool

/-- What can change the tables; a handler of the application reaches them by `disconnect` only. -/
inductive TableMove
  | registerHandler (type : NotifType) (handler : Bool)
  | dispatch (ntf : NotificationData) (other : ntf.type ≠ .newMessage)
  | disconnect (id : Int) (valid : isIdValid id = true)

namespace RefManager

def start (serverId : Int) (isInitialized : Bool) : RefManager :=
  ⟨⟨serverId, isInitialized, [], .empty⟩, fun _ => false⟩

def registerHandler (m : RefManager) (type : NotifType) (handler : Bool) : RefManager :=
  { m with notificationHandlers := fun t => if t = type then handler else m.notificationHandlers t }

def dispatchNotification (m : RefManager) (ntf : NotificationData) : Except Stop RefManager :=
  if !ntf.isDataValid then .ok m else
  if m.notificationHandlers ntf.type then .ok m else
  match ntf.whoSends with
  | .client =>
    if ntf.reciverId = m.server.serverId then do
      let handled ← m.server.handleNotification ntf
      .ok { m with server := handled.server }
    else .ok m
  | .server => .ok m

def disconnect (m : RefManager) (id : Int) : Except Stop RefManager := do
  let (_, server) ← m.server.disconnect id
  .ok { m with server }

def act (m : RefManager) : TableMove → Except Stop RefManager
  | .registerHandler type handler => .ok (m.registerHandler type handler)
  | .dispatch ntf _ => m.dispatchNotification ntf
  | .disconnect id _ => m.disconnect id

def run (m : RefManager) (moves : List TableMove) : Except Stop RefManager := moves.foldlM act m

/-- The client whose connection the move takes away, if there is one. -/
def leaver (m : RefManager) : TableMove → Option Int
  | .registerHandler _ _ => none
  | .dispatch ntf _ =>
    if ntf.type = .remoteDisconnect ∧ ntf.isDataValid ∧ ¬m.notificationHandlers ntf.type ∧ ntf.For m.server.serverId
    then some ntf.senderId else none
  | .disconnect id _ => some id

/-- A move that takes a connection away takes one whose sub-memory no other connection uses. -/
def Spares (m : RefManager) (move : TableMove) : Prop :=
  ∀ id, m.leaver move = some id → ∀ con, m.server.findConnection id = some con →
    ∀ other ∈ m.server.connections, other.subMem = con.subMem → other.clientId = id

end RefManager

end Ripc
