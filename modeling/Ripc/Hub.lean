import Ripc.Broker
import Ripc.DriverRegister
import Ripc.SnapshotContents

namespace Ripc

/-- The driver as a broker between tasks; the open files are the handles. -/
abbrev Hub := Broker Ptr Ptr Int (CString maxServerName) TaskStruct NotificationData

namespace Hub

/-- What client `c` and server `v` tell each other over channel `x`. -/
def word (who : NotifSender) (type : NotifType) (c v x : Int) : NotificationData :=
  match who with
  | .client => ⟨.client, type, x, c, v⟩
  | .server => ⟨.server, type, x, v, c⟩

/-- The party at the other side of the link between client `c` and server `v`. -/
def hearer (b : Hub) (who : NotifSender) (c v : Int) : Option Ptr :=
  match who with
  | .client => (b.servers v).map Prod.fst
  | .server => b.clients c

/-- One side of the link of client `c` tells the other. -/
def say (b : Hub) (who : NotifSender) (type : NotifType) (c : Int) : Hub :=
  match b.links c with
  | none => b
  | some (v, x) =>
    match b.hearer who c v with
    | none => b
    | some t => b.post t (word who type c v x)

/-- The link of client `c` is cut, and both sides are told. -/
def sever (b : Hub) (c : Int) : Hub :=
  ((b.say .server .remoteDisconnect c).say .client .remoteDisconnect c).part c

def Fresh (b : Hub) (id : Int) : Prop := isIdValid id = true ∧ b.Unused id

/-- The name asked for, as it lies in its field, is that of the server `v`. -/
def Named (b : Hub) (name : List UInt8) (v : Int) : Prop := ∃ t n, b.servers v = some (t, n) ∧ n.bytes <+: name

/-- No monitor has servers or clients, and nobody has too many of them. -/
def HasRoom (b : Hub) (t : Ptr) (own : Set Int) (most : Nat) : Prop :=
  (∃ p, b.parties t = some p ∧ p.watches = false) ∧ own.encard < most

/-- What a monitor is shown: each client with the server it is linked to, and each server with its links. -/
structure Pictured (b : Hub) (data : StRegTasks) : Prop where
  client : ∀ c v, data.ReportsClient ⟨c, v⟩ ↔ b.clients c ≠ none ∧ v = (b.links c).elim (-1) Prod.fst
  server : ∀ st, data.ReportsServer st → (∃ t n, b.servers st.id = some (t, n) ∧ st.name = nameBytes n) ∧
    ∀ i, (i.val : Int) < st.connCount → ∃ x, b.links (st.connIds i) = some (st.id, x)
  servers : ∀ v, b.servers v ≠ none → ∃ st, data.ReportsServer st ∧ st.id = v

def Refused (b : Hub) (r : Reply) (b' : Hub) : Prop := r.ret < 0 ∧ b' = b

/-- The call is made where it is admissible and refused elsewhere. -/
def Made (b : Hub) (admissible : Prop) (r : Reply) (b' : Hub) (effect : Prop) : Prop :=
  (admissible ∧ effect) ∨ (¬admissible ∧ b.Refused r b')

/-- `IOCTL_*`, asked for by task `t`. -/
def ServesCmd (b : Hub) (t : Ptr) (cmd : Cmd) (r : Reply) (b' : Hub) : Prop :=
  match cmd with
  | .registerServer reg =>
    b.Made (b.HasRoom t (b.serversOf t) maxServersPerPid ∧ ∀ v, ¬b.Named reg.name.toList v) r b'
      (∃ id, b.Fresh id ∧ r = ⟨0, .id id⟩ ∧ b' = b.offer t id reg.stored)
  | .registerClient =>
    b.Made (b.HasRoom t (b.clientsOf t) maxClientsPerPid) r b'
      (∃ id, b.Fresh id ∧ r = ⟨0, .id id⟩ ∧ b' = b.join t id)
  | .connectToServer con =>
    b.Made (b.links con.clientId = none ∧ ∃ v, b.Named con.serverName.toList v) r b'
      (b.clients con.clientId ≠ none ∧ ∃ v x, b.Named con.serverName.toList v ∧ b.Fresh x ∧ r.ret = 0 ∧
        b' = b.connect con.clientId v x)
  | .clientEndWriting arg =>
    b.Made (b.links (unpackId1 arg) ≠ none) r b' (r.ret = 0 ∧ b' = b.say .client .newMessage (unpackId1 arg))
  | .serverEndWriting arg =>
    b.Made (b.servers (unpackId1 arg) ≠ none) r b'
      (∃ c, b.links c = some (unpackId1 arg, unpackId2 arg) ∧ r.ret = 0 ∧ b' = b.say .server .newMessage c)
  | .clientDisconnect arg =>
    b.Made (b.links (unpackId1 arg) ≠ none) r b'
      (r.ret = 0 ∧ b' = Hub.sever (b.say .client .remoteDisconnect (unpackId1 arg)) (unpackId1 arg))
  | .serverDisconnect arg =>
    b.Made (∃ c, b.links c = some (unpackId1 arg, unpackId2 arg)) r b'
      (∃ c, b.links c = some (unpackId1 arg, unpackId2 arg) ∧ r.ret = 0 ∧
        b' = Hub.sever (b.say .server .remoteDisconnect c) c)
  | .clientUnregister arg =>
    b.Made (b.links (unpackId1 arg) ≠ none) r b'
      (r.ret = 0 ∧
        b' = (Hub.sever (b.say .client .remoteDisconnect (unpackId1 arg)) (unpackId1 arg)).resign (unpackId1 arg))
  | .serverUnregister arg =>
    b.Made (b.servers (unpackId1 arg) ≠ none) r b'
      (∃ cs : List Int, cs.Nodup ∧ (∀ c, c ∈ cs ↔ ∃ x, b.links c = some (unpackId1 arg, x)) ∧ r.ret = 0 ∧
        b' = (cs.foldl Hub.sever b).withdraw (unpackId1 arg))
  | .registerMonitor =>
    b.Made (b.serversOf t = ∅ ∧ b.clientsOf t = ∅ ∧ ∀ u p, b.parties u = some p → p.watches = false) r b'
      (r.ret = 0 ∧ b' = b.watch t)
  | .unknown => b.Refused r b'

/-- `ipc_mmap`: a client announces its connection, a server does not. -/
def ServesMmap (b : Hub) (K : Kernel) (arg : U32) (r : Reply) (b' : Hub) : Prop :=
  let mapped := ∃ frame size, r = ⟨K.remapPfnRange, .mapped frame size⟩
  match b.clients (unpackId1 arg) with
  | some _ =>
    b.Made (b.links (unpackId1 arg) ≠ none) r b' (mapped ∧ ∃ v x, b.links (unpackId1 arg) = some (v, x) ∧
      b' = if packIds (unpackId1 arg) x = packError then b else b.say .client .newConnection (unpackId1 arg))
  | none =>
    b.Made (unpackId2 arg ≠ 0 ∧ ∃ c, b.links c = some (unpackId1 arg, unpackId2 arg)) r b' (mapped ∧ b' = b)

/-- `ipc_read` of task `t`: a notification for which there is no room is lost. -/
def ServesRead (b : Hub) (t : Ptr) (count : Nat) (r : Reply) (b' : Hub) : Prop :=
  ∃ p, b.parties t = some p ∧
    if p.watches then
      b' = b ∧
        if count < sizeofStRegTasks then r.ret < 0
        else ∃ data, r = ⟨sizeofStRegTasks, .snapshot data⟩ ∧ b.Pictured data
    else
      match p.mail with
      | [] => b.Refused r b'
      | d :: _ => b' = b.take t ∧
          if count < sizeofNotificationData then r.ret < 0 else r = ⟨sizeofNotificationData, .notif d⟩

/-- `ipc_release` of a file: its task goes unless the thread behind it is gone. -/
def ServesRelease (b : Hub) (K : Kernel) (f t : Ptr) (b' : Hub) : Prop :=
  ∃ p, b.parties t = some p ∧
    if K.pidAlive p.user then
      ∃ cs : List Int, cs.Nodup ∧ (∀ c, c ∈ cs ↔ b.Touches t c) ∧ b' = (cs.foldl Hub.sever b).leave f t
    else b' = b.close f

def Serves (b : Hub) (call : Call) (r : Reply) (b' : Hub) : Prop :=
  match call.op with
  | .open =>
    b.Made (call.kernel.pidAlive call.kernel.current = true ∧ {t | b.parties t ≠ none}.encard < maxProcesses ∧
        ∀ t p, b.parties t = some p → p.user ≠ call.kernel.current) r b'
      (∃ f t, b.handles f = none ∧ b.parties t = none ∧ r = ⟨0, .filp f⟩ ∧ b' = b.enter f t call.kernel.current)
  | .ioctl f cmd =>
    match b.handles f with
    | none => b.Refused r b'
    | some t => b.ServesCmd t cmd r b'
  | .mmap f arg =>
    match b.handles f with
    | none => b.Refused r b'
    | some _ => b.ServesMmap call.kernel arg r b'
  | .read f count =>
    match b.handles f with
    | none => b.Refused r b'
    | some t => b.ServesRead t count r b'
  | .release f =>
    r.ret = 0 ∧
      match b.handles f with
      | none => b' = b
      | some t => b.ServesRelease call.kernel f t b'

end Hub

end Ripc
