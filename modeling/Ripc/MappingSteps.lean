import Ripc.DriverPages
import Ripc.EntityManager
import Mathlib.Logic.Function.Basic

namespace Ripc

/-- The value of `m_addr`. -/
inductive MemAddr
  | null
  | mapFailed
  | at (a : Nat)
  deriving DecidableEq, Repr

/-- Where a call of `Memory::unmap` stands: the access that is next. -/
inductive UnmapPc
  | testMapped
  | testAddr
  | loadAddr
  | munmap (addr : MemAddr)
  | clearMapped
  deriving DecidableEq, Repr

/-- Where the thread stands that calls the interface of the client. -/
inductive ApiPc
  | idle
  /-- `connect`: `IOCTL_CONNECT_TO_SERVER` has succeeded. -/
  | requested (serverName : List UInt8)
  /-- `connect`: the memory was found not mapped. -/
  | mapping (serverName : List UInt8)
  /-- `connect`: `mmap` has returned. -/
  | recording (serverName : List UInt8) (addr : MemAddr)
  /-- `connect`: the address is set, the flag is next. -/
  | flagging (serverName : List UInt8)
  /-- `connect`: only the name is left to be set. -/
  | naming (serverName : List UInt8)
  /-- `disconnect`: the client was found connected. -/
  | disconnecting
  /-- `disconnect`: `IOCTL_CLIENT_DISCONNECT` has succeeded. -/
  | disconnected
  | unmapping (pc : UnmapPc)
  deriving DecidableEq, Repr

/-- Where the listener stands with a `REMOTE_DISCONNECT` for the client. -/
inductive ListenerPc
  | idle
  | testConnected
  | testMapped
  | clearing
  | unmapping (pc : UnmapPc)
  deriving DecidableEq, Repr

/-- The client beside the driver. `space` tells the page frame that is mapped at an address; `made` is the connection
that the client's last successful request made, as long as the driver has it, and `announced` whether a
`NEW_CONNECTION` for it has been queued for its server. -/
structure Mapping where
  drv : Drv
  space : Nat → Option Nat
  connectedServerName : List UInt8
  addr : MemAddr
  isMapped : Bool
  api : ApiPc
  listener : ListenerPc
  made : Option Ptr
  announced : Bool

inductive MappingMove
  | connect (K : Kernel) (serverName : List UInt8)
  | disconnect
  /-- The thread in the interface goes on; an `mmap` gets the address `place`, or fails for want of one, and a
  `munmap` of an address succeeds or not. -/
  | proceed (K : Kernel) (place : Option Nat) (munmap : Bool)
  | read (K : Kernel)
  /-- The listener goes on. -/
  | listen (munmap : Bool)
  | other (call : Call)

def ApiPc.connecting : ApiPc → Bool
  | .requested _ | .mapping _ | .recording _ _ | .flagging _ | .naming _ => true
  | _ => false

/-- A notification that the listener hands to `dispatchRemoteDisconnect` of the client. -/
def NotificationData.disconnects (ntf : NotificationData) (id : Int) : Bool :=
  isIdValid ntf.reciverId ∧ isIdValid ntf.subMemId ∧ isIdValid ntf.senderId ∧ ntf.whoSends = .server ∧
    ntf.reciverId = id ∧ ntf.type = .remoteDisconnect

namespace Mapping

def start (drv : Drv) : Mapping := ⟨drv, fun _ => none, [], .null, false, .idle, .idle, none, false⟩

/-- One access of `Memory::unmap`; it is over where nothing is next. -/
def unmap (m : Mapping) (ok : Bool) : UnmapPc → Option UnmapPc × Mapping
  | .testMapped => (if m.isMapped then some .testAddr else none, m)
  | .testAddr => (if m.addr = .null then none else some .loadAddr, m)
  | .loadAddr => (some (.munmap m.addr), m)
  | .munmap (.at a) =>
    if ok then (some .clearMapped, { m with space := Function.update m.space a none }) else (none, m)
  -- `MAP_FAILED` is the address of no page
  | .munmap _ => (none, m)
  | .clearMapped => (none, { m with isMapped := false })

section

variable (fd : Ptr) (id : Nat)

/-- A driver call, whoever makes it. Nothing both tears a connection down and makes one, so a connection that
the client still has is the same one. -/
def driver (m : Mapping) (call : Call) : Option (Reply × Mapping) :=
  match step m.drv call with
  | .error _ => none
  | .ok (r, drv) => some (r, { m with
      drv
      made := m.made.filter fun q => drv.connOf id = some q
      announced := m.announced || m.made.any fun q => m.drv.announces drv q })

def connect (m : Mapping) (K : Kernel) (serverName : List UInt8) : Option Mapping :=
  if serverName = [] ∨ maxServerName ≤ serverName.length then some m else
  (m.driver id ⟨K, .ioctl fd (.connectToServer ⟨id, Process.nameField serverName⟩)⟩).map fun (r, m) =>
    if r.ret < 0 then m else
    { m with api := .requested serverName, made := m.drv.connOf id, announced := false }

def disconnect (m : Mapping) : Mapping :=
  { m with api := if m.connectedServerName = [] then .idle else .disconnecting }

/-- `::mmap` with no address asked for: the kernel takes one at which nothing is mapped, and then calls the driver. -/
def mmap (m : Mapping) (K : Kernel) : Option Nat → Option (MemAddr × Mapping)
  | none => some (.mapFailed, m)
  | some a =>
    if m.space a ≠ none then none else
    (m.driver id ⟨K, .mmap fd (packIds id 0)⟩).map fun (r, m) =>
      match r.frame with
      | none => (.mapFailed, m)
      | some frame => (.at a, { m with space := Function.update m.space a (some frame) })

def proceed (m : Mapping) (K : Kernel) (place : Option Nat) (munmap : Bool) : Option Mapping :=
  match m.api with
  | .idle => none
  | .requested name => some { m with api := if m.isMapped then .naming name else .mapping name }
  | .mapping name =>
    if packIds id 0 = packError then some { m with api := .naming name } else
    (m.mmap fd id K place).map fun (addr, m) => { m with api := .recording name addr }
  | .recording name addr => some { m with addr, api := .flagging name }
  | .flagging name => some { m with isMapped := true, api := .naming name }
  | .naming name => some { m with connectedServerName := name, api := .idle }
  | .disconnecting =>
    (m.driver id ⟨K, .ioctl fd (.clientDisconnect (packIds id 0))⟩).map fun (r, m) =>
      { m with api := if r.ret < 0 then .idle else .disconnected }
  | .disconnected => some { m with connectedServerName := [], api := .unmapping .testMapped }
  | .unmapping pc =>
    let done := m.unmap munmap pc
    some { done.2 with api := done.1.elim .idle .unmapping }

def read (m : Mapping) (K : Kernel) : Option Mapping :=
  (m.driver id ⟨K, .read fd sizeofNotificationData⟩).map fun (r, m) =>
    match r.out with
    | .notif ntf => { m with listener := if ntf.disconnects id then .testConnected else .idle }
    | _ => m

def listen (m : Mapping) (munmap : Bool) : Option Mapping :=
  match m.listener with
  | .idle => none
  | .testConnected => some { m with listener := if m.connectedServerName = [] then .idle else .testMapped }
  | .testMapped => some { m with listener := if m.isMapped then .clearing else .idle }
  | .clearing => some { m with connectedServerName := [], listener := .unmapping .testMapped }
  | .unmapping pc =>
    let done := m.unmap munmap pc
    some { done.2 with listener := done.1.elim .idle .unmapping }

/-- A thread begins something only when it is idle, and nobody closes the file of the process. -/
def act (m : Mapping) : MappingMove → Option Mapping
  | .connect K serverName => if m.api = .idle then m.connect fd id K serverName else none
  | .disconnect => if m.api = .idle then some m.disconnect else none
  | .proceed K place munmap => m.proceed fd id K place munmap
  | .read K => if m.listener = .idle then m.read fd id K else none
  | .listen munmap => m.listen munmap
  | .other call =>
    match call.op with
    | .release f => if f = fd then none else (m.driver id call).map Prod.snd
    | _ => (m.driver id call).map Prod.snd

end

/-- The page that is mapped at the address is that of the connection, and the connection's server was told of it. -/
def Holds (m : Mapping) (q : Ptr) (addr : MemAddr) : Prop :=
  (∃ a page, addr = .at a ∧ m.space a = some page ∧ m.drv.pageOf q = some page) ∧ m.announced = true

/-- The memory of a client that has returned from `connect` is that of its connection, as long as the driver has
this connection. -/
def Agrees (m : Mapping) : Prop := ∀ q, m.made = some q → m.api.connecting = false → m.Holds q m.addr

end Mapping

end Ripc
