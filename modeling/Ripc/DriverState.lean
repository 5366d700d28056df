import Ripc.Table
import Ripc.CString
import Mathlib.Data.Fintype.Basic
import Mathlib.Algebra.Group.Nat.Defs

namespace Ripc

abbrev Ptr := Nat

def pageSize : Nat := 4096
def maxServerName : Nat := 64
def shmRegionOrder : Nat := 0
def shmRegionPageNumber : Nat := 2 ^ shmRegionOrder
def shmRegionPageSize : Nat := shmRegionPageNumber * pageSize
def shmPoolSize : Nat := 4
def shmPoolPageNumber : Nat := shmPoolSize * shmRegionPageNumber
def shmPoolByteSize : Nat := shmRegionPageSize * shmPoolSize
def maxProcesses : Nat := 16
def maxServersPerPid : Nat := 16
def maxClientsPerServer : Nat := 16
def maxClientsPerPid : Nat := 16
def maxIdValue : Int := 65535

def ENOENT : Int := 2
def EBADF : Int := 9
def ENOMEM : Int := 12
def EFAULT : Int := 14
def EEXIST : Int := 17
def EINVAL : Int := 22
def ENFILE : Int := 23
def ENOTTY : Int := 25
def ENOSPC : Int := 28
def ENODATA : Int := 61
def EMSGSIZE : Int := 90
def ENOPARAM : Int := 519

/-- What stops a call in the middle: the kernel cannot go on from here. -/
inductive Fault
  | nullDeref
  | useAfterFree
  | overRead
  | outOfBounds
  deriving DecidableEq, Repr

structure TaskStruct where
  addr : Ptr
  pid : Int
  deriving DecidableEq, Repr

inductive NotifSender
  | server
  | client
  deriving DecidableEq, Repr

inductive NotifType
  | newConnection
  | newMessage
  | remoteDisconnect
  deriving DecidableEq, Repr

structure NotificationData where
  whoSends : NotifSender
  type : NotifType
  subMemId : Int
  senderId : Int
  reciverId : Int
  deriving DecidableEq, Repr

/-- A `struct sub_mem_t *`: a slot of the array inside its pool. -/
structure SubMemPtr where
  shm : Ptr
  slot : Fin shmPoolSize
  deriving DecidableEq, Repr

/-- `pages` is the page frame that `m_pages_p` describes. -/
structure SubMem where
  id : Int
  pages : Nat
  size : Nat
  connP : Option Ptr
  deriving DecidableEq, Repr

structure Shm where
  id : Int
  numOfPages : Nat
  pages : Nat
  size : Nat
  subMems : Fin shmPoolSize → SubMem

structure Connection where
  clientP : Option Ptr
  serverP : Option Ptr
  memP : Option SubMemPtr
  servMmaped : Bool
  deriving DecidableEq, Repr

structure Client where
  id : Int
  taskP : Option Ptr
  connP : Option Ptr
  deriving DecidableEq, Repr

structure Server where
  name : CString maxServerName
  id : Int
  taskP : Option Ptr
  deriving DecidableEq

/-- `servers_list_t`: linked on the `m_servers` list of its `regTask` for its whole life. -/
structure ServersList where
  regTask : Ptr
  server : Ptr
  deriving DecidableEq, Repr

/-- `clients_list_t`: linked on the `m_clients` list of its `regTask` for its whole life. -/
structure ClientsList where
  regTask : Ptr
  client : Ptr
  deriving DecidableEq, Repr

/-- `serv_conn_list_t`: `server` is the server on whose `connection_list` it is linked. -/
structure ServConnList where
  conn : Ptr
  server : Ptr
  deriving DecidableEq, Repr

structure RegTask where
  taskP : TaskStruct
  isMonitor : Int
  notifList : List NotificationData
  numOfNotif : Int
  numOfServers : Int
  numOfClients : Int
  deriving DecidableEq, Repr

/-- The driver's memory. A global list owns its objects, so it is also the set of the live ones;
the three entry tables hold the list nodes that link objects to tasks and servers. -/
structure Drv where
  files : Table Ptr
  gRegTaskList : Table RegTask
  gRegTaskCount : Int
  gServersList : Table Server
  gClientsList : Table Client
  gConnsList : Table Connection
  gShmList : Table Shm
  gIdGen : List Int
  serversEntries : Table ServersList
  clientsEntries : Table ClientsList
  servConns : Table ServConnList

def Drv.init : Drv where
  files := .empty
  gRegTaskList := .empty
  gRegTaskCount := 0
  gServersList := .empty
  gClientsList := .empty
  gConnsList := .empty
  gShmList := .empty
  gIdGen := []
  serversEntries := .empty
  clientsEntries := .empty
  servConns := .empty

structure StClient where
  id : Int
  srvId : Int
  deriving DecidableEq

structure StServer where
  id : Int
  name : Fin maxServerName → UInt8
  connIds : Fin maxClientsPerServer → Int
  connCount : Int

structure StTask where
  pid : Int
  clients : Fin maxClientsPerPid → StClient
  servers : Fin maxServersPerPid → StServer
  clientsCount : Int
  serversCount : Int

structure StRegTasks where
  tasks : Fin maxProcesses → StTask
  tasksCount : Int

/-- The places that call `kmalloc`; `filp` is the file that the kernel opens for the caller. -/
inductive Site
  | filp
  | regTask
  | server
  | client
  | serversEntry
  | clientsEntry
  | shm
  | conn
  | servConn
  | notif (sender : NotifSender)
  | snapshot
  deriving DecidableEq

/-- The places that call `generate_id`. -/
inductive IdSite
  | server
  | client
  | subMem (slot : Nat)
  | shm
  deriving DecidableEq

/-- Addresses of the live objects of the kind that a site allocates. -/
def Drv.live (s : Drv) : Site → List Ptr
  | .filp => s.files.keys
  | .regTask => s.gRegTaskList.keys
  | .server => s.gServersList.keys
  | .client => s.gClientsList.keys
  | .serversEntry => s.serversEntries.keys
  | .clientsEntry => s.clientsEntries.keys
  | .shm => s.gShmList.keys
  | .conn => s.gConnsList.keys
  | .servConn => s.servConns.keys
  | .notif _ | .snapshot => []

/-- Blocks of pages still allocated: first frame and order. -/
def Drv.pageBlocks (s : Drv) : List (Nat × Nat) :=
  s.gShmList.entries.map fun e => (e.2.pages, shmRegionOrder)

/-- The kernel as one call sees it. Every service may answer according to the state it finds,
so any outcome of an allocation or of an id request is some kernel's answer. -/
structure Kernel where
  current : TaskStruct
  pidAlive : TaskStruct → Bool
  copyFromUser : Bool
  copyToUser : Bool
  kmalloc : Site → Drv → Option Ptr
  allocPages : Nat → Drv → Option Nat
  idaAllocRange : IdSite → List Int → Int
  remapPfnRange : Int
  garbage : StRegTasks
  kmalloc_fresh : ∀ site s p, kmalloc site s = some p → p ∉ s.live site
  allocPages_disjoint : ∀ order s pfn, allocPages order s = some pfn →
    ∀ block ∈ s.pageBlocks, pfn + 2 ^ order ≤ block.1 ∨ block.1 + 2 ^ block.2 ≤ pfn
  idaAllocRange_ok : ∀ site used, 0 ≤ idaAllocRange site used →
    idaAllocRange site used ≤ maxIdValue ∧ idaAllocRange site used ∉ used

/-- Reading through a pointer. -/
def deref {α : Type} (t : Table α) : Option Ptr → Except Fault α
  | none => .error .nullDeref
  | some p =>
    match t.get? p with
    | none => .error .useAfterFree
    | some a => .ok a

def subMemAt (pools : Table Shm) (m : SubMemPtr) : Option SubMem :=
  (pools.get? m.shm).map fun shm => shm.subMems m.slot

def Drv.subMem? (s : Drv) (m : SubMemPtr) : Option SubMem := subMemAt s.gShmList m

def Drv.setSubMem (s : Drv) (m : SubMemPtr) (f : SubMem → SubMem) : Drv :=
  { s with gShmList := s.gShmList.modify m.shm fun shm =>
      { shm with subMems := fun i => if i = m.slot then f (shm.subMems i) else shm.subMems i } }

def derefSubMem (s : Drv) (m : SubMemPtr) : Except Fault SubMem :=
  match s.subMem? m with
  | none => .error .useAfterFree
  | some sub => .ok sub

def isIdValid (id : Int) : Bool := 0 ≤ id ∧ id ≤ maxIdValue

end Ripc
