import Ripc.DriverCalls
import Ripc.Trace

namespace Ripc

def Drv.openTask (s : Drv) (filp t : Ptr) (task : TaskStruct) : Drv :=
  { s with
    files := s.files.pushFront filp t
    gRegTaskList := s.gRegTaskList.pushFront t ⟨task, 0, [], 0, 0, 0⟩
    gRegTaskCount := s.gRegTaskCount + 1 }

def Drv.closeTask (s : Drv) (filp t : Ptr) : Drv :=
  { s with
    files := s.files.erase filp
    gRegTaskList := s.gRegTaskList.erase t
    gRegTaskCount := s.gRegTaskCount - 1 }

def Drv.addServer (s : Drv) (v : Ptr) (name : CString maxServerName) (id : Int) : Drv :=
  { s.takeId id with gServersList := s.gServersList.pushBack v ⟨name, id, none⟩ }

def Drv.addClient (s : Drv) (k : Ptr) (id : Int) : Drv :=
  { s.takeId id with gClientsList := s.gClientsList.pushBack k ⟨id, none, none⟩ }

def Drv.attachServer (s : Drv) (v e t : Ptr) : Drv :=
  { s with
    serversEntries := s.serversEntries.pushFront e ⟨t, v⟩
    gServersList := s.gServersList.modify v fun srv => { srv with taskP := some e }
    gRegTaskList := s.gRegTaskList.modify t fun t => { t with numOfServers := t.numOfServers + 1 } }

def Drv.attachClient (s : Drv) (k e t : Ptr) : Drv :=
  { s with
    clientsEntries := s.clientsEntries.pushFront e ⟨t, k⟩
    gClientsList := s.gClientsList.modify k fun cli => { cli with taskP := some e }
    gRegTaskList := s.gRegTaskList.modify t fun t => { t with numOfClients := t.numOfClients + 1 } }

def Drv.dropServer (s : Drv) (e : Ptr) (x : ServersList) (id : Int) : Drv :=
  { freeId s id with
    gServersList := s.gServersList.erase x.server
    gRegTaskList := s.gRegTaskList.modify x.regTask fun t => { t with numOfServers := t.numOfServers - 1 }
    serversEntries := s.serversEntries.erase e }

def Drv.dropClient (s : Drv) (e : Ptr) (x : ClientsList) (id : Int) : Drv :=
  { freeId s id with
    gClientsList := s.gClientsList.erase x.client
    gRegTaskList := s.gRegTaskList.modify x.regTask fun t => { t with numOfClients := t.numOfClients - 1 }
    clientsEntries := s.clientsEntries.erase e }

def Drv.takeIds (s : Drv) (ids : List Int) : Drv := ids.foldl Drv.takeId s

/-- The ids of a pool in the order in which `shm_create` asks for them. -/
def Shm.ids (shm : Shm) : List Int := (List.ofFn fun i => (shm.subMems i).id) ++ [shm.id]

def Drv.addPool (s : Drv) (p : Ptr) (shm : Shm) : Drv :=
  { s.takeIds shm.ids with gShmList := s.gShmList.pushFront p shm }

/-- A new connection; without `e` the server's list has no entry for it. -/
def Drv.link (s : Drv) (p k v : Ptr) (m : SubMemPtr) (e : Option Ptr) : Drv :=
  { s.setSubMem m (fun sub => { sub with connP := some p }) with
    gConnsList := s.gConnsList.pushBack p ⟨some k, some v, some m, false⟩
    gClientsList := s.gClientsList.modify k fun cli => { cli with connP := some p }
    servConns := e.elim s.servConns fun e => s.servConns.pushFront e ⟨p, v⟩ }

/-- A pointer field once nothing may refer to `p` any more. -/
def forget (p : Ptr) (o : Option Ptr) : Option Ptr := if o = some p then none else o

/-- A connection disappears from every place that can refer to it. -/
def Drv.unlink (s : Drv) (p : Ptr) : Drv :=
  { s with
    gConnsList := s.gConnsList.erase p
    gClientsList := s.gClientsList.mapAt fun _ cli =>
      { cli with connP := forget p cli.connP }
    gShmList := s.gShmList.mapAt fun _ shm => { shm with subMems := fun i =>
      { shm.subMems i with connP := forget p (shm.subMems i).connP } }
    servConns := s.servConns.filterAt fun _ x => x.conn ≠ p }

def Drv.enqueueAll (s : Drv) (ds : List (Ptr × NotificationData)) : Drv :=
  ds.foldl (fun s x => s.enqueue x.1 x.2) s

/-- A change after which the links are whole again. Every call is a sequence of them. -/
inductive Event
  | openTask (filp t : Ptr) (task : TaskStruct)
  | closeTask (filp t : Ptr)
  | closeFile (filp : Ptr)
  | setMonitor (t : Ptr)
  | dequeue (t : Ptr)
  | addServer (v : Ptr) (name : CString maxServerName) (id : Int) (owner : Option (Ptr × Ptr))
  | addClient (k : Ptr) (id : Int) (owner : Option (Ptr × Ptr))
  | dropServer (e : Ptr) (x : ServersList) (id : Int)
  | dropClient (e : Ptr) (x : ClientsList) (id : Int)
  | addPool (p : Ptr) (shm : Shm)
  | link (p k v : Ptr) (m : SubMemPtr) (e : Option Ptr)
  | mmaped (p : Ptr)
  | post (p t : Ptr) (d : NotificationData)
  | teardown (p : Ptr) (ds : List (Ptr × NotificationData))

def Drv.apply (s : Drv) : Event → Drv
  | .openTask filp t task => s.openTask filp t task
  | .closeTask filp t => s.closeTask filp t
  | .closeFile filp => { s with files := s.files.erase filp }
  | .setMonitor t =>
    { s with gRegTaskList := s.gRegTaskList.modify t fun t => { t with isMonitor := t.isMonitor + 1 } }
  | .dequeue t => { s with gRegTaskList := s.gRegTaskList.modify t RegTask.dequeue }
  | .addServer v name id owner =>
    owner.elim (s.addServer v name id) fun o => (s.addServer v name id).attachServer v o.1 o.2
  | .addClient k id owner =>
    owner.elim (s.addClient k id) fun o => (s.addClient k id).attachClient k o.1 o.2
  | .dropServer e x id => s.dropServer e x id
  | .dropClient e x id => s.dropClient e x id
  | .addPool p shm => s.addPool p shm
  | .link p k v m e => s.link p k v m e
  | .mmaped p =>
    { s with gConnsList := s.gConnsList.modify p fun c => { c with servMmaped := true } }
  | .post _ t d => s.enqueue t d
  | .teardown p ds => (s.enqueueAll ds).unlink p

/-- The notification `d` about connection `p` belongs on the queue of task `t`. -/
inductive Posts (s : Drv) (p : Ptr) (d : NotificationData) (t : Ptr) : Prop
  | toServer {c m sub k cli v srv e x} (conn : s.gConnsList.get? p = some c)
      (mem : c.memP = some m) (subMem : s.subMem? m = some sub) (subId : d.subMemId = sub.id)
      (clientP : c.clientP = some k) (client : s.gClientsList.get? k = some cli)
      (serverP : c.serverP = some v) (server : s.gServersList.get? v = some srv)
      (entryP : srv.taskP = some e) (entry : s.serversEntries.get? e = some x)
      (who : d.whoSends = .client) (sender : d.senderId = cli.id) (reciver : d.reciverId = srv.id)
      (task : x.regTask = t) (live : t ∈ s.gRegTaskList.keys)
  | toClient {c m sub k cli v srv e x} (conn : s.gConnsList.get? p = some c)
      (mem : c.memP = some m) (subMem : s.subMem? m = some sub) (subId : d.subMemId = sub.id)
      (clientP : c.clientP = some k) (client : s.gClientsList.get? k = some cli)
      (serverP : c.serverP = some v) (server : s.gServersList.get? v = some srv)
      (entryP : cli.taskP = some e) (entry : s.clientsEntries.get? e = some x)
      (who : d.whoSends = .server) (sender : d.senderId = srv.id) (reciver : d.reciverId = cli.id)
      (task : x.regTask = t) (live : t ∈ s.gRegTaskList.keys)

/-- Ids that the generator may answer one after another. -/
def FreshIds : List Int → List Int → Prop
  | _, [] => True
  | used, id :: ids => (0 ≤ id → id ≤ maxIdValue ∧ id ∉ used) ∧
      FreshIds (if id < 0 then used else id :: used) ids

/-- What `shm_create` makes of a block of pages. -/
def PoolOf (pages : Nat) (shm : Shm) : Prop :=
  shm.pages = pages ∧ ∀ i, (shm.subMems i).pages = pages + i * shmRegionPageNumber ∧
    (shm.subMems i).size = shmRegionPageSize ∧ (shm.subMems i).connP = none

/-- The first slot of a pool that no connection uses. -/
def FirstFree (s : Drv) (m : SubMemPtr) : Prop := findFreeSubmem s = some m

/-- What holds where a call performs an event. -/
def Event.Ok (s : Drv) : Event → Prop
  | .openTask filp t _ => filp ∉ s.files.keys ∧ t ∉ s.gRegTaskList.keys
  | .closeTask filp t => s.files.get? filp = some t ∧
      (∀ e x, s.serversEntries.get? e = some x → x.regTask ≠ t) ∧
      (∀ e x, s.clientsEntries.get? e = some x → x.regTask ≠ t)
  | .closeFile _ => True
  | .setMonitor _ => True
  | .dequeue t => ∃ task d ds, s.gRegTaskList.get? t = some task ∧ task.notifList = d :: ds
  | .addServer v _ id owner => v ∉ s.gServersList.keys ∧ FreshIds s.gIdGen [id] ∧
      ∀ o ∈ owner, o.1 ∉ s.serversEntries.keys ∧ o.2 ∈ s.gRegTaskList.keys
  | .addClient k id owner => k ∉ s.gClientsList.keys ∧ FreshIds s.gIdGen [id] ∧
      ∀ o ∈ owner, o.1 ∉ s.clientsEntries.keys ∧ o.2 ∈ s.gRegTaskList.keys
  | .dropServer e x id => s.serversEntries.get? e = some x ∧
      (∃ srv, s.gServersList.get? x.server = some srv ∧ srv.id = id) ∧
      ∀ f y, s.servConns.get? f = some y → y.server ≠ x.server
  | .dropClient e x id => s.clientsEntries.get? e = some x ∧
      ∃ cli, s.gClientsList.get? x.client = some cli ∧ cli.id = id ∧ cli.connP = none
  | .addPool p shm => p ∉ s.gShmList.keys ∧ findFreeSubmem s = none ∧ FreshIds s.gIdGen shm.ids ∧
      PoolOf shm.pages shm ∧ ∀ block ∈ s.pageBlocks,
        shm.pages + 2 ^ shmRegionOrder ≤ block.1 ∨ block.1 + 2 ^ block.2 ≤ shm.pages
  | .link p k v m e => p ∉ s.gConnsList.keys ∧
      (∃ cli, s.gClientsList.get? k = some cli ∧ cli.connP = none) ∧ v ∈ s.gServersList.keys ∧
      FirstFree s m ∧ ∀ a ∈ e, a ∉ s.servConns.keys
  | .mmaped _ => True
  | .post p t d => Posts s p d t ∧ d.type ≠ .remoteDisconnect
  | .teardown p ds => p ∈ s.gConnsList.keys ∧ ∀ x ∈ ds, Posts s p x.2 x.1 ∧ x.2.type = .remoteDisconnect

/-- Nothing was left out for want of memory or of a successful copy. -/
def Event.Complete : Event → Prop
  | .addServer _ _ _ owner => owner ≠ none
  | .addClient _ _ owner => owner ≠ none
  | .link _ _ _ _ e => e ≠ none
  | _ => True

def Drv.event (s : Drv) (ev : Event) (s' : Drv) : Prop := ev.Ok s ∧ s' = s.apply ev

end Ripc
