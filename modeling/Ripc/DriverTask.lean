import Ripc.DriverConnection

namespace Ripc

/-- `server_create`; `readable` are the bytes from the start of the name to the end of the
structure that was copied in, where the scan for the terminator may still read. -/
def serverCreate (K : Kernel) (s : Drv) (readable : List UInt8) : Except Fault (Option Ptr × Drv) :=
  match strlen readable with
  | none => .error .overRead
  | some 0 => .ok (none, s)
  | some (_ + 1) =>
    match K.kmalloc .server s with
    | none => .ok (none, s)
    | some v =>
      let id := generateId K .server s
      .ok (some v, { id.2 with gServersList :=
        id.2.gServersList.pushBack v ⟨strscpy maxServerName (by decide) readable, id.1, none⟩ })

def clientCreate (K : Kernel) (s : Drv) : Option Ptr × Drv :=
  match K.kmalloc .client s with
  | none => (none, s)
  | some k =>
    let id := generateId K .client s
    (some k, { id.2 with gClientsList := id.2.gClientsList.pushBack k ⟨id.1, none, none⟩ })

def serverDestroy (s : Drv) (srv : Ptr) : Except Fault Drv := do
  let v ← deref s.gServersList (some srv)
  .ok (freeId { s with gServersList := s.gServersList.erase srv } v.id)

def clientDestroy (s : Drv) (cli : Ptr) : Except Fault Drv := do
  let k ← deref s.gClientsList (some cli)
  .ok (freeId { s with gClientsList := s.gClientsList.erase cli } k.id)

/-- `find_server_by_name`, entry by entry; the comparison may read only the bytes of `name`. -/
def findServerLoop (name : List UInt8) : List (Ptr × Server) → Except Fault (Option Ptr)
  | [] => .ok none
  | e :: rest =>
    match strcmpEq e.2.name.bytes name with
    | none => .error .overRead
    | some true => .ok (some e.1)
    | some false => findServerLoop name rest

def findServerByName (s : Drv) (name : List UInt8) : Except Fault (Option Ptr) :=
  findServerLoop name s.gServersList.entries

def findServerById (s : Drv) (id : Int) : Option Ptr :=
  if isIdValid id then s.gServersList.find? fun v => v.id = id else none

def findClientById (s : Drv) (id : Int) : Option Ptr :=
  if isIdValid id then s.gClientsList.find? fun k => k.id = id else none

/-- The comparison with the pid is commented out in the source. -/
def findClientByIdPid (s : Drv) (id : Int) (_pid : Int) : Option Ptr := findClientById s id

def RegTask.canAddServer (t : RegTask) : Bool := t.isMonitor = 0 ∧ t.numOfServers < maxServersPerPid

def RegTask.canAddClient (t : RegTask) : Bool := t.isMonitor = 0 ∧ t.numOfClients < maxClientsPerPid

def serverAddTask (s : Drv) (srv entry : Ptr) : Except Fault Drv := do
  let v ← deref s.gServersList (some srv)
  if v.taskP.isSome then .ok s else
  .ok { s with gServersList := s.gServersList.modify srv fun v => { v with taskP := some entry } }

def clientAddTask (s : Drv) (cli entry : Ptr) : Except Fault Drv := do
  let k ← deref s.gClientsList (some cli)
  if k.taskP.isSome then .ok s else
  .ok { s with gClientsList := s.gClientsList.modify cli fun k => { k with taskP := some entry } }

def regTaskAddServer (K : Kernel) (s : Drv) (regTask srv : Ptr) : Except Fault Drv := do
  let t ← deref s.gRegTaskList (some regTask)
  if !t.canAddServer then .ok s else
  match K.kmalloc .serversEntry s with
  | none => .ok s
  | some e =>
    let s ← serverAddTask { s with serversEntries := s.serversEntries.pushFront e ⟨regTask, srv⟩ } srv e
    .ok { s with gRegTaskList :=
      s.gRegTaskList.modify regTask fun t => { t with numOfServers := t.numOfServers + 1 } }

def regTaskAddClient (K : Kernel) (s : Drv) (regTask cli : Ptr) : Except Fault Drv := do
  let t ← deref s.gRegTaskList (some regTask)
  if !t.canAddClient then .ok s else
  match K.kmalloc .clientsEntry s with
  | none => .ok s
  | some e =>
    let s ← clientAddTask { s with clientsEntries := s.clientsEntries.pushFront e ⟨regTask, cli⟩ } cli e
    .ok { s with gRegTaskList :=
      s.gRegTaskList.modify regTask fun t => { t with numOfClients := t.numOfClients + 1 } }

def regTaskDeleteServer (s : Drv) : Option Ptr → Except Fault Drv
  | none => .ok s
  | some entry => do
    let e ← deref s.serversEntries (some entry)
    let s ← serverDestroy s e.server
    let _ ← deref s.gRegTaskList (some e.regTask)
    .ok { s with
      gRegTaskList := s.gRegTaskList.modify e.regTask fun t =>
        { t with numOfServers := t.numOfServers - 1 }
      serversEntries := s.serversEntries.erase entry }

def regTaskDeleteClient (s : Drv) : Option Ptr → Except Fault Drv
  | none => .ok s
  | some entry => do
    let e ← deref s.clientsEntries (some entry)
    let s ← clientDestroy s e.client
    let _ ← deref s.gRegTaskList (some e.regTask)
    .ok { s with
      gRegTaskList := s.gRegTaskList.modify e.regTask fun t =>
        { t with numOfClients := t.numOfClients - 1 }
      clientsEntries := s.clientsEntries.erase entry }

def Drv.serversOf (s : Drv) (regTask : Ptr) : List (Ptr × ServersList) :=
  s.serversEntries.entries.filter fun e => e.2.regTask = regTask

def Drv.clientsOf (s : Drv) (regTask : Ptr) : List (Ptr × ClientsList) :=
  s.clientsEntries.entries.filter fun e => e.2.regTask = regTask

def regTaskCanAddTask (s : Drv) : Bool := s.gRegTaskCount < maxProcesses

def regTaskFindByTaskStruct (K : Kernel) (s : Drv) (task : TaskStruct) : Option Ptr :=
  if K.pidAlive task then s.gRegTaskList.find? fun t => t.taskP = task else none

def regTaskCreate (K : Kernel) (s : Drv) : Option Ptr × Drv :=
  if !K.pidAlive K.current then (none, s)
  else if (regTaskFindByTaskStruct K s K.current).isSome then (none, s)
  else match K.kmalloc .regTask s with
    | none => (none, s)
    | some t => (some t, { s with
        gRegTaskList := s.gRegTaskList.pushFront t ⟨K.current, 0, [], 0, 0, 0⟩
        gRegTaskCount := s.gRegTaskCount + 1 })

/-- One of the four loops of `reg_task_delete`: the body runs on each entry of a list. -/
def forEachEntry (body : Drv → Ptr → Except Fault Drv) : List Ptr → Drv → Except Fault Drv
  | [], s => .ok s
  | e :: rest, s => do forEachEntry body rest (← body s e)

def regTaskDelete (K : Kernel) (s : Drv) (regTask : Ptr) : Except Fault Drv := do
  let t ← deref s.gRegTaskList (some regTask)
  if !K.pidAlive t.taskP then .ok s else
  let s ← forEachEntry (fun s e => do
    serverCleanupConnections K s (← deref s.serversEntries (some e)).server)
    ((s.serversOf regTask).map Prod.fst) s
  let s ← forEachEntry (fun s e => do
    clientCleanupConnection K s (← deref s.clientsEntries (some e)).client)
    ((s.clientsOf regTask).map Prod.fst) s
  let s ← forEachEntry (fun s e => regTaskDeleteServer s (some e)) ((s.serversOf regTask).map Prod.fst) s
  let s ← forEachEntry (fun s e => regTaskDeleteClient s (some e)) ((s.clientsOf regTask).map Prod.fst) s
  .ok { s with
    gRegTaskList := s.gRegTaskList.erase regTask
    gRegTaskCount := s.gRegTaskCount - 1 }

def regTaskSetMonitor (s : Drv) (regTask : Ptr) : Except Fault (Int × Drv) := do
  let t ← deref s.gRegTaskList (some regTask)
  if t.numOfClients > 0 ∨ t.numOfServers > 0 then .ok (-EFAULT, s)
  else if (s.gRegTaskList.find? fun t => t.isMonitor ≠ 0).isSome then .ok (-EEXIST, s)
  else .ok (0, { s with gRegTaskList :=
    s.gRegTaskList.modify regTask fun t => { t with isMonitor := t.isMonitor + 1 } })

end Ripc
