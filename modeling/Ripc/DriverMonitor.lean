import Ripc.DriverTask

namespace Ripc

/-- Writing an array member; an index past the array is outside the structure. -/
def writeAt {α : Type} {n : Nat} (xs : Fin n → α) (i : Nat) (a : α) : Except Fault (Fin n → α) :=
  if i < n then .ok fun j => if j.val = i then a else xs j else .error .outOfBounds

/-- Reading an array member. -/
def readAt {α : Type} {n : Nat} (xs : Fin n → α) (i : Nat) : Except Fault α :=
  if h : i < n then .ok (xs ⟨i, h⟩) else .error .outOfBounds

def clientGetData (s : Drv) (cli : Ptr) : Except Fault StClient := do
  let k ← deref s.gClientsList (some cli)
  match k.connP with
  | none => .ok ⟨k.id, -1⟩
  | some p =>
    let c ← deref s.gConnsList (some p)
    match c.serverP with
    | none => .ok ⟨k.id, -1⟩
    | some v => return ⟨k.id, (← deref s.gServersList (some v)).id⟩

/-- `strncpy` of a terminated name: the rest of the array is filled with zeros. -/
def nameBytes (name : CString maxServerName) : Fin maxServerName → UInt8 :=
  fun i => (name.chars[i.val]?).getD 0

/-- The loop over `connection_list`; it stops early at the capacity of `conn_ids`. -/
def connIdsLoop (s : Drv) : List (Ptr × ServConnList) → Nat → (Fin maxClientsPerServer → Int) →
    Except Fault (Nat × (Fin maxClientsPerServer → Int))
  | [], n, ids => .ok (n, ids)
  | e :: rest, n, ids => do
    let c ← deref s.gConnsList (some e.2.conn)
    match c.clientP with
    | none => .ok (n, ids)
    | some k =>
      if n ≥ maxClientsPerServer then .ok (n, ids) else
      let cli ← deref s.gClientsList (some k)
      connIdsLoop s rest (n + 1) (← writeAt ids n cli.id)

def serverGetData (s : Drv) (srv : Ptr) (dest : StServer) : Except Fault StServer := do
  let v ← deref s.gServersList (some srv)
  let (n, ids) ← connIdsLoop s (s.connectionList srv) 0 dest.connIds
  .ok ⟨v.id, nameBytes v.name, ids, n⟩

def serversDataLoop (s : Drv) : List (Ptr × ServersList) → Nat → (Fin maxServersPerPid → StServer) →
    Except Fault (Nat × (Fin maxServersPerPid → StServer))
  | [], n, dest => .ok (n, dest)
  | e :: rest, n, dest => do
    let data ← serverGetData s e.2.server (← readAt dest n)
    serversDataLoop s rest (n + 1) (← writeAt dest n data)

def clientsDataLoop (s : Drv) : List (Ptr × ClientsList) → Nat → (Fin maxClientsPerPid → StClient) →
    Except Fault (Nat × (Fin maxClientsPerPid → StClient))
  | [], n, dest => .ok (n, dest)
  | e :: rest, n, dest => do
    let data ← clientGetData s e.2.client
    clientsDataLoop s rest (n + 1) (← writeAt dest n data)

/-- The counters are overwritten, and so many places of the arrays; the others stay as `dest` had them. -/
def taskGetData (s : Drv) (e : Ptr × RegTask) (dest : StTask) : Except Fault StTask := do
  let (nServers, servers) ← serversDataLoop s (s.serversOf e.1) 0 dest.servers
  let (nClients, clients) ← clientsDataLoop s (s.clientsOf e.1) 0 dest.clients
  .ok ⟨e.2.taskP.pid, clients, servers, nClients, nServers⟩

def tasksDataLoop (s : Drv) : List (Ptr × RegTask) → Nat → (Fin maxProcesses → StTask) →
    Except Fault (Nat × (Fin maxProcesses → StTask))
  | [], n, dest => .ok (n, dest)
  | e :: rest, n, dest => do
    if n ≥ maxProcesses then .ok (n, dest) else
    let data ← taskGetData s e (← readAt dest n)
    tasksDataLoop s rest (n + 1) (← writeAt dest n data)

def regTaskGetData (s : Drv) (regTasks : StRegTasks) : Except Fault StRegTasks := do
  let (n, tasks) ← tasksDataLoop s s.gRegTaskList.entries 0 regTasks.tasks
  .ok ⟨tasks, n⟩

end Ripc
