import Ripc.DriverNotif

namespace Ripc

def createConnection (K : Kernel) (s : Drv) (client server : Ptr) (mem : Option SubMemPtr) :
    Option Ptr × Drv :=
  match mem with
  | none => (none, s)
  | some m =>
    match K.kmalloc .conn s with
    | none => (none, s)
    | some con => (some con,
        { s with gConnsList := s.gConnsList.pushBack con ⟨some client, some server, some m, false⟩ })

def clientAddConnection (s : Drv) (cli con : Ptr) : Except Fault Drv := do
  let c ← deref s.gClientsList (some cli)
  if c.connP.isSome then .ok s else
  .ok { s with gClientsList := s.gClientsList.modify cli fun c => { c with connP := some con } }

def serverAddConnection (K : Kernel) (s : Drv) (srv con : Ptr) : Except Fault Drv := do
  let _ ← deref s.gServersList (some srv)
  match K.kmalloc .servConn s with
  | none => .ok s
  | some e => .ok { s with servConns := s.servConns.pushFront e ⟨con, srv⟩ }

def connectClientToServer (K : Kernel) (s : Drv) (server client : Ptr) : Except Fault (Int × Drv) := do
  let (sub, s) ← getFreeSubmem K s
  let (con, s) := createConnection K s client server sub
  match sub, con with
  | some sub, some con =>
    let s ← clientAddConnection s client con
    let s := submemAddConnection s sub con
    let s ← serverAddConnection K s server con
    .ok (0, s)
  | _, _ => .ok (-ENOMEM, s)

/-- `connection_list` of a server: its entries and their connections. -/
def Drv.connectionList (s : Drv) (srv : Ptr) : List (Ptr × ServConnList) :=
  s.servConns.entries.filter fun e => e.2.server = srv

def serverFindConn (s : Drv) (srv con : Ptr) : Option Ptr :=
  ((s.connectionList srv).find? fun e => e.2.conn = con).map Prod.fst

/-- The loop of `server_find_conn_by_sub_mem_id`. -/
def findConnLoop (s : Drv) (subMemId : Int) : List (Ptr × ServConnList) → Except Fault (Option Ptr)
  | [] => .ok none
  | e :: rest => do
    let c ← deref s.gConnsList (some e.2.conn)
    match c.memP with
    | none => findConnLoop s subMemId rest
    | some m =>
      let sub ← derefSubMem s m
      if sub.id = subMemId then .ok (some e.1) else findConnLoop s subMemId rest

def serverFindConnBySubMemId (s : Drv) (srv : Ptr) (subMemId : Int) : Except Fault (Option Ptr) :=
  if isIdValid subMemId then findConnLoop s subMemId (s.connectionList srv) else .ok none

def safeDisconnectSubmem (s : Drv) (conn : Ptr) : Except Fault Drv := do
  let c ← deref s.gConnsList (some conn)
  match c.memP with
  | none => .ok s
  | some m =>
    let sub ← derefSubMem s m
    let s := if sub.connP = some conn then s.setSubMem m fun sub => { sub with connP := none } else s
    .ok { s with gConnsList := s.gConnsList.modify conn fun c => { c with memP := none } }

/-- The part of `delete_connection` that detaches the client. -/
def detachClient (s : Drv) (conn : Ptr) : Except Fault Drv := do
  let c ← deref s.gConnsList (some conn)
  match c.clientP with
  | none => .ok s
  | some k =>
    let cli ← deref s.gClientsList (some k)
    let s := if cli.connP = some conn then
        { s with gClientsList := s.gClientsList.modify k fun cli => { cli with connP := none } }
      else s
    .ok { s with gConnsList := s.gConnsList.modify conn fun c => { c with clientP := none } }

/-- The part of `delete_connection` that detaches the server. -/
def detachServer (s : Drv) (conn : Ptr) : Except Fault Drv := do
  let c ← deref s.gConnsList (some conn)
  match c.serverP with
  | none => .ok s
  | some v =>
    let _ ← deref s.gServersList (some v)
    let s := match serverFindConn s v conn with
      | none => s
      | some e => { s with servConns := s.servConns.erase e }
    .ok { s with gConnsList := s.gConnsList.modify conn fun c => { c with serverP := none } }

def deleteConnection (K : Kernel) (s : Drv) (conn : Ptr) : Except Fault Drv := do
  let (_, s) ← notificationSend K s .server .remoteDisconnect conn
  let (_, s) ← notificationSend K s .client .remoteDisconnect conn
  let s ← safeDisconnectSubmem s conn
  let s ← detachClient s conn
  let s ← detachServer s conn
  .ok { s with gConnsList := s.gConnsList.erase conn }

def clientCleanupConnection (K : Kernel) (s : Drv) (cli : Ptr) : Except Fault Drv := do
  let c ← deref s.gClientsList (some cli)
  match c.connP with
  | none => .ok s
  | some conn =>
    deleteConnection K
      { s with gClientsList := s.gClientsList.modify cli fun c => { c with connP := none } } conn

def serverCleanupConnection (K : Kernel) (s : Drv) (srv scon : Ptr) : Except Fault Drv := do
  let e ← deref s.servConns (some scon)
  let c ← deref s.gConnsList (some e.conn)
  if c.serverP ≠ some srv then .ok s else
  deleteConnection K { s with servConns := s.servConns.erase scon } e.conn

/-- The safe iteration fetches the next entry before the body runs, and the body unlinks only
the entry it is given: the entries visited are those that were on the list at the start. -/
def serverCleanupLoop (K : Kernel) (srv : Ptr) : List Ptr → Drv → Except Fault Drv
  | [], s => .ok s
  | e :: rest, s => do serverCleanupLoop K srv rest (← serverCleanupConnection K s srv e)

def serverCleanupConnections (K : Kernel) (s : Drv) (srv : Ptr) : Except Fault Drv := do
  let _ ← deref s.gServersList (some srv)
  serverCleanupLoop K srv ((s.connectionList srv).map Prod.fst) s

end Ripc
