import Ripc.DriverCalls
import Ripc.Guarded
import Mathlib.Logic.Relation

namespace Ripc

/-- What a call does next, cut where other calls can come between. Memory that `shm_create` and `create_connection`
fill is nobody else's until the locked section at their end, so each is one step. -/
inductive ConnectPc
  | idle
  | copyRequest (con : ConnectToServer)
  | findClient (con : ConnectToServer)
  | testClient (con : ConnectToServer) (client : Option Ptr)
  | findServer (con : ConnectToServer) (client : Ptr)
  | firstPool (client server : Ptr)
  | readSlot (client server shm : Ptr) (slot : Nat) (own : Bool)
  | nextPool (client server shm : Ptr)
  | createPool (client server : Ptr)
  | createConn (client server : Ptr) (sub : Option SubMemPtr)
  | testConn (client server con : Ptr) (sub : SubMemPtr)
  | setConn (client server con : Ptr) (sub : SubMemPtr)
  | setSubmem (server con : Ptr) (sub : SubMemPtr)
  | addServerConn (server con : Ptr)
  | returned (ret : Int)

/-- The pool behind `p` in `g_shm_list`; new pools only come to the front of the list. -/
def Drv.poolAfter (s : Drv) (p : Ptr) : Option Ptr := (s.gShmList.keys.dropWhile (· ≠ p)).tail.head?

def ConnectPc.step (K : Kernel) (s : Drv) : ConnectPc → Except Fault (ConnectPc × Drv)
  | .idle => .ok (.idle, s)
  | .returned ret => .ok (.returned ret, s)
  | .copyRequest con => .ok (if K.copyFromUser then .findClient con else .returned (-EFAULT), s)
  | .findClient con => .ok (.testClient con (findClientById s con.clientId), s)
  -- the pointer that the search returned is not compared with NULL
  | .testClient _ none => .error .nullDeref
  | .testClient con (some client) => do
    let cli ← deref s.gClientsList (some client)
    .ok (if cli.connP.isSome then .returned (-EEXIST) else .findServer con client, s)
  | .findServer con client => do
    match ← findServerByName s con.serverName.toList with
    | none =>
      match strlen con.serverName.toList with
      | none => .error .overRead
      | some _ => .ok (.returned (-ENODATA), s)
    | some server => .ok (.firstPool client server, s)
  | .firstPool client server =>
    match s.gShmList.keys.head? with
    | none => .ok (.createPool client server, s)
    | some shm => .ok (.readSlot client server shm 0 false, s)
  | .readSlot client server shm slot own =>
    if h : slot < shmPoolSize then do
      let pool ← deref s.gShmList (some shm)
      if (pool.subMems ⟨slot, h⟩).connP.isNone then .ok (.createConn client server (some ⟨shm, ⟨slot, h⟩⟩), s)
      else .ok (.readSlot client server shm (slot + 1) own, s)
    else .ok (if own then .createConn client server none else .nextPool client server shm, s)
  | .nextPool client server shm =>
    match s.poolAfter shm with
    | none => .ok (.createPool client server, s)
    | some shm => .ok (.readSlot client server shm 0 false, s)
  | .createPool client server => do
    let (shm, s) ← shmCreate K s
    match shm with
    | none => .ok (.createConn client server none, s)
    | some shm => .ok (.readSlot client server shm 0 true, s)
  | .createConn client server sub =>
    let r := createConnection K s client server sub
    .ok (match sub, r.1 with
      | some sub, some con => .testConn client server con sub
      | _, _ => .returned (-ENOMEM), r.2)
  | .testConn client server con sub => do
    let cli ← deref s.gClientsList (some client)
    .ok (if cli.connP.isSome then .setSubmem server con sub else .setConn client server con sub, s)
  | .setConn client server con sub => do
    let _ ← deref s.gClientsList (some client)
    .ok (.setSubmem server con sub, { s with
      gClientsList := s.gClientsList.modify client fun cli => { cli with connP := some con } })
  | .setSubmem server con sub => do
    let _ ← derefSubMem s sub
    .ok (.addServerConn server con, submemAddConnection s sub con)
  | .addServerConn server con => do
    let s ← serverAddConnection K s server con
    .ok (.returned 0, s)

/-- The client that a call takes for unconnected, and whether its connection is in `g_conns_list` yet. -/
def ConnectPc.client : ConnectPc → Hold Ptr
  | .findServer _ k | .firstPool k _ | .readSlot k _ _ _ _ | .nextPool k _ _ | .createPool k _ | .createConn k _ _ =>
    .seen k
  | .testConn k _ _ _ | .setConn k _ _ _ => .used k
  | _ => .none

/-- The sub-memory that a call takes for free. -/
def ConnectPc.subMem : ConnectPc → Hold SubMemPtr
  | .createConn _ _ (some m) => .seen m
  | .testConn _ _ _ m | .setConn _ _ _ m | .setSubmem _ _ m => .used m
  | _ => .none

def ConnectPc.outside : ConnectPc → Bool
  | .idle | .returned _ => true
  | _ => false

/-- The driver and the calls that are on their way, one a thread. -/
structure Threads where
  drv : Drv
  pcs : Nat → ConnectPc

inductive ConnectMove
  | call (i : Nat) (con : ConnectToServer)
  | run (i : Nat) (K : Kernel)

def ConnectMove.thread : ConnectMove → Nat
  | .call i _ | .run i _ => i

def Threads.step (c : Threads) : ConnectMove → Option Threads
  | .call i con =>
    if (c.pcs i).outside then some ⟨c.drv, Function.update c.pcs i (.copyRequest con)⟩ else none
  | .run i K => ((c.pcs i).step K c.drv).toOption.map fun r => ⟨r.2, Function.update c.pcs i r.1⟩

/-- A driver in which no call is on its way. -/
def Drv.quiet (s : Drv) : Threads := ⟨s, fun _ => .idle⟩

def Drv.ClientMarked (s : Drv) (k : Ptr) : Prop := ∃ cli, s.gClientsList.get? k = some cli ∧ cli.connP ≠ none
def Drv.SubMemMarked (s : Drv) (m : SubMemPtr) : Prop := ∃ sub, s.subMem? m = some sub ∧ sub.connP ≠ none

/-- No call that is on its way has taken for free the client or the slot that the step finds free. -/
def Threads.Alone (c : Threads) : ConnectMove → Prop
  | .call _ _ => True
  | .run i _ =>
    match c.pcs i with
    | .testClient _ (some k) => ¬c.drv.ClientMarked k → ∀ j, j ≠ i → (c.pcs j).client.on ≠ some k
    | .readSlot _ _ p n _ => ∀ h : n < shmPoolSize, ¬c.drv.SubMemMarked ⟨p, ⟨n, h⟩⟩ →
        ∀ j, j ≠ i → (c.pcs j).subMem.on ≠ some ⟨p, ⟨n, h⟩⟩
    | _ => True

end Ripc
