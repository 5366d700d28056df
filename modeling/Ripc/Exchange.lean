import Ripc.LineQueues
import Ripc.ClientAlone
import Ripc.AnsweredRequests

namespace Ripc

/-- What happened to the memory: the client announced it as the request of a call, the server answered what it found
there, and a callback, which was passed to some call, read it. -/
inductive Mark
  | asked (call : Nat) (page : Memory)
  | served (before after : Memory)
  | given (call : Nat) (page : Memory)

/-- Requests are answered as they were announced, and answers are read as they were written, the latest mark first.
`own` tells which call's callback may read the answer to which call. -/
inductive Conforms (own : Nat → Nat → Prop) : List Mark → Prop
  | start : Conforms own []
  | asked {log : List Mark} (call : Nat) (page : Memory) (before : Conforms own log) :
      Conforms own (.asked call page :: log)
  | served {log : List Mark} {call : Nat} {page : Memory} (after : Memory)
      (before : Conforms own (.asked call page :: log)) :
      Conforms own (.served page after :: .asked call page :: log)
  | given {log : List Mark} {call asked : Nat} {page after : Memory} (mine : own asked call)
      (before : Conforms own (.served page after :: .asked asked page :: log)) :
      Conforms own (.given call after :: .served page after :: .asked asked page :: log)

/-- The client's `requests` and `replies` are the calls whose notification or whose answer is on its way. `pending` has
been read by the server's process and is yet to be handled; `call` is the system call that its listener makes next. -/
structure Exchange (A : Type) where
  drv : Drv
  client : ClientState
  server : ServerEnd A
  app : A
  page : Memory
  pending : Option NotificationData
  call : Option SystemCall
  log : List Mark

inductive ExchangeMove (A : Type)
  /-- A driver call that is not made for one of the two. -/
  | other (call : Call)
  /-- Whatever else goes on in the server's process. -/
  | application (app : A) (urls : List (UrlPattern × UrlCallback A)) (pages : Int → Option Memory)
  | disconnect (logs : Bool) (id : Int)
  | call (input : Bool)
  /-- The calling thread goes on; when it writes, these are the URL and the callback for the request. -/
  | caller (url : StdString) (out : Option (WriteBufferView → WriteBufferView))
  | endWriting (K : Kernel)
  | hear (K : Kernel)
  | listener
  | read (K : Kernel)
  | handle (os : KernelAnswers)
  | systemCall (K : Kernel)

/-- The connection is left to its two ends: nobody else ends it, speaks over it or reads or closes one of the two files,
and the application does not disconnect the client from the server. The driver itself would let them. -/
def ExchangeMove.Apart {A : Type} (l : Line) : ExchangeMove A → Prop
  | .other c => c.op.avoids l = true
  | .disconnect _ id => id ≠ l.clientId
  | _ => True

instance {A : Type} (l : Line) (m : ExchangeMove A) : Decidable (m.Apart l) := by
  unfold ExchangeMove.Apart
  split <;> infer_instance

def SystemCall.op (fd : Ptr) : SystemCall → Op
  | .mmap packedId => .mmap fd packedId
  | .endWriting packedId => .ioctl fd (.serverEndWriting packedId)

/-- The system call announces an answer over the connection. -/
def SystemCall.answers (l : Line) : SystemCall → Bool
  | .mmap _ => false
  | .endWriting packedId => unpackId2 packedId = l.subMemId

/-- What `Client::call` writes: the URL, what the callback adds, and the end of the payload. -/
def callWrites (url : StdString) (out : Option (WriteBufferView → WriteBufferView)) (mem : Memory) : Memory :=
  let wb := ((WriteBufferView.new mem).addHeader url).2
  let wb := out.elim wb fun out => out wb
  wb.finalizePayload.2.mem

/-- What is mapped for the connection shows the page. -/
def ServerEnd.seeing {A : Type} (l : Line) (page : Memory) (s : ServerEnd A) : ServerEnd A :=
  { s with pages := fun id => if id = l.subMemId then (s.pages id).map fun _ => page else s.pages id }

def KernelAnswers.seeing (l : Line) (page : Memory) (ntf : NotificationData) (os : KernelAnswers) : KernelAnswers :=
  { os with mapping := if ntf.subMemId = l.subMemId then os.mapping.map fun _ => page else os.mapping }

namespace Exchange

variable {A : Type} (l : Line) (lib : Nlohmann)

def driver (x : Exchange A) (call : Call) : Option (Reply × Exchange A) :=
  match step x.drv call with
  | .error _ => none
  | .ok (r, drv) => some (r, { x with drv })

def announce (x : Exchange A) (K : Kernel) (c : Request) : Option (Exchange A) :=
  if packIds l.clientId 0 = packError then some { x with client := x.client.announced c false }
  else (x.driver ⟨K, .ioctl l.clientFd (.clientEndWriting (packIds l.clientId 0))⟩).map fun (r, x) =>
    { x with
      client := x.client.announced c (0 ≤ r.ret)
      log := if 0 ≤ r.ret then .asked c.id x.page :: x.log else x.log }

/-- The client's process has read `ntf`. -/
def hear (x : Exchange A) (ntf : NotificationData) : Option (Exchange A) :=
  if ntf.isDataValid ∧ ntf.whoSends = .server ∧ ntf.reciverId = l.clientId then
    match ntf.type with
    | .newConnection => some x
    | .newMessage => (x.client.step .take).map fun client => { x with client }
    -- the client would not be connected any more
    | .remoteDisconnect => none
  else some x

/-- The next access of the client's listener; at a callback it reads the page. -/
def listen (x : Exchange A) : Option (Exchange A) :=
  (x.client.step .listener).map fun client =>
    { x with
      client
      log := match x.client.listener, x.client.callback with
        | .invoke _, some call => .given call x.page :: x.log
        | _, _ => x.log }

/-- The server's process handles `ntf`; it does not outlive an exception or a fault. -/
def handle (x : Exchange A) (os : KernelAnswers) (ntf : NotificationData) : Option (Exchange A) :=
  if ntf.isDataValid then
    match (x.server.seeing l x.page).handleNotification lib (os.seeing l x.page ntf) x.app ntf with
    | .error _ => none
    | .ok handled =>
      let page := (handled.server.pages l.subMemId).getD x.page
      some { x with
        server := handled.server
        app := handled.app
        page
        pending := none
        call := handled.call
        log := if handled.call.any (·.answers l) then .served x.page page :: x.log else x.log }
  else some { x with pending := none }

/-- The system call that the handling of a notification ends with. -/
def systemCall (x : Exchange A) (K : Kernel) (call : SystemCall) : Option (Exchange A) :=
  (x.driver ⟨K, call.op l.fd⟩).bind fun (r, x) =>
    if call.answers l ∧ 0 ≤ r.ret then (x.client.step .reply).map fun client => { x with client, call := none }
    else some { x with call := none }

/-- `none` where the move cannot be made or the process does not outlive it, and where the client hears that its
connection has ended or of an answer to no call of its own. -/
def act (x : Exchange A) : ExchangeMove A → Option (Exchange A)
  | .other call => (x.driver call).map Prod.snd
  | .application app urls pages => some { x with app, server := { x.server with urls, pages } }
  | .disconnect logs id =>
    (x.server.toLibServer.disconnect logs id).map fun (_, server) =>
      { x with server := { x.server with toLibServer := server } }
  | .call input => (x.client.step (.call input)).map fun client => { x with client }
  | .caller url out =>
    (x.client.step .caller).map fun client =>
      { x with
        client
        page := match x.client.caller with
          | .write _ => callWrites url out x.page
          | _ => x.page }
  | .endWriting K =>
    match x.client.caller with
    | .announce c => x.announce l K c
    | _ => none
  | .hear K =>
    if x.client.listener = .idle then
      (x.driver ⟨K, .read l.clientFd sizeofNotificationData⟩).bind fun (r, x) =>
        match r.out with
        | .notif ntf => x.hear l ntf
        | _ => some x
    else none
  | .listener => x.listen
  | .read K =>
    if x.pending = none ∧ x.call = none then
      (x.driver ⟨K, .read l.fd sizeofNotificationData⟩).map fun (r, x) =>
        match r.out with
        | .notif ntf => { x with pending := some ntf }
        | _ => x
    else none
  | .handle os => x.pending.bind (x.handle l lib os)
  | .systemCall K => x.call.bind (x.systemCall l K)

/-- What the server's process has yet to handle, oldest first. -/
def waiting (x : Exchange A) : List NotificationData := x.pending.toList ++ x.drv.queue l.task

/-- The two have just been connected, and nothing is left over from other uses of their ids. -/
structure Fresh (x : Exchange A) : Prop where
  up : l.Up x.drv
  serverId : x.server.serverId = l.id
  table : ∀ con ∈ x.server.connections, con.clientId = l.clientId ↔ con.subMemId = l.subMemId
  queue : ∀ ntf ∈ x.drv.queue l.task, l.Hears ntf
  clientQueue : ∀ ntf ∈ x.drv.queue l.clientTask, l.ClientHears ntf
  client : ∃ blocking running, x.client = .start blocking running
  pending : x.pending = none
  call : x.call = none
  log : x.log = []

end Exchange

end Ripc
