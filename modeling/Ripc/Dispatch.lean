import Ripc.Callbacks
import Ripc.EntityManager
import Ripc.ServerTable

namespace Ripc

/-- A system call and its argument. -/
inductive SystemCall
  | mmap (packedId : U32)
  | endWriting (packedId : U32)
  deriving DecidableEq, Repr

/-- What `mmap` shows, where it does not fail, and whether `munmap` succeeds. -/
structure KernelAnswers where
  mapping : Option Memory
  munmap : Bool

/-- A `Memory` that was never mapped. -/
def Memory.new : Memory := ⟨none, sizeMax, false, (absurd · Bool.false_ne_true), by decide⟩

variable (A : Type)

/-- A `Server`: its tables, what is mapped for a sub-memory that counts as mapped, and `m_urls` in its order. -/
structure ServerEnd extends LibServer where
  isInitialized : Bool
  pages : Int → Option Memory
  urls : List (UrlPattern × UrlCallback A)

/-- A `Client`; `callback` is what `m_callback` does as long as it is set. -/
structure ClientEnd extends RipcClient where
  clientId : Int
  isInitialized : Bool
  page : Option Memory
  callbackIn : CallbackIn A

/-- `RipcEntityManager`, with the behaviour of its logger and the application. -/
structure Manager where
  isInitialized : Bool
  /-- Critical messages are not below the level of the logger, and its behaviour is `THROW_EXCEPTION`. -/
  criticalThrows : Bool
  notificationHandlers : NotifType → Option (A → NotificationData → A)
  servers : Table (ServerEnd A)
  clients : Table (ClientEnd A)
  app : A

/-- What the callbacks for a URL leave behind. -/
structure UrlAnswered where
  app : A
  urls : List (UrlPattern × UrlCallback A)
  wb : WriteBufferView

/-- What a server leaves behind; the results of its calls are only logged. -/
structure ServerHandled where
  call : Option SystemCall
  app : A
  server : ServerEnd A

variable {A} (lib : Nlohmann) (os : KernelAnswers)

/-- The loop over `m_urls`: the callbacks of the first pattern that equals the URL are called. -/
def callCallbacks (app : A) (url : Url) (rb : ReadBufferView) (wb : WriteBufferView) :
    List (UrlPattern × UrlCallback A) → Except Stop (Option (UrlAnswered A))
  | [] => .ok none
  | (pattern, callback) :: urls =>
    if pattern.eqUrl url then do
      let (app, callback, wb) ← callback.call lib app url rb wb
      .ok (some ⟨app, (pattern, callback) :: urls, wb⟩)
    else do
      let served ← callCallbacks app url rb wb urls
      .ok (served.map fun s => { s with urls := (pattern, callback) :: s.urls })

namespace ServerEnd

/-- The memory that `m_sub_mem_p` of a connection refers to. -/
def memory (s : ServerEnd A) (con : ConnectionInfo) : Except Stop Memory :=
  match s.mappings.find? fun el => el.1 = con.subMemId with
  | none => .error .badPointer
  | some (_, isMapped) =>
    if isMapped then
      match s.pages con.subMemId with
      | none => .error .badPointer
      | some mem => .ok mem
    else .ok .new

/-- The answer is in the memory already. -/
def writeToClient (s : ServerEnd A) (con : ConnectionInfo) (mem : Memory) : Option SystemCall :=
  if !s.isInitialized then none
  else if !mem.isMapped then none
  else if packIds s.serverId con.subMemId = packError then none
  else some (.endWriting (packIds s.serverId con.subMemId))

/-- `dispatchNewMessage` once the memory is found: the request in it is read and answered. -/
def answer (app : A) (s : ServerEnd A) (con : ConnectionInfo) (mem : Memory) : Except Stop (ServerHandled A) := do
  let (urlStr, rb) ← onPage (ReadBufferView.new mem).getHeader
  match urlStr with
  | none => .ok ⟨none, app, s⟩
  | some view => do
    let url ← throwing (Url.new (mem.text view))
    let answered ← callCallbacks lib app url rb (.new mem) s.urls
    match answered with
    | none => .ok ⟨none, app, s⟩
    | some ⟨app, urls, wb⟩ =>
      let wb := wb.finalizePayload.2
      .ok ⟨s.writeToClient con mem, app,
        { s with urls, pages := fun id => if id = con.subMemId then some wb.mem else s.pages id }⟩

def dispatchNewMessage (app : A) (s : ServerEnd A) (ntf : NotificationData) : Except Stop (ServerHandled A) :=
  if !s.isInitialized then .ok ⟨none, app, s⟩
  else
    match s.findConnection ntf.senderId with
    | none => .ok ⟨none, app, s⟩
    | some con => do
      let mem ← s.memory con
      s.answer lib app con mem

/-- The tables of the server have been changed, with a mapping for the sub-memory if one was asked for. -/
def withTables (s : ServerEnd A) (subMemId : Int) (handled : LibServer.Handled) : ServerEnd A :=
  { s with
    toLibServer := handled.server
    pages := fun id => if handled.mmap.isSome ∧ id = subMemId then os.mapping else s.pages id }

def handleNotification (app : A) (s : ServerEnd A) (ntf : NotificationData) : Except Stop (ServerHandled A) :=
  if !s.isInitialized then .ok ⟨none, app, s⟩
  else if ntf.reciverId ≠ s.serverId then .ok ⟨none, app, s⟩
  else if ntf.whoSends ≠ .client then .ok ⟨none, app, s⟩
  else if !isIdValid ntf.senderId || !isIdValid ntf.subMemId then .ok ⟨none, app, s⟩
  else
    match ntf.type with
    | .newConnection =>
      let handled := s.addConnection ntf.senderId ntf.subMemId
      .ok ⟨handled.mmap.map .mmap, app, s.withTables os ntf.subMemId handled⟩
    | .newMessage => s.dispatchNewMessage lib app ntf
    | .remoteDisconnect =>
      .ok ⟨none, app, { s with toLibServer := (s.disconnectFromClient (s.findConnection ntf.senderId)).2 }⟩

end ServerEnd

namespace ClientEnd

def dispatchNewMessage (app : A) (c : ClientEnd A) : Except Stop (A × ClientEnd A) :=
  if !c.isReady then .ok (app, c)
  else do
    let app ← if c.callback.isSome then c.callbackIn.run lib app c.page else .ok app
    .ok (app, { c with toRipcClient := c.toRipcClient.dispatchNewMessage })

def handleNotification (app : A) (c : ClientEnd A) (ntf : NotificationData) : Except Stop (A × ClientEnd A) :=
  if !c.isInitialized then .ok (app, c)
  else if ntf.reciverId ≠ c.clientId then .ok (app, c)
  else if ntf.whoSends ≠ .server then .ok (app, c)
  else
    match ntf.type with
    | .newMessage => c.dispatchNewMessage lib app
    | .remoteDisconnect => .ok (app, { c with toRipcClient := c.dispatchRemoteDisconnect os.munmap })
    | .newConnection => .ok (app, c)

end ClientEnd

def NotificationData.isDataValid (ntf : NotificationData) : Bool :=
  isIdValid ntf.reciverId && isIdValid ntf.subMemId && isIdValid ntf.senderId

def Manager.dispatchNotification (m : Manager A) (ntf : NotificationData) :
    Except Stop (Option SystemCall × Manager A) :=
  if !ntf.isDataValid then .ok (none, m)
  else if !m.isInitialized then
    if m.criticalThrows then .error (.throws .criticalLogError) else .ok (none, m)
  else
    match m.notificationHandlers ntf.type with
    | some handler => .ok (none, { m with app := handler m.app ntf })
    | none =>
      match ntf.whoSends with
      | .client =>
        match m.servers.get? ntf.reciverId.toNat with
        | none => .ok (none, m)
        | some server => do
          let ⟨call, app, server⟩ ← server.handleNotification lib os m.app ntf
          .ok (call, { m with app, servers := m.servers.modify ntf.reciverId.toNat fun _ => server })
      | .server =>
        match m.clients.get? ntf.reciverId.toNat with
        | none => .ok (none, m)
        | some client => do
          let (app, client) ← client.handleNotification lib os m.app ntf
          .ok (none, { m with app, clients := m.clients.modify ntf.reciverId.toNat fun _ => client })

end Ripc
