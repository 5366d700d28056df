import Ripc.PeerKnowledge
import Ripc.Trace

namespace Ripc

/-- Where the thread of the application stands. -/
inductive ClientThread
  /-- Outside of the client, with what the last call returned. -/
  | idle (returned : Bool)
  /-- In the first wait of `call`, with the callback that was passed. -/
  | waitEarlier (input : Option Awaited)
  /-- In the last wait of `call`. -/
  | waitReply
  deriving DecidableEq, Repr

/-- A client, the thread of the application that uses it, and the queue of the task. What the driver answers is open. -/
structure ClientSession where
  id : Int
  client : RipcClient
  isUsingBlocking : Bool
  thread : ClientThread
  queue : List NotificationData
  deriving DecidableEq, Repr

inductive ClientEvent
  /-- `connect`; `made` is the number of the connection that its `ioctl` makes, unless it fails. -/
  | connect (serverName : List UInt8) (made : Option Nat)
  /-- `disconnect`; its `ioctl` and `munmap` succeed or fail. -/
  | disconnect (ok munmap : Bool)
  | setBlockingMode (mode : Bool)
  /-- `call`, up to where it returns or waits; `ok` is how `IOCTL_CLIENT_END_WRITING` ends if it comes to that. -/
  | call (input : Option Awaited) (ok : Bool)
  /-- The waiting thread evaluates its predicate. -/
  | wake (ok : Bool)
  /-- The driver queues a notification. -/
  | arrive (ntf : NotificationData)
  /-- The listener dispatches the oldest notification. -/
  | listen (munmap : Bool)
  deriving DecidableEq, Repr

namespace RipcClient

def mmap (c : RipcClient) (id : Int) : RipcClient :=
  if packIds id 0 = packError then c else { c with isMapped := true }

/-- The end of a `connect` whose `ioctl` has succeeded. -/
def connected (c : RipcClient) (id : Int) (serverName : List UInt8) (made : Nat) : RipcClient :=
  { (if c.isMapped then c else c.mmap id) with connectedServerName := serverName, connection := some made }

/-- The end of a `disconnect` whose `ioctl` has succeeded. -/
def disconnected (c : RipcClient) (munmap : Bool) : RipcClient := { c with connectedServerName := [] }.unmap munmap

/-- What `call` records about its request. -/
def recordCall (c : RipcClient) (id : Int) (input : Option Awaited) (ok : Bool) : RipcClient :=
  if packIds id 0 ≠ packError ∧ ok then { c with isRequestSent := true, callback := input }
  else { c with isRequestSent := false }

/-- The predicate of both waits: `!m_is_request_sent || !m_is_running`. -/
def mayGoOn (c : RipcClient) : Bool := !c.isRequestSent || !c.isRunning

end RipcClient

namespace ClientSession

/-- A client that the manager has just made, with the id of its registration. -/
def created (id : Int) : ClientSession := ⟨id, .new, false, .idle true, []⟩

def connect (s : ClientSession) (serverName : List UInt8) (made : Option Nat) : ClientSession :=
  if serverName = [] ∨ maxServerName ≤ serverName.length then { s with thread := .idle false } else
  match made with
  | none => { s with thread := .idle false }
  | some n => { s with client := s.client.connected s.id serverName n, thread := .idle true }

def disconnect (s : ClientSession) (ok munmap : Bool) : ClientSession :=
  if s.client.isConnected && ok then { s with client := s.client.disconnected munmap, thread := .idle true }
  else { s with thread := .idle false }

/-- `call` from `WriteBufferView wb(m_sub_mem)` on. -/
def send (s : ClientSession) (input : Option Awaited) (ok : Bool) : ClientSession :=
  let client := s.client.recordCall s.id input ok
  { s with
    client
    thread := if s.isUsingBlocking && client.isRequestSent then .waitReply else .idle client.isRequestSent }

def call (s : ClientSession) (input : Option Awaited) (ok : Bool) : ClientSession :=
  if !s.client.isReady then { s with thread := .idle false }
  else if s.client.isRequestSent then
    { s with thread := if s.isUsingBlocking then .waitEarlier input else .idle false }
  else s.send input ok

def wake (s : ClientSession) (ok : Bool) : Option ClientSession :=
  match s.thread with
  | .idle _ => none
  | .waitEarlier input =>
    some (if s.client.mayGoOn then (if s.client.isRunning then s.send input ok else { s with thread := .idle false })
      else s)
  | .waitReply => some (if s.client.mayGoOn then { s with thread := .idle s.client.isRunning } else s)

/-- The manager passes the notification on to the client. -/
def isFor (s : ClientSession) (ntf : NotificationData) : Bool :=
  isIdValid ntf.reciverId && isIdValid ntf.subMemId && isIdValid ntf.senderId && ntf.whoSends = .server &&
    ntf.reciverId = s.id

def dispatch (s : ClientSession) (munmap : Bool) (ntf : NotificationData) : ClientSession :=
  if s.isFor ntf then { s with client := s.client.handleNotification munmap ntf } else s

def listen (s : ClientSession) (munmap : Bool) : Option ClientSession :=
  match s.queue with
  | [] => none
  | ntf :: queue => some ({ s with queue }.dispatch munmap ntf)

def whenIdle (s s' : ClientSession) : Option ClientSession :=
  match s.thread with
  | .idle _ => some s'
  | _ => none

def step (s : ClientSession) : ClientEvent → Option ClientSession
  | .connect serverName made => s.whenIdle (s.connect serverName made)
  | .disconnect ok munmap => s.whenIdle (s.disconnect ok munmap)
  | .setBlockingMode mode => some { s with isUsingBlocking := mode }
  | .call input ok => s.whenIdle (s.call input ok)
  | .wake ok => s.wake ok
  | .arrive ntf => some { s with queue := s.queue ++ [ntf] }
  | .listen munmap => s.listen munmap

end ClientSession

namespace Process

variable {p p' : Process} {K K' : Kernel} {id k : Nat} {c c' : RipcClient}

/-- Some history leads the client from one state to another between two calls that do not wait. -/
def Lives (id : Int) (c c' : RipcClient) : Prop :=
  ∀ returned, ∃ es returned', Trace (fun s e s' => s.step e = some s')
    (⟨id, c, false, .idle returned, []⟩ : ClientSession) es ⟨id, c', false, .idle returned', []⟩

theorem Lives.refl {id : Int} : Lives id c c := fun returned => ⟨[], returned, .nil⟩

theorem Lives.trans {id : Int} {c'' : RipcClient} (h : Lives id c c') (h' : Lives id c' c'') : Lives id c c'' := by
  intro returned
  obtain ⟨es, mid, first⟩ := h returned
  obtain ⟨es', last, second⟩ := h' mid
  exact ⟨es ++ es', last, first.append second⟩

/-- One action changes at most the client with this id, and that by events of its own. -/
def Touches (p p' : Process) (k : Nat) : Prop :=
  p'.clients = p.clients ∨
    ∃ c c', p.clients.get? k = some c ∧ p'.clients = p.clients.modify k (fun _ => c') ∧ Lives k c c'

theorem Touches.client (t : Touches p p' k) (hc : p.clients.get? id = some c) (hc' : p'.clients.get? id = some c') :
    Lives id c c' := by
  rcases t with same | ⟨c₀, c₁, hk, changed, lives⟩
  · rw [same, hc] at hc'
    cases hc'
    exact .refl
  · rw [changed, Table.get?_modify] at hc'
    split at hc'
    next he =>
      rw [he] at hc
      cases hk.symm.trans hc
      rw [he, hc] at hc'
      cases hc'
      rw [he]
      exact lives
    next =>
      cases hc.symm.trans hc'
      exact .refl

theorem connect_touches {name : List UInt8} (h : p.connect K K' k name = some p') : Touches p p' k := by
  obtain ⟨c, hc, h⟩ := Option.bind_eq_some_iff.mp h
  split at h
  next => cases h; exact .inl rfl
  next accepted =>
    obtain ⟨⟨r, p₁⟩, hr, h⟩ := Option.bind_eq_some_iff.mp h
    have frame₁ := (driver_frame hr).1
    simp only at h
    split at h
    next => cases h; exact .inl frame₁
    next =>
      obtain ⟨⟨p₂, c₂⟩, hm, rfl⟩ := Option.map_eq_some_iff.mp h
      have both : p₂.clients = p₁.clients ∧ c₂ = if c.isMapped then c else c.mmap k := by
        unfold Process.mmap RipcClient.mmap at *
        split at hm
        next mapped => cases hm; exact ⟨rfl, (if_pos mapped).symm⟩
        next unmapped =>
          rw [if_neg unmapped]
          split at hm
          next bad => cases hm; exact ⟨rfl, (if_pos bad).symm⟩
          next good =>
            obtain ⟨⟨r', p₃⟩, hr', he⟩ := Option.map_eq_some_iff.mp hm
            cases he
            exact ⟨(driver_frame hr').1, (if_neg good).symm⟩
      refine .inr ⟨c, _, hc, by rw [setClient, both.1, frame₁], fun returned => ?_⟩
      refine ⟨[.connect name (some (p₂.connections k))], true, .single ?_⟩
      simp [ClientSession.step, ClientSession.whenIdle, ClientSession.connect, accepted, RipcClient.connected, both.2]

theorem disconnect_touches {munmap : Bool} (h : p.disconnect K k munmap = some p') : Touches p p' k := by
  obtain ⟨c, hc, h⟩ := Option.bind_eq_some_iff.mp h
  split at h
  next => cases h; exact .inl rfl
  next connected =>
    obtain ⟨⟨r, p₁⟩, hr, rfl⟩ := Option.map_eq_some_iff.mp h
    have frame₁ := (driver_frame hr).1
    simp only
    split
    next => exact .inl frame₁
    next =>
      refine .inr ⟨c, _, hc, by rw [setClient, frame₁], fun returned => ?_⟩
      refine ⟨[.disconnect true munmap], true, .single ?_⟩
      have connected : c.isConnected = true := by simpa using connected
      simp [ClientSession.step, ClientSession.whenIdle, ClientSession.disconnect, connected, RipcClient.disconnected]

theorem call_touches {input : Bool} (h : p.call K k input = some p') : Touches p p' k := by
  obtain ⟨c, hc, h⟩ := Option.bind_eq_some_iff.mp h
  split at h
  next => cases h; exact .inl rfl
  next allowed =>
    have free : c.isReady = true ∧ c.isRequestSent = false := by simpa using allowed
    have sends (input : Option Awaited) (ok : Bool) : Lives k c (c.recordCall k input ok) := by
      intro returned
      refine ⟨[.call input ok], (c.recordCall k input ok).isRequestSent, .single ?_⟩
      simp [ClientSession.step, ClientSession.whenIdle, ClientSession.call, free.1, free.2, ClientSession.send]
    have fails : c.recordCall k none false = { c with isRequestSent := false } := by simp [RipcClient.recordCall]
    split at h
    next => cases h; exact .inr ⟨c, _, hc, rfl, fails ▸ sends none false⟩
    next packed =>
      obtain ⟨⟨r, p₁⟩, hr, rfl⟩ := Option.map_eq_some_iff.mp h
      have frame₁ := (driver_frame hr).1
      simp only
      split
      next => exact .inr ⟨c, _, hc, by rw [setClient, frame₁], fails ▸ sends none false⟩
      next =>
        refine .inr ⟨c, _, hc, by rw [setClient, frame₁], ?_⟩
        have sent := sends (if input then some ⟨p.connections k, p.drv.serverOf k⟩ else none) true
        rw [RipcClient.recordCall, if_pos ⟨packed, rfl⟩] at sent
        exact sent

theorem listen_lives {munmap : Bool} (h : p.listen K munmap = some p') (hc : p.clients.get? id = some c)
    (hc' : p'.clients.get? id = some c') : Lives id c c' := by
  obtain ⟨⟨r, p₁⟩, hr, rfl⟩ := Option.map_eq_some_iff.mp h
  rw [← (driver_frame hr).1] at hc
  simp only at hc'
  split at hc'
  next ntf hout =>
    intro returned
    refine ⟨[.arrive ntf, .listen munmap], returned, .cons rfl (.single ?_)⟩
    simp only [ClientSession.step, ClientSession.listen, List.nil_append, Option.some.injEq]
    unfold dispatchNotification at hc'
    unfold ClientSession.dispatch
    split at hc'
    next valid =>
      split at hc'
      next sender =>
        cases hc.symm.trans hc'
        simp [ClientSession.isFor, sender]
      next sender =>
        rw [Table.get?_modify] at hc'
        have nonneg : 0 ≤ ntf.reciverId := (isIdValid_iff.mp valid.1).1
        split at hc'
        next own =>
          rw [hc] at hc'
          cases hc'
          have own : ntf.reciverId = id := by omega
          have valid : isIdValid (id : Int) = true ∧ isIdValid ntf.subMemId = true ∧ isIdValid ntf.senderId = true :=
            own ▸ valid
          simp [ClientSession.isFor, valid, sender, own]
        next other =>
          cases hc.symm.trans hc'
          have other : ntf.reciverId ≠ id := by omega
          simp [ClientSession.isFor, other]
    next invalid =>
      cases hc.symm.trans hc'
      rw [if_neg]
      simp only [ClientSession.isFor, Bool.and_eq_true]
      exact fun own => invalid ⟨own.1.1.1.1, own.1.1.1.2, own.1.1.2⟩
  next =>
    cases hc.symm.trans hc'
    exact .refl

theorem destroyClient_clients {i : Int} (h : p.destroyClient K i = some p') : p'.clients = p.clients := by
  obtain ⟨⟨r, p₁⟩, hr, rfl⟩ := Option.map_eq_some_iff.mp h
  exact (driver_frame hr).1

theorem createClient_keeps (h : p.createClient K K' = some p') (hc : p.clients.get? id = some c) :
    p'.clients.get? id = some c := by
  unfold createClient at h
  split at h
  next => cases h; exact hc
  next =>
    obtain ⟨⟨r, p₁⟩, hr, h⟩ := Option.bind_eq_some_iff.mp h
    rw [← (driver_frame hr).1] at hc
    simp only at h
    split at h
    next => rwa [destroyClient_clients h]
    next =>
      split at h
      next => rwa [destroyClient_clients h]
      next new =>
        cases h
        rw [Table.get?_pushBack new, if_neg]
        · exact hc
        · rintro rfl
          exact new (Table.mem_keys.mpr ⟨c, hc⟩)

theorem deleteClient_keeps (h : p.deleteClient K k = some p') (hc : p.clients.get? id = some c)
    (hc' : p'.clients.get? id = some c') : c' = c := by
  unfold deleteClient at h
  split at h
  next =>
    cases h
    exact Option.some.inj (hc'.symm.trans hc)
  next =>
    rw [destroyClient_clients h, Table.get?_erase_some] at hc'
    exact Option.some.inj (hc'.2.symm.trans hc)

/-- What a process does, with the driver at work, is among the histories of each of its clients. -/
theorem act_lives {action : Action} (h : p.act action = some p') (hc : p.clients.get? id = some c)
    (hc' : p'.clients.get? id = some c') : Lives id c c' := by
  cases action with
  | createClient K K' =>
    cases (createClient_keeps h hc).symm.trans hc'
    exact .refl
  | connect K K' k name => exact (connect_touches h).client hc hc'
  | disconnect K k munmap => exact (disconnect_touches h).client hc hc'
  | call K k input => exact (call_touches h).client hc hc'
  | deleteClient K k =>
    cases deleteClient_keeps h hc hc'
    exact .refl
  | listen K munmap => exact listen_lives h hc hc'
  | other call =>
    have made (h : (p.driver call).map Prod.snd = some p') : Lives id c c' := by
      obtain ⟨⟨r, p₁⟩, hr, rfl⟩ := Option.map_eq_some_iff.mp h
      rw [(driver_frame hr).1, hc] at hc'
      cases hc'
      exact .refl
    simp only [Process.act] at h
    split at h
    next =>
      split at h
      next => cases h
      next => exact made h
    next => exact made h

theorem actions_lives {actions : List Action}
    (h : Trace (fun p a p' => p.act a = some p' ∧ id ∈ p'.clients.keys) p actions p')
    (hc : p.clients.get? id = some c) (hc' : p'.clients.get? id = some c') : Lives id c c' := by
  induction h generalizing c with
  | nil =>
    cases hc.symm.trans hc'
    exact .refl
  | @cons p₀ p₁ p₂ a actions head _ ih =>
    obtain ⟨c₁, hc₁⟩ := Table.mem_keys.mp head.2
    exact (act_lives head.1 hc hc₁).trans (ih hc₁ hc')

end Process

end Ripc
