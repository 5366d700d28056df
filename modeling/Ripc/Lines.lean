import Ripc.ServerTable
import Ripc.DriverRoster
import Ripc.DriverPartings

namespace Ripc

/-- A connection with its memory: its server sits in a seat, and its client is one of another process. -/
structure Line extends Seat where
  clientFd : Ptr
  clientTask : Ptr
  client : Ptr
  clientEntry : Ptr
  clientId : Int
  conn : Ptr
  mem : SubMemPtr
  subMemId : Int

/-- What the server's process gets once the client has written. -/
def Line.request (l : Line) : NotificationData := ⟨.client, .newMessage, l.subMemId, l.clientId, l.id⟩

/-- What the client's process gets once the server has written. -/
def Line.reply (l : Line) : NotificationData := ⟨.server, .newMessage, l.subMemId, l.id, l.clientId⟩

structure Line.Up (l : Line) (s : Drv) : Prop extends l.Occupied s where
  orderly : Orderly s
  apart : l.task ≠ l.clientTask
  clientValid : isIdValid l.clientId = true
  subMemValid : isIdValid l.subMemId = true
  clientFile : s.files.get? l.clientFd = some l.clientTask
  client : s.gClientsList.get? l.client = some ⟨l.clientId, some l.clientEntry, some l.conn⟩
  clientEntry : s.clientsEntries.get? l.clientEntry = some ⟨l.clientTask, l.client⟩
  conn : ∃ servMmaped, s.gConnsList.get? l.conn = some ⟨some l.client, some l.server, some l.mem, servMmaped⟩
  memory : s.idOf (.subMem l.mem) = some l.subMemId

/-- The event neither ends the connection nor closes one of the two files. -/
def Event.KeepsLine (l : Line) : Event → Prop
  | .teardown p _ => p ≠ l.conn
  | .closeTask f _ | .closeFile f => f ≠ l.fd ∧ f ≠ l.clientFd
  | .dropServer e _ _ => e ≠ l.entry
  | _ => True

/-- The event leaves the connection, the two files and their queues to the two processes. -/
def Event.Avoids (l : Line) : Event → Prop
  | .post p _ d => p = l.conn → d.type ≠ .newMessage
  | .dequeue t => t ≠ l.task ∧ t ≠ l.clientTask
  | ev => ev.KeepsLine l

/-- The call is not made for the client or the server on the connection. -/
def Op.avoids (l : Line) : Op → Bool
  | .read f _ | .release f => f ≠ l.fd ∧ f ≠ l.clientFd
  | .ioctl _ (.clientEndWriting arg) | .ioctl _ (.clientDisconnect arg) | .ioctl _ (.clientUnregister arg) =>
    unpackId1 arg ≠ l.clientId
  | .ioctl _ (.serverEndWriting arg) | .ioctl _ (.serverDisconnect arg) =>
    ¬(unpackId1 arg = l.id ∧ unpackId2 arg = l.subMemId)
  | .ioctl _ (.serverUnregister arg) => unpackId1 arg ≠ l.id
  | _ => true

/-- What others may be the reason of that the server's process reads. -/
def Line.Hears (l : Line) (d : NotificationData) : Prop :=
  d.For l.id → if d.senderId = l.clientId then d.type = .newConnection ∧ d.subMemId = l.subMemId
    else d.subMemId ≠ l.subMemId

/-- What others may be the reason of that the client's process reads. -/
def Line.ClientHears (l : Line) (d : NotificationData) : Prop :=
  d.whoSends = .server → d.reciverId = l.clientId → d.type = .newConnection

section

variable {K : Kernel} {s s' a b : Drv} {l : Line} {p k v t : Ptr} {d : NotificationData} {ev : Event} {r : Reply}
  {arg : U32}

theorem Event.Avoids.keeps (avoids : ev.Avoids l) : ev.KeepsLine l := by
  cases ev <;> first | exact avoids | trivial

namespace Line.Up

theorem client_unique (up : l.Up s) {cli : Client} (hk : s.gClientsList.get? k = some cli)
    (hid : cli.id = l.clientId) : k = l.client :=
  up.orderly.client_unique (isIdValid_iff.mp up.clientValid).1 hk up.client hid rfl

theorem conn_of_client (up : l.Up s) {c : Connection} (hc : s.gConnsList.get? p = some c)
    (hk : c.clientP = some l.client) : p = l.conn := by
  obtain ⟨cli, hcli, hp⟩ := up.orderly.wf.links.connClient p c l.client hc hk
  cases up.client.symm.trans hcli
  exact (Option.some.inj hp).symm

theorem conn_of_mem (up : l.Up s) {c : Connection} {m : SubMemPtr} (hc : s.gConnsList.get? p = some c)
    (hm : c.memP = some m) (hid : s.idOf (.subMem m) = some l.subMemId) : p = l.conn := by
  have slot := up.orderly.ids.unique _ _ _ (isIdValid_iff.mp up.subMemValid).1 hid up.memory
  cases slot
  obtain ⟨_, hconn⟩ := up.conn
  obtain ⟨sub, hsub, hp⟩ := up.orderly.wf.links.connMem p c l.mem hc hm
  obtain ⟨sub', hsub', hp'⟩ := up.orderly.wf.links.connMem l.conn _ l.mem hconn rfl
  cases hsub.symm.trans hsub'
  exact Option.some.inj (hp.symm.trans hp')

theorem posts_own (up : l.Up s) (posts : Posts s l.conn d t) :
    (d = ⟨.client, d.type, l.subMemId, l.clientId, l.id⟩ ∧ t = l.task) ∨
      (d = ⟨.server, d.type, l.subMemId, l.id, l.clientId⟩ ∧ t = l.clientTask) := by
  obtain ⟨_, hconn⟩ := up.conn
  obtain ⟨srv₀, hsrv₀, hid, htask⟩ := up.server
  obtain ⟨who, type, subMemId, senderId, reciverId⟩ := d
  cases posts with
  | toServer conn mem subMem subId clientP client serverP server entryP entry who sender reciver task =>
    cases hconn.symm.trans conn
    cases mem
    cases clientP
    cases serverP
    cases up.client.symm.trans client
    cases hsrv₀.symm.trans server
    cases htask.symm.trans entryP
    cases up.entry.symm.trans entry
    have mem := Option.some.inj ((idOf_subMem subMem).symm.trans up.memory)
    subst who subId sender reciver
    exact Or.inl ⟨by rw [mem, hid], task.symm⟩
  | toClient conn mem subMem subId clientP client serverP server entryP entry who sender reciver task =>
    cases hconn.symm.trans conn
    cases mem
    cases clientP
    cases serverP
    cases up.client.symm.trans client
    cases hsrv₀.symm.trans server
    cases entryP
    cases up.clientEntry.symm.trans entry
    have mem := Option.some.inj ((idOf_subMem subMem).symm.trans up.memory)
    subst who subId sender reciver
    exact Or.inr ⟨by rw [mem, hid], task.symm⟩

theorem posts_other (up : l.Up s) (posts : Posts s p d t) (other : p ≠ l.conn) : d.subMemId ≠ l.subMemId ∧
    (d.whoSends = .client → d.senderId ≠ l.clientId) ∧ (d.whoSends = .server → d.reciverId ≠ l.clientId) := by
  cases posts with
  | toServer conn mem subMem subId clientP client _ _ _ _ who sender =>
    refine ⟨fun same => other (up.conn_of_mem conn mem ?_), fun _ same => other (up.conn_of_client conn ?_),
      fun server => ?_⟩
    · rw [idOf_subMem subMem, ← subId, same]
    · rw [clientP, up.client_unique client (sender.symm.trans same)]
    · cases who.symm.trans server
  | toClient conn mem subMem subId clientP client _ _ _ _ who _ reciver =>
    refine ⟨fun same => other (up.conn_of_mem conn mem ?_), fun client => ?_,
      fun _ same => other (up.conn_of_client conn ?_)⟩
    · rw [idOf_subMem subMem, ← subId, same]
    · cases who.symm.trans client
    · rw [clientP, up.client_unique client (reciver.symm.trans same)]

theorem client_event (up : l.Up s) (he : s.event ev s') (keeps : ev.KeepsLine l) :
    s'.gClientsList.get? l.client = some ⟨l.clientId, some l.clientEntry, some l.conn⟩ := by
  have client := up.client
  have live := Table.mem_keys.mpr ⟨_, client⟩
  obtain ⟨ok, rfl⟩ := he
  cases ev with
  | addServer v name i owner => cases owner <;> exact client
  | addClient k i owner =>
    have other : l.client ≠ k := fun he => ok.1 (he ▸ live)
    have new : (s.addClient k i).gClientsList.get? l.client = _ :=
      (Table.get?_pushBack ok.1).trans ((if_neg other).trans client)
    cases owner with
    | none => exact new
    | some o => exact (Table.get?_modify _).trans ((if_neg other).trans new)
  | dropClient e x i =>
    refine Table.get?_erase_some.mpr ⟨?_, client⟩
    rintro he
    obtain ⟨_, cli, hcli, _, idle⟩ := ok
    cases client.symm.trans (he ▸ hcli)
    cases idle
  | addPool p shm =>
    rw [Drv.apply, Drv.addPool, takeIds_frame]
    exact client
  | link p k v m e =>
    rw [Drv.apply, clients_link, if_neg]
    · exact client
    · rintro rfl
      obtain ⟨cli, hcli, idle⟩ := ok.2.1
      cases client.symm.trans hcli
      cases idle
  | teardown p ds =>
    rw [Drv.apply, clients_unlink, enqueueAll_eq, client, Option.map_some, forget, if_neg]
    exact fun he => keeps (Option.some.inj he).symm
  | _ => exact client

theorem clientEntry_event (up : l.Up s) (he : s.event ev s') (client : s'.gClientsList.get? l.client ≠ none) :
    s'.clientsEntries.get? l.clientEntry = some ⟨l.clientTask, l.client⟩ := by
  have entry := up.clientEntry
  by_cases added : ∃ k i owner, ev = .addClient k i owner
  · obtain ⟨k, i, owner, rfl⟩ := added
    obtain ⟨ok, rfl⟩ := he
    cases owner with
    | none => exact entry
    | some o =>
      have fresh := (ok.2.2 o rfl).1
      refine (Table.get?_pushFront fresh).trans ((if_neg ?_).trans entry)
      rintro he
      exact fresh (he ▸ Table.mem_keys.mpr ⟨_, entry⟩)
  by_cases dropped : ∃ e x i, ev = .dropClient e x i
  · obtain ⟨e, x, i, rfl⟩ := dropped
    obtain ⟨ok, rfl⟩ := he
    refine Table.get?_erase_some.mpr ⟨?_, entry⟩
    rintro rfl
    cases ok.1.symm.trans entry
    exact client (by rw [Drv.apply, Drv.dropClient, Table.get?_erase, if_pos rfl])
  rw [clientsEntries_event he (fun k i owner h => added ⟨k, i, owner, h⟩) fun e x i h => dropped ⟨e, x, i, h⟩]
  exact entry

theorem event (up : l.Up s) (he : s.event ev s') (keeps : ev.KeepsLine l) : l.Up s' := by
  have wf := up.orderly.wf
  have client := up.client_event he keeps
  have conn : ∃ servMmaped, s'.gConnsList.get? l.conn =
      some ⟨some l.client, some l.server, some l.mem, servMmaped⟩ := by
    obtain ⟨servMmaped, hc⟩ := up.conn
    rcases conn_event he hc with ⟨ds, rfl⟩ | same | ⟨_, mapped⟩
    · exact absurd rfl keeps
    · exact ⟨servMmaped, same⟩
    · exact ⟨true, mapped⟩
  refine ⟨up.toOccupied.event wf he ?_, up.orderly.event he, up.apart, up.clientValid, up.subMemValid,
    file_event wf up.clientFile he (fun u h => ?_) fun h => ?_, client,
    up.clientEntry_event he (by rw [client]; exact Option.some_ne_none _), conn, ?_⟩
  · cases ev <;> first | exact keeps.1 | exact keeps | trivial
  · subst h
    exact keeps.2 rfl
  · subst h
    exact keeps.2 rfl
  · obtain ⟨_, hc⟩ := conn
    exact idOf_stays he up.memory (subMem_live (wf.event he) hc rfl)

end Line.Up

end

end Ripc
