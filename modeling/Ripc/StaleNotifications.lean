import Ripc.PeerKnowledge
import Ripc.DriverPages
import Ripc.DriverRuns

namespace Ripc

/-- The call would make a connection for the client id: the copy in works, the client is found and not
connected, its server is found, and there is memory where no pool has to be made first. -/
def Call.Connects (call : Call) (s : Drv) (id : Int) : Prop :=
  ∃ filp con k cli v, call.op = .ioctl filp (.connectToServer con) ∧ con.clientId = id ∧
    call.kernel.copyFromUser = true ∧ findClientById s id = some k ∧ s.gClientsList.get? k = some cli ∧
    cli.connP = none ∧ findServerByName s con.serverName.toList = .ok (some v) ∧
    (findFreeSubmem s ≠ none → call.kernel.kmalloc .conn s ≠ none)

namespace Process

/-- A connection for a client of the process is made only when nothing that a server sent to this client is
left on the queue and the client keeps no callback. -/
def Settled (p : Process) (call : Call) : Prop :=
  ∀ id c, p.clients.get? id = some c → call.Connects p.drv id → p.Unheard id ∧ c.callback = none

/-- What the process is promised about the notification at the head of its queue and about its clients. -/
structure NoStale (p : Process) : Prop where
  stale : ∀ ntf n rest munmap, p.queue = (ntf, n) :: rest → ntf.whoSends = .server →
    n < p.connections ntf.reciverId → p.dispatchNotification munmap ntf = p.clients
  connected : ∀ id c, p.clients.get? id = some c → c.connection = some (p.connections id) →
    p.drv.Connected id → c.isConnected = true ∧ c.isMapped = true
  reply : ∀ ntf n rest c w, p.queue = (ntf, n) :: rest → ntf.whoSends = .server → ntf.type = .newMessage →
    0 ≤ ntf.reciverId → p.clients.get? ntf.reciverId.toNat = some c → c.isReady = true →
    c.callback = some w → w.connection = n ∧ w.server = some ntf.senderId

end Process

/-- The connection request that an action makes is settled. -/
def Action.Settled (p : Process) : Action → Prop
  | .connect K _ id serverName => serverName ≠ [] → serverName.length < maxServerName →
    p.Settled ⟨K, .ioctl p.fd (.connectToServer ⟨id, Process.nameField serverName⟩)⟩
  | .other driverCall => p.Settled driverCall
  | _ => True

theorem RipcClient.handleNotification_notReady {c : RipcClient} {munmap : Bool} {ntf : NotificationData}
    (h : c.isReady = false) : c.handleNotification munmap ntf = c := by
  unfold handleNotification dispatchNewMessage dispatchRemoteDisconnect
  split <;> simp [h]

namespace Process

variable {p p' : Process} {call : Call} {r : Reply} {id : Nat} {c : RipcClient}

/-- What holds of a client between two actions. -/
structure ClientOk (p : Process) (id : Nat) (c : RipcClient) : Prop where
  valid : isIdValid id = true
  count : ∀ n, c.connection = some n → n ≤ p.connections id
  stays : c.connection = some (p.connections id) → p.drv.Connected id → c.isReady = true
  known : c.isReady = true → ∃ peer, p.Known id peer ∧ ∀ w, c.callback = some w →
    w.connection = p.connections id ∧ ∀ a, peer = some a → w.server = some a

structure Inv (p : Process) : Prop where
  aligned : p.Aligned
  client : ∀ id c, p.clients.get? id = some c → p.ClientOk id c

theorem Known.withClients {id : Int} {peer : Option Int} (h : p.Known id peer) (clients : Table RipcClient) :
    { p with clients }.Known id peer :=
  ⟨fun x hx server receiver => ⟨(h.heard x hx server receiver).current, (h.heard x hx server receiver).torn,
    (h.heard x hx server receiver).sender⟩, h.peer⟩

theorem ClientOk.withClients (h : p.ClientOk id c) (clients : Table RipcClient) :
    { p with clients }.ClientOk id c := by
  refine ⟨h.valid, h.count, h.stays, fun ready => ?_⟩
  obtain ⟨peer, known, waits⟩ := h.known ready
  exact ⟨peer, known.withClients clients, waits⟩

theorem Inv.withClients (inv : p.Inv) {clients : Table RipcClient}
    (ok : ∀ id c, clients.get? id = some c → p.ClientOk id c) : { p with clients }.Inv :=
  ⟨⟨inv.aligned.orderly, inv.aligned.file, inv.aligned.queue⟩,
    fun id c hc => (ok id c hc).withClients clients⟩

theorem Inv.setClient (inv : p.Inv) (ok : p.ClientOk id c) : (p.setClient id c).Inv := by
  refine inv.withClients fun id' c' hc' => ?_
  rw [Table.get?_modify] at hc'
  split at hc'
  next he =>
    obtain ⟨_, _, rfl⟩ := Option.map_eq_some_iff.mp hc'
    exact he ▸ ok
  next => exact inv.client id' c' hc'

theorem connects_of_connected {s s' : Drv} {id : Int} (h : step s call = .ok (r, s'))
    (connected : call.connected r = some id) : call.Connects s id := by
  obtain ⟨K, op⟩ := call
  simp only [Call.connected] at connected
  split at connected
  next f con =>
    split at connected
    next ret =>
      cases connected
      simp only [step, ipcIoctl] at h
      split at h
      next =>
        obtain ⟨rfl, _⟩ := returns_ok h
        cases ret
      next =>
        rcases connectToServer_ok h with ⟨neg, _⟩ | ⟨k, cli, v, s₁, copy, hk, hcli, hnone, hf, pool, done⟩
        · rw [ret] at neg
          cases neg
        rcases done with ⟨neg, _⟩ | ⟨_, q, m, e, hq, _⟩
        · rw [ret] at neg
          cases neg
        refine ⟨f, con, k, cli, v, rfl, rfl, copy, hk, hcli, hnone, hf, fun free => ?_⟩
        rcases pool with rfl | ⟨_, _, ⟨⟨_, full, _⟩, _⟩, _⟩
        · rw [hq]
          simp
        · exact absurd full free
    next => cases connected
  next => cases connected

theorem ClientOk.driver (ok : p.ClientOk id c) (aligned : p.Aligned)
    (settled : call.Connects p.drv id → p.Unheard id ∧ c.callback = none)
    (stays : call.op ≠ .release p.fd) (h : p.driver call = some (r, p')) : p'.ClientOk id c := by
  have h0 : (0 : Int) ≤ id := Int.natCast_nonneg id
  by_cases connected : call.connected r = some (id : Int)
  · have more : p'.connections id = p.connections id + 1 := by
      rw [(driver_ok h).2]
      simp [after, connected]
    obtain ⟨unheard, idle⟩ := settled (connects_of_connected (driver_ok h).1 connected)
    refine ⟨ok.valid, fun n hn => ?_, fun hn => ?_, fun _ => ?_⟩
    · have := ok.count n hn
      omega
    · have := ok.count _ hn
      omega
    · obtain ⟨peer, known⟩ := known_of_connected aligned h0 h connected unheard
      exact ⟨peer, known, fun w hw => by rw [idle] at hw; cases hw⟩
  · have same := connections_kept h connected
    obtain ⟨_, _, steady, _⟩ := driver_queue aligned h0 stays h connected
    refine ⟨ok.valid, fun n hn => same ▸ ok.count n hn,
      fun hn hc => ok.stays (same ▸ hn) (steady.connected hc), fun ready => ?_⟩
    obtain ⟨peer, known, waits⟩ := ok.known ready
    exact ⟨peer, known.driver aligned h0 stays h connected, fun w hw => same ▸ waits w hw⟩

theorem Inv.driver (inv : p.Inv) (settled : p.Settled call) (stays : call.op ≠ .release p.fd)
    (h : p.driver call = some (r, p')) : p'.Inv := by
  refine ⟨inv.aligned.driver stays h, fun id c hc => ?_⟩
  rw [(driver_frame h).1] at hc
  exact (inv.client id c hc).driver inv.aligned (settled id c hc) stays h

theorem settled_of_other (other : ∀ f con, call.op ≠ .ioctl f (.connectToServer con)) : p.Settled call := by
  rintro id c _ ⟨f, con, _, _, _, hop, _⟩
  exact absurd hop (other f con)

theorem connected_of_ret {K : Kernel} {s s' : Drv} {f : Ptr} {con : ConnectToServer}
    (h : step s ⟨K, .ioctl f (.connectToServer con)⟩ = .ok (r, s')) (ret : ¬r.ret < 0) :
    Call.connected ⟨K, .ioctl f (.connectToServer con)⟩ r = some con.clientId := by
  simp only [step, ipcIoctl] at h
  split at h
  next =>
    obtain ⟨rfl, _⟩ := returns_ok h
    exact absurd (by decide) ret
  next =>
    rcases connectToServer_ok h with ⟨neg, _⟩ | ⟨_, _, _, _, _, _, _, _, _, _, ⟨neg, _⟩ | ⟨zero, _⟩⟩
    · exact absurd neg ret
    · exact absurd neg ret
    · simp [Call.connected, zero]

theorem Inv.ioctl {K : Kernel} {cmd : Cmd} (inv : p.Inv) (h : p.ioctl K cmd = some (r, p'))
    (other : ∀ con, cmd ≠ .connectToServer con) : p'.Inv := by
  refine inv.driver (settled_of_other fun f con hop => ?_) (by simp) h
  cases hop
  exact other con rfl

theorem Inv.destroyClient {K : Kernel} {id : Int} (inv : p.Inv) (h : p.destroyClient K id = some p') :
    p'.Inv := by
  obtain ⟨⟨r, p₁⟩, hd, rfl⟩ := Option.map_eq_some_iff.mp h
  exact inv.ioctl hd nofun

theorem newClient_ok (valid : isIdValid id = true) : p.ClientOk id .new :=
  ⟨valid, nofun, nofun, nofun⟩

theorem Inv.createClient {K K' : Kernel} (inv : p.Inv) (h : p.createClient K K' = some p') : p'.Inv := by
  unfold Process.createClient at h
  split at h
  next => cases h; exact inv
  next =>
    obtain ⟨⟨r, p₁⟩, hr, h⟩ := Option.bind_eq_some_iff.mp h
    have inv₁ := inv.ioctl hr nofun
    simp only at h
    split at h
    next => exact inv₁.destroyClient h
    next accepted =>
      split at h
      next => exact inv₁.destroyClient h
      next fresh =>
        cases h
        refine inv₁.withClients fun id' c' hc' => ?_
        rw [Table.get?_pushBack fresh] at hc'
        split at hc'
        next he =>
          cases hc'
          refine newClient_ok ?_
          have valid := Bool.eq_true_of_not_eq_false fun hv => accepted (Or.inr hv)
          rw [he, Int.toNat_of_nonneg (isIdValid_iff.mp valid).1]
          exact valid
        next => exact inv₁.client id' c' hc'

theorem mmap_ok {K : Kernel} {p₁ : Process} {c₁ : RipcClient} (valid : isIdValid id = true)
    (h : p.mmap K id c = some (p₁, c₁)) : c₁ = { c with isMapped := true } ∧
      ∃ r, p.driver ⟨K, .mmap p.fd (packIds id 0)⟩ = some (r, p₁) := by
  rw [mmap, if_neg (packIds_ne_packError valid)] at h
  obtain ⟨⟨r, p₂⟩, hm, he⟩ := Option.map_eq_some_iff.mp h
  cases he
  exact ⟨rfl, r, hm⟩

/-- After a connection was made and its memory mapped, the client is what it seems to be. -/
theorem connectedClient_ok {name : List UInt8} {peer : Option Int} (valid : isIdValid id = true)
    (known : p.Known id peer) (named : name ≠ []) (mapped : c.isMapped = true) (idle : c.callback = none) :
    p.ClientOk id { c with connectedServerName := name, connection := some (p.connections id) } := by
  have ready : ({ c with connectedServerName := name, connection := some (p.connections id) } :
      RipcClient).isReady = true := by
    simp [RipcClient.isReady, RipcClient.isConnected, named, mapped]
  refine ⟨valid, fun n hn => ?_, fun _ _ => ready, fun _ => ⟨peer, known, fun w hw => ?_⟩⟩
  · cases hn
    exact le_rfl
  · rw [show c.callback = some w from hw] at idle
    cases idle

theorem Inv.connect {K K' : Kernel} {name : List UInt8} (inv : p.Inv)
    (settled : (Action.connect K K' id name).Settled p) (h : p.connect K K' id name = some p') : p'.Inv := by
  obtain ⟨c, hc, h⟩ := Option.bind_eq_some_iff.mp h
  split at h
  next => cases h; exact inv
  next named =>
    obtain ⟨named, short⟩ := not_or.mp named
    have settled := settled named (Nat.lt_of_not_le short)
    obtain ⟨⟨r, p₁⟩, hr, h⟩ := Option.bind_eq_some_iff.mp h
    have inv₁ := inv.driver settled (by simp) hr
    simp only at h
    split at h
    next => cases h; exact inv₁
    next ret =>
      have connected := connected_of_ret (driver_ok hr).1 ret
      have valid := (inv.client id c hc).valid
      have h0 : (0 : Int) ≤ id := Int.natCast_nonneg id
      obtain ⟨unheard, idle⟩ := settled id c hc (connects_of_connected (driver_ok hr).1 connected)
      obtain ⟨peer, known⟩ := known_of_connected inv.aligned h0 hr connected unheard
      obtain ⟨⟨p₂, c₂⟩, hm, rfl⟩ := Option.map_eq_some_iff.mp h
      split at hm
      next mapped =>
        cases hm
        exact inv₁.setClient (connectedClient_ok valid known named mapped idle)
      next =>
        obtain ⟨rfl, r', hm⟩ := mmap_ok valid hm
        have inv₂ := inv₁.driver (settled_of_other (by simp)) (by simp) hm
        have known := known.driver inv₁.aligned h0 (by simp) hm (by simp [Call.connected])
        exact inv₂.setClient (connectedClient_ok (c := { c with isMapped := true }) valid known named rfl idle)

theorem not_connected_of_disconnect {K : Kernel} (aligned : p.Aligned) (valid : isIdValid id = true)
    (h : p.ioctl K (.clientDisconnect (packIds id 0)) = some (r, p')) (ret : ¬r.ret < 0) :
    ¬p'.drv.Connected id := by
  obtain ⟨t, hf⟩ := aligned.file
  exact not_connected_disconnect aligned.orderly valid (Table.mem_keys.mpr ⟨t, hf⟩) (driver_ok h).1 ret

theorem ClientOk.disconnected (ok : p.ClientOk id c) (gone : ¬p.drv.Connected id) {c' : RipcClient}
    (same : c'.connection = c.connection) (unnamed : c'.isConnected = false) : p.ClientOk id c' := by
  refine ⟨ok.valid, same ▸ ok.count, fun _ hc => absurd hc gone, fun ready => ?_⟩
  rw [RipcClient.isReady, unnamed] at ready
  cases ready

theorem Inv.disconnect {K : Kernel} {munmap : Bool} (inv : p.Inv)
    (h : p.disconnect K id munmap = some p') : p'.Inv := by
  obtain ⟨c, hc, h⟩ := Option.bind_eq_some_iff.mp h
  split at h
  next => cases h; exact inv
  next =>
    obtain ⟨⟨r, p₁⟩, hr, rfl⟩ := Option.map_eq_some_iff.mp h
    have inv₁ := inv.ioctl hr nofun
    simp only
    split
    next => exact inv₁
    next ret =>
      have ok := inv₁.client id c ((driver_frame hr).1 ▸ hc)
      exact inv₁.setClient (ok.disconnected (not_connected_of_disconnect inv.aligned ok.valid hr ret) rfl rfl)

theorem ClientOk.sameConnection (ok : p.ClientOk id c) {c' : RipcClient} (ready : c'.isReady = c.isReady)
    (same : c'.connection = c.connection)
    (waits : ∀ peer w, p.Known id peer → c'.callback = some w → c.callback = some w ∨
      w.connection = p.connections id ∧ ∀ a, peer = some a → w.server = some a) : p.ClientOk id c' := by
  refine ⟨ok.valid, same ▸ ok.count, fun hn hc => ready ▸ ok.stays (same ▸ hn) hc, fun hready => ?_⟩
  obtain ⟨peer, known, old⟩ := ok.known (ready ▸ hready)
  exact ⟨peer, known, fun w hw => (waits peer w known hw).elim (old w) fun new => new⟩

/-- A request that is announced goes over the client's connection and changes nothing but a queue. -/
theorem linked_of_endWriting {K : Kernel} (aligned : p.Aligned) (valid : isIdValid id = true)
    (h : p.ioctl K (.clientEndWriting (packIds id 0)) = some (r, p')) (ret : ¬r.ret < 0) :
    (∃ q, p'.drv.Linked id q) ∧ p'.drv.serverOf id = p.drv.serverOf id := by
  obtain ⟨hs, _⟩ := driver_ok h
  obtain ⟨t, hf⟩ := aligned.file
  simp only [step, ipcIoctl, hf] at hs
  rcases clientEndWriting_ok hs with ⟨neg, _⟩ | ⟨_, k, cli, q, t', d, hk, hcli, hq, ⟨_, hdrv⟩, _⟩
  · exact absurd neg ret
  · rw [unpackId1_packIds valid rfl] at hk
    obtain ⟨cli', hcli', hid, _⟩ := findClientById_some hk
    cases hcli.symm.trans hcli'
    rw [hdrv]
    exact ⟨⟨q, k, cli, hcli, hid, hq⟩, rfl⟩

theorem Inv.request {K : Kernel} {input : Bool} (inv : p.Inv) (h : p.call K id input = some p') : p'.Inv := by
  obtain ⟨c, hc, h⟩ := Option.bind_eq_some_iff.mp h
  have ok := inv.client id c hc
  split at h
  next => cases h; exact inv
  next =>
    rw [if_neg (packIds_ne_packError ok.valid)] at h
    obtain ⟨⟨r, p₁⟩, hr, rfl⟩ := Option.map_eq_some_iff.mp h
    have inv₁ := inv.ioctl hr nofun
    have ok₁ := inv₁.client id c ((driver_frame hr).1 ▸ hc)
    simp only
    split
    next => exact inv₁.setClient (ok₁.sameConnection rfl rfl fun _ _ _ hw => Or.inl hw)
    next ret =>
      obtain ⟨⟨q, hq⟩, same⟩ := linked_of_endWriting inv.aligned ok.valid hr ret
      refine inv₁.setClient (ok₁.sameConnection rfl rfl fun peer w known hw => Or.inr ?_)
      simp only at hw
      split at hw
      next =>
        cases hw
        refine ⟨(connections_kept hr (by simp [Call.connected])).symm, fun a ha => ?_⟩
        rw [← same]
        exact serverOf_of_serves inv₁.aligned.orderly ok.valid hq ((known.peer q hq a).mp ha)
      next => cases hw

theorem Inv.deleteClient {K : Kernel} (inv : p.Inv) (h : p.deleteClient K id = some p') : p'.Inv := by
  unfold Process.deleteClient at h
  split at h
  next => cases h; exact inv
  next =>
    refine Inv.destroyClient (inv.withClients fun id' c' hc' => ?_) h
    exact inv.client id' c' (Table.get?_erase_some.mp hc').2

/-- A notification about the client's own connection is handled. -/
theorem ClientOk.handled {munmap : Bool} {ntf : NotificationData} (ok : p.ClientOk id c)
    (torn : c.isReady = true → ntf.type = .remoteDisconnect → ¬p.drv.Connected id) :
    p.ClientOk id (c.handleNotification munmap ntf) := by
  unfold RipcClient.handleNotification
  split
  next =>
    unfold RipcClient.dispatchNewMessage
    split
    next => exact ok.sameConnection rfl rfl fun _ _ _ hw => nomatch hw
    next => exact ok
  next htype =>
    unfold RipcClient.dispatchRemoteDisconnect
    split
    next ready => exact ok.disconnected (torn ready htype) rfl rfl
    next => exact ok
  next => exact ok

theorem Inv.listen {K : Kernel} {munmap : Bool} (inv : p.Inv) (h : p.listen K munmap = some p') : p'.Inv := by
  obtain ⟨⟨r, p₁⟩, hr, rfl⟩ := Option.map_eq_some_iff.mp h
  have inv₁ := inv.driver (settled_of_other (by simp)) (by simp) hr
  simp only
  split
  next ntf hout =>
    obtain ⟨n, hq⟩ := read_notif inv.aligned hr hout
    refine inv₁.withClients fun id c hc => ?_
    unfold dispatchNotification at hc
    split at hc
    next valid =>
      split at hc
      next => exact inv₁.client id c hc
      next server =>
        rw [Table.get?_modify] at hc
        split at hc
        next he =>
          obtain ⟨c₀, hc₀, rfl⟩ := Option.map_eq_some_iff.mp hc
          refine (inv₁.client id c₀ hc₀).handled fun ready htype hconn => ?_
          obtain ⟨peer, known, _⟩ := (inv.client id c₀ ((driver_frame hr).1 ▸ hc₀)).known ready
          have receiver : ntf.reciverId = id := by
            rw [he, Int.toNat_of_nonneg (isIdValid_iff.mp valid.1).1]
          have torn := (known.heard (ntf, n) (hq ▸ List.mem_cons_self) server receiver).torn htype
          obtain ⟨_, _, steady, _⟩ := driver_queue inv.aligned (Int.natCast_nonneg id) (by simp) hr
            (by simp [Call.connected])
          exact torn (steady.connected hconn)
        next => exact inv₁.client id c hc
    next => exact inv₁.client id c hc
  next => exact inv₁

theorem Inv.act {action : Action} (inv : p.Inv) (settled : action.Settled p) (h : p.act action = some p') :
    p'.Inv := by
  cases action with
  | createClient K K' => exact inv.createClient h
  | connect K K' id name => exact inv.connect settled h
  | disconnect K id munmap => exact inv.disconnect h
  | call K id input => exact inv.request h
  | deleteClient K id => exact inv.deleteClient h
  | listen K munmap => exact inv.listen h
  | other call =>
    have made : call.op ≠ .release p.fd → (p.driver call).map Prod.snd = some p' → p'.Inv := by
      intro stays h
      obtain ⟨⟨r, p₁⟩, hr, rfl⟩ := Option.map_eq_some_iff.mp h
      exact inv.driver settled stays hr
    simp only [Process.act] at h
    split at h
    next fd hop =>
      split at h
      next => cases h
      next hne => exact made (by rw [hop]; simpa using hne) h
    next hop => exact made (hop p.fd) h

theorem Inv.start {s : Drv} {fd t : Ptr} (reachable : Reachable s) (hf : s.files.get? fd = some t)
    (maxClients : Nat) : (start s fd maxClients).Inv := by
  refine ⟨⟨reachable.orderly, ⟨t, hf⟩, ?_⟩, nofun⟩
  simp [Process.start, Function.comp_def]

theorem Inv.noStale (inv : p.Inv) : p.NoStale := by
  refine ⟨fun ntf n rest munmap hq server old => ?_, fun id c hc hn hconn => ?_,
    fun ntf n rest c w hq server htype h0 hc ready hw => ?_⟩
  · unfold dispatchNotification
    split
    next valid =>
      rw [server]
      refine Table.mapAt_eq_self fun id c hc => ?_
      split
      next he =>
        refine RipcClient.handleNotification_notReady (Bool.eq_false_iff.mpr fun ready => ?_)
        obtain ⟨peer, known, _⟩ := (inv.client id c hc).known ready
        have receiver : ntf.reciverId = id := by
          rw [he, Int.toNat_of_nonneg (isIdValid_iff.mp valid.1).1]
        have current := (known.heard (ntf, n) (hq ▸ List.mem_cons_self) server receiver).current
        rw [receiver] at old
        exact absurd current (Nat.ne_of_lt old)
      next => rfl
    next => rfl
  · simpa [RipcClient.isReady] using (inv.client id c hc).stays hn hconn
  · obtain ⟨peer, known, waits⟩ := (inv.client _ c hc).known ready
    rw [Int.toNat_of_nonneg h0] at known waits
    have heard := known.heard (ntf, n) (hq ▸ List.mem_cons_self) server rfl
    obtain ⟨count, sent⟩ := waits w hw
    exact ⟨count.trans heard.current.symm, sent _ (heard.sender htype)⟩

/-- While every connection is made settled, no notification reaches a later connection, a client stays
connected as long as its connection exists, and a callback runs for the server its request went to. -/
theorem notifications_current {s : Drv} {fd t : Ptr} {maxClients : Nat} {actions : List Action}
    (reachable : Reachable s) (hf : s.files.get? fd = some t)
    (run : Trace (fun p action p' => action.Settled p ∧ p.act action = some p') (start s fd maxClients)
      actions p) : p.NoStale :=
  (run.invariant (fun _ _ _ inv hs => Inv.act inv hs.1 hs.2) (Inv.start reachable hf maxClients)).noStale

/-- A test for settled actions: connections are made with an empty queue and without callbacks, and by
the process alone. -/
def settledAction (p : Process) : Action → Bool
  | .connect _ _ _ _ => p.queue.isEmpty && p.clients.entries.all fun e => e.2.callback.isNone
  | .other call =>
    match call.op with
    | .ioctl _ (.connectToServer _) => false
    | _ => true
  | _ => true

theorem settledAction_sound {action : Action} (h : p.settledAction action = true) : action.Settled p := by
  cases action with
  | connect K K' id name =>
    intro _ _ id' c hc _
    obtain ⟨empty, idle⟩ := (Bool.and_eq_true _ _).mp h
    refine ⟨fun x hx => ?_, ?_⟩
    · rw [List.isEmpty_iff.mp empty] at hx
      cases hx
    · simpa using List.all_eq_true.mp idle _ (Table.get?_eq_some.mp hc)
  | other call =>
    refine settled_of_other fun f con hop => ?_
    simp [settledAction, hop] at h
  | _ => trivial

def twoServers : List Call :=
  [callOf 1 .open, callOf 2 .open,
    callOf 1 (.ioctl 1 (.registerServer ⟨shortName 65, Vector.replicate 4 0⟩)),
    callOf 1 (.ioctl 1 (.registerServer ⟨shortName 66, Vector.replicate 4 0⟩))]

def plenty2 : Kernel := .plenty ⟨2, 2⟩

/-- A client asks `A`, is answered, disconnects, sees its own disconnection, connects to `B` and asks `B`,
which answers. -/
def answeredThenB : List Action :=
  [.createClient plenty2 plenty2, .connect plenty2 plenty2 2 [65], .call plenty2 2 true,
    .other (callOf 1 (.ioctl 1 (.serverEndWriting (packIds 0 3)))), .listen plenty2 true,
    .disconnect plenty2 2 true, .listen plenty2 true, .connect plenty2 plenty2 2 [66],
    .call plenty2 2 true, .other (callOf 1 (.ioctl 1 (.serverEndWriting (packIds 1 3))))]

theorem notifications_current_answered : ∃ s p, runCalls Drv.init twoServers = some s ∧
    runIf act settledAction (start s 2 16) answeredThenB = some p ∧
    p.clients.entries = [(2, ⟨[66], true, true, true, some ⟨2, some 1⟩, some 2⟩)] ∧
    p.queue = [(⟨.server, .newMessage, 3, 1, 2⟩, 2)] ∧ p.NoStale := by
  have facts : ((runCalls Drv.init twoServers).bind fun s =>
      (runIf act settledAction (start s 2 16) answeredThenB).map fun p =>
        (s.files.get? 2, p.clients.entries, p.queue)) =
      some (some 2, [(2, ⟨[66], true, true, true, some ⟨2, some 1⟩, some 2⟩)],
        [(⟨.server, .newMessage, 3, 1, 2⟩, 2)]) := by decide
  obtain ⟨s, hs, facts⟩ := Option.bind_eq_some_iff.mp facts
  obtain ⟨p, hp, facts⟩ := Option.map_eq_some_iff.mp facts
  simp only [Prod.mk.injEq] at facts
  obtain ⟨hf, hc, hq⟩ := facts
  have run : Trace (fun p action p' => action.Settled p ∧ p.act action = some p') (start s 2 16)
      answeredThenB p := (runIf_trace hp).mono fun _ _ _ _ h => ⟨settledAction_sound h.1, h.2⟩
  exact ⟨s, p, hs, hp, hc, hq, notifications_current ⟨_, runCalls_trace hs⟩ hf run⟩

/-- A client disconnects from `A` and connects to `B` before the listener has read anything. -/
def reconnect : List Action :=
  [.createClient plenty2 plenty2, .connect plenty2 plenty2 2 [65], .disconnect plenty2 2 true,
    .connect plenty2 plenty2 2 [66]]

/-- The disconnection from `A` is delivered to the client that is connected to `B`. -/
theorem notifications_reconnect_stale : ∃ s p, runCalls Drv.init twoServers = some s ∧
    runIf act (fun _ _ => true) (start s 2 16) reconnect = some p ∧
    p.clients.entries = [(2, ⟨[66], true, false, true, none, some 2⟩)] ∧
    p.queue = [(⟨.server, .remoteDisconnect, 3, 0, 2⟩, 1)] ∧
    (p.dispatchNotification true ⟨.server, .remoteDisconnect, 3, 0, 2⟩).entries =
      [(2, ⟨[], false, false, false, none, some 2⟩)] ∧ ¬p.NoStale := by
  have facts : ((runCalls Drv.init twoServers).bind fun s =>
      (runIf act (fun _ _ => true) (start s 2 16) reconnect).map fun p =>
        (p.clients.entries, p.queue, p.connections 2,
          (p.dispatchNotification true ⟨.server, .remoteDisconnect, 3, 0, 2⟩).entries)) =
      some ([(2, ⟨[66], true, false, true, none, some 2⟩)],
        [(⟨.server, .remoteDisconnect, 3, 0, 2⟩, 1)], 2,
        [(2, ⟨[], false, false, false, none, some 2⟩)]) := by decide
  obtain ⟨s, hs, facts⟩ := Option.bind_eq_some_iff.mp facts
  obtain ⟨p, hp, facts⟩ := Option.map_eq_some_iff.mp facts
  simp only [Prod.mk.injEq] at facts
  obtain ⟨hc, hq, hn, hd⟩ := facts
  refine ⟨s, p, hs, hp, hc, hq, hd, fun noStale => ?_⟩
  have unchanged := noStale.stale _ _ _ true hq rfl (by rw [hn]; decide)
  rw [unchanged, hc] at hd
  exact absurd hd (by decide)

end Process

end Ripc
