import Ripc.PeerKnowledge
import Ripc.DriverRoster
import Ripc.Registration

namespace Ripc

/-- The id under which the driver looks for a client that has none. -/
def strayId : Int := unpackId1 (packIds (-1) 0)

namespace Process

def Registers (p : Process) (id : Int) : Prop := ∃ t, p.drv.files.get? p.fd = some t ∧ p.drv.Registers t id

/-- The driver has registered the clients that the manager holds. -/
def SameClients (p : Process) : Prop := ∀ id, p.Registers id ↔ ∃ n ∈ p.clients.keys, id = (n : Int)

def IsMonitor (p : Process) : Prop :=
  ∃ t task, p.drv.files.get? p.fd = some t ∧ p.drv.gRegTaskList.get? t = some task ∧ task.isMonitor ≠ 0

/-- Where nothing fails, a client can be made until the manager holds as many as the driver admits. -/
def Creates (p : Process) : Prop :=
  p.clients.keys.length < maxClientsPerPid → ¬p.IsMonitor → ∀ K K', K.Succeeds →
    isIdValid (K.idaAllocRange .client p.drv.gIdGen) = true →
    ∃ p' n, p.createClient K K' = some p' ∧ p'.clients.keys = p.clients.keys ++ [n]

/-- The driver ties a new client to the task of the process. -/
def Enrols (p : Process) (K : Kernel) : Prop :=
  ∃ t task, p.drv.files.get? p.fd = some t ∧ p.drv.gRegTaskList.get? t = some task ∧ task.canAddClient = true ∧
    K.copyToUser = true ∧ ∀ k, K.kmalloc .client p.drv = some k →
      K.kmalloc .clientsEntry (p.drv.addClient k (K.idaAllocRange .client p.drv.gIdGen)) ≠ none

/-- Unregistering this id takes no client away from the process. -/
def Harmless (p : Process) (id : Int) : Prop := (∃ n ∈ p.clients.keys, id = (n : Int)) → ¬p.drv.Connected id

/-- A client is connected when it is deleted; a registration that is tied to the process has an id, and the destructor
of a client that got none hits nobody; no other call touches the clients of the process. -/
def Fits (p : Process) : Action → Prop
  | .createClient K _ => p.clients.keys.length < p.maxClients →
      (p.Enrols K → isIdValid (K.idaAllocRange .client p.drv.gIdGen) = true) ∧ (¬p.Enrols K → p.Harmless strayId)
  | .deleteClient _ id => id ∈ p.clients.keys → p.drv.Connected id
  | .other call => call.op ≠ .ioctl p.fd .registerClient ∧
      ∀ f arg, call.op = .ioctl f (.clientUnregister arg) → p.Harmless (unpackId1 arg)
  | _ => True

/-- The process beside the driver, with `t` its task. -/
structure Matches (p : Process) (t : Ptr) : Prop where
  reachable : Reachable p.drv
  file : p.drv.files.get? p.fd = some t
  limit : p.maxClients = maxClientsPerPid
  same : ∀ id, p.drv.Registers t id ↔ ∃ n ∈ p.clients.keys, id = (n : Int)

variable {p p' : Process} {K K' : Kernel} {t : Ptr} {r : Reply} {call : Call} {id : Nat}

theorem Matches.withClients (m : p.Matches t) {clients : Table RipcClient} (keys : clients.keys = p.clients.keys) :
    { p with clients }.Matches t :=
  ⟨m.reachable, m.file, m.limit, fun id => (m.same id).trans (by rw [keys])⟩

theorem Matches.setClient (m : p.Matches t) (c : RipcClient) : (p.setClient id c).Matches t :=
  m.withClients (Table.keys_modify _)

theorem reachable_driver (reachable : Reachable p.drv) (h : p.driver call = some (r, p')) : Reachable p'.drv := by
  obtain ⟨calls, run⟩ := reachable
  exact ⟨calls ++ [call], run.append (.single ⟨r, (driver_ok h).1⟩)⟩

theorem Matches.driver (m : p.Matches t) (h : p.driver call = some (r, p')) (stays : call.op ≠ .release p.fd)
    (adds : call.op ≠ .ioctl p.fd .registerClient)
    (drops : ∀ f arg, call.op = .ioctl f (.clientUnregister arg) → p.Harmless (unpackId1 arg)) : p'.Matches t := by
  obtain ⟨hs, hp⟩ := driver_ok h
  obtain ⟨clients, fd⟩ := driver_frame h
  refine ⟨reachable_driver m.reachable h, ?_, ?_, fun id => ?_⟩
  · rw [fd]
    exact step_file m.reachable.wf m.file stays hs
  · rw [hp]
    exact m.limit
  · rw [clients, ← m.same]
    refine step_registers m.reachable.orderly m.file stays adds (fun f arg op connected registered => ?_) hs
    exact drops f arg op ((m.same _).mp registered) connected

theorem Matches.ioctl {cmd : Cmd} (m : p.Matches t) (h : p.ioctl K cmd = some (r, p')) (adds : cmd ≠ .registerClient)
    (drops : ∀ arg, cmd ≠ .clientUnregister arg) : p'.Matches t := by
  refine m.driver h (by simp) (by simpa using adds) fun f arg op => ?_
  obtain ⟨_, rfl⟩ := Op.ioctl.inj op
  exact absurd rfl (drops arg)

theorem Matches.mmap {c c' : RipcClient} (m : p.Matches t) (h : p.mmap K id c = some (p', c')) : p'.Matches t := by
  unfold Process.mmap at h
  split at h
  next => cases h; exact m
  next =>
    obtain ⟨⟨r, p₁⟩, hr, he⟩ := Option.map_eq_some_iff.mp h
    cases he
    exact m.driver hr (by simp) (by simp) (by simp)

theorem Matches.connect {name : List UInt8} (m : p.Matches t) (h : p.connect K K' id name = some p') :
    p'.Matches t := by
  obtain ⟨c, _, h⟩ := Option.bind_eq_some_iff.mp h
  split at h
  next => cases h; exact m
  next =>
    obtain ⟨⟨r, p₁⟩, hr, h⟩ := Option.bind_eq_some_iff.mp h
    have m₁ := m.ioctl hr (by simp) (by simp)
    simp only at h
    split at h
    next => cases h; exact m₁
    next =>
      obtain ⟨⟨p₂, c₂⟩, hm, rfl⟩ := Option.map_eq_some_iff.mp h
      split at hm
      next => cases hm; exact m₁.setClient _
      next => exact (m₁.mmap hm).setClient _

theorem Matches.disconnect {munmap : Bool} (m : p.Matches t) (h : p.disconnect K id munmap = some p') :
    p'.Matches t := by
  obtain ⟨c, _, h⟩ := Option.bind_eq_some_iff.mp h
  split at h
  next => cases h; exact m
  next =>
    obtain ⟨⟨r, p₁⟩, hr, rfl⟩ := Option.map_eq_some_iff.mp h
    have m₁ := m.ioctl hr (by simp) (by simp)
    simp only
    split
    next => exact m₁
    next => exact m₁.setClient _

theorem Matches.request {input : Bool} (m : p.Matches t) (h : p.call K id input = some p') : p'.Matches t := by
  obtain ⟨c, _, h⟩ := Option.bind_eq_some_iff.mp h
  split at h
  next => cases h; exact m
  next =>
    split at h
    next => cases h; exact m.setClient _
    next =>
      obtain ⟨⟨r, p₁⟩, hr, rfl⟩ := Option.map_eq_some_iff.mp h
      have m₁ := m.ioctl hr (by simp) (by simp)
      simp only
      split
      next => exact m₁.setClient _
      next => exact m₁.setClient _

theorem keys_dispatchNotification (p : Process) (munmap : Bool) (ntf : NotificationData) :
    (p.dispatchNotification munmap ntf).keys = p.clients.keys := by
  unfold dispatchNotification
  split
  next =>
    split
    next => rfl
    next => exact Table.keys_modify _
  next => rfl

theorem Matches.listen {munmap : Bool} (m : p.Matches t) (h : p.listen K munmap = some p') : p'.Matches t := by
  obtain ⟨⟨r, p₁⟩, hr, rfl⟩ := Option.map_eq_some_iff.mp h
  have m₁ := m.driver hr (by simp) (by simp) (by simp)
  simp only
  split
  next ntf _ => exact m₁.withClients (keys_dispatchNotification p₁ munmap ntf)
  next => exact m₁

theorem unregister_registers {i : Int} (reachable : Reachable p.drv) (file : p.drv.files.get? p.fd = some t)
    (h : p.destroyClient K i = some p') : Reachable p'.drv ∧ p'.drv.files.get? p'.fd = some t ∧
      p'.maxClients = p.maxClients ∧ p'.clients = p.clients ∧
      ((¬p.drv.Connected (unpackId1 (packIds i 0)) ∧ p'.drv = p.drv) ∨ (p.drv.Connected (unpackId1 (packIds i 0)) ∧
        ∀ id, p'.drv.Registers t id ↔ p.drv.Registers t id ∧ id ≠ unpackId1 (packIds i 0))) := by
  obtain ⟨⟨r, p₁⟩, hr, rfl⟩ := Option.map_eq_some_iff.mp h
  obtain ⟨hs, hp⟩ := driver_ok hr
  obtain ⟨clients, fd⟩ := driver_frame hr
  refine ⟨reachable_driver reachable hr, ?_, by rw [hp]; rfl, clients, ?_⟩
  · rw [fd]
    exact step_file reachable.wf file (by simp) hs
  · simp only [step, ipcIoctl, file] at hs
    exact (clientUnregister_registers reachable.orderly hs).imp_right fun h => ⟨h.1, fun id => h.2 t id⟩

theorem Matches.deleteClient (m : p.Matches t) (fits : p.Fits (.deleteClient K id))
    (h : p.deleteClient K id = some p') : p'.Matches t := by
  unfold Process.deleteClient at h
  split at h
  next => cases h; exact m
  next known =>
    obtain ⟨valid, mem⟩ := not_or.mp known
    have valid : isIdValid id = true := by simpa using valid
    have mem : id ∈ p.clients.keys := Decidable.not_not.mp mem
    obtain ⟨reachable, file, limit, clients, left⟩ :=
      unregister_registers (p := { p with clients := p.clients.erase id }) m.reachable m.file h
    rw [unpackId1_packIds valid rfl] at left
    rcases left with ⟨idle, _⟩ | ⟨_, left⟩
    · exact absurd (fits mem) idle
    · refine ⟨reachable, file, limit.trans m.limit, fun i => ?_⟩
      rw [left, m.same, clients, Table.keys_erase]
      simp only [List.mem_filter, decide_eq_true_eq]
      constructor
      · rintro ⟨⟨n, hn, rfl⟩, hne⟩
        exact ⟨n, ⟨hn, fun he => hne (by rw [he])⟩, rfl⟩
      · rintro ⟨n, ⟨hn, hne⟩, rfl⟩
        exact ⟨⟨n, hn, rfl⟩, fun he => hne (Int.ofNat.inj he)⟩

theorem Matches.stray (m : p.Matches t) (harmless : p.Harmless strayId) (h : p.destroyClient K (-1) = some p') :
    p'.Matches t := by
  obtain ⟨reachable, file, limit, clients, left⟩ := unregister_registers m.reachable m.file h
  refine ⟨reachable, file, limit.trans m.limit, fun i => ?_⟩
  rw [clients, ← m.same]
  rcases left with ⟨_, same⟩ | ⟨connected, left⟩
  · rw [same]
  · rw [left, and_iff_left_iff_imp]
    rintro registered rfl
    exact harmless ((m.same _).mp registered) connected

theorem Matches.fresh {k : Ptr} {i : Int} {owner : Option (Ptr × Ptr)} {s : Drv} (m : p.Matches t) (h0 : 0 ≤ i)
    (he : p.drv.event (.addClient k i owner) s) : i.toNat ∉ p.clients.keys := by
  intro mem
  obtain ⟨_, x, _, _, hid⟩ := (m.same i).mpr ⟨i.toNat, mem, (Int.toNat_of_nonneg h0).symm⟩
  exact (he.1.2.1.1 h0).2 (m.reachable.orderly.ids.taken _ i h0 hid)

theorem register_ends {task : RegTask} (m : p.Matches t) (ht : p.drv.gRegTaskList.get? t = some task)
    (h : p.ioctl K .registerClient = some (r, p')) :
    (¬p.Enrols K ∧ r.ret < 0 ∧ p'.Matches t ∧ (p.Harmless strayId → p'.Harmless strayId)) ∨
      (p.Enrols K ∧ r = ⟨0, .id (K.idaAllocRange .client p.drv.gIdGen)⟩ ∧ Reachable p'.drv ∧
        p'.drv.files.get? p'.fd = some t ∧ p'.maxClients = p.maxClients ∧ p'.clients = p.clients ∧
        (0 ≤ K.idaAllocRange .client p.drv.gIdGen →
          (K.idaAllocRange .client p.drv.gIdGen).toNat ∉ p.clients.keys) ∧
        ∀ id, p'.drv.Registers t id ↔ p.drv.Registers t id ∨ id = K.idaAllocRange .client p.drv.gIdGen) := by
  obtain ⟨hs, hp⟩ := driver_ok h
  obtain ⟨clients, fd⟩ := driver_frame h
  have reachable := reachable_driver m.reachable h
  have file : p'.drv.files.get? p'.fd = some t := by
    rw [fd]
    exact step_file m.reachable.wf m.file (by simp) hs
  have limit : p'.maxClients = p.maxClients := by rw [hp]; rfl
  have enrols : p.Enrols K → task.canAddClient = true ∧ K.copyToUser = true ∧
      ∀ k, K.kmalloc .client p.drv = some k →
        K.kmalloc .clientsEntry (p.drv.addClient k (K.idaAllocRange .client p.drv.gIdGen)) ≠ none := by
    rintro ⟨t', task', hf, ht', enrols⟩
    cases m.file.symm.trans hf
    cases ht.symm.trans ht'
    exact enrols
  simp only [step, ipcIoctl, m.file] at hs
  rcases registerClient_ok hs ht with ⟨same, full, ret⟩ | ⟨can, k, owner, hk, ev, outcome⟩
  · refine Or.inl ⟨fun he => ?_, by rw [ret]; decide, ⟨reachable, file, limit.trans m.limit, fun id => ?_⟩, ?_⟩
    · rw [(enrols he).1] at full
      cases full
    · rw [same, clients]
      exact m.same id
    · unfold Harmless
      rw [same, clients]
      exact id
  · have registers : ∀ id, p'.drv.Registers t id ↔ p.drv.Registers t id ∨ ∃ o ∈ owner, o.2 = t ∧
        id = K.idaAllocRange .client p.drv.gIdGen := fun id => registers_add m.reachable.wf ev
    have incomplete : owner = none → p'.Matches t ∧ (p.Harmless strayId → p'.Harmless strayId) := by
      rintro rfl
      refine ⟨⟨reachable, file, limit.trans m.limit, fun id => ?_⟩, fun harmless mine connected => ?_⟩
      · rw [registers, clients, ← m.same]
        simp
      · rw [clients] at mine
        exact harmless mine ((Steady.event m.reachable.orderly ev trivial).connected connected)
    cases outcome with
    | copy hc =>
      refine Or.inl ⟨fun he => ?_, by decide, incomplete rfl⟩
      rw [(enrols he).2.1] at hc
      cases hc
    | entry _ hn => exact Or.inl ⟨fun he => (enrols he).2.2 k hk hn, show -ENOENT < 0 by decide, incomplete rfl⟩
    | done hc hn =>
      refine Or.inr ⟨⟨t, task, m.file, ht, can, hc, fun k' hk' => ?_⟩, rfl, reachable, file, limit, clients,
        fun h0 => m.fresh h0 ev, fun id => ?_⟩
      · cases hk.symm.trans hk'
        exact hn
      · rw [registers]
        simp

theorem Matches.createClient (m : p.Matches t) (fits : p.Fits (.createClient K K'))
    (h : p.createClient K K' = some p') : p'.Matches t := by
  unfold Process.createClient at h
  split at h
  next => cases h; exact m
  next room =>
    obtain ⟨valid, stray⟩ := fits (Nat.lt_of_not_le room)
    obtain ⟨⟨r, p₁⟩, hr, h⟩ := Option.bind_eq_some_iff.mp h
    obtain ⟨task, ht⟩ := Table.mem_keys.mp (m.reachable.wf.files.live p.fd t m.file)
    rcases register_ends m ht hr with ⟨refused, ret, m₁, harmless⟩ |
      ⟨enrols, rfl, reachable, file, limit, clients, fresh, registers⟩
    · simp only [if_pos (Or.inl ret)] at h
      exact m₁.stray (harmless (stray refused)) h
    · have valid := valid enrols
      have h0 := (isIdValid_iff.mp valid).1
      have fresh := clients ▸ fresh h0
      simp only [Out.clientId, valid, lt_self_iff_false, Bool.true_eq_false, or_self, if_false, fresh] at h
      cases h
      refine ⟨reachable, file, limit.trans m.limit, fun id => ?_⟩
      rw [registers, m.same, Table.keys_pushBack fresh, clients]
      simp only [List.mem_append, List.mem_singleton]
      constructor
      · rintro (⟨n, hn, rfl⟩ | rfl)
        · exact ⟨n, Or.inl hn, rfl⟩
        · exact ⟨_, Or.inr rfl, (Int.toNat_of_nonneg h0).symm⟩
      · rintro ⟨n, hn | rfl, rfl⟩
        · exact Or.inl ⟨n, hn, rfl⟩
        · exact Or.inr (Int.toNat_of_nonneg h0)

theorem Matches.act {action : Action} (m : p.Matches t) (fits : p.Fits action) (h : p.act action = some p') :
    p'.Matches t := by
  cases action with
  | createClient K K' => exact m.createClient fits h
  | connect K K' id name => exact m.connect h
  | disconnect K id munmap => exact m.disconnect h
  | call K id input => exact m.request h
  | deleteClient K id => exact m.deleteClient fits h
  | listen K munmap => exact m.listen h
  | other call =>
    have made : call.op ≠ .release p.fd → (p.driver call).map Prod.snd = some p' → p'.Matches t := by
      intro stays h
      obtain ⟨⟨r, p₁⟩, hr, rfl⟩ := Option.map_eq_some_iff.mp h
      exact m.driver hr stays fits.1 fits.2
    simp only [Process.act] at h
    split at h
    next fd hop =>
      split at h
      next => cases h
      next hne => exact made (by rw [hop]; simpa using hne) h
    next hop => exact made (hop p.fd) h

theorem Matches.sameClients (m : p.Matches t) : p.SameClients := by
  intro id
  rw [← m.same]
  constructor
  · rintro ⟨t', hf, registered⟩
    cases m.file.symm.trans hf
    exact registered
  · exact fun registered => ⟨t, m.file, registered⟩

theorem Matches.canAddClient {task : RegTask} (m : p.Matches t) (ht : p.drv.gRegTaskList.get? t = some task)
    (room : p.clients.keys.length < maxClientsPerPid) (work : task.isMonitor = 0) : task.canAddClient = true := by
  have count := m.reachable.counted t task.numOfClients (by rw [ht]; rfl)
  have few : (p.drv.clientsOf t).length ≤ (p.clients.keys.map Int.ofNat).length := by
    refine clientsOf_length_le m.reachable.orderly (fun id hid => ?_) fun id hid => ?_
    · obtain ⟨n, _, rfl⟩ := List.mem_map.mp hid
      exact Int.natCast_nonneg n
    · obtain ⟨n, hn, rfl⟩ := (m.same id).mp hid
      exact List.mem_map.mpr ⟨n, hn, rfl⟩
  rw [List.length_map] at few
  simp only [RegTask.canAddClient, work, true_and, decide_eq_true_eq]
  omega

theorem Matches.creates (m : p.Matches t) : p.Creates := by
  intro room work K K' succeeds valid
  obtain ⟨task, ht⟩ := Table.mem_keys.mp (m.reachable.wf.files.live p.fd t m.file)
  have work : task.isMonitor = 0 := Decidable.not_not.mp fun monitor => work ⟨t, task, m.file, ht, monitor⟩
  have can := m.canAddClient ht room work
  obtain ⟨r, s, hs⟩ := registerClient_returns ht ⟨can, succeeds.kmalloc .client p.drv⟩
  have made : ∃ p₁, p.ioctl K .registerClient = some (r, p₁) := by
    have hs : step p.drv ⟨K, .ioctl p.fd .registerClient⟩ = .ok (r, s) := by
      simpa only [step, ipcIoctl, m.file] using hs
    exact ⟨p.after ⟨K, .ioctl p.fd .registerClient⟩ r s, by simp [Process.ioctl, Process.driver, hs]⟩
  obtain ⟨p₁, hr⟩ := made
  have enrols : p.Enrols K := ⟨t, task, m.file, ht, can, succeeds.copyToUser, fun _ _ => succeeds.kmalloc _ _⟩
  rcases register_ends m ht hr with ⟨refused, _⟩ | ⟨_, rfl, _, _, _, clients, fresh, _⟩
  · exact absurd enrols refused
  · have fresh := clients ▸ fresh (isIdValid_iff.mp valid).1
    refine ⟨{ p₁ with clients := p₁.clients.pushBack _ .new }, _, ?_,
      (Table.keys_pushBack fresh).trans (by rw [clients])⟩
    unfold Process.createClient
    rw [if_neg (by rw [m.limit]; exact Nat.not_le_of_lt room), hr]
    simp only [Option.bind_some, Out.clientId, valid, lt_self_iff_false, Bool.true_eq_false, or_self, if_false, fresh]

/-- The driver and the manager hold the same clients while those that are deleted are connected. -/
theorem clientSet_agrees {s : Drv} {fd t : Ptr} {actions : List Action} {p : Process} (reachable : Reachable s)
    (file : s.files.get? fd = some t) (fresh : ∀ id, ¬s.Registers t id)
    (run : Trace (fun p action p' => p.Fits action ∧ p.act action = some p') (start s fd maxClientsPerPid) actions p) :
    p.SameClients ∧ p.Creates := by
  have first : (start s fd maxClientsPerPid).Matches t :=
    ⟨reachable, file, rfl, fun id => by simpa [start] using fresh id⟩
  have m := run.invariant (fun p action p' (m : p.Matches t) h => m.act h.1 h.2) first
  exact ⟨m.sameClients, m.creates⟩

def connectedCheck (s : Drv) (id : Int) : Bool :=
  s.gClientsList.entries.any fun e => e.2.id = id ∧ e.2.connP.isSome

theorem connectedCheck_sound {s : Drv} {id : Int} (h : connectedCheck s id = true) : s.Connected id := by
  obtain ⟨⟨k, cli⟩, mem, h⟩ := List.any_eq_true.mp h
  obtain ⟨hid, hq⟩ := of_decide_eq_true h
  obtain ⟨q, hq⟩ := Option.isSome_iff_exists.mp hq
  exact ⟨q, k, cli, Table.get?_eq_some.mpr mem, hid, hq⟩

def registersCheck (s : Drv) (t : Ptr) (id : Int) : Bool :=
  s.clientsEntries.entries.any fun e => e.2.regTask = t ∧ s.idOf (.client e.2.client) = some id

theorem registersCheck_sound {s : Drv} {id : Int} (h : registersCheck s t id = true) : s.Registers t id := by
  obtain ⟨⟨e, x⟩, mem, h⟩ := List.any_eq_true.mp h
  obtain ⟨ht, hid⟩ := of_decide_eq_true h
  exact ⟨e, x, Table.get?_eq_some.mpr mem, ht, hid⟩

def fitsCheck (p : Process) : Action → Bool
  | .createClient K _ => isIdValid (K.idaAllocRange .client p.drv.gIdGen) && decide (strayId.toNat ∉ p.clients.keys)
  | .deleteClient _ id => connectedCheck p.drv id
  | .other _ => false
  | _ => true

theorem fitsCheck_sound {action : Action} (h : p.fitsCheck action = true) : p.Fits action := by
  cases action with
  | createClient K K' =>
    obtain ⟨valid, absent⟩ := (Bool.and_eq_true _ _).mp h
    refine fun _ => ⟨fun _ => valid, fun _ mine => ?_⟩
    obtain ⟨n, hn, hid⟩ := mine
    rw [hid] at absent
    exact absurd hn (of_decide_eq_true absent)
  | deleteClient K id => exact fun _ => connectedCheck_sound h
  | other call => cases h
  | _ => trivial

/-- Process 1 serves under the name `A`; process 2 has opened the driver. -/
def servingA : List Call := registeredRun.take 3

/-- Process 2 makes a client, which connects to `A`, deletes it and makes another one. -/
def replaceClient : List Action :=
  [.createClient (.plenty ⟨2, 2⟩) (.plenty ⟨2, 2⟩), .connect (.plenty ⟨2, 2⟩) (.plenty ⟨2, 2⟩) 1 [65],
    .deleteClient (.plenty ⟨2, 2⟩) 1, .createClient (.plenty ⟨2, 2⟩) (.plenty ⟨2, 2⟩)]

theorem clientSet_agrees_replaced : ∃ s p, runCalls Drv.init servingA = some s ∧
    runIf act fitsCheck (start s 2 maxClientsPerPid) replaceClient = some p ∧ p.clients.keys = [7] ∧
    p.SameClients ∧ p.Creates := by
  have facts : ((runCalls Drv.init servingA).bind fun s =>
      (runIf act fitsCheck (start s 2 maxClientsPerPid) replaceClient).map fun p =>
        (s.files.get? 2, s.clientsEntries.keys, p.clients.keys)) = some (some 2, [], [7]) := by decide
  obtain ⟨s, hs, facts⟩ := Option.bind_eq_some_iff.mp facts
  obtain ⟨p, hp, facts⟩ := Option.map_eq_some_iff.mp facts
  simp only [Prod.mk.injEq] at facts
  obtain ⟨file, entries, keys⟩ := facts
  have run : Trace (fun p action p' => p.Fits action ∧ p.act action = some p') (start s 2 maxClientsPerPid)
      replaceClient p := (runIf_trace hp).mono fun _ _ _ _ h => ⟨fitsCheck_sound h.1, h.2⟩
  refine ⟨s, p, hs, hp, keys, clientSet_agrees ⟨_, runCalls_trace hs⟩ file (fun id h => ?_) run⟩
  obtain ⟨e, x, hx, _⟩ := h
  have live := Table.mem_keys.mpr ⟨x, hx⟩
  rw [entries] at live
  cases live

/-- Process 1 makes and deletes sixteen clients, none of which ever connects. -/
def churn : List Action := (List.range 16).flatMap fun i =>
  [.createClient (.plenty ⟨1, 1⟩) (.plenty ⟨1, 1⟩), .deleteClient (.plenty ⟨1, 1⟩) i]

/-- The manager holds no client, and the driver refuses to make one. -/
theorem clientSet_drifts : ∃ s p, runCalls Drv.init [callOf 1 .open] = some s ∧
    runIf act (fun _ _ => true) (start s 1 maxClientsPerPid) churn = some p ∧ p.clients.keys = [] ∧
    p.Registers 0 ∧ ¬p.SameClients ∧ ¬p.Creates := by
  have facts : ((runCalls Drv.init [callOf 1 .open]).bind fun s =>
      (runIf act (fun _ _ => true) (start s 1 maxClientsPerPid) churn).map fun p =>
        (p.clients.keys, (p.createClient (.plenty ⟨1, 1⟩) (.plenty ⟨1, 1⟩)).map fun p => p.clients.keys,
          decide (p.drv.files.get? p.fd = some 1) && (p.drv.gRegTaskList.get? 1).all (fun task => task.isMonitor = 0) &&
            isIdValid (freshId p.drv.gIdGen) && registersCheck p.drv 1 0)) = some ([], some [], true) := by decide
  obtain ⟨s, hs, facts⟩ := Option.bind_eq_some_iff.mp facts
  obtain ⟨p, hp, facts⟩ := Option.map_eq_some_iff.mp facts
  simp only [Prod.mk.injEq, Bool.and_eq_true, decide_eq_true_eq] at facts
  obtain ⟨keys, refused, ⟨⟨file, work⟩, valid⟩, registered⟩ := facts
  have registered : p.Registers 0 := ⟨1, file, registersCheck_sound registered⟩
  refine ⟨s, p, hs, hp, keys, registered, fun same => ?_, fun creates => ?_⟩
  · obtain ⟨n, hn, _⟩ := (same 0).mp registered
    rw [keys] at hn
    cases hn
  · have idle : ¬p.IsMonitor := by
      rintro ⟨t, task, hf, ht, monitor⟩
      cases file.symm.trans hf
      rw [ht] at work
      exact monitor (of_decide_eq_true work)
    obtain ⟨p', n, made, more⟩ := creates (by rw [keys]; decide) idle (.plenty ⟨1, 1⟩) (.plenty ⟨1, 1⟩)
      (Kernel.plenty_succeeds _) valid
    rw [made, Option.map_some, more] at refused
    simp at refused

end Process

end Ripc
