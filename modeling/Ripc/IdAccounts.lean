import Ripc.Pools
import Ripc.DriverEmptied
import Ripc.DriverLimits

namespace Ripc

/-- Every used id is some object's. -/
structure Held (s : Drv) : Prop where
  nodup : s.gIdGen.Nodup
  held : ∀ id ∈ s.gIdGen, ∃ a, s.idOf a = some id

variable {s s' : Drv} {K : Kernel}

theorem Held.keep (h : Held s) (same : ∀ a, s'.idOf a = s.idOf a) (used : s'.gIdGen = s.gIdGen) : Held s' := by
  refine ⟨used ▸ h.nodup, fun id hid => ?_⟩
  obtain ⟨a, ha⟩ := h.held id (used ▸ hid)
  exact ⟨a, (same a).trans ha⟩

theorem Held.add (h : Held s) (holder : Holder) {id : Int} (unheld : s.idOf holder = none)
    (fresh : FreshIds s.gIdGen [id]) (new : ∀ a, s'.idOf a = if a = holder then some id else s.idOf a)
    (used : s'.gIdGen = (s.takeId id).gIdGen) : Held s' := by
  have before : ∀ i ∈ s.gIdGen, ∃ a, s'.idOf a = some i := by
    intro i hi
    obtain ⟨a, ha⟩ := h.held i hi
    have other : a ≠ holder := by
      rintro rfl
      cases unheld.symm.trans ha
    exact ⟨a, by rw [new, if_neg other, ha]⟩
  rw [Drv.takeId] at used
  by_cases failed : id < 0
  · rw [if_pos failed] at used
    exact ⟨used ▸ h.nodup, used ▸ before⟩
  · rw [if_neg failed] at used
    refine ⟨?_, fun i hi => ?_⟩
    · rw [used]
      exact List.nodup_cons.mpr ⟨(fresh.1 (by omega)).2, h.nodup⟩
    · rw [used] at hi
      rcases List.mem_cons.mp hi with rfl | hi
      · exact ⟨holder, by rw [new, if_pos rfl]⟩
      · exact before i hi

theorem Held.drop (h : Held s) (valid : UsedValid s) (holder : Holder) {id : Int} (was : s.idOf holder = some id)
    (gone : ∀ a, s'.idOf a = if a = holder then none else s.idOf a)
    (used : s'.gIdGen = (freeId s id).gIdGen) : Held s' := by
  refine ⟨?_, fun i hi => ?_⟩
  · rw [used, freeId]
    split
    · exact h.nodup.filter _
    · exact h.nodup
  · rw [used] at hi
    obtain ⟨a, ha⟩ := h.held i (freeId_subset s id hi)
    have other : a ≠ holder := by
      rintro rfl
      cases was.symm.trans ha
      exact freeId_free valid id hi
    exact ⟨a, by rw [gone, if_neg other, ha]⟩

theorem takeIds_nodup {ids : List Int} (h : s.gIdGen.Nodup) (fresh : FreshIds s.gIdGen ids) :
    (s.takeIds ids).gIdGen.Nodup := by
  induction ids generalizing s with
  | nil => exact h
  | cons id ids ih =>
    refine ih (s := s.takeId id) ?_ fresh.2
    rw [Drv.takeId]
    by_cases failed : id < 0
    · rwa [if_pos failed]
    · rw [if_neg failed]
      exact List.nodup_cons.mpr ⟨(fresh.1 (by omega)).2, h⟩

theorem poolIndex_exists {n : Nat} (p : Ptr) (h : n ≤ shmPoolSize) : ∃ a : Holder, a.poolIndex p = some n := by
  by_cases last : n = shmPoolSize
  · exact ⟨.pool p, by simp [Holder.poolIndex, last]⟩
  · exact ⟨.subMem ⟨p, ⟨n, by omega⟩⟩, by simp [Holder.poolIndex]⟩

theorem Holder.poolIndex_unheld {p : Ptr} {a : Holder} {n : Nat} (fresh : p ∉ s.gShmList.keys)
    (h : a.poolIndex p = some n) : s.idOf a = none := by
  have absent := Table.get?_eq_none.mpr fresh
  cases a with
  | client | server => cases h
  | pool q =>
    simp only [poolIndex] at h
    split at h
    next hq => rw [Drv.idOf, hq, absent]; rfl
    next => cases h
  | subMem m =>
    simp only [poolIndex] at h
    split at h
    next hm => rw [Drv.idOf, Drv.subMem?, subMemAt, hm, absent]; rfl
    next => cases h

theorem Held.addPool (h : Held s) (valid : UsedValid s) {p : Ptr} {shm : Shm} (fresh : p ∉ s.gShmList.keys)
    (ids : FreshIds s.gIdGen shm.ids) : Held (s.addPool p shm) := by
  have used : (s.addPool p shm).gIdGen = (s.takeIds shm.ids).gIdGen := rfl
  refine ⟨used ▸ takeIds_nodup h.nodup ids, fun i hi => ?_⟩
  rw [used] at hi
  have h0 : 0 ≤ i := (isIdValid_iff.mp (takeIds_valid valid ids i hi)).1
  rcases (mem_takeIds h0).mp hi with old | new
  · obtain ⟨a, ha⟩ := h.held i old
    refine ⟨a, ?_⟩
    rw [idOf_addPool fresh]
    cases hn : a.poolIndex p with
    | none => exact ha
    | some n => cases (Holder.poolIndex_unheld fresh hn).symm.trans ha
  · obtain ⟨n, hn, hget⟩ := List.mem_iff_getElem.mp new
    obtain ⟨a, ha⟩ := poolIndex_exists p (n := n) (by simpa [Shm.ids, Nat.lt_succ_iff] using hn)
    refine ⟨a, ?_⟩
    rw [idOf_addPool fresh, ha, Option.elim_some, List.getElem?_eq_getElem hn, hget]

theorem Held.event {ev : Event} (h : Held s) (valid : UsedValid s) (he : s.event ev s') : Held s' := by
  obtain ⟨ok, rfl⟩ := he
  cases ev with
  | openTask | closeTask | closeFile | setMonitor | dequeue | mmaped | post =>
    exact h.keep (fun a => by cases a <;> rfl) rfl
  | addServer v name id owner =>
    have absent : s.idOf (.server v) = none := by rw [Drv.idOf, Table.get?_eq_none.mpr ok.1, Option.map_none]
    have new : Held (s.addServer v name id) := h.add (.server v) absent ok.2.1 (idOf_addServer ok.1) rfl
    cases owner with
    | none => exact new
    | some o => exact new.keep (idOf_attachServer v o.1 o.2) rfl
  | addClient k id owner =>
    have absent : s.idOf (.client k) = none := by rw [Drv.idOf, Table.get?_eq_none.mpr ok.1, Option.map_none]
    have new : Held (s.addClient k id) := h.add (.client k) absent ok.2.1 (idOf_addClient ok.1) rfl
    cases owner with
    | none => exact new
    | some o => exact new.keep (idOf_attachClient k o.1 o.2) rfl
  | dropServer e x id =>
    obtain ⟨_, ⟨srv, hv, rfl⟩, _⟩ := ok
    exact h.drop valid (.server x.server) (idOf_server hv) (idOf_dropServer e x srv.id) rfl
  | dropClient e x id =>
    obtain ⟨_, cli, hk, rfl, _⟩ := ok
    exact h.drop valid (.client x.client) (idOf_client hk) (idOf_dropClient e x cli.id) rfl
  | addPool p shm => exact h.addPool valid ok.1 ok.2.2.1
  | link p k v m e => exact h.keep (idOf_link p k v m e) rfl
  | teardown p ds =>
    refine h.keep (idOf_teardown p ds) ?_
    rw [Drv.apply, enqueueAll_eq]
    rfl

theorem Reachable.held (h : Reachable s) : Held s := by
  obtain ⟨calls, run⟩ := h
  refine (run.invariant (I := fun s => Wf s ∧ UsedValid s ∧ Held s) (fun a call b h hs => ⟨h.1.step hs, ?_⟩)
    ⟨.init, fun id hid => absurd hid List.not_mem_nil, List.nodup_nil, fun id hid => absurd hid List.not_mem_nil⟩).2.2
  obtain ⟨r, hr⟩ := hs
  refine (step_ok h.1 hr).keeps (I := fun s => UsedValid s ∧ Held s) (fun _ _ _ _ h ev => ?_) h.2
  exact ⟨h.1.event ev, h.2.event h.1 ev⟩

/-- In every run, whatever the kernel answers and whatever else goes wrong, an id is used exactly as long as a client, a
server, a pool or a sub-memory has it, and two of them never have the same: none is lost, and none is given back
early. -/
theorem usedIds_held (h : Reachable s) : s.gIdGen.Nodup ∧ (∀ id, id ∈ s.gIdGen ↔ 0 ≤ id ∧ ∃ a, s.idOf a = some id) ∧
    ∀ a b id, 0 ≤ id → s.idOf a = some id → s.idOf b = some id → a = b := by
  refine ⟨h.held.nodup, fun id => ⟨fun hid => ?_, ?_⟩, h.ids.unique⟩
  · exact ⟨(isIdValid_iff.mp (h.usedValid id hid)).1, h.held.held id hid⟩
  · rintro ⟨h0, a, ha⟩
    exact h.ids.taken a id h0 ha

theorem usedIds_held_connected : ∃ s, Trace Returns Drv.init connectedRun s ∧ s.gIdGen = [6, 5, 4, 3, 2, 1, 0] ∧
    s.gIdGen.Nodup ∧ (∀ id, id ∈ s.gIdGen ↔ 0 ≤ id ∧ ∃ a, s.idOf a = some id) ∧
    ∀ a b id, 0 ≤ id → s.idOf a = some id → s.idOf b = some id → a = b := by
  have facts : ∃ s, Trace Returns Drv.init connectedRun s ∧ s.gIdGen = [6, 5, 4, 3, 2, 1, 0] :=
    runCalls_check (by decide)
  obtain ⟨s, run, used⟩ := facts
  exact ⟨s, run, used, usedIds_held ⟨connectedRun, run⟩⟩

/-- What can have an id, each once. -/
def Drv.holders (s : Drv) : List Holder :=
  s.gClientsList.keys.map .client ++ s.gServersList.keys.map .server ++ s.gShmList.keys.map .pool ++
    s.slots.map .subMem

theorem mem_holders {a : Holder} : a ∈ s.holders ↔ ∃ id, s.idOf a = some id := by
  cases a <;> simp [Drv.holders, Drv.idOf, mem_slots, Table.mem_keys]

theorem length_holders (s : Drv) : s.holders.length =
    s.gClientsList.keys.length + s.gServersList.keys.length + (shmPoolSize + 1) * s.gShmList.keys.length := by
  simp only [Drv.holders, List.length_append, List.length_map, length_slots, Nat.add_one_mul]
  omega

theorem nodup_holders (s : Drv) : s.holders.Nodup := by
  have clients := s.gClientsList.nodup.map fun _ _ h => Holder.client.inj h
  have servers := s.gServersList.nodup.map fun _ _ h => Holder.server.inj h
  have pools := s.gShmList.nodup.map fun _ _ h => Holder.pool.inj h
  have slots := (nodup_slots s).map fun _ _ h => Holder.subMem.inj h
  refine ((clients.append servers ?_).append pools ?_).append slots ?_ <;>
    refine List.disjoint_left.mpr fun a ha hb => ?_ <;> cases a <;> simp at ha hb

theorem length_used (valid : ValidIds s) (ids : Ids s) (held : Held s) : s.gIdGen.length = s.holders.length := by
  have some_id : ∀ a ∈ s.holders, ∃ id, s.idOf a = some id := fun a ha => mem_holders.mp ha
  have distinct : (s.holders.map s.idOf).Nodup := by
    refine List.Nodup.map_on (fun a ha b hb same => ?_) (nodup_holders s)
    obtain ⟨id, hid⟩ := some_id a ha
    exact valid.unique a b id hid (same ▸ hid)
  have used : s.holders.map s.idOf ⊆ s.gIdGen.map some := by
    intro o ho
    obtain ⟨a, ha, rfl⟩ := List.mem_map.mp ho
    obtain ⟨id, hid⟩ := some_id a ha
    exact hid ▸ List.mem_map_of_mem (ids.taken a id (valid.range a id hid).1 hid)
  have holding : s.gIdGen.map some ⊆ s.holders.map s.idOf := by
    intro o ho
    obtain ⟨id, hid, rfl⟩ := List.mem_map.mp ho
    obtain ⟨a, ha⟩ := held.held id hid
    exact ha ▸ List.mem_map_of_mem (mem_holders.mpr ⟨id, ha⟩)
  have le := List.Nodup.length_le_of_subset distinct used
  have ge := List.Nodup.length_le_of_subset (held.nodup.map (Option.some_injective Int)) holding
  rw [List.length_map, List.length_map] at le ge
  omega

theorem Owned.length_le {α β : Type} {objs : Table α} {taskP : α → Option Ptr} {entries : Table β}
    {obj regTask : β → Ptr} {tasks : List Ptr} {n : Nat} (owned : Owned objs taskP entries obj regTask tasks)
    (manned : ∀ k o, objs.get? k = some o → taskP o ≠ none)
    (few : ∀ t ∈ tasks, (entries.entries.filter fun e => regTask e.2 = t).length ≤ n) :
    objs.keys.length ≤ tasks.length * n := by
  have entry : objs.keys.length ≤ entries.keys.length := by
    refine owned.entry.length_le objs.nodup fun k hk => ?_
    obtain ⟨o, ho⟩ := Table.mem_keys.mp hk
    obtain ⟨e, he⟩ := Option.ne_none_iff_exists'.mp (manned k o ho)
    obtain ⟨x, hx, -⟩ := owned.entry k o e ho he
    exact ⟨o, e, ho, he, Table.mem_keys.mpr ⟨x, hx⟩⟩
  refine entry.trans ?_
  rw [Table.keys, List.length_map]
  exact length_le_of_owners (fun e he => owned.live e.1 e.2 (Table.get?_eq_some.mpr he)) few

def maxClients : Nat := maxProcesses * maxClientsPerPid

def maxServers : Nat := maxProcesses * maxServersPerPid

/-- The pools that a connection of every client takes. -/
def maxPools : Nat := maxClients / shmPoolSize

theorem Limits.clients_le (l : Limits s) (wf : Wf s) (manned : Manned s) : s.gClientsList.keys.length ≤ maxClients :=
  (wf.clients.length_le manned.clients fun t ht => l.members t ht .client).trans (Nat.mul_le_mul_right _ l.tasks)

theorem Limits.servers_le (l : Limits s) (wf : Wf s) (manned : Manned s) : s.gServersList.keys.length ≤ maxServers :=
  (wf.servers.length_le manned.servers fun t ht => l.members t ht .server).trans (Nat.mul_le_mul_right _ l.tasks)

theorem Wf.connections_le_clients (wf : Wf s) : s.gConnsList.keys.length ≤ s.gClientsList.keys.length := by
  refine wf.links.connClient.length_le s.gConnsList.nodup fun p hp => ?_
  obtain ⟨c, hc⟩ := Table.mem_keys.mp hp
  obtain ⟨⟨k, hk⟩, -⟩ := wf.links.connFull p c hc
  obtain ⟨cli, hcli, -⟩ := wf.links.connClient p c k hc hk
  exact ⟨c, k, hc, hk, Table.mem_keys.mpr ⟨cli, hcli⟩⟩

/-- `ida_alloc_range` has no other reason to fail where there is memory. -/
def Kernel.FailsOnlyFull (K : Kernel) : Prop :=
  ∀ site used, K.idaAllocRange site used < 0 → ∀ id, isIdValid id = true → id ∈ used

def idCount : Nat := 2 ^ 16

theorem FailsOnlyFull.answers {site : IdSite} {used : List Int} (full : K.FailsOnlyFull)
    (room : used.length < idCount) : 0 ≤ K.idaAllocRange site used := by
  by_contra failed
  have every : (List.range idCount).map (Int.ofNat ·) ⊆ used := by
    intro id hid
    obtain ⟨n, hn, rfl⟩ := List.mem_map.mp hid
    have small := List.mem_range.mp hn
    refine full site used (by omega) _ (isIdValid_iff.mpr ⟨Int.natCast_nonneg n, ?_⟩)
    simp only [idCount, maxIdValue, Int.ofNat_eq_natCast] at small ⊢
    omega
  have distinct : ((List.range idCount).map (Int.ofNat ·)).Nodup :=
    List.nodup_range.map fun _ _ h => Int.ofNat.inj h
  have many := List.Nodup.length_le_of_subset distinct every
  rw [List.length_map, List.length_range] at many
  omega

theorem answers_nonneg {sites : List IdSite} {used : List Int} (full : K.FailsOnlyFull)
    (room : used.length + sites.length ≤ idCount) : ∀ id ∈ K.answers sites used, 0 ≤ id := by
  induction sites generalizing used with
  | nil => exact fun id hid => absurd hid List.not_mem_nil
  | cons site sites ih =>
    rw [List.length_cons] at room
    have first : 0 ≤ K.idaAllocRange site used := FailsOnlyFull.answers full (by omega)
    intro id hid
    rcases List.mem_cons.mp hid with rfl | later
    · exact first
    · rw [if_neg (by omega)] at later
      exact ih (by rw [List.length_cons]; omega) id later

/-- As many ids as all clients, all servers and the pools of all clients need, once everything is connected. -/
def maxUsed : Nat := maxClients + maxServers + (shmPoolSize + 1) * maxPools

theorem noIdError_of_room {call : Call} (full : call.kernel.FailsOnlyFull) (room : s.gIdGen.length ≤ maxUsed) :
    NoIdError s call := by
  intro sites asks
  have few : sites.length ≤ shmPoolSize + 1 := by
    cases asks with
    | server | client => decide
    | pool => exact le_rfl
  have spare : maxUsed + (shmPoolSize + 1) ≤ idCount := by decide
  exact answers_nonneg full (by omega)

/-- What the runs keep in which memory does not run out and the generator fails only when it is full. -/
structure Spare (s : Drv) : Prop where
  provided : Provided s
  reachable : Reachable s
  pooled : ∃ peak ≤ maxClients, Pooled s peak

theorem Spare.used (h : Spare s) : s.gIdGen.length =
    s.gClientsList.keys.length + s.gServersList.keys.length + (shmPoolSize + 1) * s.gShmList.keys.length := by
  rw [length_used h.provided.valid h.reachable.ids h.reachable.held, length_holders]

theorem Spare.room (h : Spare s) : s.gIdGen.length ≤ maxUsed := by
  have wf := h.provided.whole.wf
  have clients := h.reachable.limits.clients_le wf h.provided.manned
  have servers := h.reachable.limits.servers_le wf h.provided.manned
  obtain ⟨peak, few, pooled⟩ := h.pooled
  have pools : s.gShmList.keys.length ≤ maxPools := by
    rw [pooled.pools]
    exact (Nat.div_le_div_right (Nat.sub_le_sub_right (Nat.add_le_add_right few _) 1)).trans (by decide)
  have ids := Nat.mul_le_mul_left (shmPoolSize + 1) pools
  rw [h.used, maxUsed]
  omega

theorem Provided.step {call : Call} (h : Provided s) (ids : Ids s) (provided : call.Provided s)
    (hs : Returns s call s') : Provided s' := by
  have wf := h.whole.wf
  have range := hs.range wf provided.ids h.valid.range
  have after := ids.step wf hs
  refine ⟨h.whole.step hs provided.succeeds, ⟨range, fun a b id ha hb => ?_⟩, ?_⟩
  · exact after.unique a b id (range a id ha).1 ha hb
  · obtain ⟨r, hr⟩ := hs
    exact (step_ok wf hr).keeps (fun a ev b may ha he => ha.event he (may.complete provided.succeeds)) h.manned

theorem Spare.step {call : Call} (h : Spare s) (succeeds : call.kernel.Succeeds) (full : call.kernel.FailsOnlyFull)
    (hs : Returns s call s') : Spare s' := by
  have granted : call.Provided s := ⟨succeeds, noIdError_of_room full h.room⟩
  have provided := h.provided.step h.reachable.ids granted hs
  obtain ⟨calls, run⟩ := h.reachable
  have reachable : Reachable s' := ⟨calls ++ [call], run.append (.single hs)⟩
  obtain ⟨peak, few, pooled⟩ := h.pooled
  refine ⟨provided, reachable, _, max_le few ?_, pooled.step granted hs⟩
  exact provided.whole.wf.connections_le_clients.trans
    (reachable.limits.clients_le provided.whole.wf provided.manned)

/-- While memory does not run out, ids do not either: after any run, 832 of the 65536 are used at the most, one for each
client and server and five for each pool, and no call is refused an id or given an error for one. -/
theorem ids_suffice {calls : List Call} (run : Trace (fun s call s' => call.kernel.Succeeds ∧
      call.kernel.FailsOnlyFull ∧ Returns s call s') Drv.init calls s) :
    s.gIdGen.length = s.gClientsList.keys.length + s.gServersList.keys.length +
        (shmPoolSize + 1) * s.gShmList.keys.length ∧
      s.gIdGen.length ≤ 832 ∧ ∀ call, call.kernel.FailsOnlyFull → NoIdError s call := by
  have start : Spare Drv.init := ⟨.run .nil, ⟨[], .nil⟩, 0, Nat.zero_le _, .init, rfl, le_rfl⟩
  have spare : Spare s := run.invariant (fun _ _ _ h hs => h.step hs.1 hs.2.1 hs.2.2) start
  exact ⟨spare.used, spare.room, fun _ full => noIdError_of_room full spare.room⟩

def leastId (used : List Int) : Int :=
  match (List.range (used.length + 1)).find? fun n : Nat => (n : Int) ∉ used with
  | none => -ENOSPC
  | some n => if (n : Int) ≤ maxIdValue then n else -ENOSPC

theorem leastId_ok (used : List Int) (h : 0 ≤ leastId used) : leastId used ≤ maxIdValue ∧ leastId used ∉ used := by
  unfold leastId at h ⊢
  split at h
  next => exact absurd h (by decide)
  next n hn =>
    split at h
    next small => simpa [small] using List.find?_some hn
    next => exact absurd h (by decide)

theorem leastId_full {used : List Int} (h : leastId used < 0) (id : Int) (valid : isIdValid id = true) : id ∈ used := by
  obtain ⟨h0, h1⟩ := isIdValid_iff.mp valid
  unfold leastId at h
  split at h
  next none_left =>
    have every : (List.range (used.length + 1)).map (Int.ofNat ·) ⊆ used := by
      intro i hi
      obtain ⟨n, hn, rfl⟩ := List.mem_map.mp hi
      simpa using List.find?_eq_none.mp none_left n hn
    have many := List.Nodup.length_le_of_subset (List.nodup_range.map fun _ _ h => Int.ofNat.inj h) every
    rw [List.length_map, List.length_range] at many
    omega
  next n hn =>
    split at h
    next => omega
    next large =>
      obtain ⟨-, -, below⟩ := List.find?_range_eq_some.mp hn
      have here := below id.toNat (by omega)
      rw [Int.toNat_of_nonneg h0] at here
      simpa using here

/-- A kernel in which everything is granted as long as there are ids left. -/
def Kernel.frugal (current : TaskStruct) : Kernel :=
  { Kernel.plenty current with
    idaAllocRange := fun _ used => leastId used
    idaAllocRange_ok := fun _ used h => leastId_ok used h }

def frugalRun : List Call := twoConnections.map fun call => ⟨.frugal call.kernel.current, call.op⟩

/-- A server, two clients and a pool of four. -/
theorem ids_suffice_client : ∃ s, Trace Returns Drv.init frugalRun s ∧
    s.gClientsList.keys.length = 2 ∧ s.gServersList.keys.length = 1 ∧ s.gShmList.keys.length = 1 ∧
    s.gIdGen.length = 8 ∧ NoIdError s ⟨.frugal ⟨1, 1⟩, .ioctl 1 .registerClient⟩ := by
  have full : ∀ current, (Kernel.frugal current).FailsOnlyFull := fun _ _ used h => leastId_full h
  have succeeds : ∀ current, (Kernel.frugal current).Succeeds := by
    intro current
    have plenty := Kernel.plenty_succeeds current
    exact ⟨rfl, rfl, plenty.kmalloc, plenty.allocPages⟩
  have facts : ∃ s, Trace Returns Drv.init frugalRun s ∧ (s.gClientsList.keys.length = 2 ∧
      s.gServersList.keys.length = 1 ∧ s.gShmList.keys.length = 1) := runCalls_check (by decide)
  obtain ⟨s, run, clients, servers, pools⟩ := facts
  have provided : Trace (fun s call s' => call.kernel.Succeeds ∧ call.kernel.FailsOnlyFull ∧ Returns s call s') Drv.init
      frugalRun s := by
    refine run.mono fun _ call _ hc hs => ?_
    obtain ⟨call, -, rfl⟩ := List.mem_map.mp hc
    exact ⟨succeeds _, full _, hs⟩
  obtain ⟨used, -, noError⟩ := ids_suffice provided
  rw [clients, servers, pools] at used
  exact ⟨s, run, clients, servers, pools, used, noError _ (full _)⟩

end Ripc
