import Ripc.HubRuns
import Ripc.NullSafety

namespace Ripc

/-- A command faults where it trusts a name that does not end, or an id that nobody has. -/
def Hub.FaultsCmd (b : Hub) (t : Ptr) (cmd : Cmd) (e : Fault) : Prop :=
  match cmd with
  | .registerServer reg =>
    (b.HasRoom t (b.serversOf t) maxServersPerPid ∧ ∀ v, ¬b.Named reg.name.toList v) ∧
      ((strlen (reg.name.toList ++ reg.serverId.toList) = none ∧ e = .overRead) ∨
        (strlen (reg.name.toList ++ reg.serverId.toList) = some 0 ∧ e = .nullDeref))
  | .connectToServer con =>
    (b.clients con.clientId = none ∧ e = .nullDeref) ∨
      (b.clients con.clientId ≠ none ∧ b.links con.clientId = none ∧ (∀ v, ¬b.Named con.serverName.toList v) ∧
        strlen con.serverName.toList = none ∧ e = .overRead)
  | .serverEndWriting arg =>
    (b.servers (unpackId1 arg) ≠ none ∧ ∀ c, b.links c ≠ some (unpackId1 arg, unpackId2 arg)) ∧ e = .nullDeref
  | _ => False

def Hub.Faults (b : Hub) (call : Call) (e : Fault) : Prop :=
  ∃ f t cmd, call.op = .ioctl f cmd ∧ b.handles f = some t ∧ b.FaultsCmd t cmd e

variable {K : Kernel} {s s' : Drv} {f t k p w : Ptr} {e : Fault} {arg : U32} {task : RegTask}

theorem found_none (h : Settled s) {name : Vector UInt8 maxServerName} (unnamed : ∀ v, ¬s.hub.Named name.toList v) :
    findServerByName s name.toList = .ok none := by
  cases hf : findServerByName s name.toList with
  | error e =>
    rw [findServerByName_eq] at hf
    cases hf
  | ok found =>
    cases found with
    | none => rfl
    | some w =>
      obtain ⟨v, _, named⟩ := named_of_found h hf
      exact absurd named (unnamed v)

theorem free_of_links (h : Settled s) {c : Int} {cli : Client} (hk : findClientById s c = some k)
    (hcli : s.gClientsList.get? k = some cli) (idle : s.hub.links c = none) : cli.connP = none := by
  by_contra connected
  obtain ⟨p, hp⟩ := Option.ne_none_iff_exists'.mp connected
  obtain ⟨_, _, _, linked⟩ := parties_of_client h hk hcli hp
  exact linked idle

theorem fault_of_faultsCmd {cmd : Cmd} (h : Settled s) (reach : Reachable s) (succeeds : K.Succeeds)
    (file : s.files.get? f = some t) (faults : s.hub.FaultsCmd t cmd e) : ipcIoctl K s f cmd = .error e := by
  obtain ⟨task, ht⟩ := Table.mem_keys.mp (h.whole.wf.files.live f t file)
  simp only [ipcIoctl, file]
  cases cmd with
  | registerServer reg =>
    obtain ⟨⟨room, unnamed⟩, name⟩ := faults
    simp only [registerServer, deref_of_get? ht, ok_bind, (room_servers h reach ht).mp room, succeeds.copyFromUser,
      Bool.not_true, Bool.false_eq_true, if_false, found_none h unnamed, serverCreate]
    rcases name with ⟨len, rfl⟩ | ⟨len, rfl⟩ <;> rw [len] <;> rfl
  | connectToServer con =>
    rcases faults with ⟨unknown, rfl⟩ | ⟨known, idle, unnamed, len, rfl⟩
    · simp only [connectToServer, succeeds.copyFromUser, Bool.not_true, Bool.false_eq_true, if_false,
        (findClientById_none h).mpr unknown]
      rfl
    · obtain ⟨k, hk⟩ := Option.ne_none_iff_exists'.mp (mt (findClientById_none h).mp known)
      obtain ⟨cli, hcli, _⟩ := findClientById_some hk
      simp only [connectToServer, succeeds.copyFromUser, Bool.not_true, Bool.false_eq_true, if_false, hk,
        deref_of_get? hcli, ok_bind, free_of_links h hk hcli idle, Option.isSome_none, found_none h unnamed, len]
  | serverEndWriting arg =>
    obtain ⟨⟨known, unlinked⟩, rfl⟩ := faults
    obtain ⟨w, hw⟩ := Option.ne_none_iff_exists'.mp (mt (findServerById_none h).mp known)
    simp only [serverEndWriting, hw]
    cases hf : serverFindConnBySubMemId s w (unpackId2 arg) with
    | error e => exact absurd hf (serverFindConnBySubMemId_error h.whole.wf)
    | ok found =>
      cases found with
      | none => rfl
      | some a =>
        obtain ⟨p, q, _, hq, hv, hx⟩ := serverFind_some h hw hf
        exact absurd (by rw [links_of_parties h hq, hv, hx]) (unlinked q.clientId)
  | _ => exact faults.elim

theorem ioctlSafe_of_harmless {cmd : Cmd} (h : Settled s) (reach : Reachable s) (succeeds : K.Succeeds)
    (ht : s.gRegTaskList.get? t = some task) (harmless : ∀ e, ¬s.hub.FaultsCmd t cmd e) : IoctlSafe K s task cmd := by
  cases cmd with
  | registerServer reg =>
    intro can _ found
    have room := (room_servers h reach ht).mpr can
    have unnamed := unnamed_of_none h found
    refine ⟨⟨?_, ?_⟩, succeeds.kmalloc .server s⟩
    · by_contra endless
      exact harmless .overRead ⟨⟨room, unnamed⟩, Or.inl ⟨strlen_eq_none.mpr endless, rfl⟩⟩
    · intro empty
      exact harmless .nullDeref ⟨⟨room, unnamed⟩, Or.inr ⟨empty, rfl⟩⟩
  | registerClient => exact fun _ => succeeds.kmalloc .client s
  | connectToServer con =>
    intro _
    have known : findClientById s con.clientId ≠ none := by
      intro unknown
      exact harmless .nullDeref (Or.inl ⟨(findClientById_none h).mp unknown, rfl⟩)
    obtain ⟨k, hk⟩ := Option.ne_none_iff_exists'.mp known
    obtain ⟨cli, hcli, _⟩ := findClientById_some hk
    refine ⟨k, cli, hk, hcli, fun free => ⟨fun found => ?_, fun v _ _ _ => succeeds.allocPages _ s⟩⟩
    by_contra endless
    exact harmless .overRead (Or.inr ⟨mt (findClientById_none h).mpr known, links_idle h hk hcli free,
      unnamed_of_none h found, strlen_eq_none.mpr endless, rfl⟩)
  | clientEndWriting arg => exact fun _ _ _ con _ _ _ _ alone => h.owned con (Or.inl alone)
  | serverEndWriting arg =>
    intro w hw
    have linked : ∃ c, s.hub.links c = some (unpackId1 arg, unpackId2 arg) := by
      by_contra unlinked
      refine harmless .nullDeref ⟨⟨fun none => ?_, not_exists.mp unlinked⟩, rfl⟩
      cases hw.symm.trans ((findServerById_none h).mpr none)
    obtain ⟨c, linked⟩ := linked
    cases hf : serverFindConnBySubMemId s w (unpackId2 arg) with
    | error e => exact absurd hf (serverFindConnBySubMemId_error h.whole.wf)
    | ok found =>
      cases found with
      | none => exact absurd linked (serverFind_none h hw hf c)
      | some a =>
        obtain ⟨x, hx, _⟩ := serverFindConnBySubMemId_some hf
        obtain ⟨con, hcon, _⟩ := h.whole.wf.links.entryConn a x hx
        exact ⟨a, x, con, rfl, hx, hcon, fun alone => h.owned con (Or.inr alone)⟩
  | clientDisconnect arg | clientUnregister arg => exact fun _ _ _ con _ _ _ _ alone => absurd alone (h.owned con)
  | serverDisconnect arg => exact fun _ _ _ con _ _ _ _ => h.owned con
  | serverUnregister arg => exact fun _ _ _ con _ _ _ _ => h.owned con
  | registerMonitor | unknown => trivial

/-- A command faults where the broker says so and nowhere else. -/
theorem ioctl_faults {cmd : Cmd} (h : Settled s) (reach : Reachable s) (succeeds : K.Succeeds)
    (file : s.files.get? f = some t) : ipcIoctl K s f cmd = .error e ↔ s.hub.FaultsCmd t cmd e := by
  refine ⟨fun fault => ?_, fault_of_faultsCmd h reach succeeds file⟩
  obtain ⟨task, ht⟩ := Table.mem_keys.mp (h.whole.wf.files.live f t file)
  have told : ∃ e', s.hub.FaultsCmd t cmd e' := by
    by_contra harmless
    rcases ipcIoctl_error h.whole.wf file ht fault with ⟨_, p, con, hcon, lost⟩ | ⟨_, unsafe'⟩
    · exact h.whole.served.noneLost p con hcon lost
    · exact unsafe' (ioctlSafe_of_harmless h reach succeeds ht (not_exists.mp harmless))
  obtain ⟨e', told⟩ := told
  cases fault.symm.trans (fault_of_faultsCmd h reach succeeds file told)
  exact told

theorem mmapClient_answers {c : Int} (h : Settled s) (succeeds : K.Succeeds) (hk : findClientById s c = some k) :
    mmapClient K s k ≠ .error e := by
  obtain ⟨cli, hcli, _⟩ := findClientById_some hk
  simp only [mmapClient, deref_of_get? hcli, ok_bind]
  split
  next => exact returns_ne_error _ _ _
  next p hp =>
    obtain ⟨q, hq, _⟩ := parties_of_client h hk hcli hp
    obtain ⟨con, k', w, m, sides⟩ := sides_of_parties hq
    obtain ⟨sub, hsub, _⟩ := Option.map_eq_some_iff.mp sides.subMem
    obtain ⟨srv, _, _, hsrv, _⟩ := serverTask_some sides.serverTask
    simp only [deref_of_get? sides.conn, ok_bind, sides.memP, derefSubMem, hsub]
    split
    next => exact mmapFound_error sides.conn (h.whole.wf.ends sides.conn).mem
    next =>
      have mmaped : (Drv.apply (s.tell q .client .newConnection) (.mmaped p)).gConnsList.get? p =
          some { con with servMmaped := true } := by
        rw [Drv.apply, Table.get?_modify, if_pos rfl]
        exact congrArg (Option.map _) sides.conn
      simp only [sides.serverP, deref_of_get? hsrv, ok_bind, send_tells h succeeds hq]
      exact mmapFound_error mmaped (h.whole.wf.ends sides.conn).mem

theorem mmapServer_answers {x : Int} (wf : Wf s) : mmapServer K s w x ≠ .error e := by
  unfold mmapServer
  split
  next => exact returns_ne_error _ _ _
  next =>
    split
    next => exact returns_ne_error _ _ _
    next =>
      intro fault
      rcases bind_eq_error.mp fault with fault | ⟨found, hf, fault⟩
      · exact serverFindConnBySubMemId_error wf fault
      cases found with
      | none => exact returns_ne_error _ _ _ fault
      | some a =>
        obtain ⟨x, hx, _⟩ := serverFindConnBySubMemId_some hf
        obtain ⟨con, hcon, _⟩ := wf.links.entryConn a x hx
        simp only [deref_of_get? hx, ok_bind] at fault
        exact mmapFound_error hcon (wf.ends hcon).mem fault

theorem mmap_answers (h : Settled s) (succeeds : K.Succeeds) : ipcMmap K s arg ≠ .error e := by
  unfold ipcMmap
  split
  next k hk => exact mmapClient_answers h succeeds hk
  next =>
    split
    next => exact mmapServer_answers h.whole.wf
    next => exact returns_ne_error _ _ _

theorem read_answers {count : Nat} (h : Settled s) (reach : Reachable s) (succeeds : K.Succeeds) :
    ipcRead K s f count ≠ .error e := by
  unfold ipcRead
  split
  next => exact returns_ne_error _ _ _
  next t file =>
    obtain ⟨task, ht⟩ := Table.mem_keys.mp (h.whole.wf.files.live f t file)
    obtain ⟨data, hdata, _⟩ := regTaskGetData_shows h.whole reach.limits K.garbage
    obtain ⟨room, hroom⟩ := Option.ne_none_iff_exists'.mp (succeeds.kmalloc .snapshot s)
    simp only [deref_of_get? ht, ok_bind, hroom, hdata]
    split
    next =>
      split
      next => exact returns_ne_error _ _ _
      next => split <;> simp
    next =>
      split
      next => exact returns_ne_error _ _ _
      next =>
        split
        next => exact returns_ne_error _ _ _
        next => split <;> simp

theorem release_answers (h : Settled s) : ipcRelease K s f ≠ .error e := by
  unfold ipcRelease
  split
  next => exact returns_ne_error _ _ _
  next t file =>
    obtain ⟨task, ht⟩ := Table.mem_keys.mp (h.whole.wf.files.live f t file)
    intro fault
    rcases bind_eq_error.mp fault with fault | ⟨a, _, fault⟩
    · obtain ⟨p, con, hcon, _, ⟨_, alone⟩ | ⟨_, lost⟩⟩ := regTaskDelete_error h.whole.wf ht fault
      · exact h.owned con alone
      · exact h.whole.served.noneLost p con hcon lost
    · exact returns_ne_error _ _ _ fault

theorem open_answers : ipcOpen K s ≠ .error e := by
  unfold ipcOpen
  split
  next => exact returns_ne_error _ _ _
  next =>
    split
    next => exact returns_ne_error _ _ _
    next => split <;> simp

/-- In every run of calls whose requests are granted, the next call faults exactly where the broker says so: over a name
that does not end or is empty, or over an id that nobody has. -/
theorem hub_faults {calls : List Call}
    (run : Trace (fun s call s' => call.Provided s ∧ Returns s call s') Drv.init calls s) {call : Call}
    (succeeds : call.kernel.Succeeds) : step s call = .error e ↔ s.hub.Faults call e := by
  have reach : Reachable s := ⟨calls, run.mono fun _ _ _ _ hs => hs.2⟩
  have h : Settled s := ⟨Provided.run run, reach.orderly⟩
  obtain ⟨K, op⟩ := call
  have only : (∀ f cmd, op ≠ .ioctl f cmd) → ¬s.hub.Faults ⟨K, op⟩ e := by
    rintro other ⟨f, _, cmd, rfl, _⟩
    exact other f cmd rfl
  cases op with
  | «open» => exact iff_of_false open_answers (only (by simp))
  | ioctl f cmd =>
    constructor
    · intro fault
      cases file : s.files.get? f with
      | none =>
        simp only [step, ipcIoctl, file] at fault
        exact absurd fault (returns_ne_error _ _ _)
      | some t => exact ⟨f, t, cmd, rfl, file, (ioctl_faults h reach succeeds file).mp fault⟩
    · rintro ⟨_, t, _, op, file, faults⟩
      cases op
      exact (ioctl_faults h reach succeeds file).mpr faults
  | mmap f arg =>
    refine iff_of_false (fun fault => ?_) (only (by simp))
    simp only [step] at fault
    split at fault
    next => exact mmap_answers h succeeds fault
    next => exact returns_ne_error _ _ _ fault
  | read f count => exact iff_of_false (read_answers h reach succeeds) (only (by simp))
  | release f => exact iff_of_false (release_answers h) (only (by simp))

/-- The server names a sub-memory that none of its two connections lies in. -/
theorem hub_faults_unlinked : ∃ s, Trace (fun s call s' => call.Provided s ∧ Returns s call s') Drv.init
    twoConnections s ∧ s.hub.Faults (callOf 1 (.ioctl 1 (.serverEndWriting (packIds 0 5)))) .nullDeref := by
  have facts : ∃ s, Trace (fun s call s' => call.Provided s ∧ Returns s call s') Drv.init twoConnections s ∧
      faultOf (step s (callOf 1 (.ioctl 1 (.serverEndWriting (packIds 0 5))))) = some .nullDeref :=
    provided_check twoConnections_plenty (by decide)
  obtain ⟨s, run, fault⟩ := facts
  exact ⟨s, run, (hub_faults run (Kernel.plenty_succeeds _)).mp (faultOf_eq_some.mp fault)⟩

end Ripc
