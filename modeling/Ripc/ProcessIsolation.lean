import Ripc.DriverRefusals
import Ripc.DriverIds
import Ripc.DriverRuns

namespace Ripc

/-- What a call names by an id; `ipc_mmap` takes the id of a client or of a server. -/
inductive Target
  | client (id : Int)
  | server (id : Int)
  | either (id : Int)

def Cmd.target : Cmd → Option Target
  | .connectToServer con => some (.client con.clientId)
  | .clientEndWriting arg | .clientDisconnect arg | .clientUnregister arg => some (.client (unpackId1 arg))
  | .serverEndWriting arg | .serverDisconnect arg | .serverUnregister arg => some (.server (unpackId1 arg))
  | _ => none

/-- The file that a call goes through and what it names. -/
def Op.target : Op → Option (Ptr × Target)
  | .ioctl filp cmd => cmd.target.map (filp, ·)
  | .mmap filp vmPgoff => some (filp, .either (unpackId1 vmPgoff))
  | _ => none

def Drv.RegisteredClient (s : Drv) (filp : Ptr) (id : Int) : Prop :=
  ∃ t k, s.files.get? filp = some t ∧ s.OwnsClient t k ∧ s.idOf (.client k) = some id

def Drv.RegisteredServer (s : Drv) (filp : Ptr) (id : Int) : Prop :=
  ∃ t v, s.files.get? filp = some t ∧ s.OwnsServer t v ∧ s.idOf (.server v) = some id

/-- What is named is registered in the task behind the caller's file. -/
def Target.OwnedBy (s : Drv) (filp : Ptr) : Target → Prop
  | .client id => s.RegisteredClient filp id
  | .server id => s.RegisteredServer filp id
  | .either id => s.RegisteredClient filp id ∨ s.RegisteredServer filp id

/-- A call has an effect on its own clients and servers only. -/
def Isolated (s : Drv) (call : Call) (filp : Ptr) (target : Target) : Prop :=
  target.OwnedBy s filp ∨ Refuses (step s call) s

/-- What makes a call that names a client or a server fail without effect. -/
def Call.Refused (call : Call) (s : Drv) : Prop :=
  match call.op with
  | .ioctl filp cmd => s.files.get? filp = none ∨ cmd.Refused call.kernel s
  | .mmap filp vmPgoff => filp ∉ s.files.keys ∨ MmapRefused call.kernel s vmPgoff
  | _ => False

variable {s : Drv} {call : Call} {filp : Ptr} {target : Target}

theorem ipcIoctl_refuses {K : Kernel} {cmd : Cmd} (wf : Wf s) (names : cmd.target ≠ none) :
    Refuses (ipcIoctl K s filp cmd) s ↔ s.files.get? filp = none ∨ cmd.Refused K s := by
  cases hf : s.files.get? filp with
  | none =>
    simp only [ipcIoctl, hf]
    exact ⟨fun _ => Or.inl trivial, fun _ => refuses_returns.mpr (by decide)⟩
  | some t =>
    simp only [ipcIoctl, hf, reduceCtorEq, false_or]
    cases cmd with
    | connectToServer con => exact connectToServer_refuses
    | clientEndWriting arg => exact clientEndWriting_refuses wf
    | serverEndWriting arg => exact serverEndWriting_refuses wf
    | clientDisconnect arg => exact clientDisconnect_refuses wf
    | serverDisconnect arg => exact serverDisconnect_refuses wf
    | clientUnregister arg => exact clientUnregister_refuses wf
    | serverUnregister arg => exact serverUnregister_refuses
    | registerServer | registerClient | registerMonitor | unknown => exact absurd rfl names

theorem step_refuses (wf : Wf s) (names : call.op.target = some (filp, target)) :
    Refuses (step s call) s ↔ call.Refused s := by
  obtain ⟨K, op⟩ := call
  cases op with
  | ioctl file cmd =>
    refine ipcIoctl_refuses wf fun nothing => ?_
    simp [Op.target, nothing] at names
  | mmap file vmPgoff =>
    simp only [step, Call.Refused]
    split
    next isOpen =>
      refine (ipcMmap_refuses wf).trans ⟨Or.inr, ?_⟩
      rintro (h | h)
      · exact absurd isOpen h
      · exact h
    next closed => exact ⟨fun _ => Or.inl closed, fun _ => refuses_returns.mpr (by decide)⟩
  | «open» | read | release => cases names

/-- A call keeps to its own clients and servers exactly when it names one of them or is refused. -/
theorem process_isolated (h : Reachable s) (names : call.op.target = some (filp, target)) :
    Isolated s call filp target ↔ target.OwnedBy s filp ∨ call.Refused s := by
  rw [Isolated, step_refuses h.wf names]

/-- Process 3 is refused when it disconnects the client of process 2, which is not connected. -/
theorem process_isolated_refused : ∃ s, Trace Returns Drv.init (registeredRun ++ [callOf 3 .open]) s ∧
    Isolated s (callOf 3 (.ioctl 3 (.clientDisconnect (packIds 1 0)))) 3 (.client 1) := by
  have facts : ∃ s, Trace Returns Drv.init (registeredRun ++ [callOf 3 .open]) s ∧
      findClientById s 1 = some 1 ∧ (s.gClientsList.get? 1).map Client.connP = some none := runCalls_check (by decide)
  obtain ⟨s, run, hk, hp⟩ := facts
  refine ⟨s, run, (process_isolated ⟨_, run⟩ rfl).mpr (Or.inr (Or.inr fun k cli hk' hcli => ?_))⟩
  have id : unpackId1 (packIds 1 0) = 1 := by decide
  rw [id, hk] at hk'
  cases hk'
  rw [hcli] at hp
  exact Option.some.inj hp

theorem not_isolated {r : Reply} {s' : Drv} (h : step s call = .ok (r, s')) (ret : r.ret = 0)
    (foreign : ¬target.OwnedBy s filp) : ¬Isolated s call filp target := by
  rintro (own | ⟨r', h', neg⟩)
  · exact foreign own
  · cases h.symm.trans h'
    omega

/-- Process 3 maps the page of a connection between the processes 1 and 2, and cuts the connection. -/
theorem process_notIsolated : ∃ s, Trace Returns Drv.init (connectedRun ++ [callOf 3 .open]) s ∧
    ¬Isolated s (callOf 3 (.mmap 3 (packIds 1 0))) 3 (.either 1) ∧
    ¬Isolated s (callOf 3 (.ioctl 3 (.clientDisconnect (packIds 1 0)))) 3 (.client 1) := by
  have facts : ∃ s, Trace Returns Drv.init (connectedRun ++ [callOf 3 .open]) s ∧
      (s.files.get? 3 = some 3 ∧ s.clientsEntries.entries = [(1, ⟨2, 1⟩)] ∧ s.serversEntries.entries = [(1, ⟨1, 1⟩)]) ∧
      (step s (callOf 3 (.mmap 3 (packIds 1 0)))).toOption.map (fun r => r.1.ret) = some 0 ∧
      (step s (callOf 3 (.ioctl 3 (.clientDisconnect (packIds 1 0))))).toOption.map (fun r => r.1.ret) = some 0 :=
    runCalls_check (by decide)
  obtain ⟨s, run, ⟨file, clients, servers⟩, hmap, hcut⟩ := facts
  have noClient : ∀ id, ¬s.RegisteredClient 3 id := by
    rintro id ⟨t, k, hf, ⟨e, x, hx, ht, _⟩, _⟩
    cases file.symm.trans hf
    rw [Table.get?_eq_some, clients, List.mem_singleton] at hx
    cases hx
    exact absurd ht (by decide)
  have noServer : ∀ id, ¬s.RegisteredServer 3 id := by
    rintro id ⟨t, v, hf, ⟨e, x, hx, ht, _⟩, _⟩
    cases file.symm.trans hf
    rw [Table.get?_eq_some, servers, List.mem_singleton] at hx
    cases hx
    exact absurd ht (by decide)
  obtain ⟨⟨r, s'⟩, hr, hret⟩ := Option.map_eq_some_iff.mp hmap
  obtain ⟨⟨q, s''⟩, hq, hcut⟩ := Option.map_eq_some_iff.mp hcut
  exact ⟨s, run, not_isolated (toOption_eq_some.mp hr) hret fun own => own.elim (noClient 1) (noServer 1),
    not_isolated (toOption_eq_some.mp hq) hcut (noClient 1)⟩

end Ripc
