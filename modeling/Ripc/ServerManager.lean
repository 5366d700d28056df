import Ripc.HubFaults
import Ripc.HubServers
import Ripc.EntityManager

namespace Ripc

/-- The servers that a process holds, each under its `m_server_id` with its `m_name`. -/
structure ServerManager where
  drv : Drv
  fd : Ptr
  maxServers : Nat
  servers : Table (List UInt8)

namespace ServerManager

def start (drv : Drv) (fd : Ptr) (maxServers : Nat) : ServerManager := ⟨drv, fd, maxServers, .empty⟩

def driver (p : ServerManager) (call : Call) : Option (Reply × ServerManager) :=
  (step p.drv call).toOption.map fun x => (x.1, { p with drv := x.2 })

/-- What `Server::init` hands to the driver: `strncpy` ends the name in any case, and the id is -1. -/
def registration (name : List UInt8) : ServerRegistration := ⟨Process.nameField name, Vector.replicate 4 255⟩

def registerCall (p : ServerManager) (K : Kernel) (name : List UInt8) : Call :=
  ⟨K, .ioctl p.fd (.registerServer (registration name))⟩

def init (p : ServerManager) (K : Kernel) (name : List UInt8) : Option (Int × ServerManager) :=
  if name = [] ∨ maxServerName ≤ name.length then some (-1, p) else
  (p.driver (p.registerCall K name)).map fun x =>
    if x.1.ret < 0 ∨ isIdValid x.1.out.clientId = false then (-1, x.2) else (x.1.out.clientId, x.2)

def destroyServer (p : ServerManager) (K : Kernel) (id : Int) : Option ServerManager :=
  (p.driver ⟨K, .ioctl p.fd (.serverUnregister (packIds id 0))⟩).map Prod.snd

def createServer (p : ServerManager) (K K' : Kernel) (name : List UInt8) : Option ServerManager :=
  if p.maxServers ≤ p.servers.keys.length then some p else
  (p.init K name).bind fun x =>
    if isIdValid x.1 = false then x.2.destroyServer K' x.1
    else if x.1.toNat ∈ x.2.servers.keys then x.2.destroyServer K' x.1
    else some { x.2 with servers := x.2.servers.pushBack x.1.toNat name }

def deleteServer (p : ServerManager) (K : Kernel) (id : Int) : Option ServerManager :=
  if isIdValid id = false ∨ id.toNat ∉ p.servers.keys then some p
  else { p with servers := p.servers.erase id.toNat }.destroyServer K id

end ServerManager

/-- What the application asks of the manager, and the driver calls made in between by anybody. -/
inductive ServerAction
  | createServer (K K' : Kernel) (name : List UInt8)
  | deleteServer (K : Kernel) (id : Int)
  | other (call : Call)

namespace ServerManager

def act (p : ServerManager) : ServerAction → Option ServerManager
  | .createServer K K' name => p.createServer K K' name
  | .deleteServer K id => p.deleteServer K id
  | .other call => (p.driver call).map Prod.snd

/-- The requests are granted; the file stays open, and only the manager makes and withdraws its servers. The destructor
of a server that got no id asks for the server 65535. -/
def Fits (p : ServerManager) : ServerAction → Prop
  | .createServer K K' name => (p.registerCall K name).Provided p.drv ∧ K'.Succeeds ∧ 65535 ∉ p.servers.keys
  | .deleteServer K _ => K.Succeeds
  | .other call => call.Provided p.drv ∧ call.op ≠ .release p.fd ∧
      (∀ reg, call.op ≠ .ioctl p.fd (.registerServer reg)) ∧
      ∀ f arg, call.op = .ioctl f (.serverUnregister arg) → (unpackId1 arg).toNat ∉ p.servers.keys

/-- The driver has the servers of the manager under their names, as those of task `t`, and no others. -/
structure SameServers (p : ServerManager) (t : Ptr) : Prop where
  held : ∀ id n, p.drv.hub.servers id = some (t, n) →
    ∃ k name, p.servers.get? k = some name ∧ id = (k : Int) ∧ n.chars = cstr name
  known : ∀ (k : Nat) name, p.servers.get? k = some name →
    ∃ n, p.drv.hub.servers k = some (t, n) ∧ n.chars = cstr name

/-- There is room for a server of this name, and nobody has it. -/
def Admits (p : ServerManager) (t : Ptr) (name : List UInt8) : Prop :=
  p.servers.keys.length < maxServersPerPid ∧ (∃ q, p.drv.hub.parties t = some q ∧ q.watches = false) ∧ name ≠ [] ∧
    name.length < maxServerName ∧ ∀ id u n, p.drv.hub.servers id = some (u, n) → n.chars ≠ cstr name

/-- A server is made where one is admitted, and otherwise nothing changes; but a name that begins with a zero byte makes
the driver fault. -/
def Creates (p : ServerManager) (t : Ptr) (name : List UInt8) (made : Option ServerManager) : Prop :=
  (p.Admits t name ∧ cstr name = [] ∧ made = none) ∨
    (p.Admits t name ∧ cstr name ≠ [] ∧ ∃ p' k, made = some p' ∧ p'.servers.keys = p.servers.keys ++ [k]) ∨
    (¬p.Admits t name ∧ ∃ p', made = some p' ∧ p'.servers = p.servers)

end ServerManager

section

variable {name : List UInt8}

theorem length_cstr_le (raw : List UInt8) : (cstr raw).length ≤ raw.length := (List.takeWhile_sublist _).length_le

theorem nameField_toList (short : name.length < maxServerName) :
    (Process.nameField name).toList = cstr name ++ List.replicate (maxServerName - (cstr name).length) 0 := by
  have fits := length_cstr_le name
  refine List.ext_getElem ?_ fun i hi hj => ?_
  · simp
    omega
  · have last : (cstr name)[maxServerName - 1]? = none := List.getElem?_eq_none (by omega)
    simp only [Process.nameField, Vector.getElem_toList, Vector.getElem_ofFn]
    rw [← cstr]
    by_cases inside : i < (cstr name).length
    · have early : i ≠ maxServerName - 1 := by omega
      rw [List.getElem_append_left inside, if_neg early, List.getElem?_eq_getElem inside, Option.getD_some]
    · rw [List.getElem_append_right (Nat.le_of_not_lt inside), List.getElem_replicate]
      simp [Nat.le_of_not_lt inside]

theorem terminated (short : name.length < maxServerName) : (0 : UInt8) ∈ (Process.nameField name).toList := by
  have fits := length_cstr_le name
  rw [nameField_toList short]
  refine List.mem_append_right _ (List.mem_replicate.mpr ⟨by omega, rfl⟩)

theorem cstr_nameField (short : name.length < maxServerName) : cstr (Process.nameField name).toList = cstr name := by
  have fits := length_cstr_le name
  obtain ⟨n, hn⟩ := Nat.exists_eq_succ_of_ne_zero (show maxServerName - (cstr name).length ≠ 0 by omega)
  have nonzero : ∀ b ∈ cstr name, decide (b ≠ 0) = true := by
    intro b hb
    refine decide_eq_true fun zero => ?_
    exact zero_notMem_cstr name (zero ▸ hb)
  rw [nameField_toList short, hn, List.replicate_succ, cstr, List.takeWhile_append_of_pos nonzero]
  simp

theorem stored_registration (short : name.length < maxServerName) :
    (ServerManager.registration name).stored.chars = cstr name := by
  have fits := length_cstr_le name
  simp only [ServerRegistration.stored, strscpy, ServerManager.registration, cstr_append (terminated short),
    cstr_nameField short]
  exact List.take_of_length_le (by omega)

theorem named_iff {b : Hub} (short : name.length < maxServerName) {v : Int} :
    b.Named (Process.nameField name).toList v ↔ ∃ u n, b.servers v = some (u, n) ∧ n.chars = cstr name := by
  have same : ∀ n : CString maxServerName, n.bytes <+: (Process.nameField name).toList ↔ n.chars = cstr name := by
    intro n
    rw [CString.bytes, prefix_iff_cstr n.nonzero (terminated short), cstr_nameField short, eq_comm]
  simp only [Hub.Named, same]

theorem strlen_registration (short : name.length < maxServerName) :
    strlen ((ServerManager.registration name).name.toList ++ (ServerManager.registration name).serverId.toList) =
      some (cstr name).length := by
  have zero : (0 : UInt8) ∈ (Process.nameField name).toList ++ (ServerManager.registration name).serverId.toList :=
    List.mem_append_left _ (terminated short)
  obtain ⟨n, hn⟩ := Option.ne_none_iff_exists'.mp (mt strlen_eq_none.mp (not_not.mpr zero))
  have len := strlen_eq_some hn
  rw [cstr_append (terminated short), cstr_nameField short] at len
  exact hn.trans (congrArg some len)

end

end Ripc
