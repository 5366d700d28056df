import Ripc.AnsweredRequests
import Ripc.ProcessIsolation

namespace Ripc

/-- A call of `pack_ids`, with the ids that the caller has. -/
inductive PackCall
  | memoryMmap (firstId secondId : Int)
  | writeToClient (serverId subMemId : Int)
  | ipcMmap (clientId subMemId : Int)
  | clientCall (clientId : Int)
  | clientDisconnect (clientId : Int)
  | clientDestructor (clientId : Int)
  | serverDestructor (serverId : Int)

namespace PackCall

def ids : PackCall → Int × Int
  | memoryMmap a b | writeToClient a b | ipcMmap a b => (a, b)
  | clientCall a | clientDisconnect a | clientDestructor a | serverDestructor a => (a, 0)

def packedId (c : PackCall) : U32 := packIds c.ids.1 c.ids.2

/-- The caller's test for an error; `Client::disconnect` compares an unsigned value with zero, and the destructors
test nothing. -/
def failed (c : PackCall) : Bool :=
  match c with
  | memoryMmap _ _ | writeToClient _ _ | ipcMmap _ _ | clientCall _ => c.packedId = packError
  | clientDisconnect _ => c.packedId < 0
  | clientDestructor _ | serverDestructor _ => false

def passed (c : PackCall) : Option U32 := if c.failed then none else some c.packedId

/-- The command by which a caller ends what has its id. -/
def command : PackCall → Option (U32 → Cmd)
  | clientDisconnect _ => some .clientDisconnect
  | clientDestructor _ => some .clientUnregister
  | serverDestructor _ => some .serverUnregister
  | _ => none

/-- What has the caller's id in the driver. -/
def entity (s : Drv) : PackCall → Option Ptr
  | clientDisconnect a | clientDestructor a => findClientById s a
  | serverDestructor a => findServerById s a
  | _ => none

/-- Without an entity of the caller's id, the driver refuses the command. -/
def Spares (c : PackCall) : Prop :=
  ∀ cmd arg, c.command = some cmd → c.passed = some arg →
    ∀ (s : Drv) (K : Kernel) (fd : Ptr), Reachable s → c.entity s = none → Refuses (step s ⟨K, .ioctl fd (cmd arg)⟩) s

/-- The ids come back and are not taken for the error, the error is not passed on, and nobody else is hit. -/
def NeverMisleads (c : PackCall) : Prop :=
  (isIdValid c.ids.1 = true → isIdValid c.ids.2 = true →
    unpackId1 c.packedId = c.ids.1 ∧ unpackId2 c.packedId = c.ids.2 ∧ c.passed = some c.packedId) ∧
  (¬(isIdValid c.ids.1 = true ∧ isIdValid c.ids.2 = true) → c.passed = none) ∧ c.Spares

/-- A caller that tests for the value of the error does not have the pair with this value; one that does not has an
id. -/
def Fits : PackCall → Prop
  | memoryMmap a b | writeToClient a b | ipcMmap a b => ¬(a = 65535 ∧ b = 65514)
  | clientCall _ => True
  | clientDisconnect a | clientDestructor a | serverDestructor a => isIdValid a = true

variable {c : PackCall}

theorem writeToClient_passed {A : Type} (s : ServerEnd A) (con : ConnectionInfo) (mem : Memory) :
    s.writeToClient con mem = if s.isInitialized ∧ mem.isMapped then
      (writeToClient s.serverId con.subMemId).passed.map .endWriting else none := by
  by_cases hi : s.isInitialized = true
  · by_cases hm : mem.isMapped = true
    · by_cases he : packIds s.serverId con.subMemId = packError
      · simp [ServerEnd.writeToClient_eq hi hm, hi, hm, passed, failed, packedId, ids, he]
      · simp [ServerEnd.writeToClient_eq hi hm, hi, hm, passed, failed, packedId, ids, he]
    · simp [ServerEnd.writeToClient, hi, hm]
  · simp [ServerEnd.writeToClient, hi]

theorem mmap_passed (p : Process) (K : Kernel) (id : Nat) (c : RipcClient) :
    p.mmap K id c = (memoryMmap id 0).passed.elim (some (p, c)) fun arg =>
      (p.driver ⟨K, .mmap p.fd arg⟩).map fun (_, p) => (p, { c with isMapped := true }) := by
  by_cases he : packIds id 0 = packError
  · simp [Process.mmap, passed, failed, packedId, ids, he]
  · simp [Process.mmap, passed, failed, packedId, ids, he]

theorem disconnect_passed (p : Process) (K : Kernel) (id : Nat) (munmap : Bool) :
    p.disconnect K id munmap = (p.clients.get? id).bind fun c =>
      if !c.isConnected then some p else
      (clientDisconnect id).passed.bind fun arg => (p.ioctl K (.clientDisconnect arg)).map fun (r, p) =>
        if r.ret < 0 then p else p.setClient id ({ c with connectedServerName := [] }.unmap munmap) := by
  simp [Process.disconnect, passed, failed, packedId, ids]

theorem destroyClient_passed (p : Process) (K : Kernel) (id : Int) :
    p.destroyClient K id =
      (clientDestructor id).passed.bind fun arg => (p.ioctl K (.clientUnregister arg)).map Prod.snd := rfl

theorem unpack_packedId (ha : isIdValid c.ids.1 = true) (hb : isIdValid c.ids.2 = true) :
    unpackId1 c.packedId = c.ids.1 ∧ unpackId2 c.packedId = c.ids.2 :=
  ⟨unpackId1_packIds ha hb, unpackId2_packIds ha hb⟩

theorem passed_compared (h : c.failed = decide (c.packedId = packError)) :
    (isIdValid c.ids.1 = true → isIdValid c.ids.2 = true →
      (c.passed = some c.packedId ↔ ¬(c.ids.1 = 65535 ∧ c.ids.2 = 65514))) ∧
    (¬(isIdValid c.ids.1 = true ∧ isIdValid c.ids.2 = true) → c.passed = none) := by
  unfold passed
  rw [h]
  constructor
  · intro ha hb
    rw [← packIds_eq_packError ha hb]
    by_cases he : packIds c.ids.1 c.ids.2 = packError
    · simp [packedId, he]
    · simp [packedId, he]
  · intro invalid
    simp [packedId, packIds_invalid invalid]

theorem compared_iff (h : c.failed = decide (c.packedId = packError)) (silent : c.command = none) :
    c.NeverMisleads ↔ ¬(c.ids.1 = 65535 ∧ c.ids.2 = 65514) := by
  obtain ⟨valid, invalid⟩ := passed_compared h
  constructor
  · rintro ⟨exact, -, -⟩ ⟨ha, hb⟩
    have ids : isIdValid c.ids.1 = true ∧ isIdValid c.ids.2 = true := by
      rw [ha, hb]
      decide
    exact (valid ids.1 ids.2).mp (exact ids.1 ids.2).2.2 ⟨ha, hb⟩
  · intro other
    refine ⟨fun ha hb => ?_, invalid, ?_⟩
    · obtain ⟨first, second⟩ := unpack_packedId ha hb
      exact ⟨first, second, (valid ha hb).mpr other⟩
    · intro cmd arg hcmd
      rw [silent] at hcmd
      cases hcmd

theorem untested_iff (h : c.failed = false) (second : c.ids.2 = 0)
    (spares : isIdValid c.ids.1 = true → c.Spares) : c.NeverMisleads ↔ isIdValid c.ids.1 = true := by
  have passed : c.passed = some c.packedId := by simp [PackCall.passed, h]
  constructor
  · rintro ⟨-, invalid, -⟩
    by_contra none
    have stopped := invalid fun both => none both.1
    rw [passed] at stopped
    cases stopped
  · intro valid
    refine ⟨fun ha hb => ?_, fun invalid => ?_, spares valid⟩
    · obtain ⟨first, second⟩ := unpack_packedId ha hb
      exact ⟨first, second, passed⟩
    · exact absurd ⟨valid, by rw [second]; decide⟩ invalid

theorem spares_of {a : Int} {cmd : U32 → Cmd} (ha : isIdValid a = true) (hids : c.ids = (a, 0))
    (hcmd : c.command = some cmd) (names : ∀ arg, (cmd arg).target ≠ none)
    (refused : ∀ s K arg, Reachable s → c.entity s = none → unpackId1 arg = a → (cmd arg).Refused K s) : c.Spares := by
  intro cmd' arg hcmd' harg s K fd reachable gone
  cases hcmd.symm.trans hcmd'
  have packed : c.packedId = arg := by
    unfold passed at harg
    split at harg
    · cases harg
    · exact Option.some.inj harg
  have named : unpackId1 arg = a := by
    rw [← packed, packedId, hids]
    exact unpackId1_packIds ha rfl
  exact (ipcIoctl_refuses reachable.wf (names arg)).mpr (Or.inr (refused s K arg reachable gone named))

theorem neverMisleads_iff (c : PackCall) : c.NeverMisleads ↔ c.Fits := by
  cases c with
  | memoryMmap a b | writeToClient a b | ipcMmap a b => exact compared_iff rfl rfl
  | clientCall a =>
    refine (compared_iff rfl rfl).trans ⟨fun _ => trivial, fun _ h => ?_⟩
    exact absurd h.2 (show (0 : Int) ≠ 65514 by decide)
  | clientDisconnect a | clientDestructor a =>
    refine untested_iff (by simp [failed]) rfl fun ha => spares_of ha rfl rfl (by simp [Cmd.target]) ?_
    intro s K arg _ gone named
    refine clientIdle_none ?_
    rw [named]
    exact gone
  | serverDestructor a =>
    refine untested_iff rfl rfl fun ha => spares_of ha rfl rfl (by simp [Cmd.target]) ?_
    intro s K arg _ gone named
    show findServerById s (unpackId1 arg) = none
    rw [named]
    exact gone

/-- A kernel that gives out the largest id. -/
def lastId (current : TaskStruct) : Kernel :=
  { Kernel.plenty current with
    idaAllocRange := fun _ used => if maxIdValue ∈ used then -ENOSPC else maxIdValue
    idaAllocRange_ok := fun _ used h => by
      split at h
      · exact absurd h (by decide)
      next free => simpa only [if_neg free] using ⟨le_rfl, free⟩ }

/-- Process 1 serves under the largest id, process 2 has opened the driver. -/
def lastServer : List Call :=
  [callOf 1 .open, callOf 2 .open,
    ⟨lastId ⟨1, 1⟩, .ioctl 1 (.registerServer ⟨shortName 65, Vector.replicate 4 0⟩)⟩]

/-- The answer of server 65535 for sub-memory 65514 is not sent; and a server of process 2 that was never registered
takes the server of process 1 away when it is destructed. -/
theorem neverMisleads_fails :
    (isIdValid 65535 = true ∧ isIdValid 65514 = true ∧ (writeToClient 65535 65514).passed = none) ∧
      isIdValid (-1) = false ∧ ∃ s arg r s', Reachable s ∧ (serverDestructor (-1)).passed = some arg ∧
        s.gServersList.entries.map (fun e => e.2.id) = [65535] ∧
        step s ⟨.plenty ⟨2, 2⟩, .ioctl 2 (.serverUnregister arg)⟩ = .ok (r, s') ∧ s'.gServersList.entries = [] := by
  refine ⟨by decide, by decide, ?_⟩
  have facts : ((runCalls Drv.init lastServer).bind fun s =>
      (step s ⟨.plenty ⟨2, 2⟩, .ioctl 2 (.serverUnregister packError)⟩).toOption.map fun a =>
        (s.gServersList.entries.map (fun e => e.2.id), a.2.gServersList.entries)) = some ([65535], []) := by
    decide
  obtain ⟨s, hs, facts⟩ := Option.bind_eq_some_iff.mp facts
  obtain ⟨⟨r, s'⟩, hr, facts⟩ := Option.map_eq_some_iff.mp facts
  obtain ⟨before, after⟩ := Prod.mk.inj facts
  exact ⟨s, packError, r, s', ⟨_, runCalls_trace hs⟩, rfl, before, toOption_eq_some.mp hr, after⟩

end PackCall

end Ripc
