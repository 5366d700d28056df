import Ripc.DriverAsks
import Ripc.DriverRuns

namespace Ripc

/-- Ids are in range, and no two of the clients, servers, pools and sub-memories share one. -/
structure ValidIds (s : Drv) : Prop where
  range : ∀ a id, s.idOf a = some id → 0 ≤ id ∧ id ≤ maxIdValue
  unique : ∀ a b id, s.idOf a = some id → s.idOf b = some id → a = b

/-- A search by id finds an object exactly when the id is its own, and `ipc_mmap` never finds a client
where a server was meant. -/
structure Unambiguous (s : Drv) : Prop where
  client : ∀ id k, findClientById s id = some k ↔ s.idOf (.client k) = some id
  server : ∀ id v, findServerById s id = some v ↔ s.idOf (.server v) = some id
  target : ∀ id k v, findClientById s id = some k → findServerById s id ≠ some v

/-- The generator answers no request of the call with an error. -/
def NoIdError (s : Drv) (call : Call) : Prop :=
  ∀ sites, call.Asks s sites → ∀ id ∈ call.kernel.answers sites s.gIdGen, 0 ≤ id

variable {s s' : Drv}

theorem answers_le {K : Kernel} {sites : List IdSite} {used : List Int} {id : Int}
    (h : id ∈ K.answers sites used) (h0 : 0 ≤ id) : id ≤ maxIdValue := by
  induction sites generalizing used with
  | nil => exact absurd h List.not_mem_nil
  | cons site sites ih =>
    rcases List.mem_cons.mp h with rfl | later
    · exact (K.idaAllocRange_ok site used h0).1
    · exact ih later

theorem find?_id {α : Type} {t : Table α} {f : α → Int} {id : Int} {p : Ptr}
    (single : ∀ q, (t.get? q).map f = some id → q = p) :
    t.find? (fun a => f a = id) = some p ↔ (t.get? p).map f = some id := by
  constructor
  · intro h
    obtain ⟨a, ha, hid⟩ := Table.find?_eq_some h
    rw [ha]
    exact congrArg some (of_decide_eq_true hid)
  · intro h
    obtain ⟨a, ha, hid⟩ := Option.map_eq_some_iff.mp h
    cases hf : t.find? fun a => f a = id with
    | none => exact absurd hid (by simpa using Table.find?_eq_none.mp hf p a ha)
    | some q =>
      obtain ⟨b, hb, hq⟩ := Table.find?_eq_some hf
      rw [single q (by rw [hb]; exact congrArg some (of_decide_eq_true hq))]

theorem ValidIds.unambiguous (h : ValidIds s) : Unambiguous s := by
  have client : ∀ id k, findClientById s id = some k ↔ s.idOf (.client k) = some id := by
    intro id k
    have single : s.idOf (.client k) = some id → ∀ q, s.idOf (.client q) = some id → q = k :=
      fun hk q hq => Holder.client.inj (h.unique (.client q) (.client k) id hq hk)
    constructor
    · intro hf
      obtain ⟨cli, hk, rfl, _⟩ := findClientById_some hf
      exact idOf_client hk
    · intro hk
      rw [findClientById, if_pos (isIdValid_iff.mpr (h.range _ id hk))]
      exact (find?_id (single hk)).mpr hk
  have server : ∀ id v, findServerById s id = some v ↔ s.idOf (.server v) = some id := by
    intro id v
    have single : s.idOf (.server v) = some id → ∀ q, s.idOf (.server q) = some id → q = v :=
      fun hv q hq => Holder.server.inj (h.unique (.server q) (.server v) id hq hv)
    constructor
    · intro hf
      obtain ⟨srv, hv, rfl, _⟩ := findServerById_some hf
      exact idOf_server hv
    · intro hv
      rw [findServerById, if_pos (isIdValid_iff.mpr (h.range _ id hv))]
      exact (find?_id (single hv)).mpr hv
  refine ⟨client, server, fun id k v hk hv => ?_⟩
  have same := h.unique (.client k) (.server v) id ((client id k).mp hk) ((server id v).mp hv)
  cases same

theorem Returns.range {call : Call} (wf : Wf s) (hs : Returns s call s') (noError : NoIdError s call)
    (h : ∀ a id, s.idOf a = some id → 0 ≤ id ∧ id ≤ maxIdValue) :
    ∀ a id, s'.idOf a = some id → 0 ≤ id ∧ id ≤ maxIdValue := by
  intro a id ha
  rcases idOf_step wf hs ha with before | ⟨sites, asks, answered⟩
  · exact h a id before
  · have h0 := noError sites asks id answered
    exact ⟨h0, answers_le answered h0⟩

/-- While the generator answers no request with an error, ids are valid and searches by id are
unambiguous. -/
theorem ids_valid {calls : List Call}
    (run : Trace (fun s call s' => NoIdError s call ∧ Returns s call s') Drv.init calls s) :
    ValidIds s ∧ Unambiguous s := by
  have inv : Wf s ∧ Ids s ∧ ∀ a id, s.idOf a = some id → 0 ≤ id ∧ id ≤ maxIdValue := by
    refine run.invariant (I := fun s => Wf s ∧ Ids s ∧ ∀ a id, s.idOf a = some id → 0 ≤ id ∧ id ≤ maxIdValue)
      ?_ ⟨.init, .init, ?_⟩
    · rintro s call s' ⟨wf, ids, range⟩ ⟨noError, hs⟩
      exact ⟨wf.step hs, ids.step wf hs, hs.range wf noError range⟩
    · rintro (_ | _ | _ | _) id ha <;> simp [Drv.idOf, Drv.init, Drv.subMem?, subMemAt] at ha
  obtain ⟨_, ids, range⟩ := inv
  have valid : ValidIds s := ⟨range, fun a b id ha hb => ids.unique a b id (range a id ha).1 ha hb⟩
  exact ⟨valid, valid.unambiguous⟩

/-- The answers to whatever a call can ask for. -/
def noIdErrorCheck (s : Drv) (call : Call) : Bool :=
  [[.server], [.client], poolSites].all fun sites => (call.kernel.answers sites s.gIdGen).all fun id => 0 ≤ id

theorem noIdErrorCheck_sound (s : Drv) (call : Call) (h : noIdErrorCheck s call = true) : NoIdError s call := by
  intro sites asks id hid
  have all : ∀ sites ∈ [[.server], [.client], poolSites], ∀ id ∈ call.kernel.answers sites s.gIdGen, 0 ≤ id := by
    simpa [noIdErrorCheck] using h
  refine all sites ?_ id hid
  cases asks <;> simp

/-- A server, two clients and a pool of four. -/
theorem ids_valid_client : ∃ s, Trace Returns Drv.init twoConnections s ∧ s.idOf (.server 1) = some 0 ∧
    s.idOf (.client 1) = some 1 ∧ s.idOf (.pool 1) = some 6 ∧ s.idOf (.subMem (Shm.first 1)) = some 2 ∧
    s.idOf (.client 2) = some 7 ∧ ValidIds s ∧ Unambiguous s := by
  have facts : ∃ s, Trace (fun s call s' => NoIdError s call ∧ Returns s call s') Drv.init twoConnections s ∧
      (s.idOf (.server 1) = some 0 ∧ s.idOf (.client 1) = some 1 ∧ s.idOf (.pool 1) = some 6 ∧
        s.idOf (.subMem (Shm.first 1)) = some 2 ∧ s.idOf (.client 2) = some 7) :=
    runChecked_check noIdErrorCheck_sound (by decide)
  obtain ⟨s, run, server, first, pool, slot, second⟩ := facts
  exact ⟨s, run.mono fun _ _ _ _ h => h.2, server, first, pool, slot, second, ids_valid run⟩

/-- A kernel without memory for ids. -/
def Kernel.noIds (current : TaskStruct) : Kernel :=
  { Kernel.plenty current with
    idaAllocRange := fun _ _ => -ENOMEM
    idaAllocRange_ok := fun _ _ h => absurd h (by decide) }

/-- Two clients register while the generator has no memory. Both registrations succeed, with the error as
the id of both. -/
theorem ids_invalid : ∃ s, Trace Returns Drv.init [callOf 1 .open, ⟨.noIds ⟨1, 1⟩, .ioctl 1 .registerClient⟩,
      ⟨.noIds ⟨1, 1⟩, .ioctl 1 .registerClient⟩] s ∧
    s.idOf (.client 1) = some (-ENOMEM) ∧ s.idOf (.client 2) = some (-ENOMEM) ∧ ¬ValidIds s := by
  have facts : ∃ s, Trace Returns Drv.init [callOf 1 .open, ⟨.noIds ⟨1, 1⟩, .ioctl 1 .registerClient⟩,
      ⟨.noIds ⟨1, 1⟩, .ioctl 1 .registerClient⟩] s ∧ s.idOf (.client 1) = some (-ENOMEM) ∧
      s.idOf (.client 2) = some (-ENOMEM) := runCalls_check (by decide)
  obtain ⟨s, run, h1, h2⟩ := facts
  exact ⟨s, run, h1, h2, fun valid => absurd (valid.range (.client 1) (-ENOMEM) h1).1 (by decide)⟩

end Ripc
