import Ripc.MappingSteps
import Ripc.PeerKnowledge
import Ripc.DriverRuns

namespace Ripc

def ApiPc.leaving : ApiPc → Bool
  | .disconnected | .unmapping _ => true
  | _ => false

namespace Mapping

/-- Where the memory of the client's connection has been mapped. What `mmap` has returned counts before it is recorded,
and nothing does before `mmap` has been called. -/
def mappedAt (m : Mapping) : Option MemAddr :=
  match m.api with
  | .requested _ | .mapping _ => none
  | .recording _ addr => some addr
  | _ => some m.addr

/-- The move takes none of the branches after which the client's memory is not that of its connection: a
connection in place while the flag of an earlier mapping is still set, a mapping that fails, and a `munmap` by the
listener of the address at which the memory of a connection made since is mapped. -/
def Fits (id : Nat) (m : Mapping) : MappingMove → Prop
  | .proceed K place _ => (∀ name, m.api = .requested name → m.made ≠ none → m.isMapped = false) ∧
      ∀ name q, m.api = .mapping name → m.made = some q → place ≠ none ∧ m.drv.Maps K id q
  | .listen munmap => ∀ a, m.listener = .unmapping (.munmap (.at a)) → munmap = true → m.made ≠ none →
      m.mappedAt ≠ some (.at a)
  | _ => True

/-- What holds between two moves. -/
structure Inv (fd : Ptr) (id : Nat) (m : Mapping) : Prop where
  orderly : Orderly m.drv
  file : fd ∈ m.drv.files.keys
  live : ∀ q, m.made = some q → m.drv.connOf id = some q
  mapped : ∀ q addr, m.made = some q → m.mappedAt = some addr → m.Holds q addr
  gone : m.api.leaving = true → m.made = none

variable {fd : Ptr} {id : Nat} {m m' : Mapping} {call : Call} {r : Reply} {K : Kernel} {munmap : Bool}

theorem driver_ok (h : m.driver id call = some (r, m')) : ∃ drv, step m.drv call = .ok (r, drv) ∧
    m' = { m with
      drv
      made := m.made.filter fun q => drv.connOf id = some q
      announced := m.announced || m.made.any fun q => m.drv.announces drv q } := by
  unfold driver at h
  split at h
  next => cases h
  next hs =>
    obtain ⟨rfl, rfl⟩ := Prod.mk.inj (Option.some.inj h)
    exact ⟨_, hs, rfl⟩

theorem file_kept {s s' : Drv} (orderly : Orderly s) (file : fd ∈ s.files.keys) (stays : call.op ≠ .release fd)
    (hs : step s call = .ok (r, s')) : fd ∈ s'.files.keys := by
  obtain ⟨t, hf⟩ := Table.mem_keys.mp file
  obtain ⟨other, h0, unconnected⟩ := Process.exists_not_connected call r
  have spares : ∀ f con, call.op = .ioctl f (.connectToServer con) → con.clientId = other → r.ret ≠ 0 := by
    intro f con hop hid ret
    exact unconnected (by simp [Call.connected, hop, ret, hid])
  rcases step_queue orderly h0 hf hs stays spares with ⟨new, quiet⟩ | taken
  · exact Table.mem_keys.mpr ⟨t, quiet.file⟩
  · exact Table.mem_keys.mpr ⟨t, taken.file⟩

theorem Inv.driver (inv : m.Inv fd id) (valid : isIdValid id = true) (stays : call.op ≠ .release fd)
    (h : m.driver id call = some (r, m')) : m'.Inv fd id := by
  obtain ⟨drv, hs, rfl⟩ := driver_ok h
  have orderly := inv.orderly.step ⟨r, hs⟩
  have before : ∀ {q}, (m.made.filter fun q => drv.connOf id = some q) = some q →
      m.made = some q ∧ drv.connOf id = some q := by
    intro q hq
    obtain ⟨hq, hd⟩ := Option.filter_eq_some_iff.mp hq
    exact ⟨hq, of_decide_eq_true hd⟩
  refine ⟨orderly, file_kept inv.orderly inv.file stays hs, fun q hq => (before hq).2, fun q addr hq at' => ?_,
    fun leaving => ?_⟩
  · obtain ⟨hq, hd⟩ := before hq
    obtain ⟨⟨a, frame, haddr, hspace, hpage⟩, announced⟩ := inv.mapped q addr hq at'
    have same : drv.pageOf q = m.drv.pageOf q := by
      refine pageOf_step inv.orderly.wf hs ?_ ?_
      · exact linked_live inv.orderly.wf ((connOf_eq_some inv.orderly valid).mp (inv.live q hq))
      · exact linked_live orderly.wf ((connOf_eq_some orderly valid).mp hd)
    exact ⟨⟨a, frame, haddr, hspace, same.trans hpage⟩, by simp [announced]⟩
  · simp only [inv.gone leaving, Option.filter_none]

theorem Inv.without {api : ApiPc} (inv : m.Inv fd id) (gone : m.made = none) : ({ m with api } : Mapping).Inv fd id :=
  ⟨inv.orderly, inv.file, inv.live, by simp [gone], fun _ => gone⟩

theorem Inv.connect {name : List UInt8} (inv : m.Inv fd id) (valid : isIdValid id = true)
    (h : m.connect fd id K name = some m') : m'.Inv fd id := by
  unfold Mapping.connect at h
  split at h
  next => cases h; exact inv
  next =>
    obtain ⟨⟨r, m₁⟩, hr, rfl⟩ := Option.map_eq_some_iff.mp h
    have inv₁ := inv.driver valid (by simp) hr
    simp only
    split
    next => exact inv₁
    next => exact ⟨inv₁.orderly, inv₁.file, fun q hq => hq, by simp [mappedAt], by simp [ApiPc.leaving]⟩

theorem Inv.disconnect (inv : m.Inv fd id) (idle : m.api = .idle) : m.disconnect.Inv fd id := by
  have same : m.disconnect.mappedAt = m.mappedAt := by
    by_cases name : m.connectedServerName = [] <;> simp [mappedAt, Mapping.disconnect, idle, name]
  refine ⟨inv.orderly, inv.file, inv.live, fun q addr hq at' => inv.mapped q addr hq (same ▸ at'), fun leaving => ?_⟩
  simp only [Mapping.disconnect] at leaving
  split at leaving <;> cases leaving

theorem Inv.disconnecting (inv : m.Inv fd id) (valid : isIdValid id = true) (hapi : m.api = .disconnecting)
    (h : m.driver id ⟨K, .ioctl fd (.clientDisconnect (packIds id 0))⟩ = some (r, m')) :
    ({ m' with api := if r.ret < 0 then .idle else .disconnected } : Mapping).Inv fd id := by
  have inv' := inv.driver valid (by simp) h
  obtain ⟨drv, hs, rfl⟩ := driver_ok h
  split
  next =>
    refine ⟨inv'.orderly, inv'.file, inv'.live, fun q addr hq at' => inv'.mapped q addr hq ?_, by simp [ApiPc.leaving]⟩
    simpa [mappedAt, hapi] using at'
  next ret =>
    have alone := not_connected_disconnect inv.orderly valid inv.file hs ret
    refine inv'.without (Option.filter_eq_none_iff.mpr fun q _ hd => alone ⟨q, ?_⟩)
    exact (connOf_eq_some inv'.orderly valid).mp (of_decide_eq_true hd)

theorem Inv.mmap {name : List UInt8} {place : Option Nat} {addr : MemAddr} (inv : m.Inv fd id)
    (valid : isIdValid id = true) (maps : ∀ q, m.made = some q → place ≠ none ∧ m.drv.Maps K id q)
    (h : m.mmap fd id K place = some (addr, m')) : ({ m' with api := .recording name addr } : Mapping).Inv fd id := by
  cases place with
  | none =>
    cases h
    have none : m.made = none := Option.eq_none_iff_forall_not_mem.mpr fun q hq => (maps q hq).1 rfl
    exact inv.without none
  | some a =>
    obtain ⟨_, h⟩ := Option.ite_none_left_eq_some.mp h
    obtain ⟨⟨r, m₁⟩, hr, h⟩ := Option.map_eq_some_iff.mp h
    have inv₁ := inv.driver valid (by simp) hr
    obtain ⟨drv, hs, rfl⟩ := driver_ok hr
    have mapped : ∀ q, (m.made.filter fun q => drv.connOf id = some q) = some q → ∃ page, r.frame = some page ∧
        drv.pageOf q = some page ∧ m.drv.announces drv q = true := by
      intro q hq
      obtain ⟨hq, hd⟩ := Option.filter_eq_some_iff.mp hq
      have hd : drv.connOf id = some q := of_decide_eq_true hd
      have now := inv.live q hq
      obtain ⟨frame, some, told⟩ := mmap_maps inv.orderly valid now (maps q hq).2 inv.file hs
      have same : drv.pageOf q = m.drv.pageOf q := pageOf_step inv.orderly.wf hs
        (linked_live inv.orderly.wf ((connOf_eq_some inv.orderly valid).mp now))
        (linked_live inv₁.orderly.wf ((connOf_eq_some inv₁.orderly valid).mp hd))
      obtain ⟨page, hpage⟩ := Option.ne_none_iff_exists'.mp some
      exact ⟨page, hpage, same.trans (frame.symm.trans hpage), told⟩
    simp only at h
    split at h
    next failed =>
      cases h
      refine inv₁.without (Option.eq_none_iff_forall_not_mem.mpr fun q hq => ?_)
      obtain ⟨page, hpage, _⟩ := mapped q hq
      cases failed.symm.trans hpage
    next frame hframe =>
      cases h
      refine ⟨inv₁.orderly, inv₁.file, inv₁.live, fun q addr hq at' => ?_, by simp [ApiPc.leaving]⟩
      cases at'
      obtain ⟨page, hpage, hdrv, told⟩ := mapped q hq
      cases hframe.symm.trans hpage
      have made : m.made = some q := (Option.filter_eq_some_iff.mp hq).1
      exact ⟨⟨a, frame, rfl, Function.update_self _ _ _, hdrv⟩, by simp [made, told]⟩

theorem unmap_frame (m : Mapping) (ok : Bool) (pc : UnmapPc) : ∃ space isMapped,
    (m.unmap ok pc).2 = { m with space, isMapped } ∧
      ∀ a, (∀ b, pc = .munmap (.at b) → ok = true → a ≠ b) → space a = m.space a := by
  unfold unmap
  split
  next => exact ⟨m.space, m.isMapped, rfl, fun _ _ => rfl⟩
  next => exact ⟨m.space, m.isMapped, rfl, fun _ _ => rfl⟩
  next => exact ⟨m.space, m.isMapped, rfl, fun _ _ => rfl⟩
  next b =>
    cases ok with
    | false => exact ⟨m.space, m.isMapped, rfl, fun _ _ => rfl⟩
    | true => exact ⟨_, m.isMapped, rfl, fun a other => Function.update_of_ne (other b rfl rfl) _ _⟩
  next => exact ⟨m.space, m.isMapped, rfl, fun _ _ => rfl⟩
  next => exact ⟨m.space, false, rfl, fun _ _ => rfl⟩

theorem Inv.proceed {place : Option Nat} (inv : m.Inv fd id) (valid : isIdValid id = true)
    (fits : m.Fits id (.proceed K place munmap)) (h : m.proceed fd id K place munmap = some m') : m'.Inv fd id := by
  obtain ⟨flag, maps⟩ := fits
  unfold Mapping.proceed at h
  split at h
  next => cases h
  next name hapi =>
    cases h
    by_cases mapped : m.isMapped
    · have none : m.made = none := by
        by_contra made
        exact absurd mapped (by simp [flag name hapi made])
      exact inv.without none
    · refine ⟨inv.orderly, inv.file, inv.live, ?_, ?_⟩ <;> simp [mapped, mappedAt, ApiPc.leaving]
  next name hapi =>
    rw [if_neg (packIds_ne_packError valid)] at h
    obtain ⟨⟨addr, m₁⟩, hr, rfl⟩ := Option.map_eq_some_iff.mp h
    exact inv.mmap valid (fun q => maps name q hapi) hr
  next name addr hapi =>
    cases h
    refine ⟨inv.orderly, inv.file, inv.live, fun q addr' hq at' => ?_, by simp [ApiPc.leaving]⟩
    cases at'
    exact inv.mapped q addr hq (by simp [mappedAt, hapi])
  next name hapi =>
    cases h
    refine ⟨inv.orderly, inv.file, inv.live, fun q addr hq at' => ?_, by simp [ApiPc.leaving]⟩
    exact inv.mapped q addr hq (by simpa [mappedAt, hapi] using at')
  next name hapi =>
    cases h
    refine ⟨inv.orderly, inv.file, inv.live, fun q addr hq at' => ?_, by simp [ApiPc.leaving]⟩
    exact inv.mapped q addr hq (by simpa [mappedAt, hapi] using at')
  next hapi =>
    obtain ⟨⟨r, m₁⟩, hr, rfl⟩ := Option.map_eq_some_iff.mp h
    exact inv.disconnecting valid hapi hr
  next hapi =>
    cases h
    have none : m.made = none := inv.gone (by simp [hapi, ApiPc.leaving])
    exact ⟨inv.orderly, inv.file, inv.live, by simp [none], fun _ => none⟩
  next pc hapi =>
    obtain rfl := Option.some.inj h
    have none : m.made = none := inv.gone (by simp [hapi, ApiPc.leaving])
    obtain ⟨space, isMapped, same, _⟩ := unmap_frame m munmap pc
    rw [same]
    exact ⟨inv.orderly, inv.file, inv.live, by simp [none], fun _ => none⟩

theorem Inv.listen (inv : m.Inv fd id) (fits : m.Fits id (.listen munmap)) (h : m.listen munmap = some m') :
    m'.Inv fd id := by
  unfold Mapping.listen at h
  split at h
  next => cases h
  next => cases h; exact ⟨inv.orderly, inv.file, inv.live, inv.mapped, inv.gone⟩
  next => cases h; exact ⟨inv.orderly, inv.file, inv.live, inv.mapped, inv.gone⟩
  next => cases h; exact ⟨inv.orderly, inv.file, inv.live, inv.mapped, inv.gone⟩
  next pc hl =>
    obtain rfl := Option.some.inj h
    obtain ⟨space, isMapped, same, kept⟩ := unmap_frame m munmap pc
    rw [same]
    refine ⟨inv.orderly, inv.file, inv.live, fun q addr hq at' => ?_, inv.gone⟩
    have made : m.made = some q := hq
    have place : m.mappedAt = some addr := at'
    obtain ⟨⟨a, page, rfl, hspace, hpage⟩, announced⟩ := inv.mapped q addr made place
    refine ⟨⟨a, page, rfl, (kept a fun b hpc ok hab => ?_).trans hspace, hpage⟩, announced⟩
    exact fits b (by rw [hl, hpc]) ok (by simp [made]) (by rw [place, hab])

theorem Inv.read (inv : m.Inv fd id) (valid : isIdValid id = true) (h : m.read fd id K = some m') :
    m'.Inv fd id := by
  obtain ⟨⟨r, m₁⟩, hr, rfl⟩ := Option.map_eq_some_iff.mp h
  have inv₁ := inv.driver valid (by simp) hr
  simp only
  split
  next => exact ⟨inv₁.orderly, inv₁.file, inv₁.live, inv₁.mapped, inv₁.gone⟩
  next => exact inv₁

theorem Inv.act {move : MappingMove} (inv : m.Inv fd id) (valid : isIdValid id = true) (fits : m.Fits id move)
    (h : m.act fd id move = some m') : m'.Inv fd id := by
  cases move with
  | connect K name =>
    obtain ⟨_, h⟩ := Option.ite_none_right_eq_some.mp h
    exact inv.connect valid h
  | disconnect =>
    obtain ⟨idle, h⟩ := Option.ite_none_right_eq_some.mp h
    cases h
    exact inv.disconnect idle
  | proceed K place munmap => exact inv.proceed valid fits h
  | read K =>
    obtain ⟨_, h⟩ := Option.ite_none_right_eq_some.mp h
    exact inv.read valid h
  | listen munmap => exact inv.listen fits h
  | other call =>
    have stays : call.op ≠ .release fd := by
      intro hop
      simp [Mapping.act, hop] at h
    have made : ∃ r, m.driver id call = some (r, m') := by
      simp only [Mapping.act] at h
      split at h
      next f hop =>
        split at h
        next => cases h
        next =>
          obtain ⟨⟨r, m₁⟩, hr, rfl⟩ := Option.map_eq_some_iff.mp h
          exact ⟨r, hr⟩
      next =>
        obtain ⟨⟨r, m₁⟩, hr, rfl⟩ := Option.map_eq_some_iff.mp h
        exact ⟨r, hr⟩
    obtain ⟨r, hr⟩ := made
    exact inv.driver valid stays hr

theorem Inv.start {drv : Drv} (orderly : Orderly drv) (file : fd ∈ drv.files.keys) : (start drv).Inv fd id :=
  ⟨orderly, file, by simp [Mapping.start], by simp [Mapping.start], fun _ => rfl⟩

theorem Inv.agrees (inv : m.Inv fd id) : m.Agrees := by
  intro q hq returned
  refine inv.mapped q m.addr hq ?_
  cases hapi : m.api <;> simp_all [ApiPc.connecting, mappedAt]

/-- From a new client on, as long as every move fits, the client's memory is that of its connection. -/
theorem mapping_agrees {drv : Drv} {moves : List MappingMove} (reachable : Reachable drv)
    (file : fd ∈ drv.files.keys) (valid : isIdValid id = true)
    (run : Trace (fun m move m' => m.Fits id move ∧ m.act fd id move = some m') (start drv) moves m) :
    m.Agrees := by
  have inv : m.Inv fd id := run.invariant (fun a move b inv h => inv.act valid h.1 h.2)
    (Inv.start reachable.orderly file)
  exact inv.agrees

def fitsCheck (id : Nat) (m : Mapping) : MappingMove → Bool
  | .proceed K place _ => match m.api with
    | .requested _ => m.made.isNone || !m.isMapped
    | .mapping _ => m.made.all fun q => place.isSome && mapsCheck m.drv K id q
    | _ => true
  | .listen munmap => match m.listener with
    | .unmapping (.munmap addr) => !munmap || m.made.isNone || m.mappedAt ≠ some addr
    | _ => true
  | _ => true

theorem fitsCheck_sound {move : MappingMove} (h : fitsCheck id m move = true) : m.Fits id move := by
  cases move with
  | proceed K place munmap =>
    refine ⟨fun name hapi made => ?_, fun name q hapi made => ?_⟩
    · simp only [fitsCheck, hapi] at h
      simpa [made] using h
    · simp only [fitsCheck, hapi, made, Option.all_some] at h
      obtain ⟨place, maps⟩ := Bool.and_eq_true_iff.mp h
      exact ⟨Option.ne_none_iff_isSome.mpr place, mapsCheck_sound maps⟩
  | listen munmap =>
    intro a hl ok made
    simp only [fitsCheck, hl, ok, Bool.not_true, Bool.false_or, Bool.or_eq_true, Option.isNone_iff_eq_none] at h
    exact of_decide_eq_true (h.resolve_left made)
  | _ => trivial

/-- The servers `A` and `B` of process 1 and a client of process 2. -/
def clientOfTwo : List Call :=
  [callOf 1 .open, callOf 2 .open,
    callOf 1 (.ioctl 1 (.registerServer ⟨shortName 65, Vector.replicate 4 0⟩)),
    callOf 1 (.ioctl 1 (.registerServer ⟨shortName 66, Vector.replicate 4 0⟩)),
    callOf 2 (.ioctl 2 .registerClient)]

def goesOn : MappingMove := .proceed (.plenty ⟨2, 2⟩) (some 7) true

/-- The client connects to `A`, and `A` is deleted. -/
def loseA : List MappingMove :=
  .connect (.plenty ⟨2, 2⟩) [65] :: List.replicate 5 goesOn ++
    [.other (callOf 1 (.ioctl 1 (.serverUnregister (packIds 0 0))))]

/-- The listener is about to unmap the memory of the connection to `A` when the client asks for one to `B`, which it
maps at the same address. -/
def thenB : List MappingMove :=
  loseA ++ .read (.plenty ⟨2, 2⟩) :: List.replicate 6 (.listen true) ++ .connect (.plenty ⟨2, 2⟩) [66] ::
    List.replicate 2 (.listen true) ++ List.replicate 5 goesOn

theorem mapping_agrees_again : ∃ s m, runCalls Drv.init clientOfTwo = some s ∧
    runIf (act 2 2) (fitsCheck 2) (start s) thenB = some m ∧ m.made = some 1 ∧ m.api = .idle ∧ m.addr = .at 7 ∧
    m.Agrees := by
  have facts : ((runCalls Drv.init clientOfTwo).bind fun s =>
      (runIf (act 2 2) (fitsCheck 2) (start s) thenB).map fun m =>
        ((decide (2 ∈ s.files.keys), m.made), (m.api, m.addr))) = some ((true, some 1), (.idle, .at 7)) := by decide
  obtain ⟨s, hs, facts⟩ := Option.bind_eq_some_iff.mp facts
  obtain ⟨m, hm, facts⟩ := Option.map_eq_some_iff.mp facts
  simp only [Prod.mk.injEq] at facts
  obtain ⟨⟨file, made⟩, api, addr⟩ := facts
  have run : Trace (fun m move m' => m.Fits 2 move ∧ m.act 2 2 move = some m') (start s) thenB m :=
    (runIf_trace hm).mono fun _ _ _ _ h => ⟨fitsCheck_sound h.1, h.2⟩
  exact ⟨s, m, hs, hm, made, api, addr,
    mapping_agrees ⟨_, runCalls_trace hs⟩ (of_decide_eq_true file) (by decide) run⟩

/-- Another client takes the page that the connection to `A` had, and the client connects to `B` before its
listener has read anything. -/
def beforeListener : List MappingMove :=
  loseA ++ [.other (callOf 3 .open), .other (callOf 3 (.ioctl 3 .registerClient)),
    .other (callOf 3 (.ioctl 3 (.connectToServer ⟨8, shortName 66⟩))),
    .connect (.plenty ⟨2, 2⟩) [66], goesOn, goesOn]

/-- The client keeps the page of its old connection, and `B` does not hear of the new one. -/
theorem mapping_stale : ∃ s m, runCalls Drv.init clientOfTwo = some s ∧
    runIf (act 2 2) (fun _ _ => true) (start s) beforeListener = some m ∧ m.api = .idle ∧
    m.connectedServerName = [66] ∧ m.made = some 2 ∧ m.addr = .at 7 ∧ m.space 7 = some 0 ∧
    m.drv.pageOf 2 = some 1 ∧ m.announced = false ∧ ¬m.Agrees := by
  have facts : ((runCalls Drv.init clientOfTwo).bind fun s =>
      (runIf (act 2 2) (fun _ _ => true) (start s) beforeListener).map fun m =>
        ((m.api, m.connectedServerName, m.made), (m.addr, m.space 7), (m.drv.pageOf 2, m.announced))) =
      some ((.idle, [66], some 2), (.at 7, some 0), (some 1, false)) := by decide
  obtain ⟨s, hs, facts⟩ := Option.bind_eq_some_iff.mp facts
  obtain ⟨m, hm, facts⟩ := Option.map_eq_some_iff.mp facts
  simp only [Prod.mk.injEq] at facts
  obtain ⟨⟨api, name, made⟩, ⟨addr, space⟩, page, announced⟩ := facts
  refine ⟨s, m, hs, hm, api, name, made, addr, space, page, announced, fun agrees => ?_⟩
  have told := (agrees 2 made (by rw [api]; rfl)).2
  rw [announced] at told
  cases told

end Mapping

end Ripc
