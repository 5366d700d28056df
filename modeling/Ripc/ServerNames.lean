import Ripc.Registration

namespace Ripc

/-- The name bytes of a registration end, and a server that it creates gets its task. -/
structure Call.NameOk (call : Call) (s : Drv) : Prop where
  terminated : ∀ filp reg, call.op = .ioctl filp (.registerServer reg) → (0 : UInt8) ∈ reg.name.toList
  completes : ∀ filp reg v, call.op = .ioctl filp (.registerServer reg) → call.kernel.copyFromUser = true →
    findServerByName s reg.name.toList = .ok none → call.kernel.kmalloc .server s = some v →
    call.kernel.copyToUser = true ∧ call.kernel.kmalloc .serversEntry
      (s.addServer v reg.stored (call.kernel.idaAllocRange .server s.gIdGen)) ≠ none

theorem stored_chars {reg : ServerRegistration} (h : (0 : UInt8) ∈ reg.name.toList) :
    reg.stored.chars = cstr reg.name.toList :=
  strscpy_chars h (by simp)

theorem findServerByName_none {s : Drv} {reg : ServerRegistration} (h : (0 : UInt8) ∈ reg.name.toList) :
    findServerByName s reg.name.toList = .ok none ↔
      ∀ v srv, s.gServersList.get? v = some srv → srv.name ≠ reg.stored := by
  have same : ∀ srv : Server, srv.name.bytes <+: reg.name.toList ↔ srv.name = reg.stored := by
    intro srv
    rw [CString.ext_iff, stored_chars h, CString.bytes, prefix_iff_cstr srv.name.nonzero h, eq_comm]
  simp only [findServerByName_eq, Except.ok.injEq, Table.find?_eq_none, decide_eq_false_iff_not, same, ne_eq]

theorem findServerByName_some {s : Drv} {reg : ServerRegistration} (h : (0 : UInt8) ∈ reg.name.toList)
    {v : Ptr} {srv : Server} (hv : s.gServersList.get? v = some srv) (hn : srv.name = reg.stored) :
    ∃ w, findServerByName s reg.name.toList = .ok (some w) := by
  have found := mt (findServerByName_none h).mp fun none => none v srv hv hn
  rw [findServerByName_eq] at found ⊢
  cases hw : s.gServersList.find? fun srv => decide (srv.name.bytes <+: reg.name.toList) with
  | none => exact absurd (congrArg Except.ok hw) found
  | some w => exact ⟨w, rfl⟩

/-- What holds of the servers while the names that are registered end within their field. -/
structure NamesKept (s : Drv) : Prop where
  wf : Wf s
  unique : ∀ v srv v' srv', s.gServersList.get? v = some srv → s.gServersList.get? v' = some srv' →
    srv.name = srv'.name → v = v'
  nonempty : ∀ v srv, s.gServersList.get? v = some srv → srv.name.chars ≠ []
  owned : ∀ v srv, s.gServersList.get? v = some srv → srv.taskP ≠ none

theorem NamesKept.ofServers {s s' : Drv} (h : NamesKept s) (wf : Wf s')
    (old : ∀ v srv, s'.gServersList.get? v = some srv → s.gServersList.get? v = some srv) : NamesKept s' :=
  ⟨wf, fun v srv v' srv' hv hv' => h.unique v srv v' srv' (old v srv hv) (old v' srv' hv'),
    fun v srv hv => h.nonempty v srv (old v srv hv), fun v srv hv => h.owned v srv (old v srv hv)⟩

def Event.KeepsServers : Event → Prop
  | .addServer _ _ _ _ => False
  | _ => True

theorem NamesKept.event {s s' : Drv} {ev : Event} (h : NamesKept s) (keeps : ev.KeepsServers)
    (he : s.event ev s') : NamesKept s' := by
  refine h.ofServers (h.wf.event he) fun v srv hv => ?_
  obtain ⟨ok, rfl⟩ := he
  cases ev with
  | addServer => exact keeps.elim
  | addClient k id owner => cases owner <;> exact hv
  | addPool p shm =>
    rw [Drv.apply, Drv.addPool, takeIds_frame] at hv
    exact hv
  | dropServer e x id => exact (Table.get?_erase_some.mp hv).2
  | teardown p ds =>
    rw [Drv.apply, enqueueAll_eq] at hv
    exact hv
  | _ => exact hv

theorem strscpy_ne_nil {raw : List UInt8} {size : Nat} (h : 0 < size) (hsize : 1 < size)
    (hz : 0 ∈ raw) (hne : strlen raw ≠ some 0) : (strscpy size h raw).chars ≠ [] := by
  cases raw with
  | nil => cases hz
  | cons b bs =>
    have hb : b ≠ 0 := by
      rintro rfl
      exact hne rfl
    obtain ⟨n, hn⟩ : ∃ n, size - 1 = n + 1 := ⟨size - 2, by omega⟩
    simp [strscpy, cstr, hb, hn]

theorem NamesKept.addServer {s s' : Drv} {v e t : Ptr} {reg : ServerRegistration} {id : Int} (h : NamesKept s)
    (terminated : (0 : UInt8) ∈ reg.name.toList) (hf : findServerByName s reg.name.toList = .ok none)
    (named : Named (reg.name.toList ++ reg.serverId.toList))
    (ev : s.event (.addServer v reg.stored id (some (e, t))) s') : NamesKept s' := by
  have wf := h.wf.event ev
  obtain ⟨⟨fresh, _⟩, rfl⟩ := ev
  have notStored := (findServerByName_none terminated).mp hf
  have servers : (s.apply (.addServer v reg.stored id (some (e, t)))).gServersList =
      s.gServersList.pushBack v ⟨reg.stored, id, some e⟩ := by
    show (s.gServersList.pushBack v ⟨reg.stored, id, none⟩).modify v (fun srv => { srv with taskP := some e }) = _
    rw [Table.modify_pushBack fresh]
  have old : ∀ w srv, (s.apply (.addServer v reg.stored id (some (e, t)))).gServersList.get? w = some srv →
      (w = v ∧ srv = ⟨reg.stored, id, some e⟩) ∨ s.gServersList.get? w = some srv := by
    intro w srv hw
    rw [servers, Table.get?_pushBack fresh] at hw
    split at hw
    next heq => exact Or.inl ⟨heq, (Option.some.inj hw).symm⟩
    next => exact Or.inr hw
  refine ⟨wf, fun w srv w' srv' hw hw' hn => ?_, fun w srv hw => ?_, fun w srv hw => ?_⟩
  · rcases old w srv hw with ⟨rfl, rfl⟩ | hold <;> rcases old w' srv' hw' with ⟨rfl, rfl⟩ | hold'
    · rfl
    · exact absurd hn.symm (notStored w' srv' hold')
    · exact absurd hn (notStored w srv hold)
    · exact h.unique w srv w' srv' hold hold' hn
  · rcases old w srv hw with ⟨_, rfl⟩ | hw
    · exact strscpy_ne_nil (by decide) (by decide) named.1 named.2
    · exact h.nonempty w srv hw
  · rcases old w srv hw with ⟨_, rfl⟩ | hw
    · exact nofun
    · exact h.owned w srv hw

theorem Call.May.keepsServers {call : Call} {s : Drv} {ev : Event} (h : call.May s ev)
    (other : ∀ filp reg, call.op ≠ .ioctl filp (.registerServer reg)) : ev.KeepsServers := by
  cases ev with
  | addServer v name id owner =>
    obtain ⟨filp, reg, op, _⟩ := h
    exact other filp reg op
  | _ => trivial

theorem NamesKept.step {s s' : Drv} {call : Call} (h : NamesKept s) (ok : call.NameOk s)
    (hs : Returns s call s') : NamesKept s' := by
  obtain ⟨r, hr⟩ := hs
  by_cases other : ∀ filp reg, call.op ≠ .ioctl filp (.registerServer reg)
  · exact (step_ok h.wf hr).keeps (fun _ _ _ may ha he => ha.event (may.keepsServers other) he) h
  · obtain ⟨K, op⟩ := call
    simp only [not_forall, not_not] at other
    obtain ⟨filp, reg, rfl⟩ := other
    simp only [Ripc.step, ipcIoctl] at hr
    split at hr
    next => cases hr; exact h
    next t ht =>
      obtain ⟨task, htask⟩ := Table.mem_keys.mp (h.wf.files.live filp t ht)
      rcases registerServer_ok hr htask with ⟨rfl, _⟩ | ⟨_, copy, hf, named, v, owner, hk, ev, outcome⟩
      · exact h
      · obtain ⟨copied, memory⟩ := ok.completes filp reg v rfl copy hf hk
        cases outcome with
        | copy hc => rw [copied] at hc; cases hc
        | entry _ hn => exact absurd hn memory
        | done => exact h.addServer (ok.terminated filp reg rfl) hf named ev

/-- What the driver promises about names. -/
structure NamesUnique (s : Drv) : Prop where
  unique : ∀ v srv v' srv', s.gServersList.get? v = some srv → s.gServersList.get? v' = some srv' →
    srv.name = srv'.name → v = v'
  taken : ∀ K filp t task reg v srv, s.files.get? filp = some t → s.gRegTaskList.get? t = some task →
    (Call.mk K (.ioctl filp (.registerServer reg))).NameOk s → s.gServersList.get? v = some srv →
    srv.name = reg.stored → ∃ r, ipcIoctl K s filp (.registerServer reg) = .ok (r, s) ∧ r.ret < 0 ∧
      (task.canAddServer = true → K.copyFromUser = true → r.ret = -EEXIST)
  again : ∀ K filp arg v srv r s₁, findServerById s (unpackId1 arg) = some v →
    s.gServersList.get? v = some srv → ipcIoctl K s filp (.serverUnregister arg) = .ok (r, s₁) → r.ret = 0 →
    ∀ K' filp' t' task' reg, s₁.files.get? filp' = some t' → s₁.gRegTaskList.get? t' = some task' →
      task'.canAddServer = true → K'.Succeeds → (0 : UInt8) ∈ reg.name.toList → reg.stored = srv.name →
      ∃ r' s₂, ipcIoctl K' s₁ filp' (.registerServer reg) = .ok (r', s₂) ∧ r'.ret = 0 ∧
        ∃ w srv', s₂.gServersList.get? w = some srv' ∧ srv'.name = srv.name

theorem registerServer_taken {s : Drv} {K : Kernel} {t v : Ptr} {task : RegTask}
    {reg : ServerRegistration} {srv : Server} (ht : s.gRegTaskList.get? t = some task)
    (terminated : (0 : UInt8) ∈ reg.name.toList) (hv : s.gServersList.get? v = some srv)
    (hn : srv.name = reg.stored) : ∃ r, registerServer K s t reg = .ok (r, s) ∧ r.ret < 0 ∧
      (task.canAddServer = true → K.copyFromUser = true → r.ret = -EEXIST) := by
  obtain ⟨w, hf⟩ := findServerByName_some terminated hv hn
  simp only [registerServer, deref_of_get? ht, ok_bind, hf]
  by_cases can : task.canAddServer = true
  · by_cases copy : K.copyFromUser = true
    · simp only [can, copy, Bool.not_true, Bool.false_eq_true, if_false]
      exact ⟨_, rfl, by decide, fun _ _ => rfl⟩
    · simp only [can, copy, Bool.not_true, Bool.not_false, Bool.false_eq_true, if_false, if_true]
      exact ⟨_, rfl, by decide, (by simp)⟩
  · simp only [can, Bool.not_false, if_true]
    exact ⟨_, rfl, by decide, (by simp)⟩

theorem NamesKept.unregistered {s s₁ : Drv} (h : NamesKept s) {K : Kernel} {arg : U32} {v : Ptr}
    {srv : Server} {r : Reply} (hv : findServerById s (unpackId1 arg) = some v)
    (hsrv : s.gServersList.get? v = some srv) (hr : serverUnregister K s arg = .ok (r, s₁)) (hret : r.ret = 0) :
    NamesKept s₁ ∧ ∀ w srv', s₁.gServersList.get? w = some srv' → srv'.name ≠ srv.name := by
  rcases serverUnregister_ok h.wf hr with ⟨hne, _⟩ | ⟨v', srv', s', hv', hsrv', clean, _, done⟩
  · exact absurd hret hne
  cases hv.symm.trans hv'
  cases hsrv.symm.trans hsrv'
  have kept : NamesKept s' := h.ofServers clean.wf fun w srv' hw => clean.torn.servers ▸ hw
  rcases done with ⟨hnone, _⟩ | ⟨e, x, ev, rfl⟩
  · exact absurd hnone (h.owned v srv hsrv)
  have keeps : Event.KeepsServers (.dropServer e x srv.id) := trivial
  refine ⟨kept.event keeps ev, fun w srv' hw hn => ?_⟩
  obtain ⟨_, rfl⟩ := ev
  obtain ⟨hne, hw⟩ := Table.get?_erase_some.mp hw
  exact hne (h.unique w srv' x.server srv (clean.torn.servers ▸ hw) hsrv hn)

theorem registerServer_free {s : Drv} {K : Kernel} {t : Ptr} {task : RegTask}
    {reg : ServerRegistration} (ht : s.gRegTaskList.get? t = some task) (can : task.canAddServer = true)
    (succeeds : K.Succeeds) (terminated : (0 : UInt8) ∈ reg.name.toList) (nonempty : reg.stored.chars ≠ [])
    (free : ∀ w srv, s.gServersList.get? w = some srv → srv.name ≠ reg.stored) :
    ∃ r s', registerServer K s t reg = .ok (r, s') ∧ r.ret = 0 ∧
      ∃ w srv, s'.gServersList.get? w = some srv ∧ srv.name = reg.stored := by
  have hf := (findServerByName_none terminated).mpr free
  have named : Named (reg.name.toList ++ reg.serverId.toList) := by
    refine ⟨List.mem_append_left _ terminated, fun hz => nonempty ?_⟩
    have hlen := strlen_eq_some hz
    rw [stored_chars terminated]
    rw [cstr_append terminated] at hlen
    exact List.eq_nil_of_length_eq_zero hlen.symm
  have creates : CreatesServer K s task reg :=
    ⟨can, succeeds.copyFromUser, hf, named, succeeds.kmalloc .server s⟩
  obtain ⟨r, s', hr⟩ := registerServer_returns ht creates
  refine ⟨r, s', hr, ?_⟩
  rcases registerServer_ok hr ht with ⟨_, refused⟩ | ⟨_, _, _, _, v, owner, _, ev, outcome⟩
  · exact absurd refused creates.notRefused
  · cases outcome with
    | copy hc => rw [succeeds.copyToUser] at hc; cases hc
    | entry _ hn => exact absurd hn (succeeds.kmalloc _ _)
    | @done e _ _ =>
      obtain ⟨⟨fresh, _⟩, rfl⟩ := ev
      refine ⟨rfl, v, ⟨reg.stored, K.idaAllocRange .server s.gIdGen, some e⟩, ?_, rfl⟩
      show ((s.gServersList.pushBack v _).modify v _).get? v = _
      rw [Table.modify_pushBack fresh, Table.get?_pushBack fresh, if_pos rfl]

theorem NamesKept.namesUnique {s : Drv} (h : NamesKept s) : NamesUnique s := by
  refine ⟨h.unique, ?_, ?_⟩
  · intro K filp t task reg v srv hfile ht ok hv hn
    simp only [ipcIoctl, hfile]
    exact registerServer_taken ht (ok.terminated filp reg rfl) hv hn
  · intro K filp arg v srv r s₁ hv hsrv hr hret K' filp' t' task' reg hfile ht can succeeds terminated hn
    have hr' : serverUnregister K s arg = .ok (r, s₁) := by
      simp only [ipcIoctl] at hr
      split at hr
      next => cases hr; cases hret
      next => exact hr
    obtain ⟨-, free⟩ := h.unregistered hv hsrv hr' hret
    have nonempty : reg.stored.chars ≠ [] := hn ▸ h.nonempty v srv hsrv
    simp only [ipcIoctl, hfile]
    obtain ⟨r', s₂, hreg, hz, w, srv', hw, hname⟩ :=
      registerServer_free ht can succeeds terminated nonempty (hn ▸ free)
    exact ⟨r', s₂, hreg, hz, w, srv', hw, hname.trans hn⟩

/-- While every name that is registered ends within its field, names are unique. -/
theorem serverNames_unique {calls : List Call} {s : Drv}
    (run : Trace (fun s call s' => call.NameOk s ∧ Returns s call s') Drv.init calls s) : NamesUnique s :=
  (run.invariant (fun _ _ _ h hs => NamesKept.step h hs.1 hs.2) ⟨.init, nofun, nofun, nofun⟩).namesUnique

def registers (pid : Nat) (name : UInt8) : Call :=
  callOf pid (.ioctl pid (.registerServer ⟨shortName name, Vector.replicate 4 0⟩))

def twoNames : List Call := [callOf 1 .open, callOf 2 .open, registers 1 65, registers 1 66]

/-- Process 2 is refused the name `A`, and gets it once process 1 has given it up. -/
def nameAgain : List Call := [registers 2 65, callOf 1 (.ioctl 1 (.serverUnregister (packIds 0 0))), registers 2 65]

theorem nameOk_short {call : Call} (h : call ∈ twoNames ++ nameAgain) (s : Drv) : call.NameOk s := by
  have other : ∀ pid op, (∀ filp reg, op ≠ .ioctl filp (.registerServer reg)) → (callOf pid op).NameOk s :=
    fun pid op apart => ⟨fun filp reg op => absurd op (apart filp reg), fun filp reg _ op => absurd op (apart filp reg)⟩
  have short : ∀ pid name, (registers pid name).NameOk s := by
    intro pid name
    refine ⟨fun filp reg op => ?_, fun _ _ _ _ _ _ _ => ⟨rfl, by simp [registers, callOf, Kernel.plenty]⟩⟩
    obtain rfl := Cmd.registerServer.inj (Op.ioctl.inj op).2
    have last : (shortName name)[63] = 0 := by simp [shortName]
    exact last ▸ Vector.mem_toList_iff.mpr (Vector.getElem_mem _)
  simp only [twoNames, nameAgain, List.cons_append, List.nil_append, List.mem_cons, List.not_mem_nil, or_false] at h
  rcases h with rfl | rfl | rfl | rfl | rfl | rfl | rfl
  · exact other 1 .open (by simp)
  · exact other 2 .open (by simp)
  · exact short 1 65
  · exact short 1 66
  · exact short 2 65
  · exact other 1 _ (by simp)
  · exact short 2 65

theorem serverNames_unique_registered : ∃ s₁ s,
    Trace (fun s call s' => call.NameOk s ∧ Returns s call s') Drv.init twoNames s₁ ∧
    (step s₁ (registers 2 65)).toOption.map (fun x => x.1.ret) = some (-EEXIST) ∧
    Trace (fun s call s' => call.NameOk s ∧ Returns s call s') s₁ nameAgain s ∧
    s.gServersList.entries.map (fun e => (e.2.name.chars, e.2.id)) = [([66], 1), ([65], 2)] ∧ NamesUnique s := by
  have facts : ((runCalls Drv.init twoNames).bind fun s₁ => (runCalls s₁ nameAgain).map fun s =>
      ((step s₁ (registers 2 65)).toOption.map (fun x => x.1.ret),
        s.gServersList.entries.map fun e => (e.2.name.chars, e.2.id))) =
      some (some (-EEXIST), [([66], 1), ([65], 2)]) := by decide
  obtain ⟨s₁, first, facts⟩ := Option.bind_eq_some_iff.mp facts
  obtain ⟨s, second, facts⟩ := Option.map_eq_some_iff.mp facts
  obtain ⟨refused, names⟩ := Prod.mk.inj facts
  have before : Trace (fun s call s' => call.NameOk s ∧ Returns s call s') Drv.init twoNames s₁ :=
    (runCalls_trace first).mono fun a call _ hc hr => ⟨nameOk_short (List.mem_append_left nameAgain hc) a, hr⟩
  have after : Trace (fun s call s' => call.NameOk s ∧ Returns s call s') s₁ nameAgain s :=
    (runCalls_trace second).mono fun a call _ hc hr => ⟨nameOk_short (List.mem_append_right twoNames hc) a, hr⟩
  exact ⟨s₁, s, before, refused, after, names, serverNames_unique (before.append after)⟩

/-- Sixty-four letters without an end, in a structure that is zero behind them. -/
def endlessName : ServerRegistration := ⟨Vector.replicate 64 65, Vector.replicate 4 0⟩

/-- The first sixty-three letters are stored, the lookup compares all sixty-four: the same process
registers the same name twice. -/
theorem serverNames_endless_twice : ∃ s, Trace Returns Drv.init
    [callOf 1 .open, callOf 1 (.ioctl 1 (.registerServer endlessName)),
      callOf 1 (.ioctl 1 (.registerServer endlessName))] s ∧
    s.gServersList.get? 1 = some ⟨endlessName.stored, 0, some 1⟩ ∧
    s.gServersList.get? 2 = some ⟨endlessName.stored, 1, some 2⟩ := by
  have facts : (runCalls Drv.init [callOf 1 .open, callOf 1 (.ioctl 1 (.registerServer endlessName)),
      callOf 1 (.ioctl 1 (.registerServer endlessName))]).map
      (fun s => (s.gServersList.get? 1, s.gServersList.get? 2)) =
      some (some ⟨endlessName.stored, 0, some 1⟩, some ⟨endlessName.stored, 1, some 2⟩) := by decide
  obtain ⟨s, hs, hf⟩ := Option.map_eq_some_iff.mp facts
  simp only [Prod.mk.injEq] at hf
  exact ⟨s, runCalls_trace hs, hf⟩

end Ripc
