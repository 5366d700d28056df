import Ripc.DriverRefines

namespace Ripc

section

variable {K : Kernel} {s s' : Drv} {r : Reply}

/-- The memory that a call maps is that of a live connection. -/
def MapsLive (s : Drv) (r : Reply) : Prop :=
  ∀ frame size, r.out = .mapped frame size → ∃ p c m sub, s.gConnsList.get? p = some c ∧
    c.memP = some m ∧ s.subMem? m = some sub ∧ frame = sub.pages ∧ size = sub.size

theorem mmapFound_ok {p : Ptr} (h : mmapFound K s p = .ok (r, s')) : s' = s ∧ MapsLive s r := by
  obtain ⟨c, hc, h⟩ := bind_eq_ok.mp h
  split at h
  next => cases h; exact ⟨rfl, nofun⟩
  next m hm =>
    obtain ⟨sub, hsub, h⟩ := bind_eq_ok.mp h
    cases h
    refine ⟨rfl, fun frame size he => ?_⟩
    cases he
    exact ⟨p, c, m, sub, deref_some hc, hm, derefSubMem_ok hsub, rfl, rfl⟩

theorem MapsLive.mmaped {p : Ptr} (h : MapsLive (s.apply (.mmaped p)) r) : MapsLive s r := by
  intro frame size he
  obtain ⟨q, c, m, sub, hc, hm, hsub, hf, hz⟩ := h frame size he
  rw [Drv.apply, Table.get?_modify] at hc
  split at hc
  next =>
    obtain ⟨c₀, hc₀, rfl⟩ := Option.map_eq_some_iff.mp hc
    exact ⟨q, c₀, m, sub, hc₀, hm, hsub, hf, hz⟩
  next => exact ⟨q, c, m, sub, hc, hm, hsub, hf, hz⟩

theorem mmapClient_ok {P : Event → Prop} {k : Ptr} (h : mmapClient K s k = .ok (r, s'))
    (post : ∀ p t d, d.whoSends = .client → P (.post p t d)) (mmaped : ∀ p, P (.mmaped p)) :
    Reaches Drv.event P s s' ∧ MapsLive s r := by
  obtain ⟨cli, hcli, h⟩ := bind_eq_ok.mp h
  split at h
  next => cases h; exact ⟨.refl, nofun⟩
  next p hp =>
    obtain ⟨c, hc, h⟩ := bind_eq_ok.mp h
    split at h
    next => cases h
    next m hm =>
      obtain ⟨sub, hsub, h⟩ := bind_eq_ok.mp h
      split at h
      next =>
        obtain ⟨rfl, maps⟩ := mmapFound_ok h
        exact ⟨.refl, maps⟩
      next =>
        obtain ⟨srv, _, h⟩ := bind_eq_ok.mp h
        obtain ⟨⟨ret, s₁⟩, hs, h⟩ := bind_eq_ok.mp h
        obtain ⟨rfl, maps⟩ := mmapFound_ok h
        have last : s₁.event (.mmaped p) (s₁.apply (.mmaped p)) := ⟨trivial, rfl⟩
        rcases notificationSend_ok hs with ⟨_, rfl⟩ | ⟨_, t, d, rfl, posts, htype, hwho⟩
        · exact ⟨.single last (mmaped p), maps.mmaped⟩
        · have first : s.event (.post p t d) (s.enqueue t d) := ⟨⟨posts, by simp [htype]⟩, rfl⟩
          exact ⟨(Reaches.single first (post p t d hwho)).trans (.single last (mmaped p)), maps.mmaped⟩

theorem mmapServer_ok {v : Ptr} {subId : Int} (h : mmapServer K s v subId = .ok (r, s')) :
    s' = s ∧ MapsLive s r := by
  unfold mmapServer at h
  split at h
  next => cases h; exact ⟨rfl, nofun⟩
  next =>
    split at h
    next => cases h; exact ⟨rfl, nofun⟩
    next =>
      obtain ⟨found, hf, h⟩ := bind_eq_ok.mp h
      cases found with
      | none => cases h; exact ⟨rfl, nofun⟩
      | some e =>
        obtain ⟨x, _, h⟩ := bind_eq_ok.mp h
        exact mmapFound_ok h

theorem ipcMmap_ok {P : Event → Prop} {arg : U32} (h : ipcMmap K s arg = .ok (r, s'))
    (post : ∀ p t d, d.whoSends = .client → P (.post p t d)) (mmaped : ∀ p, P (.mmaped p)) :
    Reaches Drv.event P s s' ∧ MapsLive s r := by
  unfold ipcMmap at h
  split at h
  next => exact mmapClient_ok h post mmaped
  next =>
    split at h
    next =>
      obtain ⟨rfl, maps⟩ := mmapServer_ok h
      exact ⟨.refl, maps⟩
    next => cases h; exact ⟨.refl, nofun⟩

/-- What a call has tested in the state in which it performs an event. -/
def Event.Tested (s : Drv) : Event → Prop
  | .openTask _ _ _ => regTaskCanAddTask s = true
  | .setMonitor t => (∃ task, s.gRegTaskList.get? t = some task ∧ task.numOfClients ≤ 0 ∧ task.numOfServers ≤ 0) ∧
      s.gRegTaskList.find? (fun t => t.isMonitor ≠ 0) = none
  | .addServer _ _ _ owner => ∀ o ∈ owner, ∃ task, s.gRegTaskList.get? o.2 = some task ∧ task.canAddServer = true
  | .addClient _ _ owner => ∀ o ∈ owner, ∃ task, s.gRegTaskList.get? o.2 = some task ∧ task.canAddClient = true
  | _ => True

/-- An event that a call performs. -/
def Drv.tested (s : Drv) (ev : Event) (s' : Drv) : Prop := s.event ev s' ∧ ev.Tested s

theorem Reaches.tested {P : Event → Prop} (h : Reaches Drv.event P s s') (free : ∀ ev, P ev → ∀ a, ev.Tested a) :
    Reaches Drv.tested P s s' := by
  obtain ⟨es, run, all⟩ := h
  exact ⟨es, run.mono fun a ev b he hs => ⟨hs, free ev (all ev he) a⟩, all⟩

theorem regTaskSetMonitor_ok {t : Ptr} {ret : Int} (h : regTaskSetMonitor s t = .ok (ret, s')) :
    s' = s ∨ s.tested (.setMonitor t) s' := by
  obtain ⟨task, ht, h⟩ := bind_eq_ok.mp h
  split at h
  next => cases h; exact Or.inl rfl
  next bare =>
    split at h
    next => cases h; exact Or.inl rfl
    next alone =>
      cases h
      refine Or.inr ⟨⟨trivial, rfl⟩, ⟨task, deref_some ht, by omega, by omega⟩, ?_⟩
      simpa using alone

theorem ipcOpen_ok (h : ipcOpen K s = .ok (r, s')) :
    s' = s ∨ ∃ filp t, r.out = .filp filp ∧ s.tested (.openTask filp t K.current) s' := by
  unfold ipcOpen at h
  split at h
  next => cases h; exact Or.inl rfl
  next filp hf =>
    split at h
    next => cases h; exact Or.inl rfl
    next can =>
      unfold regTaskCreate at h
      split at h
      next s₁ hc =>
        cases h
        split at hc
        next => cases hc; exact Or.inl rfl
        next =>
          split at hc
          next => cases hc; exact Or.inl rfl
          next => split at hc <;> cases hc; exact Or.inl rfl
      next t s₁ hc =>
        cases h
        split at hc
        next => cases hc
        next =>
          split at hc
          next => cases hc
          next =>
            split at hc
            next => cases hc
            next ht =>
              cases hc
              have ok := And.intro (K.kmalloc_fresh .filp s filp hf) (K.kmalloc_fresh .regTask s t ht)
              exact Or.inr ⟨filp, t, rfl, ⟨ok, rfl⟩, by simpa [Event.Tested] using can⟩

theorem ipcRead_ok {filp : Ptr} {count : Nat} (h : ipcRead K s filp count = .ok (r, s')) :
    s' = s ∨ ∃ t, s.files.get? filp = some t ∧ s.event (.dequeue t) s' := by
  unfold ipcRead at h
  split at h
  next => cases h; exact Or.inl rfl
  next t ht =>
    obtain ⟨task, hread, h⟩ := bind_eq_ok.mp h
    split at h
    next =>
      split at h
      next => cases h; exact Or.inl rfl
      next =>
        split at h
        next => cases h
        next =>
          obtain ⟨data, _, h⟩ := bind_eq_ok.mp h
          split at h <;> cases h <;> exact Or.inl rfl
    next =>
      split at h
      next => cases h; exact Or.inl rfl
      next d ds hq =>
        have ev : s.event (.dequeue t) (s.apply (.dequeue t)) := ⟨⟨task, d, ds, deref_some hread, hq⟩, rfl⟩
        split at h
        next => cases h; exact Or.inr ⟨t, ht, ev⟩
        next =>
          split at h <;> cases h <;> exact Or.inr ⟨t, ht, ev⟩

end

theorem Event.IsCleanup.may {ev : Event} {call : Call} {s : Drv} (h : ev.IsCleanup) : call.May s ev := by
  cases ev <;> trivial

theorem Event.IsCleanup.tested {ev : Event} (h : ev.IsCleanup) (s : Drv) : ev.Tested s := by
  cases ev <;> trivial

theorem ipcRelease_ok {K : Kernel} {s s' : Drv} {r : Reply} {filp : Ptr} {call : Call} (wf : Wf s)
    (op : call.op = .release filp) (h : ipcRelease K s filp = .ok (r, s')) :
    Reaches Drv.tested (call.May s) s s' := by
  unfold ipcRelease at h
  split at h
  next => cases h; exact .refl
  next t ht =>
    obtain ⟨s₁, hd, h⟩ := bind_eq_ok.mp h
    cases h
    obtain ⟨task, htask⟩ := Table.mem_keys.mp (wf.files.live filp t ht)
    rcases regTaskDelete_ok wf htask hd with ⟨_, rfl⟩ | ⟨a, so, noServers, noClients, rfl⟩
    · exact .single (e := .closeFile filp) ⟨⟨trivial, rfl⟩, trivial⟩ op
    · have close : a.tested (.closeTask filp t) (a.apply (.closeTask filp t)) :=
        ⟨⟨⟨so.files ▸ ht, noServers, noClients⟩, rfl⟩, trivial⟩
      have cleaned := so.run.tested fun ev he => he.tested
      exact (cleaned.mono fun ev he => he.may).trans (.single close op)

theorem connectToServer_reaches {K : Kernel} {s s' : Drv} {r : Reply} {filp : Ptr} {con : ConnectToServer}
    (h : connectToServer K s con = .ok (r, s')) :
    Reaches Drv.tested ((Call.mk K (.ioctl filp (.connectToServer con))).May s) s s' := by
  rcases connectToServer_ok h with ⟨_, rfl⟩ | ⟨k, cli, v, s₁, copy, hk, hcli, hnone, hf, pool, done⟩
  · exact .refl
  · have first : Reaches Drv.tested ((Call.mk K (.ioctl filp (.connectToServer con))).May s) s s₁ := by
      rcases pool with rfl | ⟨p, shm, ev, _⟩
      · exact .refl
      · exact .single ⟨ev, trivial⟩ ⟨filp, con, rfl⟩
    rcases done with ⟨_, rfl⟩ | ⟨_, p, m, e, hp, ev, complete⟩
    · exact first
    · refine first.trans (.single ⟨ev, trivial⟩ ⟨filp, con, rfl, copy, hk, ⟨cli, hcli, hnone⟩, hf, ?_, complete⟩)
      rcases pool with rfl | ⟨q, shm, ⟨⟨_, full, _⟩, _⟩, _⟩
      · exact fun _ => hp
      · exact fun hne => absurd full hne

theorem Registered.owner {K : Kernel} {t : Ptr} {id : Int} {noEntry : Prop} {r : Reply}
    {owner : Option (Ptr × Ptr)} (h : Registered K t id noEntry r owner) (succeeds : K.Succeeds)
    (entry : ¬noEntry) : owner ≠ none := by
  cases h with
  | copy hc => rw [succeeds.copyToUser] at hc; cases hc
  | entry _ hn => exact absurd hn entry
  | done => exact nofun

theorem Registered.tested {K : Kernel} {s : Drv} {t : Ptr} {task : RegTask} {id : Int} {noEntry : Prop} {r : Reply}
    {owner : Option (Ptr × Ptr)} {can : RegTask → Bool} (h : Registered K t id noEntry r owner)
    (ht : s.gRegTaskList.get? t = some task) (hcan : can task = true) :
    ∀ o ∈ owner, ∃ task, s.gRegTaskList.get? o.2 = some task ∧ can task = true := by
  intro o ho
  cases h with
  | copy => cases ho
  | entry => cases ho
  | done =>
    cases ho
    exact ⟨task, ht, hcan⟩

theorem ipcIoctl_ok {K : Kernel} {s s' : Drv} {r : Reply} {filp : Ptr} {cmd : Cmd} (wf : Wf s)
    (h : ipcIoctl K s filp cmd = .ok (r, s')) :
    Reaches Drv.tested ((Call.mk K (.ioctl filp cmd)).May s) s s' := by
  unfold ipcIoctl at h
  split at h
  next => cases h; exact .refl
  next t ht =>
    obtain ⟨task, htask⟩ := Table.mem_keys.mp (wf.files.live filp t ht)
    cases cmd with
    | registerServer reg =>
      rcases registerServer_ok h htask with ⟨rfl, _⟩ | ⟨can, _, hf, _, v, owner, _, ev, reg'⟩
      · exact .refl
      · exact .single ⟨ev, reg'.tested htask can⟩ ⟨filp, reg, rfl, rfl, hf, fun ok => reg'.owner ok (ok.kmalloc _ _)⟩
    | registerClient =>
      rcases registerClient_ok h htask with ⟨rfl, _⟩ | ⟨can, k, owner, _, ev, reg'⟩
      · exact .refl
      · exact .single ⟨ev, reg'.tested htask can⟩ ⟨filp, rfl, fun ok => reg'.owner ok (ok.kmalloc _ _)⟩
    | connectToServer con => exact connectToServer_reaches h
    | clientEndWriting arg =>
      rcases clientEndWriting_ok h with ⟨_, rfl⟩ | ⟨_, k, cli, p, t, d, _, _, _, ev, _, hwho⟩
      · exact .refl
      · exact .single ⟨ev, trivial⟩ fun hs => by rw [hwho] at hs; cases hs
    | serverEndWriting arg =>
      rcases serverEndWriting_ok h with ⟨_, rfl⟩ | ⟨_, e, x, t, d, hx, ev, _⟩
      · exact .refl
      · exact .single ⟨ev, trivial⟩ fun _ => ⟨e, x, hx, rfl⟩
    | clientDisconnect arg =>
      rcases clientDisconnect_ok wf h with ⟨_, rfl⟩ | ⟨k, cli, p, ds, _, _, _, ev⟩
      · exact .refl
      · exact .single ⟨ev, trivial⟩ trivial
    | serverDisconnect arg =>
      rcases serverDisconnect_ok wf h with rfl | ⟨p, ds, ev⟩
      · exact .refl
      · exact .single ⟨ev, trivial⟩ trivial
    | clientUnregister arg =>
      rcases clientUnregister_ok wf h with ⟨_, rfl, _⟩ | ⟨k, cli, p, ds, s₁, _, _, _, ev, done⟩
      · exact .refl
      · rcases done with ⟨_, rfl⟩ | ⟨e, x, ev', _⟩
        · exact .single ⟨ev, trivial⟩ trivial
        · exact (Reaches.single ⟨ev, trivial⟩ trivial).trans (.single ⟨ev', trivial⟩ trivial)
    | serverUnregister arg =>
      rcases serverUnregister_ok wf h with ⟨_, rfl⟩ | ⟨v, srv, s₁, _, _, clean, _, done⟩
      · exact .refl
      · have first : Reaches Drv.tested ((Call.mk K (.ioctl filp (.serverUnregister arg))).May s) s s₁ :=
          (clean.run.tested fun ev he => he.isCleanup.tested).mono fun ev he => he.isCleanup.may
        rcases done with ⟨_, rfl⟩ | ⟨e, x, ev', _⟩
        · exact first
        · exact first.trans (.single ⟨ev', trivial⟩ trivial)
    | registerMonitor =>
      obtain ⟨⟨ret, s₁⟩, hm, h⟩ := bind_eq_ok.mp h
      cases h
      rcases regTaskSetMonitor_ok hm with rfl | ev
      · exact .refl
      · exact .single ev trivial
    | unknown => cases h; exact .refl

/-- Whatever a call does, it is a run of events that the call may perform and that it has tested for. -/
theorem step_tested {s s' : Drv} {call : Call} {r : Reply} (wf : Wf s) (h : step s call = .ok (r, s')) :
    Reaches Drv.tested (call.May s) s s' := by
  obtain ⟨K, op⟩ := call
  cases op with
  | «open» =>
    rcases ipcOpen_ok h with rfl | ⟨filp, t, _, ev⟩
    · exact .refl
    · exact .single ev ⟨rfl, rfl⟩
  | ioctl filp cmd => exact ipcIoctl_ok wf h
  | mmap filp arg =>
    simp only [step] at h
    split at h
    next =>
      have run := (ipcMmap_ok (P := fun ev => (Call.mk K (.mmap filp arg)).May s ev ∧ ∀ a, ev.Tested a) h
        (fun _ _ _ hc => ⟨fun hs => (by rw [hc] at hs; cases hs), fun _ => trivial⟩)
        fun _ => ⟨trivial, fun _ => trivial⟩).1
      exact (run.tested fun _ h => h.2).mono fun _ h => h.1
    next => cases h; exact .refl
  | read filp count =>
    rcases ipcRead_ok h with rfl | ⟨t, ht, ev⟩
    · exact .refl
    · exact .single ⟨ev, trivial⟩ ⟨filp, count, rfl, ht⟩
  | release filp => exact ipcRelease_ok wf rfl h

/-- The calls refine the events: whatever a call does, it is a run of events that the call may
perform. -/
theorem step_ok {s s' : Drv} {call : Call} {r : Reply} (wf : Wf s) (h : step s call = .ok (r, s')) :
    Reaches Drv.event (call.May s) s s' := by
  obtain ⟨es, run, may⟩ := step_tested wf h
  exact ⟨es, run.mono fun _ _ _ _ h => h.1, may⟩

/-- A call that returns. -/
def Returns (s : Drv) (call : Call) (s' : Drv) : Prop := ∃ r, step s call = .ok (r, s')

/-- The states of all runs, under any kernel; a call that faults ends its run. -/
def Reachable (s : Drv) : Prop := ∃ calls, Trace Returns Drv.init calls s

theorem Wf.step {s s' : Drv} {call : Call} (wf : Wf s) (h : Returns s call s') : Wf s' := by
  obtain ⟨r, h⟩ := h
  exact (step_ok wf h).keeps (fun _ _ _ _ wf ev => wf.event ev) wf

theorem Reachable.wf {s : Drv} (h : Reachable s) : Wf s := by
  obtain ⟨calls, run⟩ := h
  exact run.invariant (fun _ _ _ wf hs => wf.step hs) .init

end Ripc
