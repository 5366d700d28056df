import Ripc.DriverSevered

namespace Ripc

@[simp] theorem returns_ne_error (ret : Int) (s : Drv) (e : Fault) : returns ret s ≠ .error e := by
  simp [returns]

/-- No connection has lost its server. -/
def NoneLost (s : Drv) : Prop := ∀ p c, s.gConnsList.get? p = some c → ¬ServerLost s c

section

variable {α β : Type}

theorem notFreed_bind {x : Except Fault α} {f : α → Except Fault β} (hx : x ≠ .error .useAfterFree)
    (hf : ∀ a, x = .ok a → f a ≠ .error .useAfterFree) : (x >>= f) ≠ .error .useAfterFree := by
  intro h
  rcases bind_eq_error.mp h with h | ⟨a, ha, h⟩
  · exact hx h
  · exact hf a ha h

theorem writeAt_notFreed {n : Nat} {xs : Fin n → α} {i : Nat} {a : α} :
    writeAt xs i a ≠ .error .useAfterFree := by
  unfold writeAt
  split <;> exact nofun

theorem readAt_notFreed {n : Nat} {xs : Fin n → α} {i : Nat} : readAt xs i ≠ .error .useAfterFree := by
  unfold readAt
  split <;> exact nofun

end

section

variable {K : Kernel} {s : Drv}

theorem clientGetData_notFreed {k : Ptr} (wf : Wf s) (kept : NoneLost s) (live : k ∈ s.gClientsList.keys) :
    clientGetData s k ≠ .error .useAfterFree := by
  obtain ⟨cli, hk⟩ := Table.mem_keys.mp live
  simp only [clientGetData, deref_of_get? hk, ok_bind]
  split
  next => exact nofun
  next p hp =>
    obtain ⟨c, hc, _⟩ := wf.links.clientConn k cli p hk hp
    simp only [deref_of_get? hc, ok_bind]
    split
    next => exact nofun
    next v hv =>
      cases hsrv : s.gServersList.get? v with
      | none => exact absurd ⟨v, hv, hsrv⟩ (kept p c hc)
      | some srv =>
        simp only [deref_of_get? hsrv]
        exact nofun

theorem connIdsLoop_notFreed {es : List (Ptr × ServConnList)} {n : Nat} {ids : Fin maxClientsPerServer → Int}
    (wf : Wf s) (live : ∀ y ∈ es, s.servConns.get? y.1 = some y.2) :
    connIdsLoop s es n ids ≠ .error .useAfterFree := by
  induction es generalizing n ids with
  | nil => exact nofun
  | cons y rest ih =>
    obtain ⟨c, hc, _⟩ := wf.links.entryConn y.1 y.2 (live y List.mem_cons_self)
    simp only [connIdsLoop, deref_of_get? hc, ok_bind]
    split
    next => exact nofun
    next k hk =>
      obtain ⟨cli, hcli, _⟩ := wf.links.connClient _ c k hc hk
      split
      next => exact nofun
      next =>
        simp only [deref_of_get? hcli, ok_bind]
        exact notFreed_bind writeAt_notFreed fun _ _ => ih fun z hz => live z (List.mem_cons_of_mem y hz)

theorem serverGetData_notFreed {v : Ptr} {dest : StServer} (wf : Wf s) (live : v ∈ s.gServersList.keys) :
    serverGetData s v dest ≠ .error .useAfterFree := by
  obtain ⟨srv, hv⟩ := Table.mem_keys.mp live
  simp only [serverGetData, deref_of_get? hv, ok_bind]
  refine notFreed_bind (connIdsLoop_notFreed wf fun y hy => ?_) fun _ _ => nofun
  exact Table.get?_eq_some.mpr (List.mem_filter.mp hy).1

theorem serversDataLoop_notFreed {es : List (Ptr × ServersList)} {n : Nat} {dest : Fin maxServersPerPid → StServer}
    (wf : Wf s) (live : ∀ y ∈ es, y.2.server ∈ s.gServersList.keys) :
    serversDataLoop s es n dest ≠ .error .useAfterFree := by
  induction es generalizing n dest with
  | nil => exact nofun
  | cons y rest ih =>
    refine notFreed_bind readAt_notFreed fun _ _ => ?_
    refine notFreed_bind (serverGetData_notFreed wf (live y List.mem_cons_self)) fun _ _ => ?_
    exact notFreed_bind writeAt_notFreed fun _ _ => ih fun z hz => live z (List.mem_cons_of_mem y hz)

theorem clientsDataLoop_notFreed {es : List (Ptr × ClientsList)} {n : Nat} {dest : Fin maxClientsPerPid → StClient}
    (wf : Wf s) (kept : NoneLost s) (live : ∀ y ∈ es, y.2.client ∈ s.gClientsList.keys) :
    clientsDataLoop s es n dest ≠ .error .useAfterFree := by
  induction es generalizing n dest with
  | nil => exact nofun
  | cons y rest ih =>
    refine notFreed_bind (clientGetData_notFreed wf kept (live y List.mem_cons_self)) fun _ _ => ?_
    exact notFreed_bind writeAt_notFreed fun _ _ => ih fun z hz => live z (List.mem_cons_of_mem y hz)

theorem taskGetData_notFreed {y : Ptr × RegTask} {dest : StTask} (wf : Wf s) (kept : NoneLost s) :
    taskGetData s y dest ≠ .error .useAfterFree := by
  refine notFreed_bind (serversDataLoop_notFreed wf fun z hz => ?_) fun _ _ => ?_
  · obtain ⟨srv, hv, _⟩ := wf.servers.object z.1 z.2 _ (Table.get?_eq_some.mpr (List.mem_filter.mp hz).1) rfl
    exact Table.mem_keys.mpr ⟨srv, hv⟩
  · refine notFreed_bind (clientsDataLoop_notFreed wf kept fun z hz => ?_) fun _ _ => nofun
    obtain ⟨cli, hk, _⟩ := wf.clients.object z.1 z.2 _ (Table.get?_eq_some.mpr (List.mem_filter.mp hz).1) rfl
    exact Table.mem_keys.mpr ⟨cli, hk⟩

theorem tasksDataLoop_notFreed {es : List (Ptr × RegTask)} {n : Nat} {dest : Fin maxProcesses → StTask}
    (wf : Wf s) (kept : NoneLost s) : tasksDataLoop s es n dest ≠ .error .useAfterFree := by
  induction es generalizing n dest with
  | nil => exact nofun
  | cons y rest ih =>
    unfold tasksDataLoop
    split
    next => exact nofun
    next =>
      refine notFreed_bind readAt_notFreed fun _ _ => ?_
      refine notFreed_bind (taskGetData_notFreed wf kept) fun _ _ => ?_
      exact notFreed_bind writeAt_notFreed fun _ _ => ih

theorem ipcRead_notFreed {filp : Ptr} {count : Nat} (wf : Wf s) (kept : NoneLost s) :
    ipcRead K s filp count ≠ .error .useAfterFree := by
  unfold ipcRead
  split
  next => exact nofun
  next t ht =>
    obtain ⟨task, htask⟩ := Table.mem_keys.mp (wf.files.live filp t ht)
    simp only [deref_of_get? htask, ok_bind]
    split
    next =>
      split
      next => exact nofun
      next =>
        split
        next => exact nofun
        next =>
          refine notFreed_bind (notFreed_bind (tasksDataLoop_notFreed wf kept) fun _ _ => nofun) fun _ _ => ?_
          split <;> exact nofun
    next =>
      split
      next => exact nofun
      next =>
        split
        next => exact nofun
        next => split <;> exact nofun

theorem mmapFound_error {p : Ptr} {c : Connection} {e : Fault} (hc : s.gConnsList.get? p = some c)
    (mem : ∀ m, c.memP = some m → ∃ sub, s.subMem? m = some sub) : mmapFound K s p ≠ .error e := by
  simp only [mmapFound, deref_of_get? hc, ok_bind]
  split
  next => simp
  next m hm =>
    obtain ⟨sub, hsub⟩ := mem m hm
    simp only [derefSubMem, hsub, ok_bind]
    simp

theorem mmapClient_notFreed {k : Ptr} (wf : Wf s) (kept : NoneLost s) (live : k ∈ s.gClientsList.keys) :
    mmapClient K s k ≠ .error .useAfterFree := by
  obtain ⟨cli, hk⟩ := Table.mem_keys.mp live
  simp only [mmapClient, deref_of_get? hk, ok_bind]
  split
  next => exact nofun
  next p hp =>
    obtain ⟨c, hc, _⟩ := wf.links.clientConn k cli p hk hp
    simp only [deref_of_get? hc, ok_bind]
    split
    next => exact nofun
    next m hm =>
      obtain ⟨sub, hsub⟩ := (wf.ends hc).mem m hm
      simp only [derefSubMem, hsub, ok_bind]
      split
      next => exact mmapFound_error hc (wf.ends hc).mem
      next =>
        refine notFreed_bind (fun h => ?_) fun _ _ => notFreed_bind (fun h => ?_) fun r hr => ?_
        · rcases deref_eq_error.mp h with ⟨_, he⟩ | ⟨v, hv, hlost, _⟩
          · cases he
          · exact kept p c hc ⟨v, hv, hlost⟩
        · rcases notificationSend_error h hc (wf.ends hc) with ⟨he, _⟩ | ⟨_, lost⟩
          · cases he
          · exact kept p c hc lost
        · have frame : r.2.gConnsList = s.gConnsList ∧ r.2.gShmList = s.gShmList := by
            rcases notificationSend_ok hr with ⟨_, h⟩ | ⟨_, t, d, h, _⟩ <;> rw [h] <;> exact ⟨rfl, rfl⟩
          refine mmapFound_error (c := { c with servMmaped := true }) ?_ ?_
          · rw [Table.get?_modify, if_pos rfl, frame.1, hc, Option.map_some]
          · simp only [Drv.subMem?, frame.2]
            exact (wf.ends hc).mem

theorem ipcMmap_notFreed {arg : U32} (wf : Wf s) (kept : NoneLost s) :
    ipcMmap K s arg ≠ .error .useAfterFree := by
  unfold ipcMmap
  split
  next k hk =>
    obtain ⟨cli, hcli, _⟩ := findClientById_some hk
    exact mmapClient_notFreed wf kept (Table.mem_keys.mpr ⟨cli, hcli⟩)
  next =>
    split
    next v hv =>
      unfold mmapServer
      split
      next => exact nofun
      next =>
        split
        next => exact nofun
        next =>
          refine notFreed_bind (serverFindConnBySubMemId_error wf) fun found hf => ?_
          cases found with
          | none => exact nofun
          | some f =>
            obtain ⟨x, hx, _⟩ := serverFindConnBySubMemId_some hf
            obtain ⟨c, hc, _⟩ := wf.links.entryConn f x hx
            simp only [deref_of_get? hx, ok_bind]
            exact mmapFound_error hc (wf.ends hc).mem
    next => exact nofun

theorem regTaskDelete_notFreed {t : Ptr} {task : RegTask} (wf : Wf s) (kept : NoneLost s)
    (ht : s.gRegTaskList.get? t = some task) : regTaskDelete K s t ≠ .error .useAfterFree := by
  intro h
  obtain ⟨p, c, hc, _, ⟨he, _⟩ | ⟨_, lost⟩⟩ := regTaskDelete_error wf ht h
  · cases he
  · exact kept p c hc lost

/-- No call touches freed memory as long as no connection has lost its server. -/
theorem step_notFreed {call : Call} (wf : Wf s) (kept : NoneLost s) : step s call ≠ .error .useAfterFree := by
  obtain ⟨K, op⟩ := call
  cases op with
  | «open» =>
    simp only [step, ipcOpen]
    split
    next => simp
    next =>
      split
      next => simp
      next => split <;> simp
  | ioctl filp cmd =>
    intro h
    cases ht : s.files.get? filp with
    | none =>
      simp only [step, ipcIoctl, ht] at h
      cases h
    | some t =>
      obtain ⟨task, htask⟩ := Table.mem_keys.mp (wf.files.live filp t ht)
      rcases ipcIoctl_error wf ht htask h with ⟨_, p, c, hc, lost⟩ | ⟨hne, _⟩
      · exact kept p c hc lost
      · exact hne rfl
  | mmap filp arg =>
    simp only [step]
    split
    next => exact ipcMmap_notFreed wf kept
    next => simp
  | read filp count => exact ipcRead_notFreed wf kept
  | release filp =>
    simp only [step, ipcRelease]
    split
    next => simp
    next t ht =>
      obtain ⟨task, htask⟩ := Table.mem_keys.mp (wf.files.live filp t ht)
      exact notFreed_bind (regTaskDelete_notFreed wf kept htask) fun _ _ => by simp

end

end Ripc
