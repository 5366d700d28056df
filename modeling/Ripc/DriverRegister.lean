import Ripc.DriverGrowth

namespace Ripc

/-- The name that `server_create` keeps of a registration. -/
def ServerRegistration.stored (reg : ServerRegistration) : CString maxServerName :=
  strscpy maxServerName (Nat.zero_lt_succ 63) (reg.name.toList ++ reg.serverId.toList)

/-- A name that ends within the readable bytes and is not empty. -/
def Named (readable : List UInt8) : Prop := (0 : UInt8) ∈ readable ∧ strlen readable ≠ some 0

section

variable {K : Kernel} {s s' : Drv} {t : Ptr} {task : RegTask} {r : Reply}

theorem serverCreate_some {readable : List UInt8} {v : Ptr}
    (h : serverCreate K s readable = .ok (some v, s')) :
    Named readable ∧ K.kmalloc .server s = some v ∧
      s' = s.addServer v (strscpy maxServerName (by decide) readable) (K.idaAllocRange .server s.gIdGen) := by
  unfold serverCreate at h
  split at h
  next => cases h
  next => cases h
  next n hn =>
    have named : Named readable := by
      refine ⟨Decidable.not_not.mp fun hz => ?_, by rw [hn]; simp⟩
      rw [strlen_eq_none.mpr hz] at hn
      cases hn
    split at h
    next => cases h
    next hk => cases h; exact ⟨named, hk, rfl⟩

theorem clientCreate_some {k : Ptr} (h : clientCreate K s = (some k, s')) :
    K.kmalloc .client s = some k ∧ s' = s.addClient k (K.idaAllocRange .client s.gIdGen) := by
  unfold clientCreate at h
  split at h
  next => cases h
  next hk => cases h; exact ⟨hk, rfl⟩

theorem regTaskAddServer_ok {v : Ptr} {srv : Server} (h : regTaskAddServer K s t v = .ok s')
    (ht : s.gRegTaskList.get? t = some task) (can : task.canAddServer = true)
    (hv : s.gServersList.get? v = some srv) (alone : srv.taskP = none) :
    (K.kmalloc .serversEntry s = none ∧ s' = s) ∨
      ∃ e, K.kmalloc .serversEntry s = some e ∧ s' = s.attachServer v e t := by
  obtain ⟨task', ht', h⟩ := bind_eq_ok.mp h
  cases (deref_some ht').symm.trans ht
  simp only [can, Bool.not_true, Bool.false_eq_true, if_false] at h
  split at h
  next hk => cases h; exact Or.inl ⟨hk, rfl⟩
  next e he =>
    obtain ⟨s₁, ha, h⟩ := bind_eq_ok.mp h
    obtain ⟨srv', hv', ha⟩ := bind_eq_ok.mp ha
    cases (deref_some hv').symm.trans hv
    rw [alone] at ha
    cases ha
    cases h
    exact Or.inr ⟨e, he, rfl⟩

theorem regTaskAddClient_ok {k : Ptr} {cli : Client} (h : regTaskAddClient K s t k = .ok s')
    (ht : s.gRegTaskList.get? t = some task) (can : task.canAddClient = true)
    (hk : s.gClientsList.get? k = some cli) (alone : cli.taskP = none) :
    (K.kmalloc .clientsEntry s = none ∧ s' = s) ∨
      ∃ e, K.kmalloc .clientsEntry s = some e ∧ s' = s.attachClient k e t := by
  obtain ⟨task', ht', h⟩ := bind_eq_ok.mp h
  cases (deref_some ht').symm.trans ht
  simp only [can, Bool.not_true, Bool.false_eq_true, if_false] at h
  split at h
  next hn => cases h; exact Or.inl ⟨hn, rfl⟩
  next e he =>
    obtain ⟨s₁, ha, h⟩ := bind_eq_ok.mp h
    obtain ⟨cli', hk', ha⟩ := bind_eq_ok.mp ha
    cases (deref_some hk').symm.trans hk
    rw [alone] at ha
    cases ha
    cases h
    exact Or.inr ⟨e, he, rfl⟩

/-- The checks that come before a registration changes anything. -/
inductive RegisterServerRefused (K : Kernel) (s : Drv) (task : RegTask) (reg : ServerRegistration) : Int → Prop
  | full (h : task.canAddServer = false) : RegisterServerRefused K s task reg (-ENOSPC)
  | copy (h : task.canAddServer = true) (hc : K.copyFromUser = false) :
      RegisterServerRefused K s task reg (-EFAULT)
  | exists {w : Ptr} (h : task.canAddServer = true) (hc : K.copyFromUser = true)
      (hf : findServerByName s reg.name.toList = .ok (some w)) :
      RegisterServerRefused K s task reg (-EEXIST)

/-- How a registration that has created its object ends; `noEntry` says that there is no memory
for the entry that would tie the object to its task. -/
inductive Registered (K : Kernel) (t : Ptr) (id : Int) (noEntry : Prop) : Reply → Option (Ptr × Ptr) → Prop
  | copy (h : K.copyToUser = false) : Registered K t id noEntry ⟨-EFAULT, .nothing⟩ none
  | entry (h : K.copyToUser = true) (hn : noEntry) : Registered K t id noEntry ⟨-ENOENT, .id id⟩ none
  | done {e : Ptr} (h : K.copyToUser = true) (hn : ¬noEntry) : Registered K t id noEntry ⟨0, .id id⟩ (some (e, t))

/-- A registration of a server is refused, or creates one under a name that was not found. -/
theorem registerServer_ok {reg : ServerRegistration} (h : registerServer K s t reg = .ok (r, s'))
    (ht : s.gRegTaskList.get? t = some task) :
    (s' = s ∧ RegisterServerRefused K s task reg r.ret) ∨
      (task.canAddServer = true ∧ K.copyFromUser = true ∧
        findServerByName s reg.name.toList = .ok none ∧ Named (reg.name.toList ++ reg.serverId.toList) ∧
        ∃ v owner, K.kmalloc .server s = some v ∧
        s.event (.addServer v reg.stored (K.idaAllocRange .server s.gIdGen) owner) s' ∧
        Registered K t (K.idaAllocRange .server s.gIdGen) (K.kmalloc .serversEntry
          (s.addServer v reg.stored (K.idaAllocRange .server s.gIdGen)) = none) r owner) := by
  obtain ⟨task', ht', h⟩ := bind_eq_ok.mp h
  cases (deref_some ht').symm.trans ht
  split at h
  next full => cases h; exact Or.inl ⟨rfl, .full (by simpa using full)⟩
  next can =>
    have can : task.canAddServer = true := by simpa using can
    split at h
    next copy => cases h; exact Or.inl ⟨rfl, .copy can (by simpa using copy)⟩
    next copy =>
      have copy : K.copyFromUser = true := by simpa using copy
      obtain ⟨found, hf, h⟩ := bind_eq_ok.mp h
      cases found with
      | some w => cases h; exact Or.inl ⟨rfl, .exists can copy hf⟩
      | none =>
        obtain ⟨⟨server, s₁⟩, hc, h⟩ := bind_eq_ok.mp h
        obtain ⟨srv, hs, h⟩ := bind_eq_ok.mp h
        obtain ⟨v, rfl, hv⟩ := deref_eq_ok.mp hs
        obtain ⟨named, hk, hcreated⟩ := serverCreate_some hc
        refine Or.inr ⟨can, copy, hf, named, ?_⟩
        change s₁ = s.addServer v reg.stored (K.idaAllocRange .server s.gIdGen) at hcreated
        subst hcreated
        have fresh := K.kmalloc_fresh .server s v hk
        have new : (s.addServer v reg.stored (K.idaAllocRange .server s.gIdGen)).gServersList.get? v =
            some ⟨reg.stored, K.idaAllocRange .server s.gIdGen, none⟩ := by
          rw [Drv.addServer, Table.get?_pushBack fresh, if_pos rfl]
        cases new.symm.trans hv
        have ids := generateId_fresh K .server s
        refine ⟨v, ?_⟩
        split at h
        next copied =>
          cases h
          exact ⟨none, hk, ⟨⟨fresh, ids, (by simp)⟩, rfl⟩, .copy (by simpa using copied)⟩
        next copied =>
          have copied : K.copyToUser = true := by simpa using copied
          obtain ⟨s₂, ha, h⟩ := bind_eq_ok.mp h
          obtain ⟨after, hafter, h⟩ := bind_eq_ok.mp h
          have hafter := deref_some hafter
          rcases regTaskAddServer_ok ha ht can new rfl with ⟨hnomem, rfl⟩ | ⟨e, he, rfl⟩
          · cases new.symm.trans hafter
            cases h
            exact ⟨none, hk, ⟨⟨fresh, ids, (by simp)⟩, rfl⟩, .entry copied hnomem⟩
          · rw [Drv.attachServer, Table.get?_modify, if_pos rfl, new] at hafter
            cases hafter
            cases h
            have freshEntry := K.kmalloc_fresh .serversEntry _ e he
            have live : t ∈ s.gRegTaskList.keys := Table.mem_keys.mpr ⟨task, ht⟩
            refine ⟨some (e, t), hk, ⟨⟨fresh, ids, ?_⟩, rfl⟩, .done copied (by rw [he]; simp)⟩
            intro o ho
            cases ho
            exact ⟨freshEntry, live⟩

theorem registerClient_ok (h : registerClient K s t = .ok (r, s'))
    (ht : s.gRegTaskList.get? t = some task) :
    (s' = s ∧ task.canAddClient = false ∧ r.ret = -ENOSPC) ∨
      (task.canAddClient = true ∧ ∃ k owner, K.kmalloc .client s = some k ∧
        s.event (.addClient k (K.idaAllocRange .client s.gIdGen) owner) s' ∧
        Registered K t (K.idaAllocRange .client s.gIdGen) (K.kmalloc .clientsEntry
          (s.addClient k (K.idaAllocRange .client s.gIdGen)) = none) r owner) := by
  obtain ⟨task', ht', h⟩ := bind_eq_ok.mp h
  cases (deref_some ht').symm.trans ht
  split at h
  next full => cases h; exact Or.inl ⟨rfl, by simpa using full, rfl⟩
  next can =>
    have can : task.canAddClient = true := by simpa using can
    refine Or.inr ⟨can, ?_⟩
    cases hc : clientCreate K s with
    | mk client s₁ =>
      simp only [hc] at h
      obtain ⟨cli, hread, h⟩ := bind_eq_ok.mp h
      obtain ⟨k, rfl, hk⟩ := deref_eq_ok.mp hread
      obtain ⟨hn, rfl⟩ := clientCreate_some hc
      have fresh := K.kmalloc_fresh .client s k hn
      have new : (s.addClient k (K.idaAllocRange .client s.gIdGen)).gClientsList.get? k =
          some ⟨K.idaAllocRange .client s.gIdGen, none, none⟩ := by
        rw [Drv.addClient, Table.get?_pushBack fresh, if_pos rfl]
      cases new.symm.trans hk
      have ids := generateId_fresh K .client s
      refine ⟨k, ?_⟩
      split at h
      next copied =>
        cases h
        exact ⟨none, hn, ⟨⟨fresh, ids, (by simp)⟩, rfl⟩, .copy (by simpa using copied)⟩
      next copied =>
        have copied : K.copyToUser = true := by simpa using copied
        obtain ⟨s₂, ha, h⟩ := bind_eq_ok.mp h
        obtain ⟨after, hafter, h⟩ := bind_eq_ok.mp h
        have hafter := deref_some hafter
        rcases regTaskAddClient_ok ha ht can new rfl with ⟨hnomem, rfl⟩ | ⟨e, he, rfl⟩
        · cases new.symm.trans hafter
          cases h
          exact ⟨none, hn, ⟨⟨fresh, ids, (by simp)⟩, rfl⟩, .entry copied hnomem⟩
        · rw [Drv.attachClient, Table.get?_modify, if_pos rfl, new] at hafter
          cases hafter
          cases h
          have freshEntry := K.kmalloc_fresh .clientsEntry _ e he
          have live : t ∈ s.gRegTaskList.keys := Table.mem_keys.mpr ⟨task, ht⟩
          refine ⟨some (e, t), hn, ⟨⟨fresh, ids, ?_⟩, rfl⟩, .done copied (by rw [he]; simp)⟩
          intro o ho
          cases ho
          exact ⟨freshEntry, live⟩

end

end Ripc
