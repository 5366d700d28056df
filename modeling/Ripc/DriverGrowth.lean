import Ripc.DriverTeardown

namespace Ripc

/-- Every allocation and every copy of a call works. -/
structure Kernel.Succeeds (K : Kernel) : Prop where
  copyFromUser : K.copyFromUser = true
  copyToUser : K.copyToUser = true
  kmalloc : ∀ site s, K.kmalloc site s ≠ none
  allocPages : ∀ order s, K.allocPages order s ≠ none

theorem takeIds_snoc (s : Drv) (ids : List Int) (id : Int) :
    s.takeIds (ids ++ [id]) = (s.takeIds ids).takeId id :=
  List.foldl_append

theorem generateId_fresh (K : Kernel) (site : IdSite) (s : Drv) :
    FreshIds s.gIdGen [(generateId K site s).1] :=
  ⟨fun h => K.idaAllocRange_ok site s.gIdGen h, trivial⟩

theorem FreshIds.snoc {s : Drv} {ids : List Int} {id : Int} (h : FreshIds s.gIdGen ids)
    (last : FreshIds (s.takeIds ids).gIdGen [id]) : FreshIds s.gIdGen (ids ++ [id]) := by
  induction ids generalizing s with
  | nil => exact last
  | cons first ids ih => exact ⟨h.1, ih (s := s.takeId first) h.2 last⟩

/-- The sites of `shm_create` that ask for an id, in their order. -/
def poolSites : List IdSite := (List.range shmPoolSize).map IdSite.subMem ++ [.shm]

/-- What the generator answers to a row of requests. -/
def Kernel.answers (K : Kernel) : List IdSite → List Int → List Int
  | [], _ => []
  | site :: sites, used =>
    let id := K.idaAllocRange site used
    id :: K.answers sites (if id < 0 then used else id :: used)

theorem answers_snoc (K : Kernel) (sites : List IdSite) (site : IdSite) (s : Drv) :
    K.answers (sites ++ [site]) s.gIdGen = K.answers sites s.gIdGen ++
      [K.idaAllocRange site (s.takeIds (K.answers sites s.gIdGen)).gIdGen] := by
  induction sites generalizing s with
  | nil => rfl
  | cons first sites ih =>
    have rest := ih (s.takeId (K.idaAllocRange first s.gIdGen))
    simp only [Drv.takeId] at rest
    simp only [List.cons_append, Kernel.answers, rest]
    rfl

theorem submemInitLoop_ok (K : Kernel) (pages n : Nat) (s : Drv) {f : Nat → SubMem} {s' : Drv}
    (h : submemInitLoop K pages n s = (f, s')) :
    s' = s.takeIds ((List.range n).map fun i => (f i).id) ∧
      FreshIds s.gIdGen ((List.range n).map fun i => (f i).id) ∧
      ((List.range n).map fun i => (f i).id) = K.answers ((List.range n).map IdSite.subMem) s.gIdGen ∧
      ∀ i < n, (f i).pages = pages + i * shmRegionPageNumber ∧ (f i).size = shmRegionPageSize ∧
        (f i).connP = none := by
  induction n generalizing f s' with
  | zero =>
    cases h
    exact ⟨rfl, trivial, rfl, fun i hi => absurd hi (Nat.not_lt_zero i)⟩
  | succ n ih =>
    cases hd : submemInitLoop K pages n s with
    | mk g s₁ =>
      obtain ⟨rfl, fresh, answered, slots⟩ := ih hd
      simp only [submemInitLoop, hd, submemInit, Prod.mk.injEq] at h
      obtain ⟨rfl, rfl⟩ := h
      have below : (List.range n).map (fun i => (if i = n then (⟨(generateId K (.subMem n)
            (s.takeIds ((List.range n).map fun i => (g i).id))).1, pages + n * shmRegionPageNumber,
            shmRegionPageSize, none⟩ : SubMem) else g i).id) = (List.range n).map fun i => (g i).id := by
        refine List.map_congr_left fun i hi => ?_
        rw [if_neg (Nat.ne_of_lt (List.mem_range.mp hi))]
      simp only [List.range_succ, List.map_append, List.map_cons, List.map_nil, below, if_true]
      refine ⟨(takeIds_snoc _ _ _).symm, fresh.snoc (generateId_fresh K _ _), ?_, fun i hi => ?_⟩
      · rw [answers_snoc, ← answered]
        rfl
      split
      next he => exact he ▸ ⟨rfl, rfl, rfl⟩
      next hne => exact slots i (by omega)

theorem ofFn_eq_range {α : Type} (f : Nat → α) (n : Nat) :
    (List.ofFn fun i : Fin n => f i) = (List.range n).map f := by
  apply List.ext_getElem <;> simp

/-- A pool is new, with the ids that the generator answered. -/
def Drv.GainsPool (K : Kernel) (s : Drv) (p : Ptr) (s' : Drv) : Prop :=
  ∃ shm, s.event (.addPool p shm) s' ∧ K.kmalloc .shm s = some p ∧ shm.ids = K.answers poolSites s.gIdGen

theorem shmCreate_new {K : Kernel} {s s' : Drv} {o : Option Ptr} (h : shmCreate K s = .ok (o, s')) :
    (o = none ∧ s' = s ∧ K.kmalloc .shm s = none) ∨
      ∃ p shm, o = some p ∧ K.kmalloc .shm s = some p ∧ s' = s.addPool p shm ∧ FreshIds s.gIdGen shm.ids ∧
        PoolOf shm.pages shm ∧ K.allocPages shmRegionOrder s = some shm.pages ∧
        shm.ids = K.answers poolSites s.gIdGen := by
  unfold shmCreate at h
  split at h
  next hk => cases h; exact Or.inl ⟨rfl, rfl, hk⟩
  next p hp =>
    split at h
    next => cases h
    next pages hpages =>
      cases hl : submemInitLoop K pages shmPoolSize s with
      | mk f s₁ =>
        obtain ⟨rfl, fresh, answered, slots⟩ := submemInitLoop_ok K pages shmPoolSize s hl
        have ids := fresh.snoc (generateId_fresh K .shm _)
        have all := answers_snoc K ((List.range shmPoolSize).map IdSite.subMem) .shm s
        rw [← answered] at all
        simp only [hl] at h
        cases h
        have slotIds := ofFn_eq_range (fun i => (f i).id) shmPoolSize
        have new : ∀ id, Shm.ids ⟨id, shmPoolPageNumber, pages, shmPoolByteSize, fun i => f i⟩ =
            ((List.range shmPoolSize).map fun i => (f i).id) ++ [id] := fun id => congrArg (· ++ [id]) slotIds
        refine Or.inr ⟨p, ⟨_, shmPoolPageNumber, pages, shmPoolByteSize, fun i => f i⟩, rfl, hp, ?_, new _ ▸ ids,
          ⟨rfl, fun i => slots i i.isLt⟩, hpages, (new _).trans all.symm⟩
        have pools : (s.takeIds ((List.range shmPoolSize).map fun i => (f i).id)).gShmList = s.gShmList := by
          rw [takeIds_frame]
        rw [Drv.addPool, new, takeIds_snoc, ← pools]
        rfl

theorem shmCreate_ok {K : Kernel} {s s' : Drv} {o : Option Ptr} (h : shmCreate K s = .ok (o, s'))
    (full : findFreeSubmem s = none) : (o = none ∧ s' = s ∧ K.kmalloc .shm s = none) ∨
      ∃ p, o = some p ∧ s.GainsPool K p s' := by
  refine (shmCreate_new h).imp_right ?_
  rintro ⟨p, shm, ho, hp, rfl, ids, pool, hpages, answered⟩
  have ok : (Event.addPool p shm).Ok s := ⟨K.kmalloc_fresh .shm s p hp, full, ids, pool,
    fun block hb => K.allocPages_disjoint _ s shm.pages hpages block hb⟩
  exact ⟨p, ho, shm, ⟨ok, rfl⟩, hp, answered⟩

def Shm.first (p : Ptr) : SubMemPtr := ⟨p, ⟨0, by decide⟩⟩

theorem shmGetFreeSubmem_new {shm : Shm} {pages : Nat} (h : PoolOf pages shm) :
    shmGetFreeSubmem shm = some ⟨0, by decide⟩ := by
  have free : (shm.subMems ⟨0, by decide⟩).connP.isNone = true := by rw [(h.2 _).2.2]; rfl
  exact List.find?_cons_of_pos free

theorem getFreeSubmem_ok {K : Kernel} {s s' : Drv} {o : Option SubMemPtr}
    (h : getFreeSubmem K s = .ok (o, s')) :
    (s' = s ∧ o = findFreeSubmem s ∧ (o = none → K.kmalloc .shm s = none)) ∨
      ∃ p, s.GainsPool K p s' ∧ o = findFreeSubmem s' ∧ o = some (Shm.first p) := by
  unfold getFreeSubmem at h
  split at h
  next m hm => cases h; exact Or.inl ⟨rfl, hm.symm, fun he => nomatch he⟩
  next hm =>
    obtain ⟨⟨o₁, s₁⟩, hs, hr⟩ := bind_eq_ok.mp h
    rcases shmCreate_ok hs hm with ⟨rfl, rfl, hk⟩ | ⟨p, rfl, shm, ev, gains⟩
    · cases hr
      exact Or.inl ⟨rfl, hm.symm, fun _ => hk⟩
    · obtain ⟨pool, hp, hr⟩ := bind_eq_ok.mp hr
      obtain ⟨⟨fresh, full, ids, pages, disjoint⟩, rfl⟩ := ev
      have pools : (s.apply (.addPool p shm)).gShmList.entries = (p, shm) :: s.gShmList.entries := by
        show (s.gShmList.pushFront p shm).entries = _
        simp [Table.pushFront, fresh]
      have found : findFreeSubmem (s.apply (.addPool p shm)) = some (Shm.first p) := by
        simp only [findFreeSubmem, pools, List.findSome?_cons, shmGetFreeSubmem_new pages, Option.map_some]
        rfl
      have hpool : pool = shm := by
        have hp := deref_some hp
        rw [show (s.apply (.addPool p shm)).gShmList = s.gShmList.pushFront p shm from rfl,
          Table.get?_pushFront fresh, if_pos rfl] at hp
        exact (Option.some.inj hp).symm
      rw [hpool, shmGetFreeSubmem_new pages] at hr
      cases hr
      exact Or.inr ⟨p, ⟨shm, ⟨⟨fresh, full, ids, pages, disjoint⟩, rfl⟩, gains⟩, found.symm, rfl⟩

theorem getFreeSubmem_frame {K : Kernel} {s s' : Drv} {o : Option SubMemPtr} (h : getFreeSubmem K s = .ok (o, s')) :
    s' = { s with gShmList := s'.gShmList, gIdGen := s'.gIdGen } := by
  rcases getFreeSubmem_ok h with ⟨rfl, _⟩ | ⟨p, ⟨shm, ⟨_, rfl⟩, _⟩, _⟩
  · rfl
  · rw [Drv.apply, Drv.addPool, takeIds_frame]

theorem connectClientToServer_refused {K : Kernel} {s s₁ : Drv} {v k : Ptr} {o : Option SubMemPtr}
    (hf : getFreeSubmem K s = .ok (o, s₁)) (short : o = none ∨ K.kmalloc .conn s₁ = none) :
    connectClientToServer K s v k = .ok (-ENOMEM, s₁) := by
  simp only [connectClientToServer, hf, ok_bind]
  cases o with
  | none => rfl
  | some m =>
    have hp : K.kmalloc .conn s₁ = none := short.resolve_left (by simp)
    simp only [createConnection, hp]

/-- With both of them the client is linked to a live server, whether or not there is memory for an entry of
the server's list. -/
theorem connectClientToServer_linked {K : Kernel} {s s₁ : Drv} {v k p : Ptr} {m : SubMemPtr} {cli : Client}
    (hf : getFreeSubmem K s = .ok (some m, s₁)) (hp : K.kmalloc .conn s₁ = some p)
    (hk : s.gClientsList.get? k = some cli) (hnone : cli.connP = none) :
    connectClientToServer K s v k = deref s.gServersList (some v) >>= fun _ =>
      .ok (0, s₁.link p k v m (K.kmalloc .servConn (s₁.link p k v m none))) := by
  have frame := getFreeSubmem_frame hf
  have hk₁ : s₁.gClientsList.get? k = some cli := by rw [frame]; exact hk
  have servers : (s₁.link p k v m none).gServersList = s.gServersList := by rw [frame]; rfl
  have client : clientAddConnection (createConnection K s₁ k v (some m)).2 k p = .ok
      { s₁ with
        gConnsList := s₁.gConnsList.pushBack p ⟨some k, some v, some m, false⟩
        gClientsList := s₁.gClientsList.modify k fun c => { c with connP := some p } } := by
    simp only [createConnection, hp, clientAddConnection, deref_of_get? hk₁, ok_bind, hnone]
    rfl
  have server : serverAddConnection K (s₁.link p k v m none) v p =
      deref (s₁.link p k v m none).gServersList (some v) >>= fun _ =>
        .ok (s₁.link p k v m (K.kmalloc .servConn (s₁.link p k v m none))) := by
    unfold serverAddConnection
    cases K.kmalloc .servConn (s₁.link p k v m none) <;> rfl
  have linked : connectClientToServer K s v k =
      serverAddConnection K (s₁.link p k v m none) v p >>= fun s => .ok (0, s) := by
    simp only [connectClientToServer, hf, ok_bind]
    simp only [createConnection, hp] at client ⊢
    rw [client, ok_bind]
    rfl
  rw [linked, server, servers]
  cases deref s.gServersList (some v) <;> rfl

/-- A connection is made between an unconnected client and a live server, or none is made and at
most a pool is new. -/
theorem connectClientToServer_ok {K : Kernel} {s s' : Drv} {v k : Ptr} {ret : Int} {cli : Client}
    (h : connectClientToServer K s v k = .ok (ret, s')) (hk : s.gClientsList.get? k = some cli)
    (hnone : cli.connP = none) :
    ∃ s₁, (s₁ = s ∨ ∃ p, s.GainsPool K p s₁) ∧ ((ret < 0 ∧ s' = s₁) ∨
      (ret = 0 ∧ ∃ p m e, K.kmalloc .conn s₁ = some p ∧ s₁.event (.link p k v m e) s' ∧
        (K.Succeeds → e ≠ none))) := by
  obtain ⟨⟨o, s₁⟩, hf, _⟩ := bind_eq_ok.mp h
  have pool : s₁ = s ∨ ∃ p, s.GainsPool K p s₁ := by
    rcases getFreeSubmem_ok hf with ⟨rfl, _⟩ | ⟨p, gains, _⟩
    · exact Or.inl rfl
    · exact Or.inr ⟨p, gains⟩
  have free : o = findFreeSubmem s₁ := by
    rcases getFreeSubmem_ok hf with ⟨rfl, ho, _⟩ | ⟨_, _, ho, _⟩ <;> exact ho
  refine ⟨s₁, pool, ?_⟩
  by_cases short : o = none ∨ K.kmalloc .conn s₁ = none
  · rw [connectClientToServer_refused hf short] at h
    cases h
    exact Or.inl ⟨by decide, rfl⟩
  · obtain ⟨hm, hp⟩ := not_or.mp short
    obtain ⟨m, rfl⟩ := Option.ne_none_iff_exists'.mp hm
    obtain ⟨p, hp⟩ := Option.ne_none_iff_exists'.mp hp
    rw [connectClientToServer_linked hf hp hk hnone] at h
    obtain ⟨srv, hv, h⟩ := bind_eq_ok.mp h
    cases h
    have frame := getFreeSubmem_frame hf
    have hk₁ : s₁.gClientsList.get? k = some cli := by rw [frame]; exact hk
    have live : v ∈ s₁.gServersList.keys := by
      rw [frame]
      exact Table.mem_keys.mpr ⟨srv, deref_some hv⟩
    refine Or.inr ⟨rfl, p, m, _, hp, ⟨⟨K.kmalloc_fresh .conn s₁ p hp, ⟨cli, hk₁, hnone⟩, live, free.symm, ?_⟩, rfl⟩, ?_⟩
    · intro a ha
      have fresh := K.kmalloc_fresh .servConn _ a ha
      exact fresh
    · exact fun succeeds => succeeds.kmalloc .servConn _

end Ripc
