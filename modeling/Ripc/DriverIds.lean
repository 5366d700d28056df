import Ripc.DriverSteps

namespace Ripc

/-- What an id can belong to. -/
inductive Holder
  | client (k : Ptr)
  | server (v : Ptr)
  | pool (q : Ptr)
  | subMem (m : SubMemPtr)
  deriving DecidableEq

def Drv.idOf (s : Drv) : Holder → Option Int
  | .client k => (s.gClientsList.get? k).map Client.id
  | .server v => (s.gServersList.get? v).map Server.id
  | .pool q => (s.gShmList.get? q).map Shm.id
  | .subMem m => (s.subMem? m).map SubMem.id

/-- Valid ids are taken and belong to one holder each. -/
structure Ids (s : Drv) : Prop where
  unique : ∀ a b id, 0 ≤ id → s.idOf a = some id → s.idOf b = some id → a = b
  taken : ∀ a id, 0 ≤ id → s.idOf a = some id → id ∈ s.gIdGen

variable {s s' : Drv}

theorem idOf_client {k : Ptr} {cli : Client} (h : s.gClientsList.get? k = some cli) :
    s.idOf (.client k) = some cli.id := by
  rw [Drv.idOf, h, Option.map_some]

theorem idOf_server {v : Ptr} {srv : Server} (h : s.gServersList.get? v = some srv) :
    s.idOf (.server v) = some srv.id := by
  rw [Drv.idOf, h, Option.map_some]

theorem idOf_subMem {m : SubMemPtr} {sub : SubMem} (h : s.subMem? m = some sub) : s.idOf (.subMem m) = some sub.id := by
  rw [Drv.idOf, h, Option.map_some]

theorem Ids.client_unique (h : Ids s) {k k' : Ptr} {cli cli' : Client} (hk : s.gClientsList.get? k = some cli)
    (hk' : s.gClientsList.get? k' = some cli') (h0 : 0 ≤ cli.id) (same : cli'.id = cli.id) : k' = k := by
  have holder : s.idOf (.client k') = some cli.id := same ▸ idOf_client hk'
  exact Holder.client.inj (h.unique _ _ _ h0 holder (idOf_client hk))

theorem Ids.server_unique (h : Ids s) {v v' : Ptr} {srv srv' : Server} (hv : s.gServersList.get? v = some srv)
    (hv' : s.gServersList.get? v' = some srv') (h0 : 0 ≤ srv.id) (same : srv'.id = srv.id) : v' = v := by
  have holder : s.idOf (.server v') = some srv.id := same ▸ idOf_server hv'
  exact Holder.server.inj (h.unique _ _ _ h0 holder (idOf_server hv))

theorem Ids.init : Ids Drv.init := by
  constructor <;> rintro (_ | _ | _ | _) <;> simp [Drv.idOf, Drv.init, Drv.subMem?, subMemAt]

theorem Ids.keep (h : Ids s) (same : ∀ a, s'.idOf a = s.idOf a) (used : s'.gIdGen = s.gIdGen) : Ids s' where
  unique := fun a b id hid ha hb => h.unique a b id hid (same a ▸ ha) (same b ▸ hb)
  taken := fun a id hid ha => used ▸ h.taken a id hid (same a ▸ ha)

theorem Ids.add (h : Ids s) (holder : Holder) {id : Int} (fresh : FreshIds s.gIdGen [id])
    (new : ∀ a, s'.idOf a = if a = holder then some id else s.idOf a)
    (used : s'.gIdGen = (s.takeId id).gIdGen) : Ids s' := by
  have notTaken : 0 ≤ id → id ∉ s.gIdGen := fun h0 => (fresh.1 h0).2
  constructor
  · intro a b i hi ha hb
    rw [new] at ha hb
    split at ha
    next hah =>
      cases ha
      split at hb
      next hbh => exact hah.trans hbh.symm
      next => exact absurd (h.taken b id hi hb) (notTaken hi)
    next =>
      split at hb
      next =>
        cases hb
        exact absurd (h.taken a id hi ha) (notTaken hi)
      next => exact h.unique a b i hi ha hb
  · intro a i hi ha
    rw [used, Drv.takeId]
    rw [new] at ha
    split at ha
    next =>
      cases ha
      simp [Int.not_lt.mpr hi]
    next =>
      have old := h.taken a i hi ha
      split
      next => exact old
      next => exact List.mem_cons_of_mem _ old

theorem Ids.drop (h : Ids s) (holder : Holder) {id : Int} (was : s.idOf holder = some id)
    (gone : ∀ a, s'.idOf a = if a = holder then none else s.idOf a)
    (used : s'.gIdGen = (freeId s id).gIdGen) : Ids s' := by
  have kept : ∀ {a i}, s'.idOf a = some i → a ≠ holder ∧ s.idOf a = some i := by
    intro a i ha
    rw [gone] at ha
    split at ha
    next => cases ha
    next hne => exact ⟨hne, ha⟩
  refine ⟨fun a b i hi ha hb => h.unique a b i hi (kept ha).2 (kept hb).2, fun a i hi ha => ?_⟩
  obtain ⟨hne, ha⟩ := kept ha
  have old := h.taken a i hi ha
  rw [used, freeId]
  split
  next => exact List.mem_filter.mpr ⟨old, by
    have : i ≠ id := fun he => hne (h.unique a holder i hi ha (he ▸ was))
    simpa using this⟩
  next => exact old

theorem freshIds_get {used ids : List Int} (h : FreshIds used ids) :
    (∀ (i : Nat) id, ids[i]? = some id → 0 ≤ id → id ∉ used) ∧
      ∀ (i j : Nat) id, ids[i]? = some id → ids[j]? = some id → 0 ≤ id → i = j := by
  induction ids generalizing used with
  | nil => exact ⟨fun i id hi => by simp at hi, fun i j id hi => by simp at hi⟩
  | cons a ids ih =>
    obtain ⟨first, rest⟩ := h
    obtain ⟨fresh, distinct⟩ := ih rest
    have below : ∀ {i : Nat} {id : Int}, ids[i]? = some id → 0 ≤ id → id ∉ used ∧ (0 ≤ a → id ≠ a) := by
      intro i id hi h0
      have := fresh i id hi h0
      split at this
      next hneg => exact ⟨this, fun ha => absurd ha (by omega)⟩
      next => exact ⟨fun hu => this (List.mem_cons_of_mem _ hu), fun _ he => this (he ▸ List.mem_cons_self)⟩
    constructor
    · intro i id hi h0
      cases i with
      | zero =>
        cases (Option.some.inj hi : a = id)
        exact (first h0).2
      | succ i => exact (below hi h0).1
    · intro i j id hi hj h0
      cases i with
      | zero =>
        cases (Option.some.inj hi : a = id)
        cases j with
        | zero => rfl
        | succ j => exact absurd rfl ((below hj h0).2 h0)
      | succ i =>
        cases j with
        | zero =>
          cases (Option.some.inj hj : a = id)
          exact absurd rfl ((below hi h0).2 h0)
        | succ j => exact congrArg (· + 1) (distinct i j id hi hj h0)

theorem mem_takeIds {ids : List Int} {id : Int} (h0 : 0 ≤ id) :
    id ∈ (s.takeIds ids).gIdGen ↔ id ∈ s.gIdGen ∨ id ∈ ids := by
  induction ids generalizing s with
  | nil => simp [Drv.takeIds]
  | cons a ids ih =>
    have step : (s.takeIds (a :: ids)) = (s.takeId a).takeIds ids := rfl
    rw [step, ih, Drv.takeId]
    split
    next hneg =>
      have : id ≠ a := by omega
      simp [this]
    next =>
      rw [List.mem_cons, List.mem_cons]
      exact ⟨fun h => h.elim (fun h => h.elim (fun h => Or.inr (Or.inl h)) Or.inl) fun h => Or.inr (Or.inr h),
        fun h => h.elim (fun h => Or.inl (Or.inr h)) fun h => h.elim (fun h => Or.inl (Or.inl h)) Or.inr⟩

/-- Where a new pool keeps the id of a holder. -/
def Holder.poolIndex (p : Ptr) : Holder → Option Nat
  | .pool q => if q = p then some shmPoolSize else none
  | .subMem m => if m.shm = p then some m.slot else none
  | _ => none

theorem Holder.poolIndex_injective {p : Ptr} {a b : Holder} {n : Nat} (ha : a.poolIndex p = some n)
    (hb : b.poolIndex p = some n) : a = b := by
  have pool : ∀ {q}, (Holder.pool q).poolIndex p = some n → q = p ∧ n = shmPoolSize := by
    intro q h
    simp only [poolIndex] at h
    split at h
    next hq => exact ⟨hq, (Option.some.inj h).symm⟩
    next => cases h
  have slot : ∀ {m}, (Holder.subMem m).poolIndex p = some n → m.shm = p ∧ n = m.slot := by
    intro m h
    simp only [poolIndex] at h
    split at h
    next hm => exact ⟨hm, (Option.some.inj h).symm⟩
    next => cases h
  cases a with
  | client | server => cases ha
  | pool q =>
    obtain ⟨rfl, hn⟩ := pool ha
    cases b with
    | client | server => cases hb
    | pool q' => rw [(pool hb).1]
    | subMem m =>
      obtain ⟨_, hs⟩ := slot hb
      exact absurd (hs.symm.trans hn) (Nat.ne_of_lt m.slot.isLt)
  | subMem m =>
    obtain ⟨hm, hn⟩ := slot ha
    cases b with
    | client | server => cases hb
    | pool q => exact absurd (hn.symm.trans (pool hb).2) (Nat.ne_of_lt m.slot.isLt)
    | subMem m' =>
      obtain ⟨hm', hn'⟩ := slot hb
      cases m; cases m'
      simp only at hm hm' hn hn'
      rw [hm, hm', Fin.ext (hn.symm.trans hn')]

theorem idOf_addPool {p : Ptr} {shm : Shm} (fresh : p ∉ s.gShmList.keys) (a : Holder) :
    (s.addPool p shm).idOf a = (a.poolIndex p).elim (s.idOf a) fun n => shm.ids[n]? := by
  rw [Drv.addPool, takeIds_frame]
  cases a with
  | client | server => rfl
  | pool q =>
    simp only [Drv.idOf, Table.get?_pushFront fresh, Holder.poolIndex]
    split
    next => simp [Shm.ids]
    next => rfl
  | subMem m =>
    simp only [Drv.idOf, Drv.subMem?, subMemAt, Table.get?_pushFront fresh, Holder.poolIndex]
    split
    next =>
      rw [Option.elim_some, Shm.ids, List.getElem?_append_left (by simp)]
      simp
    next => rfl

theorem Ids.addPool (h : Ids s) {p : Ptr} {shm : Shm} (fresh : p ∉ s.gShmList.keys)
    (ids : FreshIds s.gIdGen shm.ids) : Ids (s.addPool p shm) := by
  obtain ⟨new, distinct⟩ := freshIds_get ids
  have used : (s.addPool p shm).gIdGen = (s.takeIds shm.ids).gIdGen := rfl
  constructor
  · intro a b id hid ha hb
    rw [idOf_addPool fresh] at ha hb
    cases hia : a.poolIndex p with
    | none =>
      rw [hia] at ha
      cases hib : b.poolIndex p with
      | none => exact h.unique a b id hid ha (by rwa [hib] at hb)
      | some j =>
        rw [hib] at hb
        exact absurd (h.taken a id hid ha) (new j id hb hid)
    | some i =>
      rw [hia] at ha
      cases hib : b.poolIndex p with
      | none =>
        rw [hib] at hb
        exact absurd (h.taken b id hid hb) (new i id ha hid)
      | some j =>
        rw [hib] at hb
        rw [← distinct i j id ha hb hid] at hib
        exact Holder.poolIndex_injective hia hib
  · intro a id hid ha
    rw [idOf_addPool fresh] at ha
    rw [used, mem_takeIds hid]
    cases hia : a.poolIndex p with
    | none =>
      rw [hia] at ha
      exact Or.inl (h.taken a id hid ha)
    | some i =>
      rw [hia] at ha
      exact Or.inr (List.mem_of_getElem? ha)

theorem map_mapAt {α : Type} {t : Table α} {f : Nat → α → α} {g : α → Int} (same : ∀ k a, g (f k a) = g a)
    (k : Nat) : ((t.mapAt f).get? k).map g = (t.get? k).map g := by
  simp [Function.comp_def, same]

theorem map_modify {α : Type} {t : Table α} {k : Nat} {f : α → α} {g : α → Int} (same : ∀ a, g (f a) = g a)
    (k' : Nat) : ((t.modify k f).get? k').map g = (t.get? k').map g := by
  refine map_mapAt (fun x a => ?_) k'
  split
  · exact same a
  · rfl

theorem idOf_addServer {v : Ptr} {name : CString maxServerName} {id : Int} (fresh : v ∉ s.gServersList.keys)
    (a : Holder) : (s.addServer v name id).idOf a = if a = .server v then some id else s.idOf a := by
  cases a with
  | server w =>
    simp only [Drv.idOf, Drv.addServer, Table.get?_pushBack fresh, Holder.server.injEq]
    split <;> rfl
  | _ => rfl

theorem idOf_addClient {k : Ptr} {id : Int} (fresh : k ∉ s.gClientsList.keys) (a : Holder) :
    (s.addClient k id).idOf a = if a = .client k then some id else s.idOf a := by
  cases a with
  | client w =>
    simp only [Drv.idOf, Drv.addClient, Table.get?_pushBack fresh, Holder.client.injEq]
    split <;> rfl
  | _ => rfl

theorem idOf_attachServer (v e t : Ptr) (a : Holder) : (s.attachServer v e t).idOf a = s.idOf a := by
  cases a with
  | server w => exact map_modify (g := Server.id) (by intro _; rfl) w
  | _ => rfl

theorem idOf_attachClient (k e t : Ptr) (a : Holder) : (s.attachClient k e t).idOf a = s.idOf a := by
  cases a with
  | client w => exact map_modify (g := Client.id) (by intro _; rfl) w
  | _ => rfl

theorem idOf_dropServer (e : Ptr) (x : ServersList) (id : Int) (a : Holder) :
    (s.dropServer e x id).idOf a = if a = .server x.server then none else s.idOf a := by
  cases a with
  | server w =>
    simp only [Drv.idOf, Drv.dropServer, Table.get?_erase, Holder.server.injEq]
    split <;> rfl
  | _ => rfl

theorem idOf_dropClient (e : Ptr) (x : ClientsList) (id : Int) (a : Holder) :
    (s.dropClient e x id).idOf a = if a = .client x.client then none else s.idOf a := by
  cases a with
  | client w =>
    simp only [Drv.idOf, Drv.dropClient, Table.get?_erase, Holder.client.injEq]
    split <;> rfl
  | _ => rfl

theorem idOf_link (p k v : Ptr) (m : SubMemPtr) (e : Option Ptr) (a : Holder) :
    (s.link p k v m e).idOf a = s.idOf a := by
  cases a with
  | client w => exact map_modify (g := Client.id) (by intro _; rfl) w
  | server w => rfl
  | pool q => exact map_modify (g := Shm.id) (by intro _; rfl) q
  | subMem m' =>
    simp only [Drv.idOf, Drv.subMem?, subMemAt_link]
    split
    · simp [Function.comp_def]
    · rfl

theorem idOf_teardown (p : Ptr) (ds : List (Ptr × NotificationData)) (a : Holder) :
    ((s.enqueueAll ds).unlink p).idOf a = s.idOf a := by
  rw [enqueueAll_eq]
  cases a with
  | client w => exact map_mapAt (g := Client.id) (by intro _ _; rfl) w
  | server w => rfl
  | pool q => exact map_mapAt (g := Shm.id) (by intro _ _; rfl) q
  | subMem m => simp [Drv.idOf, Drv.subMem?, subMemAt_unlink, Function.comp_def]

theorem Ids.event {ev : Event} (h : Ids s) (he : s.event ev s') : Ids s' := by
  obtain ⟨ok, rfl⟩ := he
  cases ev with
  | openTask | closeTask | closeFile | setMonitor | dequeue | mmaped | post =>
    exact h.keep (fun a => by cases a <;> rfl) rfl
  | addServer v name id owner =>
    have new : Ids (s.addServer v name id) := h.add (.server v) ok.2.1 (idOf_addServer ok.1) rfl
    cases owner with
    | none => exact new
    | some o => exact new.keep (idOf_attachServer v o.1 o.2) rfl
  | addClient k id owner =>
    have new : Ids (s.addClient k id) := h.add (.client k) ok.2.1 (idOf_addClient ok.1) rfl
    cases owner with
    | none => exact new
    | some o => exact new.keep (idOf_attachClient k o.1 o.2) rfl
  | dropServer e x id =>
    obtain ⟨_, ⟨srv, hv, rfl⟩, _⟩ := ok
    exact h.drop (.server x.server) (idOf_server hv) (idOf_dropServer e x srv.id) rfl
  | dropClient e x id =>
    obtain ⟨_, cli, hk, rfl, _⟩ := ok
    exact h.drop (.client x.client) (idOf_client hk) (idOf_dropClient e x cli.id) rfl
  | addPool p shm => exact h.addPool ok.1 ok.2.2.1
  | link p k v m e => exact h.keep (idOf_link p k v m e) rfl
  | teardown p ds =>
    refine h.keep (idOf_teardown p ds) ?_
    rw [Drv.apply, enqueueAll_eq]
    rfl

/-- The ids that the event gives to new objects. -/
def Event.newIds : Event → List Int
  | .addServer _ _ id _ => [id]
  | .addClient _ id _ => [id]
  | .addPool _ shm => shm.ids
  | _ => []

theorem idOf_event {ev : Event} {a : Holder} {id : Int} (he : s.event ev s') (ha : s'.idOf a = some id) :
    s.idOf a = some id ∨ id ∈ ev.newIds := by
  obtain ⟨ok, rfl⟩ := he
  have added : ∀ (holder : Holder) {new : Int}, (if a = holder then some new else s.idOf a) = some id →
      s.idOf a = some id ∨ id ∈ [new] := by
    intro holder new h
    split at h
    next => exact Or.inr (List.mem_singleton.mpr (Option.some.inj h).symm)
    next => exact Or.inl h
  have left : ∀ {holder : Holder}, (if a = holder then none else s.idOf a) = some id → s.idOf a = some id := by
    intro holder h
    split at h
    next => cases h
    next => exact h
  cases ev with
  | addServer v name i owner =>
    refine added (.server v) ?_
    cases owner with
    | none => exact (idOf_addServer ok.1 a).symm.trans ha
    | some o => exact (idOf_addServer ok.1 a).symm.trans ((idOf_attachServer v o.1 o.2 a).symm.trans ha)
  | addClient k i owner =>
    refine added (.client k) ?_
    cases owner with
    | none => exact (idOf_addClient ok.1 a).symm.trans ha
    | some o => exact (idOf_addClient ok.1 a).symm.trans ((idOf_attachClient k o.1 o.2 a).symm.trans ha)
  | dropServer e x i => exact Or.inl (left ((idOf_dropServer e x i a).symm.trans ha))
  | dropClient e x i => exact Or.inl (left ((idOf_dropClient e x i a).symm.trans ha))
  | addPool p shm =>
    have new := (idOf_addPool ok.1 a).symm.trans ha
    cases hi : a.poolIndex p with
    | none => exact Or.inl (by rwa [hi] at new)
    | some i =>
      rw [hi] at new
      exact Or.inr (List.mem_of_getElem? new)
  | link p k v m e => exact Or.inl ((idOf_link p k v m e a).symm.trans ha)
  | teardown p ds => exact Or.inl ((idOf_teardown p ds a).symm.trans ha)
  | openTask | closeTask | closeFile | setMonitor | dequeue | mmaped | post =>
    left
    cases a <;> exact ha

theorem Ids.step {call : Call} (h : Ids s) (wf : Wf s) (hs : Returns s call s') : Ids s' := by
  obtain ⟨r, hs⟩ := hs
  exact (step_ok wf hs).keeps (fun _ _ _ _ ids ev => ids.event ev) h

theorem Reachable.ids (h : Reachable s) : Ids s := by
  obtain ⟨calls, run⟩ := h
  exact (run.invariant (I := fun s => Wf s ∧ Ids s) (fun _ _ _ h hs => ⟨h.1.step hs, h.2.step h.1 hs⟩)
    ⟨.init, .init⟩).2

end Ripc
