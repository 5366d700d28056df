import Ripc.DriverCounts
import Ripc.DriverMapped
import Ripc.DriverChanges

namespace Ripc

/-- A client of the task has this id. -/
def Drv.Registers (s : Drv) (t : Ptr) (id : Int) : Prop :=
  ∃ e x, s.clientsEntries.get? e = some x ∧ x.regTask = t ∧ s.idOf (.client x.client) = some id

variable {K : Kernel} {s s' : Drv} {ev : Event} {t : Ptr} {id : Int} {r : Reply}

theorem clientsEntries_event (he : s.event ev s') (adds : ∀ k i owner, ev ≠ .addClient k i owner)
    (drops : ∀ e x i, ev ≠ .dropClient e x i) : s'.clientsEntries = s.clientsEntries := by
  rw [he.2]
  cases ev with
  | addServer v name i owner => cases owner <;> rfl
  | addClient k i owner => exact absurd rfl (adds k i owner)
  | dropClient e x i => exact absurd rfl (drops e x i)
  | addPool p shm => rw [Drv.apply, Drv.addPool, takeIds_frame]
  | teardown p ds => rw [Drv.apply, enqueueAll_eq]; rfl
  | _ => rfl

theorem Drv.Registers.client (wf : Wf s) {e : Ptr} {x : ClientsList} (hx : s.clientsEntries.get? e = some x) :
    s.idOf (.client x.client) ≠ none := by
  obtain ⟨cli, hcli, _⟩ := wf.clients.object e x x.client hx rfl
  rw [idOf_client hcli]
  exact Option.some_ne_none _

theorem clientEntry_unique (wf : Wf s) {e f : Ptr} {x y : ClientsList} (hx : s.clientsEntries.get? e = some x)
    (hy : s.clientsEntries.get? f = some y) (same : x.client = y.client) : e = f := by
  obtain ⟨cli, hcli, he⟩ := wf.clients.object e x x.client hx rfl
  obtain ⟨cli', hcli', hf⟩ := wf.clients.object f y y.client hy rfl
  rw [same] at hcli
  cases hcli.symm.trans hcli'
  exact Option.some.inj (he.symm.trans hf)

theorem registers_dropped {e : Ptr} {x : ClientsList} {i : Int} (wf : Wf s) (he : s.event (.dropClient e x i) s') :
    s'.Registers t id ↔ ∃ f y, f ≠ e ∧ s.clientsEntries.get? f = some y ∧ y.regTask = t ∧
      s.idOf (.client y.client) = some id := by
  obtain ⟨⟨hx, _⟩, rfl⟩ := he
  have ids := idOf_dropClient (s := s) e x i
  constructor
  · rintro ⟨f, y, hy, ht, hid⟩
    obtain ⟨hne, hy⟩ := Table.get?_erase_some.mp hy
    rw [Drv.apply, ids] at hid
    split at hid
    next => cases hid
    next => exact ⟨f, y, hne, hy, ht, hid⟩
  · rintro ⟨f, y, hne, hy, ht, hid⟩
    refine ⟨f, y, Table.get?_erase_some.mpr ⟨hne, hy⟩, ht, ?_⟩
    rw [Drv.apply, ids, if_neg, hid]
    exact fun same => hne (clientEntry_unique wf hy hx (Holder.client.inj same))

theorem registers_drop {e : Ptr} {x : ClientsList} {i : Int} (orderly : Orderly s) (h0 : 0 ≤ i)
    (he : s.event (.dropClient e x i) s') : s'.Registers t id ↔ s.Registers t id ∧ id ≠ i := by
  rw [registers_dropped orderly.wf he]
  obtain ⟨⟨hx, cli, hcli, hi, _⟩, _⟩ := he
  have named : s.idOf (.client x.client) = some i := hi ▸ idOf_client hcli
  constructor
  · rintro ⟨f, y, hne, hy, ht, hid⟩
    refine ⟨⟨f, y, hy, ht, hid⟩, ?_⟩
    rintro rfl
    have same := orderly.ids.unique _ _ id h0 hid named
    exact hne (clientEntry_unique orderly.wf hy hx (Holder.client.inj same))
  · rintro ⟨⟨f, y, hy, ht, hid⟩, hne⟩
    refine ⟨f, y, ?_, hy, ht, hid⟩
    rintro rfl
    cases hx.symm.trans hy
    exact hne (Option.some.inj (hid.symm.trans named))

theorem registers_drop_other {e : Ptr} {x : ClientsList} {i : Int} (wf : Wf s)
    (he : s.event (.dropClient e x i) s') (other : x.regTask ≠ t) : s'.Registers t id ↔ s.Registers t id := by
  rw [registers_dropped wf he]
  constructor
  · rintro ⟨f, y, _, registered⟩
    exact ⟨f, y, registered⟩
  · rintro ⟨f, y, hy, ht, hid⟩
    refine ⟨f, y, ?_, hy, ht, hid⟩
    rintro rfl
    cases he.1.1.symm.trans hy
    exact other ht

theorem registers_add {k : Ptr} {i : Int} {owner : Option (Ptr × Ptr)} (wf : Wf s)
    (he : s.event (.addClient k i owner) s') :
    s'.Registers t id ↔ s.Registers t id ∨ ∃ o ∈ owner, o.2 = t ∧ id = i := by
  obtain ⟨ok, rfl⟩ := he
  have old : ∀ {e x}, s.clientsEntries.get? e = some x →
      (s.addClient k i).idOf (.client x.client) = s.idOf (.client x.client) := by
    intro e x hx
    rw [idOf_addClient ok.1, if_neg]
    rintro ⟨rfl⟩
    exact Drv.Registers.client wf hx (by simp [Drv.idOf, Table.get?_eq_none.mpr ok.1])
  cases owner with
  | none =>
    constructor
    · rintro ⟨e, x, hx, ht, hid⟩
      exact Or.inl ⟨e, x, hx, ht, (old hx).symm.trans hid⟩
    · rintro (⟨e, x, hx, ht, hid⟩ | ⟨o, ho, _⟩)
      · exact ⟨e, x, hx, ht, (old hx).trans hid⟩
      · cases ho
  | some o =>
    have fresh := (ok.2.2 o rfl).1
    have ids := idOf_attachClient (s := s.addClient k i) k o.1 o.2
    have entries : ∀ e, (s.apply (.addClient k i (some o))).clientsEntries.get? e =
        if e = o.1 then some ⟨o.2, k⟩ else s.clientsEntries.get? e := fun e => Table.get?_pushFront fresh
    have new : (s.addClient k i).idOf (.client k) = some i := by rw [idOf_addClient ok.1, if_pos rfl]
    constructor
    · rintro ⟨e, x, hx, ht, hid⟩
      have hid := (ids _).symm.trans hid
      rw [entries] at hx
      split at hx
      next =>
        cases hx
        exact Or.inr ⟨o, rfl, ht, Option.some.inj (hid.symm.trans new)⟩
      next => exact Or.inl ⟨e, x, hx, ht, (old hx).symm.trans hid⟩
    · rintro (⟨e, x, hx, ht, hid⟩ | ⟨_, ⟨⟩, ht, rfl⟩)
      · refine ⟨e, x, ?_, ht, (ids _).trans ((old hx).trans hid)⟩
        rw [entries, if_neg, hx]
        rintro rfl
        exact fresh (Table.mem_keys.mpr ⟨x, hx⟩)
      · exact ⟨o.1, ⟨o.2, k⟩, by rw [entries, if_pos rfl], ht, (ids _).trans new⟩

theorem registers_event (wf : Wf s) (he : s.event ev s') (adds : ∀ k i owner, ev ≠ .addClient k i owner)
    (drops : ∀ e x i, ev ≠ .dropClient e x i) : s'.Registers t id ↔ s.Registers t id := by
  have entries := clientsEntries_event he adds drops
  have wf' := wf.event he
  constructor
  · rintro ⟨e, x, hx, ht, hid⟩
    rw [entries] at hx
    obtain ⟨i, hi⟩ := Option.ne_none_iff_exists'.mp (Drv.Registers.client wf hx)
    have stays := idOf_stays he hi (by rw [hid]; simp)
    exact ⟨e, x, hx, ht, hi.trans (stays.symm.trans hid)⟩
  · rintro ⟨e, x, hx, ht, hid⟩
    have hx' : s'.clientsEntries.get? e = some x := entries ▸ hx
    exact ⟨e, x, hx', ht, idOf_stays he hid (Drv.Registers.client wf' hx')⟩

theorem clientsOf_length_le {ids : List Int} (orderly : Orderly s) (valid : ∀ id ∈ ids, 0 ≤ id)
    (registered : ∀ id, s.Registers t id → id ∈ ids) : (s.clientsOf t).length ≤ ids.length := by
  have mine : ∀ e ∈ s.clientsOf t, s.clientsEntries.get? e.1 = some e.2 ∧ e.2.regTask = t := by
    intro e he
    obtain ⟨he, ht⟩ := List.mem_filter.mp he
    exact ⟨Table.get?_eq_some.mpr he, of_decide_eq_true ht⟩
  have named : ∀ e ∈ s.clientsOf t, ∃ id ∈ ids, s.idOf (.client e.2.client) = some id := by
    intro e he
    obtain ⟨hx, ht⟩ := mine e he
    obtain ⟨id, hid⟩ := Option.ne_none_iff_exists'.mp (Drv.Registers.client orderly.wf hx)
    exact ⟨id, registered id ⟨e.1, e.2, hx, ht, hid⟩, hid⟩
  let idOf := fun e : Ptr × ClientsList => (s.idOf (.client e.2.client)).getD 0
  have nodup : ((s.clientsOf t).map idOf).Nodup := by
    refine List.Nodup.map_on ?_ (s.clientsEntries.nodup.of_map.filter _)
    intro e he f hf same
    obtain ⟨id, hid, heid⟩ := named e he
    obtain ⟨id', _, hfid⟩ := named f hf
    have eq : id = id' := by simpa only [idOf, heid, hfid, Option.getD_some] using same
    subst eq
    have client := orderly.ids.unique _ _ id (valid id hid) heid hfid
    have key := clientEntry_unique orderly.wf (mine e he).1 (mine f hf).1 (Holder.client.inj client)
    have entry := (mine e he).1
    rw [key, (mine f hf).1] at entry
    exact Prod.ext key (Option.some.inj entry).symm
  have sub : (s.clientsOf t).map idOf ⊆ ids := by
    intro id hid
    obtain ⟨e, he, rfl⟩ := List.mem_map.mp hid
    obtain ⟨id, hid, heid⟩ := named e he
    simpa only [idOf, heid, Option.getD_some] using hid
  simpa using (List.subperm_of_subset nodup sub).length_le

theorem unpackId1_valid (arg : U32) : isIdValid (unpackId1 arg) = true := by
  rw [isIdValid_iff, unpackId1, maxIdValue, BitVec.toNat_ushiftRight, Nat.shiftRight_eq_div_pow]
  omega

theorem clientUnregister_registers {arg : U32} (orderly : Orderly s)
    (h : clientUnregister K s arg = .ok (r, s')) : (¬s.Connected (unpackId1 arg) ∧ s' = s) ∨
      (s.Connected (unpackId1 arg) ∧ ∀ t id, s'.Registers t id ↔ s.Registers t id ∧ id ≠ unpackId1 arg) := by
  have valid := unpackId1_valid arg
  have h0 := (isIdValid_iff.mp valid).1
  rcases clientUnregister_ok orderly.wf h with ⟨_, rfl, idle⟩ | ⟨k, cli, p, ds, s₁, hk, hcli, hp, ev, done⟩
  · refine Or.inl ⟨?_, rfl⟩
    rintro ⟨p, k, cli, hcli, hid, hp⟩
    rw [idle k cli (orderly.findClientById valid hcli hid) hcli] at hp
    cases hp
  · obtain ⟨named, hnamed, hid, _⟩ := findClientById_some hk
    cases hcli.symm.trans hnamed
    have torn : ∀ t id, s₁.Registers t id ↔ s.Registers t id := fun t id =>
      registers_event orderly.wf ev (by simp) (by simp)
    refine Or.inr ⟨⟨p, k, cli, hcli, hid, hp⟩, fun t id => ?_⟩
    rcases done with ⟨alone, rfl⟩ | ⟨e, x, drop, _⟩
    · rw [torn]
      refine ⟨fun h => ⟨h, ?_⟩, And.left⟩
      -- the client has no entry, so that nobody has registered it
      rintro rfl
      obtain ⟨e, x, hx, _, hx'⟩ := h
      obtain ⟨cli', hcli', he⟩ := orderly.wf.clients.object e x x.client hx rfl
      have same := orderly.ids.unique (.client x.client) (.client k) _ h0 hx' (hid ▸ idOf_client hcli)
      cases same
      cases hcli.symm.trans hcli'
      rw [alone] at he
      cases he
    · rw [registers_drop (orderly.event ev) (hid.symm ▸ h0) drop, torn, hid]

theorem step_file {call : Call} {fd : Ptr} (wf : Wf s) (file : s.files.get? fd = some t)
    (stays : call.op ≠ .release fd) (hs : step s call = .ok (r, s')) : s'.files.get? fd = some t := by
  refine ((step_ok wf hs).keeps (I := fun a => Wf a ∧ a.files.get? fd = some t) ?_ ⟨wf, file⟩).2
  rintro a ev b may ⟨wf, file⟩ he
  refine ⟨wf.event he, file_event wf file he (fun u closes => ?_) fun closes => ?_⟩ <;>
  · subst closes
    exact stays may

/-- What others do leaves the clients of a process registered, unless they unregister one that is connected. -/
theorem step_registers {call : Call} {fd : Ptr} (orderly : Orderly s) (file : s.files.get? fd = some t)
    (stays : call.op ≠ .release fd) (adds : call.op ≠ .ioctl fd .registerClient)
    (drops : ∀ f arg, call.op = .ioctl f (.clientUnregister arg) → s.Connected (unpackId1 arg) →
      ¬s.Registers t (unpackId1 arg))
    (hs : step s call = .ok (r, s')) : s'.Registers t id ↔ s.Registers t id := by
  have own : ∀ {f}, s.files.get? f = some t → f = fd := fun hf => orderly.wf.files.own _ _ t hf file
  by_cases register : ∃ f, call.op = .ioctl f .registerClient
  · obtain ⟨f, op⟩ := register
    simp only [step, op, ipcIoctl] at hs
    split at hs
    next =>
      obtain ⟨_, rfl⟩ := returns_ok hs
      rfl
    next u hu =>
      obtain ⟨task, htask⟩ := Table.mem_keys.mp (orderly.wf.files.live f u hu)
      rcases registerClient_ok hs htask with ⟨rfl, _⟩ | ⟨_, k, owner, _, ev, outcome⟩
      · rfl
      · rw [registers_add orderly.wf ev, or_iff_left]
        rintro ⟨o, ho, ht, _⟩
        cases outcome with
        | copy | entry => cases ho
        | done =>
          cases ho
          cases ht
          exact adds (own hu ▸ op)
  by_cases unregister : ∃ f arg, call.op = .ioctl f (.clientUnregister arg)
  · obtain ⟨f, arg, op⟩ := unregister
    simp only [step, op, ipcIoctl] at hs
    split at hs
    next =>
      obtain ⟨_, rfl⟩ := returns_ok hs
      rfl
    next =>
      rcases clientUnregister_registers orderly hs with ⟨_, rfl⟩ | ⟨connected, left⟩
      · rfl
      · rw [left, and_iff_left_iff_imp]
        rintro registered rfl
        exact drops f arg op connected registered
  refine ((step_changes orderly.wf hs).keeps
    (I := fun a => Orderly a ∧ (a.Registers t id ↔ s.Registers t id)) ?_ ⟨orderly, Iff.rfl⟩).2
  rintro a b ⟨orderly', same⟩ change
  have step : ∀ {ev}, a.event ev b → (∀ k i owner, ev ≠ .addClient k i owner) → (∀ e x i, ev ≠ .dropClient e x i) →
      Orderly b ∧ (b.Registers t id ↔ s.Registers t id) := fun he adds drops =>
    ⟨orderly'.event he, (registers_event orderly'.wf he adds drops).trans same⟩
  cases change with
  | lesser he within =>
    refine step he ?_ ?_
    · rintro k i owner rfl
      obtain ⟨f, op, _⟩ := within
      exact register ⟨f, op⟩
    · rintro e x i rfl
      exact within
  | deletes _ h =>
    obtain ⟨ds, _, he, _⟩ := h
    exact step he (by simp) (by simp)
  | dropsServer he => exact step he (by simp) (by simp)
  | dropsClient he whose =>
    rcases whose with ⟨f, op, hf⟩ | ⟨f, arg, op, _⟩
    · refine ⟨orderly'.event he, (registers_drop_other orderly'.wf he ?_).trans same⟩
      rintro rfl
      exact stays (own hf ▸ op)
    · exact absurd ⟨f, arg, op⟩ unregister
  | closes op he closing =>
    refine step he ?_ ?_
    · rintro k i owner rfl
      simp at closing
    · rintro e x i rfl
      simp at closing

end Ripc
