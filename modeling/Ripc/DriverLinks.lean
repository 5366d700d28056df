import Ripc.DriverEvents
import Ripc.Backref

namespace Ripc

/-- The links of the connections: both ends of each pointer agree. -/
structure Links (conns : Table Connection) (clients : Table Client) (pools : Table Shm)
    (scons : Table ServConnList) : Prop where
  connClient : PointsBack conns.get? Connection.clientP clients.get? Client.connP
  clientConn : PointsBack clients.get? Client.connP conns.get? Connection.clientP
  connMem : PointsBack conns.get? Connection.memP (subMemAt pools) SubMem.connP
  memConn : PointsBack (subMemAt pools) SubMem.connP conns.get? Connection.memP
  connFull : ∀ p c, conns.get? p = some c →
    (∃ k, c.clientP = some k) ∧ (∃ m, c.memP = some m) ∧ ∃ v, c.serverP = some v
  entryConn : ∀ e x, scons.get? e = some x →
    ∃ c, conns.get? x.conn = some c ∧ c.serverP = some x.server
  entryUnique : ∀ e x e' x', scons.get? e = some x → scons.get? e' = some x' →
    x.conn = x'.conn → e = e'

theorem subMemAt_setSubMem (s : Drv) (m m' : SubMemPtr) (f : SubMem → SubMem) :
    subMemAt (s.setSubMem m f).gShmList m' =
      if m' = m then (subMemAt s.gShmList m').map f else subMemAt s.gShmList m' := by
  simp only [subMemAt, Drv.setSubMem, Table.get?_modify]
  cases m with | mk q i => cases m' with | mk q' i' =>
  by_cases hq : q' = q
  · by_cases hi : i' = i <;> simp [hq, hi, Function.comp_def]
  · simp [hq]

theorem forget_eq_some {o : Option Ptr} {p q : Ptr} : forget p o = some q ↔ o = some q ∧ q ≠ p := by
  unfold forget
  split
  next h => simp [h, eq_comm]
  next h => exact ⟨fun he => ⟨he, fun hq => h (hq ▸ he)⟩, And.left⟩

theorem conns_unlink (s : Drv) (p q : Ptr) :
    (s.unlink p).gConnsList.get? q = if q = p then none else s.gConnsList.get? q :=
  Table.get?_erase

theorem clients_unlink (s : Drv) (p k : Ptr) : (s.unlink p).gClientsList.get? k =
    (s.gClientsList.get? k).map fun cli => { cli with connP := forget p cli.connP } :=
  Table.get?_mapAt _

theorem subMemAt_unlink (s : Drv) (p : Ptr) (m : SubMemPtr) : subMemAt (s.unlink p).gShmList m =
    (subMemAt s.gShmList m).map fun sub => { sub with connP := forget p sub.connP } := by
  simp [Drv.unlink, subMemAt, Function.comp_def]

theorem servConns_unlink {s : Drv} {p e : Ptr} {x : ServConnList} :
    (s.unlink p).servConns.get? e = some x ↔ s.servConns.get? e = some x ∧ x.conn ≠ p := by
  simp [Drv.unlink, Option.filter_eq_some_iff]

theorem Links.unlink {s : Drv} (h : Links s.gConnsList s.gClientsList s.gShmList s.servConns)
    (p : Ptr) : Links (s.unlink p).gConnsList (s.unlink p).gClientsList (s.unlink p).gShmList
      (s.unlink p).servConns := by
  have other : ∀ {q c}, (s.unlink p).gConnsList.get? q = some c → q ≠ p ∧ s.gConnsList.get? q = some c := by
    intro q c hc
    rw [conns_unlink] at hc
    split at hc
    next => cases hc
    next hq => exact ⟨hq, hc⟩
  have kept : ∀ {q c}, q ≠ p → s.gConnsList.get? q = some c → (s.unlink p).gConnsList.get? q = some c :=
    fun hq hc => by rw [conns_unlink, if_neg hq, hc]
  refine ⟨?_, ?_, ?_, ?_, ?_, ?_, ?_⟩
  · intro q c k hc hk
    obtain ⟨hq, hc⟩ := other hc
    obtain ⟨cli, hcli, hp⟩ := h.connClient q c k hc hk
    exact ⟨_, by rw [clients_unlink, hcli]; rfl, forget_eq_some.mpr ⟨hp, hq⟩⟩
  · refine h.clientConn.unlink p ?_ fun q c k hq hc hk => ⟨c, kept hq hc, hk⟩
    intro k cli q hc hq
    rw [clients_unlink, Option.map_eq_some_iff] at hc
    obtain ⟨old, ho, rfl⟩ := hc
    obtain ⟨hq, hne⟩ := forget_eq_some.mp hq
    exact ⟨hne, old, ho, hq⟩
  · intro q c m hc hm
    obtain ⟨hq, hc⟩ := other hc
    obtain ⟨sub, hs, hp⟩ := h.connMem q c m hc hm
    exact ⟨_, by rw [subMemAt_unlink, hs]; rfl, forget_eq_some.mpr ⟨hp, hq⟩⟩
  · refine h.memConn.unlink p ?_ fun q c m hq hc hm => ⟨c, kept hq hc, hm⟩
    intro m sub q hs hq
    rw [subMemAt_unlink, Option.map_eq_some_iff] at hs
    obtain ⟨old, ho, rfl⟩ := hs
    obtain ⟨hq, hne⟩ := forget_eq_some.mp hq
    exact ⟨hne, old, ho, hq⟩
  · exact fun q c hc => h.connFull q c (other hc).2
  · intro e x hx
    obtain ⟨hx, hne⟩ := servConns_unlink.mp hx
    obtain ⟨c, hc, hv⟩ := h.entryConn e x hx
    exact ⟨c, kept hne hc, hv⟩
  · intro e x e' x' hx hx' heq
    exact h.entryUnique e x e' x' (servConns_unlink.mp hx).1 (servConns_unlink.mp hx').1 heq

theorem findFreeSubmem_free {s : Drv} {m : SubMemPtr} (h : findFreeSubmem s = some m) :
    ∃ sub, subMemAt s.gShmList m = some sub ∧ sub.connP = none := by
  obtain ⟨⟨q, shm⟩, hm, hf⟩ := List.exists_of_findSome?_eq_some h
  obtain ⟨i, hi, rfl⟩ := Option.map_eq_some_iff.mp hf
  refine ⟨shm.subMems i, ?_, by simpa using List.find?_some hi⟩
  simp [subMemAt, Table.get?_eq_some.mpr hm]

theorem conns_link {s : Drv} {p k v : Ptr} {m : SubMemPtr} {e : Option Ptr}
    (fresh : p ∉ s.gConnsList.keys) (q : Ptr) : (s.link p k v m e).gConnsList.get? q =
      if q = p then some ⟨some k, some v, some m, false⟩ else s.gConnsList.get? q :=
  Table.get?_pushBack fresh

theorem clients_link (s : Drv) (p k v : Ptr) (m : SubMemPtr) (e : Option Ptr) (k' : Ptr) :
    (s.link p k v m e).gClientsList.get? k' =
      if k' = k then (s.gClientsList.get? k').map fun cli => { cli with connP := some p }
      else s.gClientsList.get? k' :=
  Table.get?_modify _

theorem subMemAt_link (s : Drv) (p k v : Ptr) (m : SubMemPtr) (e : Option Ptr) (m' : SubMemPtr) :
    subMemAt (s.link p k v m e).gShmList m' =
      if m' = m then (subMemAt s.gShmList m').map fun sub => { sub with connP := some p }
      else subMemAt s.gShmList m' :=
  subMemAt_setSubMem s m m' fun sub => { sub with connP := some p }

theorem servConns_link {s : Drv} {p k v f : Ptr} {m : SubMemPtr} {e : Option Ptr} {x : ServConnList}
    (fresh : ∀ a ∈ e, a ∉ s.servConns.keys) : (s.link p k v m e).servConns.get? f = some x ↔
      (e = some f ∧ x = ⟨p, v⟩) ∨ (e ≠ some f ∧ s.servConns.get? f = some x) := by
  cases e with
  | none => simp [Drv.link]
  | some a =>
    simp only [Drv.link, Option.elim_some, Table.get?_pushFront (fresh a rfl)]
    by_cases hf : f = a
    · simp [hf, eq_comm]
    · simp [hf, Ne.symm hf]

theorem Links.link {s : Drv} (h : Links s.gConnsList s.gClientsList s.gShmList s.servConns)
    {p k v : Ptr} {m : SubMemPtr} {e : Option Ptr} (ok : (Event.link p k v m e).Ok s) :
    Links (s.link p k v m e).gConnsList (s.link p k v m e).gClientsList
      (s.link p k v m e).gShmList (s.link p k v m e).servConns := by
  obtain ⟨fresh, ⟨cli, hcli, hnone⟩, _, free, freshE⟩ := ok
  obtain ⟨sub, hsub, hfree⟩ := findFreeSubmem_free free
  have absent : s.gConnsList.get? p = none := Table.get?_eq_none.mpr fresh
  have keptConn : ∀ {q c}, s.gConnsList.get? q = some c → (s.link p k v m e).gConnsList.get? q = some c := by
    intro q c hc
    have hq : q ≠ p := by rintro rfl; simp [absent] at hc
    rw [conns_link fresh, if_neg hq, hc]
  have newConn : (s.link p k v m e).gConnsList.get? p = some ⟨some k, some v, some m, false⟩ := by
    rw [conns_link fresh, if_pos rfl]
  have conn : ∀ {q c}, (s.link p k v m e).gConnsList.get? q = some c →
      (q = p ∧ c = ⟨some k, some v, some m, false⟩) ∨ s.gConnsList.get? q = some c := by
    intro q c hc
    rw [conns_link fresh] at hc
    split at hc
    next hq => exact Or.inl ⟨hq, (Option.some.inj hc).symm⟩
    next => exact Or.inr hc
  refine ⟨?_, ?_, ?_, ?_, ?_, ?_, ?_⟩
  · refine h.connClient.link p k ?_ ?_ ⟨_, by rw [clients_link, if_pos rfl, hcli]; rfl, rfl⟩
    · intro q c k' hc hk
      rcases conn hc with ⟨rfl, rfl⟩ | hc
      · exact Or.inl ⟨rfl, (Option.some.inj hk).symm⟩
      · exact Or.inr ⟨c, hc, hk⟩
    · intro k' c q hc hq
      have hk : k' ≠ k := by
        rintro rfl
        rw [hcli] at hc
        cases hc
        simp [hnone] at hq
      exact ⟨c, by rw [clients_link, if_neg hk, hc], hq⟩
  · refine h.clientConn.link k p ?_ (fun q c k' hc hk => ⟨c, keptConn hc, hk⟩) ⟨_, newConn, rfl⟩
    intro k' c q hc hq
    rw [clients_link] at hc
    split at hc
    next hk =>
      obtain ⟨old, _, rfl⟩ := Option.map_eq_some_iff.mp hc
      exact Or.inl ⟨hk, (Option.some.inj hq).symm⟩
    next => exact Or.inr ⟨c, hc, hq⟩
  · refine h.connMem.link p m ?_ ?_ ⟨_, by rw [subMemAt_link, if_pos rfl, hsub]; rfl, rfl⟩
    · intro q c m' hc hm
      rcases conn hc with ⟨rfl, rfl⟩ | hc
      · exact Or.inl ⟨rfl, (Option.some.inj hm).symm⟩
      · exact Or.inr ⟨c, hc, hm⟩
    · intro m' c q hc hq
      have hm : m' ≠ m := by
        rintro rfl
        rw [hsub] at hc
        cases hc
        simp [hfree] at hq
      exact ⟨c, by rw [subMemAt_link, if_neg hm, hc], hq⟩
  · refine h.memConn.link m p ?_ (fun q c m' hc hm => ⟨c, keptConn hc, hm⟩) ⟨_, newConn, rfl⟩
    intro m' c q hc hq
    rw [subMemAt_link] at hc
    split at hc
    next hm =>
      obtain ⟨old, _, rfl⟩ := Option.map_eq_some_iff.mp hc
      exact Or.inl ⟨hm, (Option.some.inj hq).symm⟩
    next => exact Or.inr ⟨c, hc, hq⟩
  · intro q c hc
    rcases conn hc with ⟨_, rfl⟩ | hc
    · exact ⟨⟨k, rfl⟩, ⟨m, rfl⟩, ⟨v, rfl⟩⟩
    · exact h.connFull q c hc
  · intro f x hx
    rcases (servConns_link freshE).mp hx with ⟨_, rfl⟩ | ⟨_, hx⟩
    · exact ⟨_, newConn, rfl⟩
    · obtain ⟨c, hc, hv⟩ := h.entryConn f x hx
      exact ⟨c, keptConn hc, hv⟩
  · have notNew : ∀ {f x}, s.servConns.get? f = some x → x.conn ≠ p := by
      rintro f x hx rfl
      obtain ⟨c, hc, _⟩ := h.entryConn f x hx
      simp [absent] at hc
    intro f x f' x' hx hx' heq
    rcases (servConns_link freshE).mp hx with ⟨rfl, rfl⟩ | ⟨_, hx⟩ <;>
      rcases (servConns_link freshE).mp hx' with ⟨hf, rfl⟩ | ⟨_, hx'⟩
    · exact Option.some.inj hf
    · exact absurd heq.symm (notNew hx')
    · exact absurd heq (notNew hx)
    · exact h.entryUnique f x f' x' hx hx' heq

theorem Links.clients {conns : Table Connection} {clients clients' : Table Client}
    {pools : Table Shm} {scons : Table ServConnList} (h : Links conns clients pools scons)
    (same : ∀ k p, (∃ cli, clients'.get? k = some cli ∧ cli.connP = some p) ↔
      ∃ cli, clients.get? k = some cli ∧ cli.connP = some p) : Links conns clients' pools scons :=
  { h with
    connClient := h.connClient.frame (fun _ c _ hc hk => ⟨c, hc, hk⟩)
      fun k cli p hc hp => (same k p).mpr ⟨cli, hc, hp⟩
    clientConn := h.clientConn.frame (fun k cli p hc hp => (same k p).mp ⟨cli, hc, hp⟩)
      fun _ c _ hc hk => ⟨c, hc, hk⟩ }

theorem Links.pools {conns : Table Connection} {clients : Table Client} {pools pools' : Table Shm}
    {scons : Table ServConnList} (h : Links conns clients pools scons)
    (same : ∀ m p, (∃ sub, subMemAt pools' m = some sub ∧ sub.connP = some p) ↔
      ∃ sub, subMemAt pools m = some sub ∧ sub.connP = some p) : Links conns clients pools' scons :=
  { h with
    connMem := h.connMem.frame (fun _ c _ hc hm => ⟨c, hc, hm⟩)
      fun m sub p hs hp => (same m p).mpr ⟨sub, hs, hp⟩
    memConn := h.memConn.frame (fun m sub p hs hp => (same m p).mp ⟨sub, hs, hp⟩)
      fun _ c _ hc hm => ⟨c, hc, hm⟩ }

theorem Links.mmaped {conns : Table Connection} {clients : Table Client} {pools : Table Shm}
    {scons : Table ServConnList} (h : Links conns clients pools scons) (p : Ptr) :
    Links (conns.modify p fun c => { c with servMmaped := true }) clients pools scons := by
  have old : ∀ {q c}, (conns.modify p fun c => { c with servMmaped := true }).get? q = some c →
      ∃ c₀, conns.get? q = some c₀ ∧ c.clientP = c₀.clientP ∧ c.memP = c₀.memP ∧ c.serverP = c₀.serverP := by
    intro q c hc
    rw [Table.get?_modify] at hc
    split at hc
    next =>
      obtain ⟨c₀, hc₀, rfl⟩ := Option.map_eq_some_iff.mp hc
      exact ⟨c₀, hc₀, rfl, rfl, rfl⟩
    next => exact ⟨c, hc, rfl, rfl, rfl⟩
  have kept : ∀ {q c₀}, conns.get? q = some c₀ →
      ∃ c, (conns.modify p fun c => { c with servMmaped := true }).get? q = some c ∧
        c.clientP = c₀.clientP ∧ c.memP = c₀.memP ∧ c.serverP = c₀.serverP := by
    intro q c₀ hc
    rw [Table.get?_modify, hc]
    split <;> exact ⟨_, rfl, rfl, rfl, rfl⟩
  refine ⟨?_, ?_, ?_, ?_, ?_, ?_, h.entryUnique⟩
  · refine h.connClient.frame ?_ fun k cli q hc hq => ⟨cli, hc, hq⟩
    intro q c k hc hk
    obtain ⟨c₀, hc₀, he, _⟩ := old hc
    exact ⟨c₀, hc₀, he ▸ hk⟩
  · refine h.clientConn.frame (fun k cli q hc hq => ⟨cli, hc, hq⟩) ?_
    intro q c₀ k hc hk
    obtain ⟨c, hc, he, _⟩ := kept hc
    exact ⟨c, hc, he.trans hk⟩
  · refine h.connMem.frame ?_ fun m sub q hs hq => ⟨sub, hs, hq⟩
    intro q c m hc hm
    obtain ⟨c₀, hc₀, _, he, _⟩ := old hc
    exact ⟨c₀, hc₀, he ▸ hm⟩
  · refine h.memConn.frame (fun m sub q hs hq => ⟨sub, hs, hq⟩) ?_
    intro q c₀ m hc hm
    obtain ⟨c, hc, _, he, _⟩ := kept hc
    exact ⟨c, hc, he.trans hm⟩
  · intro q c hc
    obtain ⟨c₀, hc₀, h₁, h₂, h₃⟩ := old hc
    rw [h₁, h₂, h₃]
    exact h.connFull q c₀ hc₀
  · intro e x hx
    obtain ⟨c₀, hc₀, hv⟩ := h.entryConn e x hx
    obtain ⟨c, hc, _, _, he⟩ := kept hc₀
    exact ⟨c, hc, he.trans hv⟩

end Ripc
