import Ripc.RefServer
import Ripc.Trace

namespace Ripc

namespace RefServer

variable {s s' : RefServer} {c x : Int} {con : RefConnection} {b : Bool}

theorem findConnection_some (h : s.findConnection c = some con) :
    s.isInitialized = true ∧ con ∈ s.connections ∧ con.clientId = c := by
  unfold findConnection at h
  split at h
  next => cases h
  next init =>
    split at h
    next => exact ⟨by simpa using init, List.mem_of_find?_eq_some h, by simpa using List.find?_some h⟩
    next => cases h

theorem findConnection_none (init : s.isInitialized = true) (valid : isIdValid c = true)
    (h : s.findConnection c = none) : ∀ con ∈ s.connections, con.clientId ≠ c := by
  simpa [findConnection, init, valid, List.find?_eq_none] using h

theorem findOrCreateSHM_some {map : Nat} (h : s.findOrCreateSHM x = some (map, s')) :
    map = (s.mappings.tryEmplace x false).1 ∧ s' = { s with mappings := (s.mappings.tryEmplace x false).2.2 } := by
  unfold findOrCreateSHM at h
  split at h
  next => cases h
  next =>
    split at h
    next => cases h
    next =>
      split at h
      next => cases h
      next =>
        cases h
        exact ⟨rfl, rfl⟩

theorem addConnection_cases (s : RefServer) (c x : Int) : ∃ handled, s.addConnection c x = .ok handled ∧
    (handled.server = s ∨ (∀ con ∈ s.connections, con.clientId ≠ c) ∧
      s.connections.length < maxServersConnections ∧
      handled.server.connections = s.connections ++ [⟨⟨c, x⟩, (s.mappings.tryEmplace x false).1⟩] ∧
      ∀ r k, handled.server.mappings.Holds r k ↔
        s.mappings.Holds r k ∨ r = (s.mappings.tryEmplace x false).1 ∧ k = x) := by
  unfold addConnection
  split
  next => exact ⟨_, rfl, Or.inl rfl⟩
  next init =>
    split
    next => exact ⟨_, rfl, Or.inl rfl⟩
    next =>
      split
      next => exact ⟨_, rfl, Or.inl rfl⟩
      next valid =>
        split
        next => exact ⟨_, rfl, Or.inl rfl⟩
        next unknown =>
          split
          next => exact ⟨_, rfl, Or.inl rfl⟩
          next room =>
            split
            next => exact ⟨_, rfl, Or.inl rfl⟩
            next map s' created =>
              obtain ⟨rfl, rfl⟩ := findOrCreateSHM_some created
              have fresh := findConnection_none (by simpa using init) (by simpa using valid) unknown
              have here : (s.mappings.tryEmplace x false).2.2.Holds (s.mappings.tryEmplace x false).1 x :=
                NodeMap.holds_tryEmplace.mpr (Or.inr ⟨rfl, rfl⟩)
              obtain ⟨el, hel, rfl⟩ := here.deref
              simp only [hel]
              split
              next =>
                exact ⟨_, rfl, Or.inr ⟨fresh, Nat.lt_of_not_le room, rfl, fun r k => NodeMap.holds_tryEmplace⟩⟩
              next =>
                exact ⟨_, rfl, Or.inr ⟨fresh, Nat.lt_of_not_le room, rfl, fun r k =>
                  NodeMap.holds_modify.trans NodeMap.holds_tryEmplace⟩⟩

theorem disconnect_none (h : s.findConnection c = none) : s.disconnect c = .ok (false, s) := by
  rw [disconnect, h, disconnectFromClient]
  split <;> rfl

theorem disconnect_some (h : s.findConnection c = some con) : s.disconnect c =
    match s.mappings.deref con.subMem with
    | none => .error .badPointer
    | some el => .ok (true, { s with
        mappings := s.mappings.erase el.key
        connections := s.connections.eraseP fun other => other.clientId = c }) := by
  obtain ⟨init, _, rfl⟩ := findConnection_some h
  rw [disconnect, h, disconnectFromClient, init]
  rfl

theorem handleNotification_for {ntf : NotificationData} (own : ntf.For s.serverId)
    (validC : isIdValid ntf.senderId = true) (validX : isIdValid ntf.subMemId = true) :
    s.handleNotification ntf = match ntf.type with
      | .newConnection => s.addConnection ntf.senderId ntf.subMemId
      | .newMessage => .ok ⟨false, none, s⟩
      | .remoteDisconnect => s.disconnect ntf.senderId >>= fun (result, server) => .ok ⟨result, none, server⟩ := by
  obtain ⟨who, receiver⟩ := own
  by_cases init : s.isInitialized = true
  · cases htype : ntf.type <;> simp [handleNotification, disconnect, init, who, receiver, validX, validC, htype]
  · cases ntf.type <;>
      simp [handleNotification, addConnection, disconnect, disconnectFromClient, eq_false_of_ne_true init]

theorem handleNotification_other {ntf : NotificationData}
    (other : ¬(ntf.For s.serverId ∧ isIdValid ntf.senderId = true ∧ isIdValid ntf.subMemId = true)) :
    s.handleNotification ntf = .ok ⟨false, none, s⟩ := by
  unfold handleNotification
  split
  next => rfl
  next =>
    split
    next => rfl
    next receiver =>
      split
      next => rfl
      next who =>
        split
        next => rfl
        next valid => exact absurd ⟨⟨not_not.mp who, not_not.mp receiver⟩, by simpa using valid⟩ other

/-- What holds of the tables in every run: no client has two connections, there is room for all of them, and every
element of `m_mappings` is used by one. -/
structure Tidy (s : RefServer) : Prop where
  clients : (s.connections.map fun con => con.clientId).Nodup
  room : s.connections.length ≤ maxServersConnections
  used : ∀ r k, s.mappings.Holds r k → ∃ con ∈ s.connections, con.subMem = r

/-- Besides, every connection refers to an element that is in `m_mappings`, under its sub-memory id. -/
structure Kept (s : RefServer) : Prop extends Tidy s where
  present : ∀ con ∈ s.connections, s.mappings.Holds con.subMem con.subMemId

theorem Tidy.addConnection {handled : Handled} (tidy : s.Tidy) (h : s.addConnection c x = .ok handled) :
    handled.server.Tidy := by
  obtain ⟨_, same, unchanged | ⟨fresh, room, conns, holds⟩⟩ := addConnection_cases s c x
  · cases h.symm.trans same
    exact unchanged ▸ tidy
  · cases h.symm.trans same
    constructor
    · rw [conns]
      exact nodup_map_snoc tidy.clients fresh
    · rw [conns, List.length_append]
      exact room
    · intro r k hk
      rw [conns]
      rcases (holds r k).mp hk with old | ⟨rfl, _⟩
      · obtain ⟨con, hcon, hr⟩ := tidy.used r k old
        exact ⟨con, List.mem_append_left _ hcon, hr⟩
      · exact ⟨_, List.mem_append_right _ (List.mem_singleton_self _), rfl⟩

theorem Kept.addConnection {handled : Handled} (kept : s.Kept) (h : s.addConnection c x = .ok handled) :
    handled.server.Kept := by
  refine ⟨kept.toTidy.addConnection h, ?_⟩
  obtain ⟨_, same, unchanged | ⟨_, _, conns, holds⟩⟩ := addConnection_cases s c x
  · cases h.symm.trans same
    exact unchanged ▸ kept.present
  · cases h.symm.trans same
    intro con hcon
    rw [conns] at hcon
    rw [holds]
    rcases List.mem_append.mp hcon with old | new
    · exact Or.inl (kept.present con old)
    · rw [List.mem_singleton.mp new]
      exact Or.inr ⟨rfl, rfl⟩

/-- A disconnection of a client that has a connection takes out this connection and the element that it refers to. -/
theorem disconnect_held {key : Int} (clients : (s.connections.map fun con => con.clientId).Nodup)
    (found : s.findConnection c = some con) (held : s.mappings.Holds con.subMem key) :
    s.disconnect c = .ok (true, { s with
      mappings := s.mappings.erase key
      connections := s.connections.filter fun other => other.clientId ≠ c }) := by
  obtain ⟨el, hel, rfl⟩ := held.deref
  rw [disconnect_some found, hel, eraseP_of_nodup clients c]

theorem disconnect_cases (tidy : s.Tidy) (h : s.disconnect c = .ok (b, s')) :
    s' = s ∨ ∃ con key, s.findConnection c = some con ∧ s.mappings.Holds con.subMem key ∧
      s' = { s with
        mappings := s.mappings.erase key
        connections := s.connections.filter fun other => other.clientId ≠ c } := by
  cases found : s.findConnection c with
  | none =>
    rw [disconnect_none found] at h
    cases h
    exact Or.inl rfl
  | some con =>
    cases hel : s.mappings.deref con.subMem with
    | none =>
      rw [disconnect_some found, hel] at h
      cases h
    | some el =>
      have held := NodeMap.holds_of_deref hel
      rw [disconnect_held tidy.clients found held] at h
      cases h
      exact Or.inr ⟨con, el.key, rfl, held, rfl⟩

theorem Tidy.disconnect (tidy : s.Tidy) (h : s.disconnect c = .ok (b, s')) : s'.Tidy := by
  rcases disconnect_cases tidy h with rfl | ⟨con, key, found, held, rfl⟩
  · exact tidy
  · obtain ⟨_, mem, rfl⟩ := findConnection_some found
    constructor
    · exact tidy.clients.sublist (List.filter_sublist.map _)
    · exact (List.length_filter_le _ _).trans tidy.room
    · intro r k hk
      obtain ⟨old, other⟩ := NodeMap.holds_erase.mp hk
      obtain ⟨user, hu, rfl⟩ := tidy.used r k old
      refine ⟨user, List.mem_filter.mpr ⟨hu, decide_eq_true fun same => other ?_⟩, rfl⟩
      cases List.inj_on_of_nodup_map tidy.clients hu mem same
      exact old.key_unique held

/-- The other connections keep their elements if none of them refers to the one that goes. -/
theorem Kept.disconnect_iff (kept : s.Kept) (found : s.findConnection c = some con) :
    ∃ s', s.disconnect c = .ok (true, s') ∧
      (s'.Kept ↔ ∀ other ∈ s.connections, other.subMem = con.subMem → other.clientId = c) := by
  obtain ⟨_, mem, _⟩ := findConnection_some found
  have held := kept.present con mem
  have gone := disconnect_held kept.clients found held
  refine ⟨_, gone, ?_⟩
  constructor
  · intro after other hother same
    by_contra differs
    have stays := after.present other (List.mem_filter.mpr ⟨hother, decide_eq_true differs⟩)
    obtain ⟨old, erased⟩ := NodeMap.holds_erase.mp stays
    exact erased ((same ▸ old).key_unique held)
  · intro spared
    refine ⟨kept.toTidy.disconnect gone, fun other hother => ?_⟩
    obtain ⟨old, differs⟩ := List.mem_filter.mp hother
    refine NodeMap.holds_erase.mpr ⟨kept.present other old, fun same => of_decide_eq_true differs ?_⟩
    exact spared other old ((same ▸ kept.present other old).ref_unique held)

end RefServer

namespace RefManager

variable {m m' : RefManager} {move : TableMove}

theorem dispatchNotification_cases (m : RefManager) (ntf : NotificationData) (other : ntf.type ≠ .newMessage) :
    (m.leaver (.dispatch ntf other) = none ∧ (m.dispatchNotification ntf = .ok m ∨
      ∃ handled, m.server.addConnection ntf.senderId ntf.subMemId = .ok handled ∧
        m.dispatchNotification ntf = .ok { m with server := handled.server })) ∨
      m.leaver (.dispatch ntf other) = some ntf.senderId ∧
        m.dispatchNotification ntf = m.disconnect ntf.senderId := by
  unfold dispatchNotification
  split
  next invalid =>
    have none : m.leaver (.dispatch ntf other) = none := if_neg fun h => by simp [h.2.1] at invalid
    exact Or.inl ⟨none, Or.inl rfl⟩
  next valid =>
    split
    next handler => exact Or.inl ⟨if_neg fun h => h.2.2.1 handler, Or.inl rfl⟩
    next free =>
      have valid : ntf.isDataValid = true := by simpa using valid
      split
      next who =>
        split
        next receiver =>
          have own : ntf.For m.server.serverId := ⟨who, receiver⟩
          have ids := valid
          simp only [NotificationData.isDataValid, Bool.and_eq_true] at ids
          rw [RefServer.handleNotification_for own ids.2 ids.1.2]
          cases htype : ntf.type with
          | newConnection =>
            obtain ⟨handled, added, _⟩ := m.server.addConnection_cases ntf.senderId ntf.subMemId
            refine Or.inl ⟨if_neg fun h => ?_, Or.inr ⟨handled, added, ?_⟩⟩
            · cases htype.symm.trans h.1
            · simp only [added, ok_bind]
          | newMessage => exact absurd htype other
          | remoteDisconnect =>
            refine Or.inr ⟨if_pos ⟨htype, valid, free, own⟩, ?_⟩
            simp only [disconnect]
            cases m.server.disconnect ntf.senderId <;> rfl
        next elsewhere => exact Or.inl ⟨if_neg fun h => elsewhere h.2.2.2.2, Or.inl rfl⟩
      next who =>
        refine Or.inl ⟨if_neg fun h => ?_, Or.inl rfl⟩
        cases who.symm.trans h.2.2.2.1

theorem act_cases (m : RefManager) (move : TableMove) :
    (m.leaver move = none ∧ ((∃ m', m.act move = .ok m' ∧ m'.server = m.server) ∨
      ∃ c x handled, m.server.addConnection c x = .ok handled ∧ m.act move = .ok { m with server := handled.server })) ∨
      ∃ id, m.leaver move = some id ∧ m.act move = m.disconnect id := by
  cases move with
  | registerHandler type handler => exact Or.inl ⟨rfl, Or.inl ⟨_, rfl, rfl⟩⟩
  | disconnect id valid => exact Or.inr ⟨id, rfl, rfl⟩
  | dispatch ntf other =>
    rcases dispatchNotification_cases m ntf other with ⟨none, same | ⟨handled, added, after⟩⟩ | ⟨leaves, after⟩
    · exact Or.inl ⟨none, Or.inl ⟨m, same, rfl⟩⟩
    · exact Or.inl ⟨none, Or.inr ⟨_, _, handled, added, after⟩⟩
    · exact Or.inr ⟨_, leaves, after⟩

theorem tidy_step (tidy : m.server.Tidy) (h : m.act move = .ok m') : m'.server.Tidy := by
  rcases act_cases m move with ⟨_, ⟨_, same, kept⟩ | ⟨c, x, handled, added, same⟩⟩ | ⟨id, _, same⟩
  · cases h.symm.trans same
    exact kept ▸ tidy
  · cases h.symm.trans same
    exact tidy.addConnection added
  · rw [same] at h
    obtain ⟨⟨b, server⟩, gone, h⟩ := bind_eq_ok.mp h
    cases h
    exact tidy.disconnect gone

theorem tidy_start (serverId : Int) (isInitialized : Bool) : (start serverId isInitialized).server.Tidy :=
  ⟨.nil, Nat.zero_le _, fun _ _ h => absurd h NodeMap.holds_empty⟩

/-- In no run do two connections belong to one client, are there too many of them, or is an element left without. -/
theorem tidy_run {serverId : Int} {isInitialized : Bool} {moves : List TableMove}
    (h : (start serverId isInitialized).run moves = .ok m) : m.server.Tidy :=
  foldlM_keeps (P := fun m => m.server.Tidy) (fun _ _ _ tidy hs => tidy_step tidy hs) h
    (tidy_start serverId isInitialized)

/-- Exactly the moves that spare the other connections keep the tables as they should be. -/
theorem kept_step_iff (kept : m.server.Kept) (move : TableMove) :
    m.Spares move ↔ ∃ m', m.act move = .ok m' ∧ m'.server.Kept := by
  rcases act_cases m move with ⟨none, ⟨m', same, server⟩ | ⟨c, x, handled, added, same⟩⟩ | ⟨id, leaves, same⟩
  · refine iff_of_true (fun id leaves => ?_) ⟨m', same, server ▸ kept⟩
    cases none.symm.trans leaves
  · refine iff_of_true (fun id leaves => ?_) ⟨_, same, kept.addConnection added⟩
    cases none.symm.trans leaves
  · cases found : m.server.findConnection id with
    | none =>
      rw [disconnect, RefServer.disconnect_none found] at same
      refine iff_of_true (fun id' leaves' con found' => ?_) ⟨m, same, kept⟩
      cases leaves.symm.trans leaves'
      cases found.symm.trans found'
    | some con =>
      obtain ⟨server, gone, exact⟩ := kept.disconnect_iff found
      rw [disconnect, gone, ok_bind] at same
      have after : (∃ m', m.act move = .ok m' ∧ m'.server.Kept) ↔ server.Kept := by
        constructor
        · rintro ⟨m', hm', kept'⟩
          cases same.symm.trans hm'
          exact kept'
        · exact fun kept' => ⟨_, same, kept'⟩
      rw [after, exact]
      constructor
      · exact fun spares => spares id leaves con found
      · intro spared id' leaves' con' found'
        cases leaves.symm.trans leaves'
        cases found.symm.trans found'
        exact spared

theorem kept_start (serverId : Int) (isInitialized : Bool) : (start serverId isInitialized).server.Kept :=
  ⟨tidy_start serverId isInitialized, fun _ h => absurd h List.not_mem_nil⟩

/-- The tables are kept all along a run exactly when no connection is taken away whose sub-memory another one uses. -/
theorem tables_kept (serverId : Int) (isInitialized : Bool) (moves : List TableMove) :
    (∀ done, done <+: moves → ∃ m, (start serverId isInitialized).run done = .ok m ∧ m.server.Kept) ↔
      ∀ done move, done ++ [move] <+: moves → ∀ m, (start serverId isInitialized).run done = .ok m → m.Spares move :=
  foldlM_keeps_iff (P := fun m : RefManager => m.server.Kept) (fun _ move kept => kept_step_iff kept move)
    (kept_start serverId isInitialized)

/-- The application handles disconnections itself: client 1 has left, client 2 has got its sub-memory, then the
application disconnects client 1. -/
def lateDisconnect : List TableMove :=
  [.registerHandler .remoteDisconnect true,
    .dispatch ⟨.client, .newConnection, 5, 1, 0⟩ (by decide),
    .dispatch ⟨.client, .remoteDisconnect, 5, 1, 0⟩ (by decide),
    .dispatch ⟨.client, .newConnection, 5, 2, 0⟩ (by decide),
    .disconnect 1 (by decide)]

/-- The connection of client 2 is left with a reference to an element that was erased. -/
theorem lateDisconnect_dangles : ∃ m, (start 0 true).run lateDisconnect = .ok m ∧
    m.server.connections = [⟨⟨2, 5⟩, 0⟩] ∧ m.server.mappings.nodes = [] ∧ ¬m.server.Kept ∧
    m.act (.disconnect 2 (by decide)) = .error .badPointer := by
  refine ⟨_, rfl, rfl, rfl, fun kept => ?_, rfl⟩
  obtain ⟨n, hn, _⟩ := kept.present ⟨⟨2, 5⟩, 0⟩ (List.mem_singleton_self _)
  cases hn

end RefManager

end Ripc
