import Ripc.RefTables
import Ripc.TableFollows

namespace Ripc

namespace RefServer

variable {s s' : RefServer} {c x : Int} {b : Bool}

def view (s : RefServer) : LibServer :=
  ⟨s.serverId, s.connections.map RefConnection.toConnectionInfo, s.mappings.entries⟩

theorem findConnection_view (init : s.isInitialized = true) :
    s.view.findConnection c = (s.findConnection c).map RefConnection.toConnectionInfo := by
  simp only [LibServer.findConnection, findConnection, init, Bool.not_true, Bool.false_eq_true, if_false, view,
    List.find?_map]
  split <;> rfl

theorem findOrCreateSHM_view (init : s.isInitialized = true) : s.view.findOrCreateSHM x =
    (s.findOrCreateSHM x).bind fun (map, s') => (s'.mappings.deref map).map fun el => (el.val, s'.view) := by
  have size : s.view.mappings.length = s.mappings.size := List.length_map _
  unfold LibServer.findOrCreateSHM findOrCreateSHM
  rw [size, init]
  split
  next => rfl
  next =>
    simp only [Bool.not_true, Bool.false_eq_true, if_false]
    split
    next => rfl
    next =>
      have looked : (s.view.mappings.find? fun el => el.1 = x) = (s.mappings.find? x).map fun n => (n.key, n.val) :=
        NodeMap.find?_entries
      cases found : s.mappings.find? x with
      | some n =>
        have here : s.mappings.deref n.id = some n :=
          NodeMap.deref_eq_some.mpr ⟨(NodeMap.find?_eq_some.mp found).1, rfl⟩
        simp only [looked, found, Option.map_some, NodeMap.tryEmplace_found found, Option.bind_some, here]
        rfl
      | none =>
        have here : (s.mappings.insert x false found).deref s.mappings.made = some ⟨s.mappings.made, x, false⟩ :=
          NodeMap.deref_eq_some.mpr ⟨List.mem_append_right _ (List.mem_singleton_self _), rfl⟩
        simp only [looked, found, Option.map_none, NodeMap.tryEmplace_new found, Option.bind_some, here,
          Option.map_some]
        simp only [view, NodeMap.entries_insert found]

theorem findOrCreateSHM_holds {map : Nat} (h : s.findOrCreateSHM x = some (map, s')) : s'.mappings.Holds map x := by
  obtain ⟨rfl, rfl⟩ := findOrCreateSHM_some h
  exact NodeMap.holds_tryEmplace.mpr (Or.inr ⟨rfl, rfl⟩)

theorem mark_view {map : Nat} (held : s.mappings.Holds map x) : (s.mark map).view = s.view.mark x := by
  have marked : ∀ e : Int × Bool, (if e.1 = x then (e.1, true) else e) = (e.1, e.2 || e.1 = x) := by
    rintro ⟨k, v⟩
    by_cases same : k = x <;> simp [same]
  simp only [mark, view, LibServer.mark, NodeMap.entries_modify held, marked]

theorem append_view (con : RefConnection) : { s with connections := s.connections ++ [con] }.view =
    { s.view with connections := s.view.connections ++ [con.toConnectionInfo] } := by
  simp only [view, List.map_append, List.map_cons, List.map_nil]

theorem addConnection_view {handled : Handled} (init : s.isInitialized = true)
    (h : s.addConnection c x = .ok handled) :
    s.view.addConnection c x = ⟨handled.mmap, handled.server.view⟩ := by
  have length : s.view.connections.length = s.connections.length := List.length_map _
  unfold addConnection at h
  unfold LibServer.addConnection
  rw [findConnection_view init, length, findOrCreateSHM_view init]
  simp only [init, Bool.not_true, Bool.false_eq_true, if_false] at h
  split at h
  next invalid =>
    cases h
    rw [if_pos invalid]
  next validX =>
    rw [if_neg validX]
    split at h
    next invalid =>
      cases h
      rw [if_pos invalid]
    next validC =>
      rw [if_neg validC]
      split at h
      next con known =>
        cases h
        rw [known]
        rfl
      next unknown =>
        simp only [unknown, Option.map_none]
        split at h
        next full =>
          cases h
          rw [if_pos full]
        next room =>
          rw [if_neg room]
          split at h
          next refused =>
            cases h
            rw [refused]
            rfl
          next map s' created =>
            rw [created]
            split at h
            next => cases h
            next el hel =>
              have key : el.key = x := (NodeMap.holds_of_deref hel).key_unique (findOrCreateSHM_holds created)
              simp only [Option.bind_some, hel, Option.map_some]
              split at h
              next quiet =>
                cases h
                refine (if_pos quiet).trans ?_
                rw [append_view, key]
              next loud =>
                cases h
                have held : s'.mappings.Holds map x := findOrCreateSHM_holds created
                have marked := mark_view (s := { s' with connections := s'.connections ++ [⟨⟨c, el.key⟩, map⟩] }) held
                refine (if_neg loud).trans ?_
                rw [marked, append_view, key]
                rfl

theorem disconnect_view (init : s.isInitialized = true) (kept : s.Kept) (h : s.disconnect c = .ok (b, s')) :
    s.view.disconnectFromClient (s.view.findConnection c) = (b, s'.view) := by
  rw [findConnection_view init]
  cases found : s.findConnection c with
  | none =>
    cases (disconnect_none found).symm.trans h
    rfl
  | some con =>
    obtain ⟨_, mem, rfl⟩ := findConnection_some found
    have gone := disconnect_held kept.clients found (kept.present con mem)
    cases gone.symm.trans h
    have nodup : (s.view.connections.map ConnectionInfo.clientId).Nodup := by
      rw [view, List.map_map]
      exact kept.clients
    simp only [Option.map_some, LibServer.disconnectFromClient, eraseP_of_nodup nodup]
    simp only [view, NodeMap.entries_erase, List.filter_map]
    rfl

theorem handleNotification_view {ntf : NotificationData} {handled : Handled} (init : s.isInitialized = true)
    (kept : s.Kept) (h : s.handleNotification ntf = .ok handled) :
    s.view.handleNotification ntf = ⟨handled.mmap, handled.server.view⟩ := by
  by_cases gets : ntf.For s.serverId ∧ isIdValid ntf.senderId = true ∧ isIdValid ntf.subMemId = true
  · obtain ⟨own, validC, validX⟩ := gets
    rw [handleNotification_for own validC validX] at h
    rw [LibServer.handleNotification_for own validC validX]
    cases htype : ntf.type with
    | newConnection =>
      rw [htype] at h
      exact addConnection_view init h
    | newMessage =>
      rw [htype] at h
      cases h
      rfl
    | remoteDisconnect =>
      rw [htype] at h
      obtain ⟨⟨result, server⟩, gone, h⟩ := bind_eq_ok.mp h
      cases h
      simp only [disconnect_view init kept gone]
  · rw [handleNotification_other gets] at h
    cases h
    exact LibServer.handleNotification_other gets

theorem mappings_view {con : RefConnection} (kept : s.Kept) (mem : con ∈ s.connections) :
    ∃ el, s.mappings.deref con.subMem = some el ∧
      (s.view.mappings.find? fun e => e.1 = con.subMemId) = some (con.subMemId, el.val) := by
  obtain ⟨el, hel, key⟩ := (kept.present con mem).deref
  have found : s.mappings.find? con.subMemId = some el :=
    NodeMap.find?_eq_some.mpr ⟨(NodeMap.deref_eq_some.mp hel).1, key⟩
  refine ⟨el, hel, ?_⟩
  rw [view, NodeMap.find?_entries, found, Option.map_some, key]

end RefServer

end Ripc
