import Ripc.Exchange

namespace Ripc

/-- How a server is left by the handling of a notification. -/
inductive ServerEnd.Handling {A : Type} (lib : Nlohmann) (app : A) (s : ServerEnd A) (os : KernelAnswers)
    (ntf : NotificationData) (handled : ServerHandled A) : Prop
  | kept (call : handled.call = none) (serverId : handled.server.serverId = s.serverId)
      (table : ∀ con ∈ handled.server.connections, con ∈ s.connections) (pages : handled.server.pages = s.pages)
  | connected (about : ntf.For s.serverId) (type : ntf.type = .newConnection)
      (call : ∀ id, handled.call ≠ some (.endWriting id)) (serverId : handled.server.serverId = s.serverId)
      (table : ∀ con ∈ handled.server.connections, con ∈ s.connections ∨ con = ⟨ntf.senderId, ntf.subMemId⟩)
      (pages : ∀ id, handled.server.pages id = s.pages id ∨ (id = ntf.subMemId ∧ handled.server.pages id = os.mapping))
  | answered {con : ConnectionInfo} {mem : Memory} (about : ntf.For s.serverId) (type : ntf.type = .newMessage)
      (known : con ∈ s.connections) (sender : con.clientId = ntf.senderId) (memory : s.memory con = .ok mem)
      (answer : s.answer lib app con mem = .ok handled) (tables : handled.server.toLibServer = s.toLibServer)
      (pages : ∀ id, id ≠ con.subMemId → handled.server.pages id = s.pages id)
      (call : handled.call = none ∨ (handled.call = some (.endWriting (packIds s.serverId con.subMemId)) ∧
        packIds s.serverId con.subMemId ≠ packError))

namespace ServerEnd

variable {A : Type} {lib : Nlohmann} {os : KernelAnswers} {app : A} {s : ServerEnd A} {ntf : NotificationData}
  {con : ConnectionInfo} {mem : Memory} {handled : ServerHandled A}

theorem writeToClient_packs : s.writeToClient con mem = none ∨
    (s.writeToClient con mem = some (.endWriting (packIds s.serverId con.subMemId)) ∧
      packIds s.serverId con.subMemId ≠ packError) := by
  unfold writeToClient
  split
  next => exact Or.inl rfl
  next =>
    split
    next => exact Or.inl rfl
    next =>
      split
      next => exact Or.inl rfl
      next packed => exact Or.inr ⟨rfl, packed⟩

theorem answer_leaves (h : s.answer lib app con mem = .ok handled) :
    handled.server.toLibServer = s.toLibServer ∧
    (∀ id, id ≠ con.subMemId → handled.server.pages id = s.pages id) ∧
    (handled.call = none ∨ (handled.call = some (.endWriting (packIds s.serverId con.subMemId)) ∧
      packIds s.serverId con.subMemId ≠ packError)) := by
  obtain ⟨⟨urlStr, rb⟩, -, h⟩ := bind_eq_ok.mp h
  cases urlStr with
  | none =>
    cases h
    exact ⟨rfl, fun _ _ => rfl, Or.inl rfl⟩
  | some view =>
    obtain ⟨url, -, h⟩ := bind_eq_ok.mp h
    obtain ⟨answered, -, h⟩ := bind_eq_ok.mp h
    cases answered with
    | none =>
      cases h
      exact ⟨rfl, fun _ _ => rfl, Or.inl rfl⟩
    | some a =>
      cases h
      exact ⟨rfl, fun id other => if_neg other, writeToClient_packs⟩

theorem seeing_pages (l : Line) (page : Memory) (s : ServerEnd A) :
    (s.seeing l page).pages l.subMemId = (s.pages l.subMemId).map fun _ => page := if_pos rfl

theorem seeing_shown (l : Line) (page : Memory) (s : ServerEnd A) :
    ((s.seeing l page).pages l.subMemId).getD page = page := by
  rw [seeing_pages]
  cases s.pages l.subMemId <;> rfl

theorem addConnection_table {s : LibServer} {clientId shmId : Int} {con : ConnectionInfo}
    (h : con ∈ (s.addConnection clientId shmId).server.connections) :
    con ∈ s.connections ∨ con = ⟨clientId, shmId⟩ := by
  unfold LibServer.addConnection at h
  split at h
  next => exact Or.inl h
  next =>
    split at h
    next => exact Or.inl h
    next =>
      split at h
      next => exact Or.inl h
      next =>
        split at h
        next => exact Or.inl h
        next =>
          split at h
          next => exact Or.inl h
          next isMapped s' found =>
            have same : s'.connections = s.connections := by
              unfold LibServer.findOrCreateSHM at found
              split at found
              next => cases found
              next =>
                split at found
                next => cases found
                next => split at found <;> cases found <;> rfl
            have added : con ∈ s'.connections ++ [⟨clientId, shmId⟩] := by
              simp only at h
              split at h <;> exact h
            rw [same] at added
            exact (List.mem_append.mp added).imp_right List.mem_singleton.mp

theorem addConnection_serverId {s : LibServer} {clientId shmId : Int} :
    (s.addConnection clientId shmId).server.serverId = s.serverId := by
  unfold LibServer.addConnection LibServer.findOrCreateSHM
  grind [LibServer.mark]

theorem handleNotification_handling (h : s.handleNotification lib os app ntf = .ok handled) :
    s.Handling lib app os ntf handled := by
  have ignored : handled = ⟨none, app, s⟩ → s.Handling lib app os ntf handled := by
    rintro rfl
    exact .kept rfl rfl (fun _ hc => hc) rfl
  unfold handleNotification at h
  split at h
  next => exact ignored (Except.ok.inj h).symm
  next =>
    split at h
    next => exact ignored (Except.ok.inj h).symm
    next reciver =>
      split at h
      next => exact ignored (Except.ok.inj h).symm
      next sender =>
        have about : ntf.For s.serverId := ⟨not_not.mp sender, not_not.mp reciver⟩
        split at h
        next => exact ignored (Except.ok.inj h).symm
        next =>
          split at h
          next type =>
            cases h
            refine .connected about type (fun id hcall => ?_) addConnection_serverId
              (fun con hcon => addConnection_table hcon) fun id => ?_
            · obtain ⟨packedId, _, hcall⟩ := Option.map_eq_some_iff.mp hcall
              cases hcall
            · simp only [withTables]
              split
              next here => exact Or.inr ⟨here.2, rfl⟩
              next => exact Or.inl rfl
          next type =>
            unfold dispatchNewMessage at h
            split at h
            next => exact ignored (Except.ok.inj h).symm
            next =>
              split at h
              next => exact ignored (Except.ok.inj h).symm
              next con found =>
                obtain ⟨mem, memory, h⟩ := bind_eq_ok.mp h
                obtain ⟨tables, pages, call⟩ := answer_leaves h
                unfold LibServer.findConnection at found
                split at found
                next =>
                  have known := List.mem_of_find?_eq_some found
                  have client : con.clientId = ntf.senderId := by simpa using List.find?_some found
                  exact .answered about type known client memory h tables pages call
                next => cases found
          next type =>
            cases h
            refine .kept rfl ?_ (fun con hcon => ?_) rfl
            · unfold LibServer.disconnectFromClient
              split <;> rfl
            · unfold LibServer.disconnectFromClient at hcon
              split at hcon
              next => exact hcon
              next => exact List.mem_of_mem_eraseP hcon

end ServerEnd

end Ripc
