import Ripc.DriverQueues

namespace Ripc

def Kernel.Tells (K : Kernel) : Prop := ∀ s, K.kmalloc (.notif .client) s ≠ none

def Kernel.Notifies (K : Kernel) : Prop := ∀ sender s, K.kmalloc (.notif sender) s ≠ none

/-- From `s` to `s₀` the connection `p` is made ready for its deletion. -/
structure Leaving (s s₀ : Drv) (p : Ptr) : Prop where
  conns : s₀.gConnsList = s.gConnsList
  only : ∀ c, s.gConnsList.get? p = some c → OnlyLinks s₀ p c
  posts : ∀ d t, Posts s p d t → Posts s₀ p d t
  queue : ∀ t ∈ s.gRegTaskList.keys, ∃ l, s₀.queue t = s.queue t ++ l

def Drv.Deletes (s : Drv) (K : Kernel) (p : Ptr) (s' : Drv) : Prop :=
  ∃ ds s₀, s.event (.teardown p ds) s' ∧ Leaving s s₀ p ∧ deleteConnection K s₀ p = .ok s'

section

variable {K : Kernel} {s s₀ s₁ s' : Drv} {p t k v e : Ptr} {d : NotificationData} {r : Reply} {arg : U32}

theorem Leaving.clearClient (wf : Wf s) (k : Ptr) :
    Leaving s { s with gClientsList := s.gClientsList.modify k fun c => { c with connP := none } } p := by
  refine ⟨rfl, fun c hc => (wf.links.only hc).clearClient k, fun d t posts => ?_,
    fun t _ => ⟨[], (List.append_nil _).symm⟩⟩
  refine posts.transfer rfl rfl rfl rfl rfl rfl fun k' cli hk => ?_
  rw [Table.get?_modify, hk]
  split
  next => exact ⟨_, rfl, rfl, rfl⟩
  next => exact ⟨cli, rfl, rfl, rfl⟩

theorem Leaving.eraseEntry (wf : Wf s) (e : Ptr) : Leaving s { s with servConns := s.servConns.erase e } p :=
  ⟨rfl, fun _ hc => (wf.links.only hc).eraseEntry e,
    fun _ _ posts => posts.transfer rfl rfl rfl rfl rfl rfl fun _ cli hk => ⟨cli, hk, rfl, rfl⟩,
    fun _ _ => ⟨[], (List.append_nil _).symm⟩⟩

theorem Posts.enqueueAll (posts : Posts s p d t) (ds : List (Ptr × NotificationData)) :
    Posts (s.enqueueAll ds) p d t := by
  rw [enqueueAll_eq]
  exact posts.transfer rfl rfl rfl rfl rfl (keys_postAll s.gRegTaskList ds) fun k cli hk => ⟨cli, hk, rfl, rfl⟩

theorem queue_enqueueAll (live : t ∈ s.gRegTaskList.keys) (ds : List (Ptr × NotificationData)) :
    (s.enqueueAll ds).queue t = s.queue t ++ (ds.filter fun x => x.1 = t).map Prod.snd := by
  rw [enqueueAll_eq]
  exact queue_postAll live ds

theorem Leaving.send {sender : NotifSender} {ret : Int}
    (h : notificationSend K s sender .remoteDisconnect p = .ok (ret, s₁)) (leaving : Leaving s₁ s₀ p) :
    Leaving s s₀ p := by
  obtain ⟨ds, rfl, _⟩ := notificationSend_list h
  have conns := conns_enqueueAll s ds
  refine ⟨leaving.conns.trans conns, fun c hc => leaving.only c (conns ▸ hc),
    fun d t posts => leaving.posts d t (posts.enqueueAll ds), fun t live => ?_⟩
  have live₁ : t ∈ (s.enqueueAll ds).gRegTaskList.keys := by
    rw [enqueueAll_eq]
    exact (keys_postAll s.gRegTaskList ds).symm ▸ live
  obtain ⟨l, hl⟩ := leaving.queue t live₁
  rw [queue_enqueueAll live, List.append_assoc] at hl
  exact ⟨_, hl⟩

theorem Drv.Deletes.send {sender : NotifSender} {ret : Int}
    (h : notificationSend K s sender .remoteDisconnect p = .ok (ret, s₁)) (deletes : s₁.Deletes K p s') :
    s.Deletes K p s' := by
  obtain ⟨ds, s₀, ev, leaving, del⟩ := deletes
  obtain ⟨ds', ev'⟩ := teardown_of_send h ev
  exact ⟨ds', s₀, ev', leaving.send h, del⟩

theorem clientCleanupConnection_deletes (wf : Wf s) (h : clientCleanupConnection K s k = .ok s') :
    ∃ cli, s.gClientsList.get? k = some cli ∧
      ((cli.connP = none ∧ s' = s) ∨ ∃ p, cli.connP = some p ∧ s.Deletes K p s') := by
  obtain ⟨cli, hcli, done⟩ := clientCleanupConnection_ok h wf
  refine ⟨cli, hcli, done.imp_right ?_⟩
  rintro ⟨p, ds, hp, ev⟩
  simp only [clientCleanupConnection, deref_of_get? hcli, ok_bind, hp] at h
  exact ⟨p, hp, ds, _, ev, .clearClient wf k, h⟩

theorem serverCleanupConnection_deletes (wf : Wf s) (h : serverCleanupConnection K s v e = .ok s') :
    ∃ x, s.servConns.get? e = some x ∧ ((x.server ≠ v ∧ s' = s) ∨ s.Deletes K x.conn s') := by
  obtain ⟨x, hx, done⟩ := serverCleanupConnection_ok h wf
  refine ⟨x, hx, ?_⟩
  obtain ⟨c, hc, hv⟩ := wf.links.entryConn e x hx
  simp only [serverCleanupConnection, deref_of_get? hx, deref_of_get? hc, ok_bind] at h
  split at h
  next other =>
    cases h
    exact Or.inl ⟨fun same => other (same ▸ hv), rfl⟩
  next same =>
    rcases done with ⟨other, _⟩ | ⟨ds, ev⟩
    · rw [hv] at same
      exact absurd (fun h => other (Option.some.inj h)) same
    · exact Or.inr ⟨ds, _, ev, .eraseEntry wf e, h⟩

/-- After its deletion the connection's server is told last. -/
theorem Drv.Deletes.tells (deletes : s.Deletes K p s') (posts : Posts s p d t) (client : d.whoSends = .client)
    (type : d.type = .remoteDisconnect) (sender : isIdValid d.senderId = true) (subMem : isIdValid d.subMemId = true)
    (reciver : isIdValid d.reciverId = true) (tells : K.Tells) : ∃ l, s'.queue t = s.queue t ++ (l ++ [d]) := by
  obtain ⟨ds, s₀, ev, leaving, h⟩ := deletes
  obtain ⟨c, hc⟩ := Table.mem_keys.mp ev.1.1
  have live : t ∈ s.gRegTaskList.keys := by cases posts <;> assumption
  obtain ⟨l, hl⟩ := leaving.queue t live
  have posts₀ := leaving.posts d t posts
  have live₀ : t ∈ s₀.gRegTaskList.keys := by cases posts₀ <;> assumption
  obtain ⟨_, _, s₁, s₂, h₁, h₂, rfl⟩ := deleteConnection_sends h (leaving.conns ▸ hc) (leaving.only c hc)
  obtain ⟨ds₁, rfl, _⟩ := notificationSend_list h₁
  have posts₁ := posts₀.enqueueAll ds₁
  have live₁ : t ∈ (s₀.enqueueAll ds₁).gRegTaskList.keys := by cases posts₁ <;> assumption
  have room : (K.kmalloc (.notif d.whoSends) (s₀.enqueueAll ds₁)).isSome = true := by
    rw [client]
    exact Option.isSome_iff_ne_none.mpr (tells _)
  rw [← type, ← client, send_of_posts posts₁ sender subMem reciver room] at h₂
  obtain ⟨_, rfl⟩ := Prod.mk.inj (Except.ok.inj h₂)
  refine ⟨l ++ (ds₁.filter fun x => x.1 = t).map Prod.snd, ?_⟩
  have queue : (((s₀.enqueueAll ds₁).enqueue t d).unlink p).queue t = (s₀.enqueueAll ds₁).queue t ++ [d] := by
    refine (queue_enqueue live₁ t d).trans ?_
    rw [if_pos rfl, Drv.queue]
  rw [queue, queue_enqueueAll live₀, hl]
  simp only [List.append_assoc]

theorem disconnectClient_deletes {cli : Client} {ret : Int} (wf : Wf s) (hcli : s.gClientsList.get? k = some cli)
    (hp : cli.connP = some p) (hs : notificationSend K s .client .remoteDisconnect p = .ok (ret, s₁))
    (h : clientCleanupConnection K s₁ k = .ok s') : s.Deletes K p s' := by
  obtain ⟨cli', hcli', done⟩ := clientCleanupConnection_deletes (wf.send hs) h
  rw [notificationSend_frame hs] at hcli'
  obtain rfl := Option.some.inj (hcli.symm.trans hcli')
  rcases done with ⟨idle, _⟩ | ⟨q, hq, deletes⟩
  · rw [hp] at idle
    cases idle
  · cases hp.symm.trans hq
    exact deletes.send hs

theorem clientDisconnect_deletes (wf : Wf s) (h : clientDisconnect K s arg = .ok (r, s')) :
    s' = s ∨ ∃ p, s.Deletes K p s' := by
  rcases clientDisconnect_calls h with ⟨_, same, _⟩ | ⟨k, cli, p, ret, s₁, _, hcli, hp, hs, hc⟩
  · exact Or.inl same
  · exact Or.inr ⟨p, disconnectClient_deletes wf hcli hp hs hc⟩

theorem serverDisconnect_deletes (wf : Wf s) (h : serverDisconnect K s arg = .ok (r, s')) :
    s' = s ∨ ∃ p, s.Deletes K p s' := by
  rcases serverDisconnect_calls h with ⟨same, _⟩ | ⟨v, e, x, ret, s₁, _, _, hx, hxv, hs, hc⟩
  · exact Or.inl same
  · obtain ⟨y, hy, done⟩ := serverCleanupConnection_deletes (wf.send hs) hc
    rw [notificationSend_frame hs] at hy
    obtain rfl := Option.some.inj (hx.symm.trans hy)
    rcases done with ⟨other, _⟩ | deletes
    · exact absurd hxv other
    · exact Or.inr ⟨x.conn, deletes.send hs⟩

theorem clientUnregister_deletes (wf : Wf s) (h : clientUnregister K s arg = .ok (r, s')) :
    s' = s ∨ ∃ p s₁, s.Deletes K p s₁ ∧ (s' = s₁ ∨ ∃ e x, s₁.event (.dropClient e x (unpackId1 arg)) s') := by
  rcases clientUnregister_calls h with ⟨_, rfl, _⟩ | ⟨k, cli, p, ret, s₀, s₁, cli₁, hk, hcli, hp, hs, hc, hcli₁, hd⟩
  · exact Or.inl rfl
  · have deletes := disconnectClient_deletes wf hcli hp hs hc
    refine Or.inr ⟨p, s₁, deletes, ?_⟩
    obtain ⟨ds, _, ev, _⟩ := deletes
    obtain ⟨named, hnamed, hid, _⟩ := findClientById_some hk
    cases hcli.symm.trans hnamed
    obtain rfl := teardown_client ev hcli hp hcli₁
    rcases dropIdle_ok (wf.event ev) hcli₁ rfl hd with ⟨_, rfl⟩ | ⟨e, x, drop, _⟩
    · exact Or.inl rfl
    · exact Or.inr ⟨e, x, hid ▸ drop⟩

end

end Ripc
