import Ripc.LineSteps

namespace Ripc

/-- After the calls of others. -/
structure Line.Past (l : Line) (s a : Drv) : Prop where
  up : l.Up a
  server : ∃ new, a.queue l.task = s.queue l.task ++ new ∧ ∀ d ∈ new, l.Hears d
  client : ∃ new, a.queue l.clientTask = s.queue l.clientTask ++ new ∧ ∀ d ∈ new, l.ClientHears d

section

variable {K : Kernel} {s a b : Drv} {l : Line} {p t fd : Ptr} {r : Reply} {arg : U32} {d : NotificationData}
  {ev : Event}
  {count : Nat}

theorem Line.Up.post_hears (up : l.Up s) (posts : Posts s p d t)
    (own : p = l.conn → d.type = .newConnection) : l.Hears d ∧ l.ClientHears d := by
  by_cases here : p = l.conn
  · subst here
    have type := own rfl
    rcases up.posts_own posts with ⟨hd, _⟩ | ⟨hd, _⟩
    · refine ⟨fun _ => ?_, fun server => ?_⟩
      · rw [hd, if_pos rfl]
        exact ⟨type, rfl⟩
      · rw [hd] at server
        cases server
    · refine ⟨fun client => ?_, fun _ _ => type⟩
      have who := client.1
      rw [hd] at who
      cases who
  · obtain ⟨subMem, sender, reciver⟩ := up.posts_other posts here
    refine ⟨fun client => ?_, fun server same => absurd same (reciver server)⟩
    rw [if_neg (sender client.1)]
    exact subMem

theorem Line.Up.hears (up : l.Up s) (he : s.event ev b) (avoids : ev.Avoids l) :
    ∀ d ∈ ev.posted t, l.Hears d ∧ l.ClientHears d := by
  intro d hd
  cases ev with
  | post p t' d' =>
    simp only [Event.posted] at hd
    split at hd
    next =>
      cases List.mem_singleton.mp hd
      refine up.post_hears he.1.1 fun here => ?_
      have ended := he.1.2
      have message := avoids here
      cases htype : d.type <;> simp_all
    next => cases hd
  | teardown p ds =>
    obtain ⟨⟨t', d'⟩, hx, rfl⟩ := List.mem_map.mp hd
    exact up.post_hears (he.1.2 _ (List.mem_filter.mp hx).1).1 fun here => absurd here avoids
  | _ => cases hd

theorem Line.Past.refl (up : l.Up s) : l.Past s s :=
  ⟨up, ⟨[], (List.append_nil _).symm, by simp⟩, ⟨[], (List.append_nil _).symm, by simp⟩⟩

theorem Line.Past.event (past : l.Past s a) (he : a.event ev b) (avoids : ev.Avoids l) : l.Past s b := by
  have wf := past.up.orderly.wf
  obtain ⟨new, hnew, heard⟩ := past.server
  obtain ⟨new', hnew', heard'⟩ := past.client
  have hears := fun t => past.up.hears (t := t) he avoids
  refine ⟨past.up.event he avoids.keeps, ⟨new ++ ev.posted l.task, ?_, fun d hd => ?_⟩,
    ⟨new' ++ ev.posted l.clientTask, ?_, fun d hd => ?_⟩⟩
  · refine (queue_event wf past.up.file he ?_).2.trans (by rw [hnew, List.append_assoc])
    cases ev <;> first | exact avoids.1 | trivial
  · rcases List.mem_append.mp hd with hd | hd
    · exact heard d hd
    · exact (hears _ d hd).1
  · refine (queue_event wf past.up.clientFile he ?_).2.trans (by rw [hnew', List.append_assoc])
    cases ev <;> first | exact avoids.2 | trivial
  · rcases List.mem_append.mp hd with hd | hd
    · exact heard' d hd
    · exact (hears _ d hd).2

theorem Line.Up.past {call : Call} (up : l.Up s) (avoids : call.op.avoids l = true)
    (hs : step s call = .ok (r, b)) : l.Past s b :=
  (step_beside up avoids hs).keeps (I := l.Past s) (fun _ _ _ avoids past he => past.event he avoids) (.refl up)

/-- One end has sent `d` to the other. -/
structure Line.Sends (l : Line) (s b : Drv) (d : NotificationData) : Prop where
  up : l.Up b
  server : b.queue l.task = s.queue l.task ++ if d.whoSends = .client then [d] else []
  client : b.queue l.clientTask = s.queue l.clientTask ++ if d.whoSends = .client then [] else [d]

theorem Line.Up.sends (up : l.Up s) (he : s.event (.post l.conn t d) b) : l.Sends s b d := by
  have wf := up.orderly.wf
  have server := (queue_event wf up.file he trivial).2
  have client := (queue_event wf up.clientFile he trivial).2
  have other := up.apart
  rcases up.posts_own he.1.1 with ⟨hd, rfl⟩ | ⟨hd, rfl⟩ <;>
    refine ⟨up.event he trivial, server.trans ?_, client.trans ?_⟩ <;> rw [Event.posted, hd] <;>
    simp [other, Ne.symm other]

theorem clientEndWriting_own (up : l.Up s) (own : unpackId1 arg = l.clientId)
    (h : clientEndWriting K s arg = .ok (r, b)) : (r.ret < 0 ∧ b = s) ∨ (r.ret = 0 ∧ l.Sends s b l.request) := by
  rcases clientEndWriting_ok h with same | ⟨ret, k, cli, p, t, d, hk, hcli, hp, ev, type, who⟩
  · exact Or.inl same
  · obtain ⟨cli', hcli', hid, _⟩ := findClientById_some hk
    cases hcli.symm.trans hcli'
    cases up.client_unique hcli (hid.trans own)
    cases up.client.symm.trans hcli
    cases hp
    refine Or.inr ⟨ret, ?_⟩
    rcases up.posts_own ev.1.1 with ⟨hd, _⟩ | ⟨hd, _⟩
    · rw [type] at hd
      have request : d = l.request := hd
      exact request ▸ up.sends ev
    · rw [hd] at who
      cases who

theorem serverEndWriting_own (up : l.Up s) (subMem : unpackId2 arg = l.subMemId)
    (h : serverEndWriting K s arg = .ok (r, b)) : (r.ret < 0 ∧ b = s) ∨ (r.ret = 0 ∧ l.Sends s b l.reply) := by
  rcases serverEndWriting_calls h with same | ⟨ret, v, e, x, t, d, hv, hf, hx, ev, type, who⟩
  · exact Or.inl same
  · have here : x.conn = l.conn := by
      rw [subMem] at hf
      unfold serverFindConnBySubMemId at hf
      rw [if_pos up.subMemValid] at hf
      obtain ⟨y, hy, c, m, sub, hc, hm, hsub, hmem⟩ := findConnLoop_some hf
      cases hx.symm.trans (Table.get?_eq_some.mpr (List.mem_filter.mp hy).1)
      exact up.conn_of_mem hc hm (hmem ▸ idOf_subMem hsub)
    rw [here] at ev
    refine Or.inr ⟨ret, ?_⟩
    rcases up.posts_own ev.1.1 with ⟨hd, _⟩ | ⟨hd, _⟩
    · rw [hd] at who
      cases who
    · rw [type] at hd
      have reply : d = l.reply := hd
      exact reply ▸ up.sends ev

theorem read_first (hf : s.files.get? fd = some t) (room : sizeofNotificationData ≤ count)
    (hs : step s ⟨K, .read fd count⟩ = .ok (r, b)) : (b = s ∧ ∀ d, r.out ≠ .notif d) ∨
      ∃ d, s.queue t = d :: b.queue t ∧ s.event (.dequeue t) b ∧ ∀ e, r.out = .notif e → e = d := by
  simp only [step, ipcRead, hf] at hs
  obtain ⟨task, ht, hs⟩ := bind_eq_ok.mp hs
  have ht := deref_some ht
  split at hs
  next =>
    left
    split at hs
    next =>
      obtain ⟨rfl, rfl⟩ := returns_ok hs
      exact ⟨rfl, by simp⟩
    next =>
      split at hs
      next => cases hs
      next =>
        obtain ⟨data, _, hs⟩ := bind_eq_ok.mp hs
        split at hs <;> cases hs <;> exact ⟨rfl, by simp⟩
  next =>
    split at hs
    next =>
      obtain ⟨rfl, rfl⟩ := returns_ok hs
      exact Or.inl ⟨rfl, by simp⟩
    next d ds hq =>
      have ev : s.event (.dequeue t) (s.apply (.dequeue t)) := ⟨⟨task, d, ds, ht, hq⟩, rfl⟩
      have queue : s.queue t = d :: (s.apply (.dequeue t)).queue t := by
        simp [Drv.queue, Drv.apply, Table.get?_modify, ht, hq, RegTask.dequeue]
      rw [if_neg (Nat.not_lt.mpr room)] at hs
      split at hs <;> cases hs
      · exact Or.inr ⟨d, queue, ev, by simp⟩
      · exact Or.inr ⟨d, queue, ev, by simp⟩

theorem Line.Up.dequeue {u : Ptr} (up : l.Up s) (he : s.event (.dequeue t) b) (other : u ≠ t)
    (hf : s.files.get? fd = some u) : l.Up b ∧ b.queue u = s.queue u := by
  refine ⟨up.event he trivial, ?_⟩
  have same := (queue_event up.orderly.wf hf he (Ne.symm other)).2
  simpa [Event.posted] using same

theorem Line.Up.serverReads (up : l.Up s) (room : sizeofNotificationData ≤ count)
    (hs : step s ⟨K, .read l.fd count⟩ = .ok (r, b)) : (b = s ∧ ∀ d, r.out ≠ .notif d) ∨
      ∃ d, s.queue l.task = d :: b.queue l.task ∧ l.Up b ∧ b.queue l.clientTask = s.queue l.clientTask ∧
        ∀ e, r.out = .notif e → e = d := by
  refine (read_first up.file room hs).imp_right ?_
  rintro ⟨d, queue, ev, only⟩
  obtain ⟨up', same⟩ := up.dequeue ev (Ne.symm up.apart) up.clientFile
  exact ⟨d, queue, up', same, only⟩

theorem Line.Up.clientReads (up : l.Up s) (room : sizeofNotificationData ≤ count)
    (hs : step s ⟨K, .read l.clientFd count⟩ = .ok (r, b)) : (b = s ∧ ∀ d, r.out ≠ .notif d) ∨
      ∃ d, s.queue l.clientTask = d :: b.queue l.clientTask ∧ l.Up b ∧ b.queue l.task = s.queue l.task ∧
        ∀ e, r.out = .notif e → e = d := by
  refine (read_first up.clientFile room hs).imp_right ?_
  rintro ⟨d, queue, ev, only⟩
  obtain ⟨up', same⟩ := up.dequeue ev up.apart up.file
  exact ⟨d, queue, up', same, only⟩

end

end Ripc
