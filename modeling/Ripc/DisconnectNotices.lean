import Ripc.DriverPartings
import Ripc.DriverRuns

namespace Ripc

/-- `d` tells the peer of `who` that this connection has ended. -/
def Parties.hears (q : Parties) (who : NotifSender) (d : NotificationData) : Bool :=
  d.type = .remoteDisconnect ∧ d.whoSends = who ∧ d.subMemId = q.subMemId ∧ d.reciverId = q.id who.other

/-- The notices of the connection's end that wait at the peer of `who`. -/
def Drv.notices (s : Drv) (q : Parties) (who : NotifSender) : Nat :=
  (s.queue (q.task who.other)).countP (q.hears who)

section

variable {K : Kernel} {s s' a : Drv} {p r : Ptr} {q q' : Parties} {ps : List Ptr} {who side : NotifSender}

theorem told_own (q : Parties) (who side : NotifSender) :
    (((q.told side).filter fun x => x.1 = q.task who.other).map Prod.snd).countP (q.hears who) =
      if side = who ∧ q.valid = true then 1 else 0 := by
  unfold Parties.told
  by_cases valid : q.valid = true
  · cases side <;> cases who <;> simp only [valid, if_true, List.filter_cons, List.filter_nil] <;> split <;>
      simp_all [Parties.hears, Parties.notice]
  · simp [valid]

theorem told_foreign (other : q'.valid = true → q'.subMemId ≠ q.subMemId) (t : Ptr) (who side : NotifSender) :
    (((q'.told side).filter fun x => x.1 = t).map Prod.snd).countP (q.hears who) = 0 := by
  rw [List.countP_eq_zero]
  intro d hd
  obtain ⟨x, hx, rfl⟩ := List.mem_map.mp hd
  have told := (List.mem_filter.mp hx).1
  unfold Parties.told at told
  split at told
  next valid =>
    rw [List.mem_singleton.mp told]
    simp [Parties.hears, Parties.notice, other valid]
  next => cases told

theorem notices_enqueueAll (live : q.task who.other ∈ s.gRegTaskList.keys) (ds : List (Ptr × NotificationData)) :
    (s.enqueueAll ds).notices q who = s.notices q who +
      ((ds.filter fun x => x.1 = q.task who.other).map Prod.snd).countP (q.hears who) := by
  rw [Drv.notices, queue_enqueueAll live, List.countP_append, Drv.notices]

/-- No other connection has the sub-memory of `p`. -/
structure Sole (s : Drv) (p : Ptr) (q : Parties) : Prop where
  own : ∀ q', s.parties? p = some q' → q' = q
  single : ∀ r q', s.parties? r = some q' → q'.valid = true → q'.subMemId = q.subMemId → r = p

theorem Orderly.sole (orderly : Orderly s) (hq : s.parties? p = some q) : Sole s p q := by
  refine ⟨fun q' h => Option.some.inj (h.symm.trans hq), fun r q' hr valid same => ?_⟩
  obtain ⟨c, k, v, m, sides⟩ := sides_of_parties hq
  obtain ⟨c', k', v', m', sides'⟩ := sides_of_parties hr
  simp only [Parties.valid, Bool.and_eq_true] at valid
  have slot := orderly.ids.unique _ _ _ (isIdValid_iff.mp valid.2).1 sides'.subMem (same ▸ sides.subMem)
  cases slot
  obtain ⟨sub, hsub, hp⟩ := orderly.wf.links.connMem p c m sides.conn sides.memP
  obtain ⟨sub', hsub', hr⟩ := orderly.wf.links.connMem r c' m sides'.conn sides'.memP
  cases hsub.symm.trans hsub'
  exact Option.some.inj (hr.symm.trans hp)

theorem Sole.parts (sole : Sole s p q) (h : s.Parts r s') : Sole s' p q := by
  have parted := (Trace.single h).parted
  have old : ∀ {u q'}, s'.parties? u = some q' → s.parties? u = some q' := by
    intro u q' hu
    by_cases he : u ∈ [r]
    · obtain ⟨c, _, _, _, sides⟩ := sides_of_parties hu
      have gone := sides.conn
      rw [parted.conns, if_pos he] at gone
      cases gone
    · exact (parted.parties u he).symm.trans hu
  exact ⟨fun q' h => sole.own q' (old h), fun u q' h => sole.single u q' (old h)⟩

theorem Sole.notices (sole : Sole s p q) (live : q.task who.other ∈ s.gRegTaskList.keys) (h : s.Parts r s') :
    s'.notices q who = s.notices q who + if r = p ∧ q.valid = true then 1 else 0 := by
  obtain ⟨q', hq', _, rfl⟩ := h
  refine (notices_enqueueAll live q'.farewells).trans ?_
  rw [Parties.farewells, List.filter_append, List.map_append, List.countP_append]
  by_cases here : r = p
  · subst here
    cases sole.own q' hq'
    rw [told_own, told_own]
    cases who <;> by_cases valid : q.valid = true <;> simp [valid]
  · have other : q'.valid = true → q'.subMemId ≠ q.subMemId := fun valid same =>
      here (sole.single r q' hq' valid same)
    rw [told_foreign other, told_foreign other, if_neg fun h => here h.1]

theorem Sole.run (run : Trace Drv.Parts s ps a) (sole : Sole s p q)
    (live : q.task who.other ∈ s.gRegTaskList.keys) :
    a.notices q who = s.notices q who + if q.valid = true then ps.count p else 0 := by
  induction run with
  | nil => simp
  | @cons s s' a r ps head _ ih =>
    have live' : q.task who.other ∈ s'.gRegTaskList.keys := by
      obtain ⟨_, _, _, rfl⟩ := head
      rw [Drv.apply, enqueueAll_eq]
      exact (keys_postAll s.gRegTaskList _).symm ▸ live
    rw [ih (sole.parts head) live', sole.notices live head, List.count_cons]
    by_cases valid : q.valid = true
    · by_cases here : r = p
      · simp [valid, here, Nat.add_assoc, Nat.add_comm 1]
      · simp [valid, here]
    · simp [valid]

/-- A message of its own beforehand is one more. -/
theorem notices_send {ret : Int} (hq : s.parties? p = some q) (live : ∀ who, q.task who ∈ s.gRegTaskList.keys)
    (room : K.Notifies) (sent : notificationSend K s who .remoteDisconnect p = .ok (ret, s')) :
    s'.notices q who = s.notices q who + if q.valid = true then 1 else 0 := by
  rw [send_parties hq (live _) room sent, notices_enqueueAll (live _), told_own]
  simp

end

def Op.tearsDown : Op → Bool
  | .ioctl _ (.clientDisconnect _) | .ioctl _ (.serverDisconnect _) | .ioctl _ (.clientUnregister _)
  | .ioctl _ (.serverUnregister _) | .release _ => true
  | _ => false

/-- The handlers that send a notice of their own before `delete_connection` sends its two. -/
def Op.tellsItself : Op → Bool
  | .ioctl _ (.clientDisconnect _) | .ioctl _ (.serverDisconnect _) | .ioctl _ (.clientUnregister _) => true
  | _ => false

/-- The connections that a command deletes, found as the command finds them. -/
def Cmd.Severs (s : Drv) (p : Ptr) : Cmd → Prop
  | .clientDisconnect arg | .clientUnregister arg => ∃ k cli, findClientById s (unpackId1 arg) = some k ∧
      s.gClientsList.get? k = some cli ∧ cli.connP = some p
  | .serverDisconnect arg => ∃ v e x, findServerById s (unpackId1 arg) = some v ∧
      serverFindConnBySubMemId s v (unpackId2 arg) = .ok (some e) ∧ s.servConns.get? e = some x ∧ x.conn = p
  | .serverUnregister arg => ∃ v, findServerById s (unpackId1 arg) = some v ∧ s.ListedBy v p
  | _ => False

def Call.Severs (call : Call) (s : Drv) (p : Ptr) : Prop :=
  match call.op with
  | .ioctl filp cmd => filp ∈ s.files.keys ∧ cmd.Severs s p
  | .release filp => ∃ t task, s.files.get? filp = some t ∧ s.gRegTaskList.get? t = some task ∧
      call.kernel.pidAlive task.taskP = true ∧ s.Belongs t p
  | _ => False

/-- The sides for which the call acts. -/
def Call.Initiates (call : Call) (s : Drv) (q : Parties) (side : NotifSender) : Prop :=
  match call.op with
  | .ioctl _ (.clientDisconnect _) | .ioctl _ (.clientUnregister _) => side = .client
  | .ioctl _ (.serverDisconnect _) | .ioctl _ (.serverUnregister _) => side = .server
  | .release filp => s.files.get? filp = some (q.task side)
  | _ => False

/-- The call acts for this side and not for its peer, who survives. -/
def Call.LeavesPeer (call : Call) (s : Drv) (q : Parties) (side : NotifSender) : Prop :=
  call.Initiates s q side ∧ ¬call.Initiates s q side.other

/-- The driver's memory when all notices of the call are sent; a release frees the queue of its own task after that. -/
def Call.sent (call : Call) (s s' : Drv) : Drv :=
  match call.op with
  | .release filp => ((s.files.get? filp).bind fun t => (regTaskEmpty call.kernel s t).toOption).getD s'
  | _ => s'

/-- For every connection torn down the surviving peer is sent one notice, and no side more than one. -/
def Call.NotifiesOnce (call : Call) (s s' : Drv) : Prop :=
  ∀ p ∈ s.gConnsList.keys, p ∉ s'.gConnsList.keys → ∃ q, s.parties? p = some q ∧ ∀ side,
    (call.LeavesPeer s q side → (call.sent s s').notices q side = s.notices q side + 1) ∧
    (call.sent s s').notices q side ≤ s.notices q side + 1

/-- How a call comes by its notices. -/
inductive Call.Course (call : Call) (s s' : Drv) : Prop
  | idle (same : SameNews s s') (none : ∀ p, ¬call.Severs s p)
  | plain {ps : List Ptr} {b : Drv} (run : Trace Drv.Parts s ps b) (severs : ∀ p, p ∈ ps ↔ call.Severs s p)
      (news : SameNews b (call.sent s s')) (conns : s'.gConnsList = b.gConnsList)
      (kept : ∀ t ∈ s'.gRegTaskList.keys, s'.queue t = b.queue t) (handler : call.op.tellsItself = false)
  | twice {p : Ptr} {who : NotifSender} {ret : Int} {s₁ b : Drv}
      (first : notificationSend call.kernel s who .remoteDisconnect p = .ok (ret, s₁)) (parts : s₁.Parts p b)
      (severs : call.Severs s p) (news : SameNews b (call.sent s s')) (conns : s'.gConnsList = b.gConnsList)
      (leaves : ∀ q, call.LeavesPeer s q who) (handler : call.op.tellsItself = true)

section

variable {call : Call} {s s' a b : Drv} {p : Ptr} {q : Parties} {ps : List Ptr} {r : Reply}

theorem other_ne {who : NotifSender} : who.other ≠ who := by
  cases who <;> decide

theorem SameNews.notices (same : SameNews s s') (q : Parties) (who : NotifSender) :
    s'.notices q who = s.notices q who := by
  rw [Drv.notices, same.queue, Drv.notices]

theorem mem_keys_of_parties (hq : s.parties? p = some q) : p ∈ s.gConnsList.keys := by
  obtain ⟨c, _, _, _, sides⟩ := sides_of_parties hq
  exact Table.mem_keys.mpr ⟨c, sides.conn⟩

theorem Parted.gone (parted : Parted s ps b) (conns : s'.gConnsList = b.gConnsList) (hp : p ∈ s.gConnsList.keys) :
    p ∉ s'.gConnsList.keys ↔ p ∈ ps := by
  obtain ⟨c, hc⟩ := Table.mem_keys.mp hp
  rw [conns, Table.mem_keys, parted.conns]
  by_cases gone : p ∈ ps
  · simp [gone]
  · simp [gone, hc]

/-- A run of partings without messages of the handler: each valid connection is told of once. -/
theorem plain_notifiesOnce (orderly : Orderly s) (run : Trace Drv.Parts s ps b)
    (news : SameNews b (call.sent s s')) (conns : s'.gConnsList = b.gConnsList) : call.NotifiesOnce s s' ↔
      ∀ p ∈ ps, ∀ q, s.parties? p = some q → (∃ side, call.LeavesPeer s q side) → q.valid = true := by
  have parted := run.parted
  have told : ∀ p ∈ ps, ∀ q, s.parties? p = some q → ∀ side,
      (call.sent s s').notices q side = s.notices q side + if q.valid = true then 1 else 0 := by
    intro p hp q hq side
    rw [news.notices, (orderly.sole hq).run run (parties_live orderly.wf hq _),
      List.count_eq_one_of_mem parted.nodup hp]
  constructor
  · rintro once p hp q hq ⟨side, leaves⟩
    have here := mem_keys_of_parties hq
    obtain ⟨q', hq', each⟩ := once p here ((parted.gone conns here).mpr hp)
    cases hq.symm.trans hq'
    have one := (each side).1 leaves
    rw [told p hp q hq side] at one
    by_contra silent
    rw [if_neg silent] at one
    omega
  · intro valid p here gone
    have hp := (parted.gone conns here).mp gone
    obtain ⟨q, hq⟩ := parted.known p hp
    refine ⟨q, hq, fun side => ⟨fun leaves => ?_, ?_⟩⟩
    · rw [told p hp q hq side, if_pos (valid p hp q hq ⟨side, leaves⟩)]
    · rw [told p hp q hq side]
      split <;> omega

/-- The handler's message comes on top of those of the parting: the peer gets two, or none. -/
theorem twice_not_notifiesOnce {who : NotifSender} {ret : Int} {s₁ : Drv} (orderly : Orderly s)
    (room : call.kernel.Notifies)
    (first : notificationSend call.kernel s who .remoteDisconnect p = .ok (ret, s₁)) (parts : s₁.Parts p b)
    (news : SameNews b (call.sent s s')) (conns : s'.gConnsList = b.gConnsList)
    (leaves : ∀ q, call.LeavesPeer s q who) : ¬call.NotifiesOnce s s' := by
  intro once
  obtain ⟨ds, rfl, _⟩ := notificationSend_list first
  have same := parties_enqueueAll s ds
  have parted := (Trace.single parts).parted
  obtain ⟨q, hq⟩ := parted.known p List.mem_cons_self
  rw [same] at hq
  have gone : p ∉ s'.gConnsList.keys := by
    refine (parted.gone conns ?_).mpr List.mem_cons_self
    rw [conns_enqueueAll]
    exact mem_keys_of_parties hq
  obtain ⟨q', hq', each⟩ := once p (mem_keys_of_parties hq) gone
  cases hq.symm.trans hq'
  have sole := orderly.sole hq
  have sole₁ : Sole (s.enqueueAll ds) p q :=
    ⟨fun q' h => sole.own q' (same p ▸ h), fun r q' h => sole.single r q' (same r ▸ h)⟩
  have live := parties_live orderly.wf hq
  have live₁ : q.task who.other ∈ (s.enqueueAll ds).gRegTaskList.keys := by
    rw [enqueueAll_eq]
    exact (keys_postAll s.gRegTaskList ds).symm ▸ live _
  have one := (each who).1 (leaves q)
  rw [news.notices, sole₁.notices live₁ parts, notices_send hq live room first] at one
  by_cases valid : q.valid = true
  · simp [valid] at one
  · simp [valid] at one

theorem Call.Course.notifiesOnce (course : call.Course s s') (orderly : Orderly s) (room : call.kernel.Notifies) :
    call.NotifiesOnce s s' ↔ ∀ p, call.Severs s p → call.op.tellsItself = false ∧
      ∀ q, s.parties? p = some q → (∃ side, call.LeavesPeer s q side) → q.valid = true := by
  cases course with
  | idle same none =>
    constructor
    · exact fun _ p severs => absurd severs (none p)
    · exact fun _ p here gone => absurd (same.conns ▸ here) gone
  | plain run severs news conns _ handler =>
    rw [plain_notifiesOnce orderly run news conns]
    constructor
    · exact fun valid p hp => ⟨handler, valid p ((severs p).mpr hp)⟩
    · exact fun valid p hp => (valid p ((severs p).mp hp)).2
  | twice first parts severs news conns leaves handler =>
    constructor
    · exact fun once => absurd once (twice_not_notifiesOnce orderly room first parts news conns leaves)
    · intro valid
      have silent := (valid _ severs).1
      rw [handler] at silent
      cases silent

/-- A handler that finds nothing to delete, or sends its notice and then deletes what it found. -/
inductive Handles (K : Kernel) (s : Drv) (cmd : Cmd) (who : NotifSender) (s' : Drv) : Prop
  | idle (same : s' = s) (none : ∀ p, ¬cmd.Severs s p)
  | deletes {p : Ptr} {ret : Int} {s₁ b : Drv} (severs : cmd.Severs s p)
      (first : notificationSend K s who .remoteDisconnect p = .ok (ret, s₁)) (parts : s₁.Parts p b)
      (news : SameNews b s')

theorem disconnectClient_parts {K : Kernel} {k : Ptr} {cli : Client} {ret : Int} (wf : Wf s) (room : K.Notifies)
    (hcli : s.gClientsList.get? k = some cli) (hp : cli.connP = some p)
    (hs : notificationSend K s .client .remoteDisconnect p = .ok (ret, a))
    (h : clientCleanupConnection K a k = .ok b) : a.Parts p b := by
  obtain ⟨cli', hcli', done⟩ := clientCleanupConnection_parts (wf.send hs) room h
  rw [notificationSend_frame hs] at hcli'
  obtain rfl := Option.some.inj (hcli.symm.trans hcli')
  rcases done with ⟨idle, _⟩ | ⟨p', hp', parts⟩
  · rw [hp] at idle
    cases idle
  · cases hp.symm.trans hp'
    exact parts

theorem clientDisconnect_handles {K : Kernel} {arg : U32} (wf : Wf s) (room : K.Notifies)
    (h : clientDisconnect K s arg = .ok (r, s')) : Handles K s (.clientDisconnect arg) .client s' := by
  rcases clientDisconnect_calls h with ⟨_, same, idle⟩ | ⟨k, cli, p, ret, s₁, hk, hcli, hp, hs, hc⟩
  · refine .idle same ?_
    rintro p ⟨k, cli, hk, hcli, hp⟩
    rw [idle k cli hk hcli] at hp
    cases hp
  · exact .deletes ⟨k, cli, hk, hcli, hp⟩ hs (disconnectClient_parts wf room hcli hp hs hc) .refl

theorem clientUnregister_handles {K : Kernel} {arg : U32} (wf : Wf s) (room : K.Notifies)
    (h : clientUnregister K s arg = .ok (r, s')) : Handles K s (.clientUnregister arg) .client s' := by
  rcases clientUnregister_calls h with ⟨_, same, idle⟩ | ⟨k, cli, p, ret, s₀, s₁, cli₁, hk, hcli, hp, hs, hc, _, hd⟩
  · refine .idle same ?_
    rintro p ⟨k, cli, hk, hcli, hp⟩
    rw [idle k cli hk hcli] at hp
    cases hp
  · exact .deletes ⟨k, cli, hk, hcli, hp⟩ hs (disconnectClient_parts wf room hcli hp hs hc)
      (regTaskDeleteClient_sameNews hd)

theorem serverDisconnect_handles {K : Kernel} {arg : U32} (wf : Wf s) (room : K.Notifies)
    (h : serverDisconnect K s arg = .ok (r, s')) : Handles K s (.serverDisconnect arg) .server s' := by
  rcases serverDisconnect_calls h with ⟨same, alone⟩ | ⟨v, e, x, ret, s₁, hv, hf, hx, hxv, hs, hc⟩
  · refine .idle same ?_
    rintro p ⟨v, e, x, hv, hf, hx, rfl⟩
    obtain ⟨c, hc, _⟩ := wf.links.entryConn e x hx
    exact (wf.full hc).2.1 (alone v e x c hv hf hx hc)
  · obtain ⟨y, hy, done⟩ := serverCleanupConnection_parts (wf.send hs) room hc
    rw [notificationSend_frame hs] at hy
    obtain rfl := Option.some.inj (hx.symm.trans hy)
    obtain ⟨_, parts⟩ := done.resolve_left fun other => other.1 hxv
    exact .deletes ⟨v, e, x, hv, hf, hx, rfl⟩ hs parts .refl

theorem Handles.course {filp : Ptr} {cmd : Cmd} {who : NotifSender} (h : Handles call.kernel s cmd who s')
    (hop : call.op = .ioctl filp cmd) (file : filp ∈ s.files.keys) (leaves : ∀ q, call.LeavesPeer s q who)
    (handler : call.op.tellsItself = true) : call.Course s s' := by
  have sent : call.sent s s' = s' := by rw [Call.sent, hop]
  cases h with
  | idle same none =>
    refine .idle (same ▸ .refl) fun p severs => none p ?_
    rw [Call.Severs, hop] at severs
    exact severs.2
  | deletes severs first parts news =>
    refine .twice first parts ?_ ?_ news.conns leaves handler
    · rw [Call.Severs, hop]
      exact ⟨file, severs⟩
    · rw [sent]
      exact news

theorem serverUnregister_course {filp : Ptr} {arg : U32} (wf : Wf s) (room : call.kernel.Notifies)
    (hop : call.op = .ioctl filp (.serverUnregister arg)) (file : filp ∈ s.files.keys)
    (h : serverUnregister call.kernel s arg = .ok (r, s')) : call.Course s s' := by
  have severs : ∀ p, call.Severs s p ↔ ∃ v, findServerById s (unpackId1 arg) = some v ∧ s.ListedBy v p := by
    intro p
    rw [Call.Severs, hop]
    exact and_iff_right file
  have sent : call.sent s s' = s' := by rw [Call.sent, hop]
  unfold serverUnregister at h
  split at h
  next unknown =>
    refine .idle ((returns_ok h).2 ▸ .refl) fun p hp => ?_
    obtain ⟨v, hv, _⟩ := (severs p).mp hp
    rw [unknown] at hv
    cases hv
  next v hv =>
    obtain ⟨s₁, hc, h⟩ := bind_eq_ok.mp h
    obtain ⟨srv, _, h⟩ := bind_eq_ok.mp h
    obtain ⟨s₂, hd, h⟩ := bind_eq_ok.mp h
    obtain ⟨_, rfl⟩ := returns_ok h
    obtain ⟨ps, run, listed⟩ := serverCleanupConnections_parts wf room hc
    obtain ⟨_, none⟩ := serverCleanupConnections_ok hc wf
    have news := regTaskDeleteServer_sameNews hd
    refine .plain run (fun p => ?_) (sent.symm ▸ news) news.conns (fun t _ => news.queue t) (by rw [hop]; rfl)
    rw [severs]
    constructor
    · exact fun hp => ⟨v, hv, listed p hp⟩
    · rintro ⟨v', hv', e, x, hx, own, rfl⟩
      cases hv.symm.trans hv'
      by_contra left
      exact none e x ((run.parted.entries e x).mpr ⟨hx, left⟩) own

theorem ipcRelease_course {filp : Ptr} (wf : Wf s) (room : call.kernel.Notifies) (hop : call.op = .release filp)
    (h : ipcRelease call.kernel s filp = .ok (r, s')) : call.Course s s' := by
  have severs : ∀ p, call.Severs s p ↔ ∃ t task, s.files.get? filp = some t ∧ s.gRegTaskList.get? t = some task ∧
      call.kernel.pidAlive task.taskP = true ∧ s.Belongs t p := by
    intro p
    rw [Call.Severs, hop]
  unfold ipcRelease at h
  split at h
  next closed =>
    refine .idle ((returns_ok h).2 ▸ .refl) fun p hp => ?_
    obtain ⟨t, _, ht, _⟩ := (severs p).mp hp
    rw [closed] at ht
    cases ht
  next t ht =>
    obtain ⟨s₁, hd, h⟩ := bind_eq_ok.mp h
    obtain ⟨_, rfl⟩ := returns_ok h
    obtain ⟨task, htask⟩ := Table.mem_keys.mp (wf.files.live filp t ht)
    rcases regTaskDelete_calls htask hd with ⟨dead, rfl⟩ | ⟨alive, s₁, s₂, s₃, a, loops, rfl⟩
    · refine .idle ⟨fun _ => rfl, rfl⟩ fun p hp => ?_
      obtain ⟨t', task', ht', htask', alive, _⟩ := (severs p).mp hp
      cases ht.symm.trans ht'
      cases htask.symm.trans htask'
      rw [dead] at alive
      cases alive
    · obtain ⟨ps, run, mine, news⟩ := loops.parts wf room
      refine .plain run (fun p => ?_) ?_ news.conns (fun u hu => ?_) (by rw [hop]; rfl)
      · rw [severs, mine]
        constructor
        · exact fun hp => ⟨t, task, ht, htask, alive, hp⟩
        · rintro ⟨t', _, ht', _, _, hp⟩
          cases ht.symm.trans ht'
          exact hp
      · rw [Call.sent, hop]
        simpa only [ht, Option.bind_some, loops.empty, Except.toOption, Option.getD_some] using news
      · have other : u ≠ t := (Table.get?_erase_some.mp (Table.mem_keys.mp hu).choose_spec).1
        refine Eq.trans ?_ (news.queue u)
        simp [Drv.queue, Table.get?_erase, other]

theorem step_course (wf : Wf s) (room : call.kernel.Notifies) (tearsDown : call.op.tearsDown = true)
    (hs : step s call = .ok (r, s')) : call.Course s s' := by
  obtain ⟨K, op⟩ := call
  cases op with
  | release filp => exact ipcRelease_course wf room rfl hs
  | ioctl filp cmd =>
    simp only [step, ipcIoctl] at hs
    split at hs
    next closed =>
      refine .idle ((returns_ok hs).2 ▸ .refl) ?_
      rintro p ⟨file, _⟩
      exact Table.get?_eq_none.mp closed file
    next t ht =>
      have file : filp ∈ s.files.keys := Table.mem_keys.mpr ⟨t, ht⟩
      cases cmd with
      | clientDisconnect arg =>
        exact (clientDisconnect_handles wf room hs).course rfl file (fun _ => ⟨rfl, other_ne⟩) rfl
      | serverDisconnect arg =>
        exact (serverDisconnect_handles wf room hs).course rfl file (fun _ => ⟨rfl, other_ne⟩) rfl
      | clientUnregister arg =>
        exact (clientUnregister_handles wf room hs).course rfl file (fun _ => ⟨rfl, other_ne⟩) rfl
      | serverUnregister arg => exact serverUnregister_course wf room rfl file hs
      | _ => cases tearsDown
  | _ => cases tearsDown

/-- A call that tears connections down keeps to one notice per connection and party exactly if its handler does not
send one of its own and the ids of every connection with a surviving peer are valid. -/
theorem teardown_notifiesOnce (reach : Reachable s) (tearsDown : call.op.tearsDown = true)
    (room : call.kernel.Notifies) (hs : step s call = .ok (r, s')) : call.NotifiesOnce s s' ↔
      ∀ p, call.Severs s p → call.op.tellsItself = false ∧
        ∀ q, s.parties? p = some q → (∃ side, call.LeavesPeer s q side) → q.valid = true :=
  (step_course reach.orderly.wf room tearsDown hs).notifiesOnce reach.orderly room

end

theorem callOf_notifies (pid : Nat) (op : Op) : (callOf pid op).kernel.Notifies := fun _ _ => nofun

/-- The server of two clients goes, and each of them is told once. -/
theorem teardown_notifiesOnce_release : ∃ s s' r, Reachable s ∧ step s (callOf 1 (.release 1)) = .ok (r, s') ∧
    s.gConnsList.keys = [1, 2] ∧ s'.gConnsList.keys = [] ∧ (callOf 1 (.release 1)).NotifiesOnce s s' := by
  have facts : ∃ s, Trace Returns Drv.init twoConnections s ∧ (s.gConnsList.keys = [1, 2] ∧
      (∀ p ∈ s.gConnsList.keys, (s.parties? p).all Parties.valid = true) ∧
      ((step s (callOf 1 (.release 1))).toOption.any fun x => x.2.gConnsList.keys = []) = true) :=
    runCalls_check (by decide)
  obtain ⟨s, run, two, valid, last⟩ := facts
  obtain ⟨⟨r, s'⟩, hs, gone⟩ := (Option.any_eq_true _ _).mp last
  have hs := toOption_eq_some.mp hs
  refine ⟨s, s', r, ⟨_, run⟩, hs, two, of_decide_eq_true gone, ?_⟩
  refine (teardown_notifiesOnce ⟨_, run⟩ rfl (callOf_notifies _ _) hs).mpr fun p _ => ⟨rfl, fun q hq _ => ?_⟩
  have known := valid p (mem_keys_of_parties hq)
  rw [hq] at known
  exact known

/-- A client that disconnects is announced to its server twice. -/
theorem clientDisconnect_notifies_twice : ∃ s s' r, Reachable s ∧
    step s (callOf 2 (.ioctl 2 (.clientDisconnect (packIds 1 0)))) = .ok (r, s') ∧
    s.queue 1 = [] ∧ s'.queue 1 = List.replicate 2 ⟨.client, .remoteDisconnect, 2, 1, 0⟩ ∧
    ¬(callOf 2 (.ioctl 2 (.clientDisconnect (packIds 1 0)))).NotifiesOnce s s' := by
  have facts : ∃ s, Trace Returns Drv.init connectedRun s ∧ (1 ∈ s.gConnsList.keys ∧
      s.parties? 1 = some ⟨2, 1, 0, 2, 1⟩ ∧ s.queue 1 = [] ∧
      ((step s (callOf 2 (.ioctl 2 (.clientDisconnect (packIds 1 0))))).toOption.any fun x =>
        1 ∉ x.2.gConnsList.keys ∧ x.2.queue 1 = List.replicate 2 ⟨.client, .remoteDisconnect, 2, 1, 0⟩) = true) :=
    runCalls_check (by decide)
  obtain ⟨s, run, live, parties, before, last⟩ := facts
  obtain ⟨⟨r, s'⟩, hs, after⟩ := (Option.any_eq_true _ _).mp last
  obtain ⟨gone, queue⟩ := of_decide_eq_true after
  refine ⟨s, s', r, ⟨_, run⟩, toOption_eq_some.mp hs, before, queue, fun once => ?_⟩
  obtain ⟨q, hq, each⟩ := once 1 live gone
  cases parties.symm.trans hq
  have one := (each .client).1 ⟨rfl, other_ne⟩
  have sent : (s'.queue 1).countP (Parties.hears ⟨2, 1, 0, 2, 1⟩ .client) =
      (s.queue 1).countP (Parties.hears ⟨2, 1, 0, 2, 1⟩ .client) + 1 := one
  rw [queue, before] at sent
  revert sent
  decide

end Ripc
