import Ripc.ExchangeSteps

namespace Ripc

/-- The call that was announced last. -/
def lastAsked : List Mark → Option Nat
  | [] => none
  | .asked call _ :: _ => some call
  | _ :: log => lastAsked log

/-- The listener has yet to run the callback for the answer. -/
def Listener.unread : Listener → Bool
  | .test _ | .invoke _ => true
  | _ => false

namespace Exchange

/-- The server's listener is about to announce an answer. -/
def answering {A : Type} (l : Line) (x : Exchange A) : Bool := x.call.any (·.answers l)

/-- A request or an answer that waits to be read is the one that lies in the memory. -/
structure Sound {A : Type} (l : Line) (own : Nat → Nat → Prop) (x : Exchange A) : Prop where
  up : l.Up x.drv
  serverId : x.server.serverId = l.id
  table : ∀ con ∈ x.server.connections, con.clientId = l.clientId ↔ con.subMemId = l.subMemId
  heard : ∀ ntf ∈ x.waiting l, ntf = l.request ∨ l.Hears ntf
  clientHeard : ∀ ntf ∈ x.drv.queue l.clientTask, ntf = l.reply ∨ l.ClientHears ntf
  alone : x.client.Alone
  requests : (x.waiting l).count l.request + (x.answering l).toNat ≤ x.client.requests.length
  replies : (x.drv.queue l.clientTask).count l.reply ≤ x.client.replies.length
  asked : l.request ∈ x.waiting l → ∃ call log, x.log = .asked call x.page :: log
  served : x.answering l = true ∨ l.reply ∈ x.drv.queue l.clientTask ∨ x.client.listener.unread = true →
    ∃ before log, x.log = .served before x.page :: log
  latest : ∀ r ∈ x.client.pending, lastAsked x.log = some r.id
  log : Conforms own x.log

end Exchange

section

variable {A : Type} {l : Line} {lib : Nlohmann} {own : Nat → Nat → Prop} {x y : Exchange A} {s s' : ClientState}

theorem not_hears_request : ¬l.Hears l.request := by
  intro hears
  have own := hears ⟨rfl, rfl⟩
  rw [if_pos (show l.request.senderId = l.clientId from rfl)] at own
  cases own.1

theorem not_clientHears_reply : ¬l.ClientHears l.reply := by
  intro hears
  cases hears rfl rfl

namespace ClientState

theorem callerStep_frame (hs : s.callerStep = some s') :
    s'.requests = s.requests ∧ s'.replies = s.replies ∧ s'.listener = s.listener := by
  unfold callerStep at hs
  split at hs <;> cases hs <;> exact ⟨rfl, rfl, rfl⟩

theorem listenerStep_frame (hs : s.listenerStep = some s') : s'.requests = s.requests ∧ s'.replies = s.replies ∧
    (∀ r ∈ s'.listener.pending, r ∈ s.listener.pending) ∧ (s'.listener.unread = true → s.listener.unread = true) := by
  unfold listenerStep at hs
  split at hs
  next r hl =>
    cases hs
    refine ⟨rfl, rfl, fun q hq => ?_, fun _ => by rw [hl]; rfl⟩
    rw [hl]
    split at hq <;> exact hq
  next r hl =>
    obtain ⟨k, -, hs⟩ := Option.map_eq_some_iff.mp hs
    cases hs
    exact ⟨rfl, rfl, fun q hq => by rw [hl]; exact hq, fun _ => by rw [hl]; rfl⟩
  next r hl =>
    cases hs
    exact ⟨rfl, rfl, fun q hq => by rw [hl]; exact hq, fun unread => absurd unread Bool.false_ne_true⟩
  next r hl =>
    cases hs
    exact ⟨rfl, rfl, fun q hq => absurd hq List.not_mem_nil, fun unread => absurd unread Bool.false_ne_true⟩
  next r hl =>
    cases hs
    exact ⟨rfl, rfl, fun q hq => absurd hq List.not_mem_nil, fun unread => absurd unread Bool.false_ne_true⟩
  next => cases hs

end ClientState

namespace Exchange.Sound

theorem idle (h : Sound l own x) (none : x.client.pending = []) : l.request ∉ x.waiting l ∧ x.answering l = false ∧
    l.reply ∉ x.drv.queue l.clientTask ∧ x.client.listener.unread = false := by
  obtain ⟨listening, replies, requests⟩ := ClientState.pending_eq_nil.mp none
  have asked := h.requests
  have answered := h.replies
  rw [requests, List.length_nil] at asked
  rw [replies, List.length_nil] at answered
  refine ⟨List.count_eq_zero.mp (by omega), ?_, List.count_eq_zero.mp (by omega), ?_⟩
  · cases ha : x.answering l with
    | false => rfl
    | true => simp [ha] at asked
  · cases hl : x.client.listener <;> simp_all [Listener.pending, Listener.unread]

theorem setClient (h : Sound l own x) {client : ClientState} {m : Move} (hs : x.client.step m = some client)
    (requests : client.requests = x.client.requests) (replies : client.replies = x.client.replies)
    (pending : ∀ r ∈ client.listener.pending, r ∈ x.client.listener.pending)
    (unread : client.listener.unread = true → x.client.listener.unread = true) :
    Sound l own { x with client } where
  up := h.up
  serverId := h.serverId
  table := h.table
  heard := h.heard
  clientHeard := h.clientHeard
  alone := ClientState.step_alone h.alone hs
  requests := by
    rw [requests]
    exact h.requests
  replies := by
    rw [replies]
    exact h.replies
  asked := h.asked
  served := fun some => h.served (some.imp_right fun some => some.imp_right unread)
  latest := fun r hr => by
    refine h.latest r ?_
    simp only [ClientState.pending, List.mem_append] at hr ⊢
    rw [requests, replies] at hr
    exact hr.imp_left fun hr => hr.imp_left (pending r)
  log := h.log

theorem setPage (h : Sound l own x) (none : x.client.pending = []) (page : Memory) : Sound l own { x with page } := by
  obtain ⟨notAsked, notAnswering, notAnswered, read⟩ := h.idle none
  refine ⟨h.up, h.serverId, h.table, h.heard, h.clientHeard, h.alone, h.requests, h.replies,
    fun some => absurd some notAsked, fun some => ?_, h.latest, h.log⟩
  rcases some with answering | answered | unread
  · cases notAnswering.symm.trans answering
  · exact absurd answered notAnswered
  · cases read.symm.trans unread

theorem past (h : Sound l own x) {drv : Drv} (past : l.Past x.drv drv) : Sound l own { x with drv } := by
  obtain ⟨new, server, heard⟩ := past.server
  obtain ⟨new', client, heard'⟩ := past.client
  have waiting : waiting l { x with drv } = x.waiting l ++ new := by
    simp only [Exchange.waiting, server, List.append_assoc]
  have noRequest : l.request ∉ new := fun hr => not_hears_request (heard _ hr)
  have noReply : l.reply ∉ new' := fun hr => not_clientHears_reply (heard' _ hr)
  refine ⟨past.up, h.serverId, h.table, fun ntf hn => ?_, fun ntf hn => ?_, h.alone, ?_, ?_, fun some => ?_,
    fun some => ?_, h.latest, h.log⟩
  · rw [waiting] at hn
    exact (List.mem_append.mp hn).elim (h.heard ntf) fun hn => Or.inr (heard ntf hn)
  · rw [client] at hn
    exact (List.mem_append.mp hn).elim (h.clientHeard ntf) fun hn => Or.inr (heard' ntf hn)
  · rw [waiting, List.count_append, List.count_eq_zero.mpr noRequest]
    exact h.requests
  · rw [client, List.count_append, List.count_eq_zero.mpr noReply]
    exact h.replies
  · rw [waiting] at some
    exact h.asked ((List.mem_append.mp some).resolve_right noRequest)
  · rw [client] at some
    refine h.served (some.imp_right fun some => some.imp_left fun some => ?_)
    exact (List.mem_append.mp some).resolve_right noReply

theorem drop (h : Sound l own x) {drv : Drv} (pending : Option NotificationData) (up : l.Up drv)
    (server : (pending.toList ++ drv.queue l.task).Sublist (x.waiting l))
    (client : (drv.queue l.clientTask).Sublist (x.drv.queue l.clientTask)) : Sound l own { x with drv, pending } where
  up := up
  serverId := h.serverId
  table := h.table
  heard := fun ntf hn => h.heard ntf (server.subset hn)
  clientHeard := fun ntf hn => h.clientHeard ntf (client.subset hn)
  alone := h.alone
  requests := Nat.le_trans (Nat.add_le_add_right (server.count_le l.request) _) h.requests
  replies := Nat.le_trans (client.count_le l.reply) h.replies
  asked := fun some => h.asked (server.subset some)
  served := fun some => h.served (some.imp_right fun some => some.imp_left fun some => client.subset some)
  latest := h.latest
  log := h.log

theorem setServer (h : Sound l own x) (server : ServerEnd A) (app : A)
    (serverId : server.serverId = x.server.serverId)
    (table : ∀ con ∈ server.connections, con ∈ x.server.connections) : Sound l own { x with server, app } where
  up := h.up
  serverId := serverId.trans h.serverId
  table := fun con hc => h.table con (table con hc)
  heard := h.heard
  clientHeard := h.clientHeard
  alone := h.alone
  requests := h.requests
  replies := h.replies
  asked := h.asked
  served := h.served
  latest := h.latest
  log := h.log

end Exchange.Sound

theorem driver_some {call : Call} {r : Reply} (h : x.driver call = some (r, y)) :
    ∃ drv, step x.drv call = .ok (r, drv) ∧ y = { x with drv } := by
  unfold Exchange.driver at h
  split at h
  next => cases h
  next r' drv hs =>
    cases h
    exact ⟨drv, hs, rfl⟩

theorem Exchange.Sound.announce (h : Exchange.Sound l own x) {K : Kernel} {c : Request}
    (hc : x.client.caller = .announce c) (hs : x.announce l K c = some y) : Exchange.Sound l own y := by
  have empty := h.alone.composing (by rw [hc]; rfl)
  have unsent : x.client.step (.endWriting false) = some (x.client.announced c false) := by
    simp only [ClientState.step, hc]
  have refused := h.setClient unsent rfl rfl (fun _ hr => hr) id
  unfold Exchange.announce at hs
  split at hs
  next =>
    cases hs
    exact refused
  next =>
    obtain ⟨⟨r, z⟩, hd, hy⟩ := Option.map_eq_some_iff.mp hs
    obtain ⟨drv, hstep, rfl⟩ := driver_some hd
    simp only [Ripc.step, ipcIoctl, h.up.clientFile] at hstep
    rcases clientEndWriting_own h.up (unpackId1_packIds h.up.clientValid (by decide)) hstep with
      ⟨neg, rfl⟩ | ⟨zero, sends⟩
    · cases hy
      simpa only [Int.not_le.mpr neg, decide_false, if_false] using refused
    · cases hy
      obtain ⟨notAsked, notAnswering, notAnswered, read⟩ := h.idle empty
      obtain ⟨listening, replies, requests⟩ := ClientState.pending_eq_nil.mp empty
      have ok : (0 : Int) ≤ r.ret := by omega
      have server : drv.queue l.task = x.drv.queue l.task ++ [l.request] := sends.server
      have client : drv.queue l.clientTask = x.drv.queue l.clientTask := sends.client.trans (List.append_nil _)
      have waiting : x.pending.toList ++ drv.queue l.task = x.waiting l ++ [l.request] := by
        rw [server, ← List.append_assoc]
        rfl
      simp only [ok, decide_true, if_true]
      have sent : x.client.step (.endWriting true) = some (x.client.announced c true) := by
        simp only [ClientState.step, hc]
      have alone := ClientState.step_alone h.alone sent
      refine ⟨sends.up, h.serverId, h.table, fun ntf hn => ?_, fun ntf hn => ?_, alone, ?_,
        ?_, fun _ => ⟨c.id, x.log, rfl⟩, fun some => ?_, fun q hq => ?_, .asked c.id x.page h.log⟩
      · rw [Exchange.waiting, waiting] at hn
        exact (List.mem_append.mp hn).elim (h.heard ntf) fun hn => Or.inl (List.mem_singleton.mp hn)
      · rw [client] at hn
        exact h.clientHeard ntf hn
      · rw [Exchange.waiting, waiting, List.count_append, List.count_eq_zero.mpr notAsked, Exchange.answering]
        rw [Exchange.answering] at notAnswering
        simp [notAnswering, ClientState.announced, requests]
      · rw [client, List.count_eq_zero.mpr notAnswered]
        exact Nat.zero_le _
      · rcases some with answering | answered | unread
        · cases notAnswering.symm.trans answering
        · rw [client] at answered
          exact absurd answered notAnswered
        · cases read.symm.trans unread
      · have now : (x.client.announced c true).pending = [c] := by
          simp [ClientState.announced, ClientState.pending, listening, replies, requests]
        rw [now] at hq
        cases List.mem_singleton.mp hq
        rfl

theorem Exchange.Sound.caller (h : Exchange.Sound l own x) {url : StdString}
    {out : Option (WriteBufferView → WriteBufferView)} {client : ClientState}
    (hs : x.client.step .caller = some client) :
    Exchange.Sound l own { x with
      client
      page := match x.client.caller with
        | .write _ => callWrites url out x.page
        | _ => x.page } := by
  obtain ⟨requests, replies, listener⟩ := ClientState.callerStep_frame hs
  have next := h.setClient hs requests replies (by rw [listener]; exact fun _ hr => hr) (by rw [listener]; exact id)
  split
  next c hc =>
    have empty := h.alone.composing (by rw [hc]; rfl)
    refine next.setPage ?_ _
    simp only [ClientState.pending, requests, replies, listener]
    exact empty
  next => exact next

theorem Exchange.Sound.take (h : Exchange.Sound l own x) {drv : Drv} {client : ClientState} (up : l.Up drv)
    (queue : x.drv.queue l.clientTask = l.reply :: drv.queue l.clientTask)
    (server : drv.queue l.task = x.drv.queue l.task) (hs : x.client.step .take = some client) :
    Exchange.Sound l own { x with drv, client } := by
  have answered : l.reply ∈ x.drv.queue l.clientTask := queue ▸ List.mem_cons_self
  have alone := ClientState.step_alone h.alone hs
  have replies := h.replies
  rw [queue, List.count_cons_self] at replies
  have waiting : Exchange.waiting l { x with drv, client } = x.waiting l := by
    simp only [Exchange.waiting, server]
  simp only [ClientState.step] at hs
  split at hs
  next r rest hl hr =>
    cases hs
    rw [hr, List.length_cons] at replies
    refine ⟨up, h.serverId, h.table, fun ntf hn => h.heard ntf (waiting ▸ hn), fun ntf hn => h.clientHeard ntf ?_,
      alone, ?_, Nat.le_of_succ_le_succ replies, fun some => h.asked (waiting ▸ some),
      fun _ => h.served (Or.inr (Or.inl answered)),
      fun q hq => h.latest q ?_, h.log⟩
    · rw [queue]
      exact List.mem_cons_of_mem _ hn
    · rw [waiting]
      exact h.requests
    · simpa [ClientState.pending, Listener.pending, hl, hr] using hq
  next => cases hs

theorem Exchange.Sound.hear (h : Exchange.Sound l own x) {K : Kernel} (hs : x.act l lib (.hear K) = some y) :
    Exchange.Sound l own y := by
  simp only [Exchange.act] at hs
  split at hs
  next =>
    obtain ⟨⟨r, z⟩, hd, hy⟩ := Option.bind_eq_some_iff.mp hs
    obtain ⟨drv, hstep, rfl⟩ := driver_some hd
    rcases h.up.clientReads (Nat.le_refl _) hstep with ⟨rfl, nothing⟩ | ⟨d, queue, up, server, only⟩
    · split at hy
      next ntf hout => exact absurd hout (nothing ntf)
      next => cases hy; exact h
    · have shorter : (drv.queue l.clientTask).Sublist (x.drv.queue l.clientTask) := queue ▸ List.sublist_cons_self d _
      have same : (x.pending.toList ++ drv.queue l.task).Sublist (x.waiting l) := by
        rw [server]
        exact List.Sublist.refl _
      have dropped : Exchange.Sound l own { x with drv } := h.drop _ up same shorter
      split at hy
      next ntf hout =>
        cases only ntf hout
        simp only [Exchange.hear] at hy
        split at hy
        next mine =>
          split at hy
          next => cases hy; exact dropped
          next type =>
            obtain ⟨client, taken, hy⟩ := Option.map_eq_some_iff.mp hy
            cases hy
            have reply : d = l.reply := by
              refine (h.clientHeard d (queue ▸ List.mem_cons_self)).resolve_right fun hears => ?_
              have other := hears mine.2.1 mine.2.2
              rw [type] at other
              cases other
            exact h.take up (reply ▸ queue) server taken
          next => cases hy
        next => cases hy; exact dropped
      next => cases hy; exact dropped
  next => cases hs

/-- The callback that reads the page is that of `own`. -/
def Exchange.Owned (own : Nat → Nat → Prop) (x : Exchange A) : Prop :=
  ∀ r call, x.client.listener = .invoke r → x.client.callback = some call → own r.id call

theorem Exchange.Sound.listen (h : Exchange.Sound l own x) (owned : x.Owned own) (hs : x.listen = some y) :
    Exchange.Sound l own y := by
  obtain ⟨client, hstep, hy⟩ := Option.map_eq_some_iff.mp hs
  cases hy
  obtain ⟨requests, replies, pending, unread⟩ := ClientState.listenerStep_frame hstep
  have next := h.setClient hstep requests replies pending unread
  split
  next r call hl hcall =>
    -- the answer that is being handled is all that is under way
    obtain ⟨before, rest, hlog⟩ := h.served (Or.inr (Or.inr (by rw [hl]; rfl)))
    have single := h.alone.single
    simp only [ClientState.pending, hl, Listener.pending, List.length_append, List.length_singleton] at single
    have latest := h.latest r (by simp [ClientState.pending, hl, Listener.pending])
    have asking := h.requests
    have answered := h.replies
    have none : (x.waiting l).count l.request = 0 ∧ (x.answering l).toNat = 0 ∧
        (x.drv.queue l.clientTask).count l.reply = 0 := by omega
    have cleared : client.listener.unread = false := by
      simp only [ClientState.step, ClientState.listenerStep, hl] at hstep
      obtain ⟨_, -, hstep⟩ := Option.map_eq_some_iff.mp hstep
      cases hstep
      rfl
    have conforms := h.log
    rw [hlog] at conforms
    cases conforms with
    | @served rest asked page after conforms =>
      refine ⟨next.up, next.serverId, next.table, next.heard, next.clientHeard, next.alone, next.requests, next.replies,
        fun some => absurd some (List.count_eq_zero.mp none.1), fun some => ?_, fun q hq => next.latest q hq, ?_⟩
      · rcases some with answering | answered | unread
        · rw [show x.answering l = true from answering] at none
          cases none.2.1
        · exact absurd answered (List.count_eq_zero.mp none.2.2)
        · cases cleared.symm.trans unread
      · rw [hlog] at latest ⊢
        have mine : own asked call := by
          cases latest
          exact owned r call hl hcall
        exact .given mine (.served _ conforms)
  next => exact next

theorem Exchange.Sound.read (h : Exchange.Sound l own x) {K : Kernel} (hs : x.act l lib (.read K) = some y) :
    Exchange.Sound l own y := by
  simp only [Exchange.act] at hs
  split at hs
  next free =>
    obtain ⟨⟨r, z⟩, hd, hy⟩ := Option.map_eq_some_iff.mp hs
    obtain ⟨drv, hstep, rfl⟩ := driver_some hd
    rcases h.up.serverReads (Nat.le_refl _) hstep with ⟨rfl, nothing⟩ | ⟨d, queue, up, client, only⟩
    · split at hy
      next ntf hout => exact absurd hout (nothing ntf)
      next => cases hy; exact h
    · have same : (drv.queue l.clientTask).Sublist (x.drv.queue l.clientTask) := by rw [client]
      have all : x.waiting l = d :: drv.queue l.task := by rw [Exchange.waiting, free.1, queue]; rfl
      split at hy
      next ntf hout =>
        cases only ntf hout
        cases hy
        refine h.drop (some d) up ?_ same
        rw [all]
        exact List.Sublist.refl _
      next =>
        cases hy
        refine h.drop x.pending up ?_ same
        rw [all, free.1]
        exact List.sublist_cons_self d _
  next => cases hs

theorem Exchange.Sound.handled (h : Exchange.Sound l own x) {handled : ServerHandled A}
    (page : (handled.server.pages l.subMemId).getD x.page = x.page)
    (silent : handled.call.any (·.answers l) = false) (serverId : handled.server.serverId = l.id)
    (table : ∀ con ∈ handled.server.connections, con.clientId = l.clientId ↔ con.subMemId = l.subMemId) :
    Exchange.Sound l own { x with
      server := handled.server
      app := handled.app
      page := (handled.server.pages l.subMemId).getD x.page
      pending := none
      call := handled.call
      log := if handled.call.any (·.answers l) then
        .served x.page ((handled.server.pages l.subMemId).getD x.page) :: x.log else x.log } := by
  have fewer : (x.drv.queue l.task).Sublist (x.waiting l) := List.sublist_append_right _ _
  rw [silent, page]
  have dropped := h.drop none h.up fewer (List.Sublist.refl _)
  refine ⟨dropped.up, serverId, table, dropped.heard, dropped.clientHeard, dropped.alone, ?_, dropped.replies,
    dropped.asked, fun some => ?_, dropped.latest, dropped.log⟩
  · refine Nat.le_trans (Nat.add_le_add_left ?_ _) dropped.requests
    rw [Exchange.answering, silent]
    exact Nat.zero_le _
  · refine dropped.served (Or.inr (some.resolve_left fun answering => ?_))
    cases silent.symm.trans answering

theorem Exchange.Sound.answer (h : Exchange.Sound l own x) (hp : x.pending = some l.request) {handled : ServerHandled A}
    (page : Memory) (call : handled.call = none ∨ handled.call = some (.endWriting (packIds l.id l.subMemId)))
    (serverId : handled.server.serverId = l.id)
    (table : ∀ con ∈ handled.server.connections, con.clientId = l.clientId ↔ con.subMemId = l.subMemId) :
    Exchange.Sound l own { x with
      server := handled.server
      app := handled.app
      page
      pending := none
      call := handled.call
      log := if handled.call.any (·.answers l) then .served x.page page :: x.log else x.log } := by
  have all : x.waiting l = l.request :: x.drv.queue l.task := by rw [Exchange.waiting, hp]; rfl
  obtain ⟨asked, rest, hlog⟩ := h.asked (all ▸ List.mem_cons_self)
  -- the request is all that is under way
  have single := h.alone.single
  simp only [ClientState.pending, List.length_append] at single
  have requests := h.requests
  have replies := h.replies
  rw [all, List.count_cons_self] at requests
  have none : (x.drv.queue l.task).count l.request = 0 ∧ (x.drv.queue l.clientTask).count l.reply = 0 ∧
      x.client.listener.pending.length = 0 := by omega
  have notAsked : l.request ∉ x.drv.queue l.task := List.count_eq_zero.mp none.1
  have notAnswered : l.reply ∉ x.drv.queue l.clientTask := List.count_eq_zero.mp none.2.1
  have read : x.client.listener.unread = false := by
    have none := none.2.2
    cases hl : x.client.listener <;> simp_all [Listener.pending, Listener.unread]
  have fewer : (x.drv.queue l.task).Sublist (x.waiting l) := List.sublist_append_right _ _
  have dropped := h.drop Option.none h.up fewer (List.Sublist.refl _)
  rcases call with call | call
  · rw [call]
    refine ⟨h.up, serverId, table, dropped.heard, h.clientHeard, h.alone, ?_, replies, fun some => absurd some notAsked,
      fun some => ?_, h.latest, h.log⟩
    · exact Nat.le_trans (Nat.add_le_add_left (Nat.zero_le _) _) dropped.requests
    · rcases some with answering | answered | unread
      · cases answering
      · exact absurd answered notAnswered
      · cases read.symm.trans unread
  · have answers : (SystemCall.endWriting (packIds l.id l.subMemId)).answers l = true := by
      simp [SystemCall.answers, unpackId2_packIds h.up.valid h.up.subMemValid]
    rw [call, Option.any_some, answers, if_pos rfl]
    refine ⟨h.up, serverId, table, dropped.heard, h.clientHeard, h.alone, ?_, replies, fun some => absurd some notAsked,
      fun _ => ⟨x.page, x.log, rfl⟩, h.latest, ?_⟩
    · show (x.drv.queue l.task).count l.request + (Option.any _ _).toNat ≤ x.client.requests.length
      rw [Option.any_some, answers, none.1]
      simp only [Bool.toNat_true]
      omega
    · have conforms := h.log
      rw [hlog] at conforms ⊢
      exact .served page conforms

/-- What the handling of a notification leaves: no trace on the page, or what the server makes of the request on it. -/
theorem Exchange.Sound.handle_cases (h : Exchange.Sound l own x) {os : KernelAnswers} {ntf : NotificationData}
    (hp : x.pending = some ntf) (hs : x.handle l lib os ntf = some y) :
    y = { x with pending := none } ∨ ∃ handled : ServerHandled A,
      (x.server.seeing l x.page).handleNotification lib (os.seeing l x.page ntf) x.app ntf = .ok handled ∧
      y = { x with
        server := handled.server
        app := handled.app
        page := (handled.server.pages l.subMemId).getD x.page
        pending := none
        call := handled.call
        log := if handled.call.any (·.answers l) then
          .served x.page ((handled.server.pages l.subMemId).getD x.page) :: x.log else x.log } ∧
      handled.server.serverId = l.id ∧
      (∀ con ∈ handled.server.connections, con.clientId = l.clientId ↔ con.subMemId = l.subMemId) ∧
      ((handled.server.pages l.subMemId).getD x.page = x.page ∧ handled.call.any (·.answers l) = false ∨
        ntf = l.request ∧ (handled.call = none ∨ handled.call = some (.endWriting (packIds l.id l.subMemId))) ∧
          ∃ con mem, con.subMemId = l.subMemId ∧ (x.server.seeing l x.page).memory con = .ok mem ∧
            (x.server.seeing l x.page).answer lib x.app con mem = .ok handled) := by
  have all : x.waiting l = ntf :: x.drv.queue l.task := by rw [Exchange.waiting, hp]; rfl
  have shown := ServerEnd.seeing_shown l x.page x.server
  unfold Exchange.handle at hs
  split at hs
  next =>
    split at hs
    next => cases hs
    next handled hh =>
      cases hs
      have heard := h.heard ntf (all ▸ List.mem_cons_self)
      refine Or.inr ⟨handled, hh, rfl, ?_⟩
      cases ServerEnd.handleNotification_handling hh with
      | kept call serverId table page =>
        refine ⟨serverId.trans h.serverId, fun con hc => h.table con (table con hc), Or.inl ⟨?_, ?_⟩⟩
        · rw [page, shown]
        · rw [call]
          rfl
      | connected about type call serverId table page =>
        have about : ntf.For l.id := h.serverId ▸ about
        have hears := heard.resolve_left fun request => by rw [request] at type; cases type
        have hears := hears about
        refine ⟨serverId.trans h.serverId, fun con hc => ?_, Or.inl ⟨?_, ?_⟩⟩
        · rcases table con hc with old | rfl
          · exact h.table con old
          · simp only
            split at hears
            next sender => exact ⟨fun _ => hears.2, fun _ => sender⟩
            next sender => exact ⟨fun same => absurd same sender, fun same => absurd same hears⟩
        · rcases page l.subMemId with same | ⟨here, mapped⟩
          · rw [same, shown]
          · rw [mapped, KernelAnswers.seeing, if_pos here.symm]
            cases os.mapping <;> rfl
        · cases hcall : handled.call with
          | none => rfl
          | some systemCall =>
            cases systemCall with
            | mmap id => rfl
            | endWriting id => exact absurd hcall (call id)
      | @answered con mem about type known sender memory answer tables page call =>
        have about : ntf.For l.id := h.serverId ▸ about
        have named : (x.server.seeing l x.page).serverId = l.id := h.serverId
        have here := h.table con known
        refine ⟨?_, ?_, ?_⟩
        · rw [tables]
          exact h.serverId
        · rw [tables]
          exact h.table
        by_cases mine : con.subMemId = l.subMemId
        · have request : ntf = l.request := by
            refine heard.resolve_right fun hears => ?_
            have hears := hears about
            rw [if_pos (sender.symm.trans (here.mpr mine)), type] at hears
            cases hears.1
          have named : packIds (x.server.seeing l x.page).serverId con.subMemId = packIds l.id l.subMemId := by
            rw [named, mine]
          exact Or.inr ⟨request, call.imp_right fun call => named ▸ call.1, con, mem, mine, memory, answer⟩
        · refine Or.inl ⟨?_, ?_⟩
          · rw [page l.subMemId (Ne.symm mine), shown]
          · rcases call with call | ⟨call, packed⟩
            · rw [call]
              rfl
            · have valid : isIdValid l.id = true ∧ isIdValid con.subMemId = true := by
                by_contra invalid
                exact packed (named ▸ packIds_invalid invalid)
              rw [call, named]
              simpa [SystemCall.answers, unpackId2_packIds valid.1 valid.2] using mine
  next =>
    cases hs
    exact Or.inl rfl

theorem Exchange.Sound.handle (h : Exchange.Sound l own x) {os : KernelAnswers} {ntf : NotificationData}
    (hp : x.pending = some ntf) (hs : x.handle l lib os ntf = some y) : Exchange.Sound l own y := by
  rcases h.handle_cases hp hs with rfl | ⟨handled, -, rfl, serverId, table, ⟨page, silent⟩ | ⟨rfl, call, -⟩⟩
  · exact h.drop none h.up (List.sublist_append_right _ _) (List.Sublist.refl _)
  · exact h.handled page silent serverId table
  · exact h.answer hp _ call serverId table

theorem Exchange.Sound.clearCall (h : Exchange.Sound l own x) : Exchange.Sound l own { x with call := none } where
  up := h.up
  serverId := h.serverId
  table := h.table
  heard := h.heard
  clientHeard := h.clientHeard
  alone := h.alone
  requests := Nat.le_trans (Nat.add_le_add_left (Nat.zero_le _) _) h.requests
  replies := h.replies
  asked := h.asked
  served := fun some => h.served (Or.inr (some.resolve_left fun answering => absurd answering Bool.false_ne_true))
  latest := h.latest
  log := h.log

theorem Exchange.Sound.replied (h : Exchange.Sound l own x) (answering : x.answering l = true) {drv : Drv}
    {client : ClientState} (sends : l.Sends x.drv drv l.reply) (hs : x.client.step .reply = some client) :
    Exchange.Sound l own { x with drv, client, call := none } := by
  have alone := ClientState.step_alone h.alone hs
  have requests := h.requests
  have replies := h.replies
  rw [answering, Bool.toNat_true] at requests
  have server : drv.queue l.task = x.drv.queue l.task := sends.server.trans (List.append_nil _)
  have queue : drv.queue l.clientTask = x.drv.queue l.clientTask ++ [l.reply] := sends.client
  have waiting : x.pending.toList ++ drv.queue l.task = x.waiting l := by rw [server]; rfl
  simp only [ClientState.step] at hs
  split at hs
  next r rest hr =>
    cases hs
    rw [hr, List.length_cons] at requests
    refine ⟨sends.up, h.serverId, h.table, fun ntf hn => h.heard ntf (waiting ▸ hn), fun ntf hn => ?_, alone, ?_, ?_,
      fun some => h.asked (waiting ▸ some), fun _ => h.served (Or.inl answering), fun q hq => h.latest q ?_, h.log⟩
    · rw [queue] at hn
      exact (List.mem_append.mp hn).elim (h.clientHeard ntf) fun hn => Or.inl (List.mem_singleton.mp hn)
    · rw [Exchange.waiting, waiting]
      exact Nat.le_of_succ_le_succ requests
    · rw [queue, List.count_append, List.length_append, List.count_singleton_self]
      exact Nat.add_le_add_right replies 1
    · simpa [ClientState.pending, hr] using hq
  next => cases hs

theorem Exchange.Sound.systemCall (h : Exchange.Sound l own x) {K : Kernel} {call : SystemCall}
    (hc : x.call = some call) (hs : x.systemCall l K call = some y) : Exchange.Sound l own y := by
  obtain ⟨⟨r, z⟩, hd, hy⟩ := Option.bind_eq_some_iff.mp hs
  obtain ⟨drv, hstep, rfl⟩ := driver_some hd
  simp only at hy
  by_cases answers : call.answers l = true
  · cases call with
    | mmap id => cases answers
    | endWriting id =>
      have answering : x.answering l = true := by rw [Exchange.answering, hc]; exact answers
      simp only [SystemCall.op, Ripc.step, ipcIoctl, h.up.file] at hstep
      rcases serverEndWriting_own h.up (of_decide_eq_true answers) hstep with ⟨neg, rfl⟩ | ⟨zero, sends⟩
      · rw [if_neg fun ok => absurd ok.2 (Int.not_le.mpr neg)] at hy
        cases hy
        exact h.clearCall
      · rw [if_pos ⟨answers, by omega⟩] at hy
        obtain ⟨client, replied, hy⟩ := Option.map_eq_some_iff.mp hy
        cases hy
        exact h.replied answering sends replied
  · rw [if_neg fun ok => answers ok.1] at hy
    cases hy
    refine (h.past (h.up.past ?_ hstep)).clearCall
    cases call with
    | mmap id => rfl
    | endWriting id =>
      have other : ¬unpackId2 id = l.subMemId := by simpa [SystemCall.answers] using answers
      exact decide_eq_true fun named => other named.2

theorem disconnect_table {s s' : LibServer} {logs result : Bool} {id : Int}
    (h : s.disconnect logs id = some (result, s')) :
    s'.serverId = s.serverId ∧ ∀ con ∈ s'.connections, con ∈ s.connections := by
  unfold LibServer.disconnect LibServer.disconnectFromClient at h
  split at h
  next => cases h
  next =>
    split at h <;> cases h
    · exact ⟨rfl, fun _ hc => hc⟩
    · exact ⟨rfl, fun _ hc => List.mem_of_mem_eraseP hc⟩

/-- Every move keeps the invariant. -/
theorem Exchange.Sound.act (h : Exchange.Sound l own x) {m : ExchangeMove A} (apart : m.Apart l) (owned : x.Owned own)
    (hs : x.act l lib m = some y) : Exchange.Sound l own y := by
  cases m with
  | other call =>
    obtain ⟨⟨r, z⟩, hd, hy⟩ := Option.map_eq_some_iff.mp hs
    obtain ⟨drv, hstep, rfl⟩ := driver_some hd
    cases hy
    exact h.past (h.up.past apart hstep)
  | application app urls pages =>
    cases hs
    exact h.setServer { x.server with urls, pages } app rfl fun _ hc => hc
  | disconnect logs id =>
    obtain ⟨⟨result, server⟩, gone, hy⟩ := Option.map_eq_some_iff.mp hs
    cases hy
    exact h.setServer _ x.app (disconnect_table gone).1 (disconnect_table gone).2
  | call input =>
    obtain ⟨client, hstep, hy⟩ := Option.map_eq_some_iff.mp hs
    cases hy
    refine h.setClient hstep ?_ ?_ ?_ ?_ <;> simp only [ClientState.step] at hstep <;> split at hstep <;>
      cases hstep <;> simp [ClientState.beginCall]
  | caller url out =>
    obtain ⟨client, hstep, hy⟩ := Option.map_eq_some_iff.mp hs
    cases hy
    exact h.caller hstep
  | endWriting K =>
    simp only [Exchange.act] at hs
    split at hs
    next c hc => exact h.announce hc hs
    next => cases hs
  | hear K => exact h.hear hs
  | listener => exact h.listen owned hs
  | read K => exact h.read hs
  | handle os =>
    obtain ⟨ntf, hp, hy⟩ := Option.bind_eq_some_iff.mp hs
    exact h.handle hp hy
  | systemCall K =>
    obtain ⟨call, hc, hy⟩ := Option.bind_eq_some_iff.mp hs
    exact h.systemCall hc hy

theorem Exchange.Fresh.sound (h : x.Fresh l) : Exchange.Sound l own x := by
  obtain ⟨blocking, running, hclient⟩ := h.client
  have waiting : x.waiting l = x.drv.queue l.task := by rw [Exchange.waiting, h.pending]; rfl
  have notAsked : l.request ∉ x.drv.queue l.task := fun asked => not_hears_request (h.queue _ asked)
  have notAnswered : l.reply ∉ x.drv.queue l.clientTask := fun answered =>
    not_clientHears_reply (h.clientQueue _ answered)
  have notAnswering : x.answering l = false := by rw [Exchange.answering, h.call]; rfl
  refine ⟨h.up, h.serverId, h.table, fun ntf hn => Or.inr (h.queue ntf (waiting ▸ hn)),
    fun ntf hn => Or.inr (h.clientQueue ntf hn), hclient ▸ ClientState.start_alone blocking running, ?_, ?_, ?_, ?_, ?_,
    ?_⟩
  · rw [waiting, List.count_eq_zero.mpr notAsked, notAnswering]
    exact Nat.zero_le _
  · rw [List.count_eq_zero.mpr notAnswered]
    exact Nat.zero_le _
  · exact fun asked => absurd (waiting ▸ asked) notAsked
  · rintro (answering | answered | unread)
    · cases notAnswering.symm.trans answering
    · exact absurd answered notAnswered
    · rw [hclient] at unread
      cases unread
  · intro r hr
    rw [hclient] at hr
    exact absurd hr List.not_mem_nil
  · rw [h.log]
    exact .start

end

end Ripc
