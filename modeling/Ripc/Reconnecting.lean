import Ripc.ClientHistory
import Ripc.IdPack
import Ripc.StaleNotifications

namespace Ripc

namespace RipcClient

variable {c c' : RipcClient} {munmap : Bool} {ntf : NotificationData}

/-- The fields that only requests and their answers are about are the same. -/
def SameRequest (c c' : RipcClient) : Prop :=
  c'.isRequestSent = c.isRequestSent ∧ c'.isRunning = c.isRunning ∧ c'.callback = c.callback

theorem connected_sameRequest {id : Int} {name : List UInt8} {n : Nat} : c.SameRequest (c.connected id name n) := by
  unfold connected mmap
  split
  · exact ⟨rfl, rfl, rfl⟩
  · split <;> exact ⟨rfl, rfl, rfl⟩

theorem handled_newMessage (ready : c.isReady = true) (h : ntf.type = .newMessage) :
    c.handleNotification munmap ntf = { c with callback := none, isRequestSent := false } := by
  simp [handleNotification, h, dispatchNewMessage, ready]

theorem handled_newConnection (h : ntf.type = .newConnection) : c.handleNotification munmap ntf = c := by
  simp [handleNotification, h]

theorem handled_remoteDisconnect (ready : c.isReady = true) (h : ntf.type = .remoteDisconnect) :
    c.handleNotification munmap ntf =
      ({ c with isRunning := false, connectedServerName := [] } : RipcClient).unmap munmap := by
  simp [handleNotification, h, dispatchRemoteDisconnect, ready]

end RipcClient

namespace ClientSession

variable {s s' : ClientSession} {e : ClientEvent}

abbrev Step (s : ClientSession) (e : ClientEvent) (s' : ClientSession) : Prop := s.step e = some s'

/-- The notification that the connected client handles. -/
def handled (s : ClientSession) : ClientEvent → Option NotifType
  | .listen _ => s.queue.head?.bind fun ntf => if s.isFor ntf && s.client.isReady then some ntf.type else none
  | _ => none

def sends (s : ClientSession) : ClientEvent → Bool
  | .call _ ok => s.client.isReady && !s.client.isRequestSent && ok
  | .wake ok =>
    match s.thread with
    | .waitEarlier _ => !s.client.isRequestSent && s.client.isRunning && ok
    | _ => false
  | _ => false

/-- What a step does to the client. -/
inductive ClientStep (s : ClientSession) (e : ClientEvent) (s' : ClientSession) : Prop
  | quiet (same : s.client.SameRequest s'.client) (sends : s.sends e = false) (handled : s.handled e = none)
  | record (input : Option Awaited) (ok : Bool) (free : s.client.isRequestSent = false)
      (client : s'.client = s.client.recordCall s.id input ok) (sends : s.sends e = ok) (handled : s.handled e = none)
  | handle (munmap : Bool) (ntf : NotificationData) (ready : s.client.isReady = true)
      (client : s'.client = s.client.handleNotification munmap ntf) (sends : s.sends e = false)
      (handled : s.handled e = some ntf.type)

theorem whenIdle_eq_some {t : ClientSession} (h : s.whenIdle t = some s') : s' = t ∧ ∃ b, s.thread = .idle b := by
  unfold whenIdle at h
  split at h
  next b hb => exact ⟨(Option.some.inj h).symm, b, hb⟩
  next => cases h

theorem connect_client {name : List UInt8} {made : Option Nat} : (s.connect name made).id = s.id ∧
    s.client.SameRequest (s.connect name made).client := by
  unfold connect
  split
  next => exact ⟨rfl, rfl, rfl, rfl⟩
  next =>
    cases made with
    | none => exact ⟨rfl, rfl, rfl, rfl⟩
    | some n => exact ⟨rfl, RipcClient.connected_sameRequest⟩

theorem disconnect_client {ok munmap : Bool} : (s.disconnect ok munmap).id = s.id ∧
    s.client.SameRequest (s.disconnect ok munmap).client := by
  unfold disconnect
  split <;> exact ⟨rfl, rfl, rfl, rfl⟩

theorem call_client {input : Option Awaited} {ok : Bool} : ClientStep s (.call input ok) (s.call input ok) := by
  by_cases ready : s.client.isReady = true
  · by_cases free : s.client.isRequestSent = true
    · refine .quiet ?_ (by simp [sends, free]) rfl
      simp only [call, ready, free, Bool.not_true, Bool.false_eq_true, if_false, if_true]
      exact ⟨rfl, rfl, rfl⟩
    · rw [Bool.not_eq_true] at free
      refine .record input ok free ?_ (by simp [sends, ready, free]) rfl
      simp only [call, ready, free, Bool.not_true, Bool.false_eq_true, if_false]
      rfl
  · refine .quiet ?_ (by simp [sends, ready]) rfl
    simp only [call, ready, Bool.not_false, if_true]
    exact ⟨rfl, rfl, rfl⟩

theorem wake_client {ok : Bool} (h : s.wake ok = some s') : s'.id = s.id ∧ ClientStep s (.wake ok) s' := by
  unfold wake at h
  split at h
  next => cases h
  next input hthread =>
    cases Option.some.inj h
    by_cases goOn : s.client.mayGoOn = true
    · by_cases running : s.client.isRunning = true
      · have free : s.client.isRequestSent = false := by simpa [RipcClient.mayGoOn, running] using goOn
        simp only [goOn, running, if_true]
        exact ⟨rfl, .record input ok free rfl (by simp [sends, hthread, free, running]) rfl⟩
      · simp only [goOn, running, if_true]
        exact ⟨rfl, .quiet ⟨rfl, rfl, rfl⟩ (by simp [sends, hthread, running]) rfl⟩
    · have waiting : s.client.isRequestSent = true := by
        by_contra sent
        simp [RipcClient.mayGoOn, sent] at goOn
      simp only [goOn]
      exact ⟨rfl, .quiet ⟨rfl, rfl, rfl⟩ (by simp [sends, hthread, waiting]) rfl⟩
  next hthread =>
    cases Option.some.inj h
    have sends : s.sends (.wake ok) = false := by simp [sends, hthread]
    split <;> exact ⟨rfl, .quiet ⟨rfl, rfl, rfl⟩ sends rfl⟩

theorem listen_client {munmap : Bool} (h : s.listen munmap = some s') :
    s'.id = s.id ∧ ClientStep s (.listen munmap) s' := by
  unfold listen at h
  split at h
  next => cases h
  next ntf queue hq =>
    cases Option.some.inj h
    have kept : ({ s with queue } : ClientSession).isFor ntf = s.isFor ntf := rfl
    unfold dispatch
    rw [kept]
    by_cases own : s.isFor ntf = true
    · rw [if_pos own]
      refine ⟨rfl, ?_⟩
      by_cases ready : s.client.isReady = true
      · exact .handle munmap ntf ready rfl rfl (by simp [handled, hq, own, ready])
      · rw [Bool.not_eq_true] at ready
        refine .quiet ?_ rfl (by simp [handled, hq, ready])
        rw [RipcClient.handleNotification_notReady ready]
        exact ⟨rfl, rfl, rfl⟩
    · rw [if_neg own]
      exact ⟨rfl, .quiet ⟨rfl, rfl, rfl⟩ rfl (by simp [handled, hq, own])⟩

theorem step_client (h : s.Step e s') : s'.id = s.id ∧ ClientStep s e s' := by
  cases e with
  | connect name made =>
    obtain ⟨rfl, -⟩ := whenIdle_eq_some h
    exact ⟨connect_client.1, .quiet connect_client.2 rfl rfl⟩
  | disconnect ok munmap =>
    obtain ⟨rfl, -⟩ := whenIdle_eq_some h
    exact ⟨disconnect_client.1, .quiet disconnect_client.2 rfl rfl⟩
  | setBlockingMode mode =>
    cases Option.some.inj h
    exact ⟨rfl, .quiet ⟨rfl, rfl, rfl⟩ rfl rfl⟩
  | call input ok =>
    obtain ⟨rfl, -⟩ := whenIdle_eq_some h
    refine ⟨?_, call_client⟩
    unfold call
    split
    · rfl
    · split <;> rfl
  | wake ok => exact wake_client h
  | arrive ntf =>
    cases Option.some.inj h
    exact ⟨rfl, .quiet ⟨rfl, rfl, rfl⟩ rfl rfl⟩
  | listen munmap => exact listen_client h

/-- A new client in the same mode after the same connect. -/
def Fresh (s : ClientSession) (name : List UInt8) (made : Option Nat) : Prop :=
  ((created s.id).step (.setBlockingMode s.isUsingBlocking)).bind (·.step (.connect name made)) = some s

/-- What a `connect` should leave behind: the client is as good as new, and so its next call is sent, and in blocking
mode it waits for its reply and reports it. -/
structure Restored (s : ClientSession) (name : List UInt8) (made : Option Nat) : Prop where
  fresh : s.Fresh name made
  sent : ∀ input t, s.Step (.call input true) t → t.client.isRequestSent = true ∧ t.client.callback = input ∧
    t.thread = if s.isUsingBlocking then .waitReply else .idle true
  reported : s.isUsingBlocking = true → ∀ input t es u, s.Step (.call input true) t →
    Trace (fun a e b => a.handled e = none ∧ a.Step e b) t es u → u.thread = .waitReply ∧
      ∀ e v ok w, u.handled e = some .newMessage → u.Step e v → v.Step (.wake ok) w → w.thread = .idle true

theorem isRunning_step (h : s.Step e s') :
    s'.client.isRunning = true ↔ s.client.isRunning = true ∧ s.handled e ≠ some .remoteDisconnect := by
  obtain ⟨same, -, handled⟩ | ⟨input, ok, -, client, -, handled⟩ | ⟨munmap, ntf, ready, client, -, handled⟩ :=
    (step_client h).2
  · rw [same.2.1, handled]
    simp
  · rw [client, handled, RipcClient.recordCall]
    split <;> simp
  · rw [client, handled]
    cases htype : ntf.type with
    | newConnection => simp [RipcClient.handled_newConnection htype]
    | newMessage => simp [RipcClient.handled_newMessage ready htype]
    | remoteDisconnect => simp [RipcClient.handled_remoteDisconnect ready htype, RipcClient.unmap]

theorem isRequestSent_step (valid : isIdValid s.id = true) (h : s.Step e s') : s'.client.isRequestSent = true ↔
    s.sends e = true ∨ s.client.isRequestSent = true ∧ ¬s.handled e = some .newMessage := by
  obtain ⟨same, sends, handled⟩ | ⟨input, ok, free, client, sends, handled⟩ |
    ⟨munmap, ntf, ready, client, sends, handled⟩ := (step_client h).2
  · rw [same.1, sends, handled]
    simp
  · rw [client, sends, free, RipcClient.recordCall]
    cases ok <;> simp [packIds_ne_packError valid]
  · rw [client, handled, sends]
    cases htype : ntf.type with
    | newConnection => simp [RipcClient.handled_newConnection htype]
    | newMessage => simp [RipcClient.handled_newMessage ready htype]
    | remoteDisconnect => simp [RipcClient.handled_remoteDisconnect ready htype, RipcClient.unmap]

/-- A callback is kept only for a request that is outstanding. -/
def Owed (c : RipcClient) : Prop := c.isRequestSent = false → c.callback = none

theorem owed_step (owed : Owed s.client) (h : s.Step e s') : Owed s'.client := by
  obtain ⟨same, -, -⟩ | ⟨input, ok, free, client, -, -⟩ | ⟨munmap, ntf, ready, client, -, -⟩ := (step_client h).2
  · unfold Owed
    rw [same.1, same.2.2]
    exact owed
  · rw [client, RipcClient.recordCall]
    split
    · intro sent
      cases sent
    · exact fun _ => owed free
  · rw [client]
    cases htype : ntf.type with
    | newConnection =>
      rw [RipcClient.handled_newConnection htype]
      exact owed
    | newMessage =>
      rw [RipcClient.handled_newMessage ready htype]
      exact fun _ => rfl
    | remoteDisconnect =>
      rw [RipcClient.handled_remoteDisconnect ready htype]
      exact owed

theorem connected_eq {c : RipcClient} {id : Int} {name : List UInt8} {n : Nat} (valid : isIdValid id = true) :
    c.connected id name n = { c with isMapped := true, connectedServerName := name, connection := some n } := by
  unfold RipcClient.connected RipcClient.mmap
  split
  next mapped => rw [← mapped]
  next => rw [if_neg (packIds_ne_packError valid)]

theorem connect_success {name : List UInt8} {made : Option Nat} (h : s.Step (.connect name made) s')
    (success : s'.thread = .idle true) : ∃ n, made = some n ∧ (name ≠ [] ∧ name.length < maxServerName) ∧
      s' = { s with client := s.client.connected s.id name n, thread := .idle true } := by
  obtain ⟨rfl, -⟩ := whenIdle_eq_some h
  unfold connect at success ⊢
  split at success
  next => cases success
  next named =>
    obtain ⟨named, short⟩ := not_or.mp named
    cases made with
    | none => cases success
    | some n => exact ⟨n, rfl, ⟨named, Nat.lt_of_not_le short⟩, if_neg (not_or.mpr ⟨named, short⟩)⟩

theorem fresh_iff {name : List UInt8} {made : Option Nat} (valid : isIdValid s.id = true) (owed : Owed s.client)
    (h : s.Step (.connect name made) s') (success : s'.thread = .idle true) (empty : s'.queue = []) :
    s'.Fresh name made ↔ s.client.isRunning = true ∧ s.client.isRequestSent = false := by
  obtain ⟨n, rfl, ⟨named, short⟩, rfl⟩ := connect_success h success
  have anew : ((created s.id).step (.setBlockingMode s.isUsingBlocking)).bind (·.step (.connect name (some n))) =
      some { s with
        client := { RipcClient.new with isMapped := true, connectedServerName := name, connection := some n }
        thread := .idle true } := by
    have accepted : ¬(name = [] ∨ maxServerName ≤ name.length) := not_or.mpr ⟨named, by omega⟩
    simp only at empty
    simp [step, whenIdle, created, connect, accepted, connected_eq valid, empty]
  unfold Fresh
  rw [anew, connected_eq valid, Option.some.injEq]
  constructor
  · intro same
    have client := congrArg ClientSession.client same
    exact ⟨(congrArg RipcClient.isRunning client).symm, (congrArg RipcClient.isRequestSent client).symm⟩
  · rintro ⟨running, free⟩
    rw [running, free, owed free]
    rfl

/-- A client that can take a request, and whose listener is still at work. -/
structure Able (s : ClientSession) : Prop where
  valid : isIdValid s.id = true
  ready : s.client.isReady = true
  running : s.client.isRunning = true
  free : s.client.isRequestSent = false

theorem call_of_able {input : Option Awaited} (able : s.Able) (h : s.Step (.call input true) s') :
    s'.id = s.id ∧ s'.client = { s.client with isRequestSent := true, callback := input } ∧
      s'.thread = if s.isUsingBlocking then .waitReply else .idle true := by
  obtain ⟨rfl, -⟩ := whenIdle_eq_some h
  unfold call
  rw [able.ready, able.free]
  simp [send, RipcClient.recordCall, packIds_ne_packError able.valid]

/-- The thread waits for the reply to its request. -/
structure WaitsForReply (s : ClientSession) : Prop where
  valid : isIdValid s.id = true
  thread : s.thread = .waitReply
  running : s.client.isRunning = true
  sent : s.client.isRequestSent = true

theorem WaitsForReply.thread_step (w : s.WaitsForReply) (h : s.Step e s') : s'.thread = .waitReply := by
  have busy : ∀ t, s.whenIdle t ≠ some s' := by
    intro t ht
    obtain ⟨-, b, hb⟩ := whenIdle_eq_some ht
    rw [w.thread] at hb
    cases hb
  cases e with
  | connect | disconnect | call => exact absurd h (busy _)
  | setBlockingMode | arrive =>
    cases Option.some.inj h
    exact w.thread
  | wake ok =>
    have stay : s.client.mayGoOn = false := by simp [RipcClient.mayGoOn, w.sent, w.running]
    have h : s.wake ok = some s' := h
    simp only [wake, w.thread, stay] at h
    cases h
    exact w.thread
  | listen munmap =>
    have h : s.listen munmap = some s' := h
    unfold listen at h
    split at h
    next => cases h
    next =>
      cases Option.some.inj h
      unfold dispatch
      split <;> exact w.thread

theorem WaitsForReply.step (w : s.WaitsForReply) (quiet : s.handled e = none) (h : s.Step e s') :
    s'.WaitsForReply where
  valid := (step_client h).1 ▸ w.valid
  thread := w.thread_step h
  running := (isRunning_step h).mpr ⟨w.running, by simp [quiet]⟩
  sent := (isRequestSent_step w.valid h).mpr (.inr ⟨w.sent, by simp [quiet]⟩)

theorem WaitsForReply.answered {ok : Bool} {v w : ClientSession} (wait : s.WaitsForReply)
    (answer : s.handled e = some .newMessage) (h : s.Step e v) (hw : v.Step (.wake ok) w) : w.thread = .idle true := by
  have waiting := wait.thread_step h
  have running : v.client.isRunning = true := (isRunning_step h).mpr ⟨wait.running, by simp [answer]⟩
  have free : v.client.isRequestSent = false := by
    have silent : s.sends e = false := by cases e <;> first | rfl | cases answer
    by_contra sent
    have := (isRequestSent_step wait.valid h).mp (by simpa using sent)
    simp [silent, answer] at this
  have hw : v.wake ok = some w := hw
  simp only [wake, waiting, RipcClient.mayGoOn, free, running] at hw
  cases hw
  rfl

theorem Able.restored {name : List UInt8} {made : Option Nat} (able : s.Able) (fresh : s.Fresh name made) :
    s.Restored name made where
  fresh := fresh
  sent := by
    intro input t ht
    obtain ⟨-, client, thread⟩ := call_of_able able ht
    rw [client]
    exact ⟨rfl, rfl, thread⟩
  reported := by
    intro blocking input t es u ht run
    obtain ⟨hid, client, thread⟩ := call_of_able able ht
    have waits : t.WaitsForReply := ⟨hid ▸ able.valid, by rw [thread, if_pos blocking],
      by rw [client]; exact able.running, by rw [client]⟩
    have waits : u.WaitsForReply := run.invariant (fun a e b w h => w.step h.1 h.2) waits
    exact ⟨waits.thread, fun e v ok w answer hv hw => waits.answered answer hv hw⟩

/-- What holds of a client after any history. -/
structure Kept (id : Int) (s : ClientSession) : Prop where
  same : s.id = id
  owed : Owed s.client

theorem Kept.step {id : Int} (k : Kept id s) (h : s.Step e s') : Kept id s' where
  same := (step_client h).1.trans k.same
  owed := owed_step k.owed h

theorem reconnect_restored {id : Int} {es : List ClientEvent} {name : List UInt8} {made : Option Nat}
    (valid : isIdValid id = true) (h : Trace Step (created id) es s) (hc : s.Step (.connect name made) s')
    (success : s'.thread = .idle true) (empty : s'.queue = []) :
    s'.Restored name made ↔
      Trace (fun a e b => a.handled e ≠ some .remoteDisconnect ∧ a.Step e b) (created id) es s ∧
      ¬Trace.Since Step (fun a e => a.sends e = true) (fun a e => a.handled e = some .newMessage)
        (created id) es s := by
  have start : Kept id (created id) := ⟨rfl, fun _ => rfl⟩
  have pres : ∀ a e b, Kept id a → Step a e b → Kept id b := fun a e b k h => k.step h
  have kept : Kept id s := h.invariant pres start
  have running := h.exact_of (P := fun s => s.client.isRunning = true) pres
    (fun a e b _ h => isRunning_step h) start rfl
  have never : ¬(created id).client.isRequestSent = true := by simp [created, RipcClient.new]
  have outstanding := (h.since_of (P := fun s => s.client.isRequestSent = true) pres
    (fun a e b k h => isRequestSent_step (k.same ▸ valid) h) start).trans (or_iff_left fun h => never h.1)
  have fresh := fresh_iff (kept.same ▸ valid) kept.owed hc success empty
  rw [← running, ← outstanding, Bool.not_eq_true, ← fresh]
  refine ⟨Restored.fresh, fun anew => ?_⟩
  obtain ⟨alive, free⟩ := fresh.mp anew
  obtain ⟨n, rfl, ⟨named, -⟩, rfl⟩ := connect_success hc success
  refine Able.restored ⟨kept.same ▸ valid, ?_, ?_, ?_⟩ anew
  · simp [connected_eq (kept.same ▸ valid), RipcClient.isReady, RipcClient.isConnected, named]
  · rw [connected_eq (kept.same ▸ valid)]
    exact alive
  · rw [connected_eq (kept.same ▸ valid)]
    exact free

/-- Both blocking calls are answered before the client goes over to another server. -/
def answeredHistory : List ClientEvent :=
  [.connect [65] (some 1), .setBlockingMode true, .call (some ⟨1, some 0⟩) true,
    .arrive ⟨.server, .newMessage, 1, 0, 2⟩, .listen true, .wake true, .disconnect true true,
    .arrive ⟨.server, .remoteDisconnect, 1, 0, 2⟩, .listen true]

theorem reconnect_restored_answered : ∃ s s', Trace Step (created 2) answeredHistory s ∧
    s.Step (.connect [66] (some 2)) s' ∧ s'.Restored [66] (some 2) ∧
    Trace (fun a e b => a.handled e ≠ some .remoteDisconnect ∧ a.Step e b) (created 2) answeredHistory s ∧
    ¬Trace.Since Step (fun a e => a.sends e = true) (fun a e => a.handled e = some .newMessage) (created 2)
      answeredHistory s := by
  have run : runIf step (fun _ _ => true) (created 2) answeredHistory =
      some ⟨2, ⟨[], false, false, true, none, some 1⟩, true, .idle true, []⟩ := by decide
  have history := (runIf_trace run).mono fun _ _ _ _ h => h.2
  have able : Able ⟨2, ⟨[66], true, false, true, none, some 2⟩, true, .idle true, []⟩ := ⟨rfl, rfl, rfl, rfl⟩
  have restored : Restored _ [66] (some 2) := able.restored rfl
  exact ⟨_, _, history, rfl, restored, (reconnect_restored rfl history (by rfl) (by rfl) (by rfl)).mp restored⟩

/-- The client disconnects before its request is answered. -/
def abandonedHistory : List ClientEvent :=
  [.connect [65] (some 1), .call (some ⟨1, some 0⟩) true, .disconnect true true,
    .arrive ⟨.server, .remoteDisconnect, 1, 0, 2⟩, .listen true]

/-- The server disconnects the client. -/
def severedHistory : List ClientEvent :=
  [.connect [65] (some 1), .setBlockingMode true, .arrive ⟨.server, .remoteDisconnect, 1, 0, 2⟩, .listen true]

/-- After the one history every further call is refused, after the other a blocking call returns at once and reports
a failure, although its request was sent. -/
theorem reconnect_residue :
    (∃ s s' s'', Trace Step (created 2) abandonedHistory s ∧ s.Step (.connect [65] (some 2)) s' ∧
      s'.thread = .idle true ∧ s'.queue = [] ∧ ¬s'.Restored [65] (some 2) ∧
      s'.client.isRequestSent = true ∧ s'.client.callback = some ⟨1, some 0⟩ ∧
      s'.Step (.call none true) s'' ∧ s''.thread = .idle false) ∧
    ∃ s s' s'', Trace Step (created 2) severedHistory s ∧ s.Step (.connect [65] (some 2)) s' ∧
      s'.thread = .idle true ∧ s'.queue = [] ∧ ¬s'.Restored [65] (some 2) ∧ s'.client.isRunning = false ∧
      Trace Step s' [.call none true, .wake true] s'' ∧ s''.client.isRequestSent = true ∧
      s''.thread = .idle false := by
  constructor
  · have run : runIf step (fun _ _ => true) (created 2) abandonedHistory =
        some ⟨2, ⟨[], false, true, true, some ⟨1, some 0⟩, some 1⟩, false, .idle true, []⟩ := by decide
    have history := (runIf_trace run).mono fun _ _ _ _ h => h.2
    refine ⟨_, ⟨2, ⟨[65], true, true, true, some ⟨1, some 0⟩, some 2⟩, false, .idle true, []⟩, _, history, rfl, rfl,
      rfl, fun h => ?_, rfl, rfl, rfl, rfl⟩
    exact absurd h.fresh (by unfold Fresh; decide)
  · have run : runIf step (fun _ _ => true) (created 2) severedHistory =
        some ⟨2, ⟨[], false, false, false, none, some 1⟩, true, .idle true, []⟩ := by decide
    have history := (runIf_trace run).mono fun _ _ _ _ h => h.2
    refine ⟨_, ⟨2, ⟨[65], true, false, false, none, some 2⟩, true, .idle true, []⟩, _, history, rfl, rfl, rfl,
      fun h => ?_, rfl, .cons rfl (.cons rfl .nil), rfl, rfl⟩
    exact absurd h.fresh (by unfold Fresh; decide)

end ClientSession

end Ripc
