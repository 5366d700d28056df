import Ripc.Dispatch
import Ripc.Outcome

namespace Ripc

open BufferView ReadBufferView

section

variable {α : Type} {a : α}

@[simp] theorem onPage_ok : onPage (.ok a) = .ok a := rfl

@[simp] theorem onPage_error (f : MemoryFault) : onPage (.error f : Except MemoryFault α) = .error (.fault f) := rfl

@[simp] theorem throwing_ok : throwing (.ok a) = .ok a := rfl

@[simp] theorem throwing_error (e : CppException) : throwing (.error e : Except CppException α) = .error (.throws e) :=
  rfl

theorem isThrow_throws (e : CppException) : (Stop.throws e).isThrow := trivial

theorem not_isThrow_fault (f : MemoryFault) : ¬(Stop.fault f).isThrow := id

theorem not_isThrow_badPointer : ¬Stop.badPointer.isThrow := id

theorem onPage_outcome (x : Except MemoryFault α) : Outcome Stop.isThrow (onPage x) True (∃ a, x = .ok a) := by
  cases x with
  | ok a => exact .of_ok rfl trivial ⟨a, rfl⟩
  | error f => exact .of_other rfl (not_isThrow_fault f) trivial (by simp)

end

namespace Nlohmann

variable (lib : Nlohmann) (rb : ReadBufferView)

def Parses : Prop := ∀ text, rb.payloadText = some (some text) → text ≠ [] → lib.parse text ≠ none

def payloadValue : Option Json :=
  match rb.payloadText with
  | some (some text) => if text = [] then none else lib.parse text
  | _ => none

variable {lib rb}

theorem payload_eq {text : Option (List UInt8)} (hf : rb.memoryFinalized = false)
    (h : rb.payloadText = some text) :
    lib.payload rb = text.elim (.ok none) fun t => if t = [] then .ok none else (lib.parsed t).map some := by
  obtain ⟨start, r', hr, ht⟩ := getPayload_some hf h
  cases text with
  | none => simp [payload, hr]
  | some t => by_cases hn : t = [] <;> simp [payload, hr, hn, ht t rfl]

theorem payload_ok (hf : rb.memoryFinalized = false) (h : rb.payloadText ≠ none) (hp : lib.Parses rb) :
    lib.payload rb = .ok (lib.payloadValue rb) := by
  obtain ⟨text, ht⟩ := Option.ne_none_iff_exists'.mp h
  rw [payload_eq hf ht]
  cases text with
  | none => simp [payloadValue, ht]
  | some t =>
    by_cases hn : t = []
    · simp [payloadValue, ht, hn]
    · obtain ⟨value, hv⟩ := Option.ne_none_iff_exists'.mp (hp t ht hn)
      simp [payloadValue, ht, hn, parsed, hv, Except.map]

theorem payload_outcome (lib : Nlohmann) (hf : rb.memoryFinalized = false) :
    Outcome Stop.isThrow (lib.payload rb) (lib.Parses rb) (rb.payloadText ≠ none) := by
  by_cases h : rb.payloadText = none
  · obtain ⟨f, hr⟩ := getPayload_none hf h
    exact .of_other (by simp [payload, hr]) (not_isThrow_fault f) (by simp [Parses, h]) (by simp [h])
  · by_cases hp : lib.Parses rb
    · exact .of_ok (payload_ok hf h hp) hp h
    · have text : ∃ t, rb.payloadText = some (some t) ∧ t ≠ [] ∧ lib.parse t = none := by
        simpa [Parses] using hp
      obtain ⟨t, ht, hn, hl⟩ := text
      refine .of_bad ?_ (isThrow_throws .parseError) hp
      rw [payload_eq hf ht]
      simp [hn, parsed, hl, Except.map]

theorem dumped_outcome (value : Json) : Outcome Stop.isThrow (lib.dumped value) (lib.dump value ≠ none) True := by
  cases h : lib.dump value with
  | none => exact .of_bad (by rw [dumped, h]) (isThrow_throws .typeError) (by simp)
  | some text => exact .of_ok (by rw [dumped, h]) (by simp) trivial

end Nlohmann

section

variable {A : Type} {lib : Nlohmann} {app : A} {url : Url} {rb : ReadBufferView} {wb : WriteBufferView}

namespace UrlCallback

/-- The JSON value that the function of a REST handler is given. -/
def requestValue (lib : Nlohmann) (url : Url) (rb : ReadBufferView) (request : RestRequest) : Json :=
  ((request.setUrl url).setPayload (lib.payloadValue rb)).json

/-- A REST handler is sent JSON, and what its function makes of it can be dumped. -/
def Safe (lib : Nlohmann) (app : A) (url : Url) (rb : ReadBufferView) : UrlCallback A → Prop
  | .plain _ _ => True
  | .rest request func =>
    lib.Parses rb ∧ (rb.payloadText ≠ none → lib.dump (func app (requestValue lib url rb request)).2 ≠ none)

/-- The callbacks do not leave the page. -/
def Total (app : A) (url : Url) (rb : ReadBufferView) : UrlCallback A → Prop
  | .plain input _ => ∀ f, input = some f → ∃ app', f app url rb = .ok app'
  | .rest _ _ => rb.payloadText ≠ none

theorem plain_outcome (input : Option (A → Url → ReadBufferView → Except MemoryFault A))
    (output : Option (A → WriteBufferView → A × WriteBufferView)) :
    Outcome Stop.isThrow ((UrlCallback.plain input output).call lib app url rb wb) True
      (∀ f, input = some f → ∃ app', f app url rb = .ok app') := by
  have written : ∀ (app' : A) input, ∃ r, (UrlCallback.plain input output).output lib app' wb = .ok r := by
    intro app' input
    cases output <;> exact ⟨_, rfl⟩
  cases input with
  | none =>
    obtain ⟨r, hr⟩ := written app none
    exact .of_ok (a := r) hr trivial (by simp)
  | some f =>
    cases hf : f app url rb with
    | ok app' =>
      obtain ⟨r, hr⟩ := written app' (some f)
      refine .of_ok (a := r) ?_ trivial (by simp [hf])
      rw [← hr, call, input, hf]
      rfl
    | error e =>
      refine .of_other ?_ (not_isThrow_fault e) trivial (by simp [hf])
      rw [call, input, hf]
      rfl

theorem call_rest (request : RestRequest) (func : A → Json → A × Json) :
    (UrlCallback.rest request func).call lib app url rb wb = (lib.payload rb >>= fun payload =>
      let request := (request.setUrl url).setPayload payload
      lib.dumped (func app request.json).2 >>= fun text =>
        .ok ((func app request.json).1, .rest request.clear func, (wb.setPayload text).2)) := by
  simp only [call, input, bind_assoc, ok_bind]
  rfl

theorem call_outcome (callback : UrlCallback A) (hf : rb.memoryFinalized = false) :
    Outcome Stop.isThrow (callback.call lib app url rb wb) (callback.Safe lib app url rb)
      (callback.Total app url rb) := by
  cases callback with
  | plain input output => exact plain_outcome input output
  | rest request func =>
    have read := Nlohmann.payload_outcome lib hf
    have value : ∀ payload, lib.payload rb = .ok payload → payload = lib.payloadValue rb := by
      intro payload hp
      obtain ⟨parses, ends⟩ := read.returns.mp ⟨payload, hp⟩
      rw [Nlohmann.payload_ok hf ends parses] at hp
      exact (Except.ok.inj hp).symm
    rw [call_rest]
    refine (read.bind fun payload hp => ?_).congr Iff.rfl fun _ => and_iff_left trivial
    rw [value payload hp]
    exact (Nlohmann.dumped_outcome _).next fun _ => ⟨_, rfl⟩

end UrlCallback

theorem callCallbacks_outcome (lib : Nlohmann) (app : A) (url : Url) (wb : WriteBufferView)
    (urls : List (UrlPattern × UrlCallback A)) (hf : rb.memoryFinalized = false) :
    Outcome Stop.isThrow (callCallbacks lib app url rb wb urls)
      (∀ p, urls.find? (fun p => p.1.eqUrl url) = some p → p.2.Safe lib app url rb)
      (∀ p, urls.find? (fun p => p.1.eqUrl url) = some p → p.2.Total app url rb) := by
  induction urls with
  | nil => exact .of_ok rfl (by simp) (by simp)
  | cons p urls ih =>
    obtain ⟨pattern, callback⟩ := p
    rw [callCallbacks]
    split
    next he =>
      refine ((callback.call_outcome hf).next fun _ => ⟨_, rfl⟩).congr ?_ ?_
      · simp [he]
      · simp [he]
    next he =>
      refine (ih.next fun _ => ⟨_, rfl⟩).congr ?_ ?_
      · simp [he]
      · simp [he]

namespace ServerEnd

variable {s : ServerEnd A} {mem : Memory} {con : ConnectionInfo} {ntf : NotificationData}

/-- The numbers of the URL on the page fit, and so does the rest of the page for the callbacks it is for. -/
def RequestSafe (lib : Nlohmann) (app : A) (s : ServerEnd A) (mem : Memory) : Prop :=
  mem.isMapped = true → ∀ seg d tail, headerAhead mem.bytes = some (seg, d, tail) → d ≠ memoryFinalizer →
    Url.NumbersFit seg ∧ ∀ p, s.urls.find? (fun p => p.1.eqUrl (.ofText seg)) = some p →
      p.2.Safe lib app (.ofText seg) (behindHeader mem seg d)

/-- The URL ends on the page, and the callbacks do not leave it. -/
def RequestTotal (app : A) (s : ServerEnd A) (mem : Memory) : Prop :=
  mem.isMapped = true → ∃ seg d tail, headerAhead mem.bytes = some (seg, d, tail) ∧ (d ≠ memoryFinalizer →
    ∀ p, s.urls.find? (fun p => p.1.eqUrl (.ofText seg)) = some p →
      p.2.Total app (.ofText seg) (behindHeader mem seg d))

theorem answer_outcome :
    Outcome Stop.isThrow (s.answer lib app con mem) (s.RequestSafe lib app mem) (s.RequestTotal app mem) := by
  by_cases hm : mem.isMapped = true
  · cases hc : headerAhead mem.bytes with
    | none =>
      obtain ⟨e, he⟩ := getHeader_new_none hm hc
      exact .of_other (by rw [answer, he, onPage_error, error_bind]) (not_isThrow_fault e)
        (by simp [RequestSafe, hc]) (by simp [RequestTotal, hm, hc])
    | some cut =>
      obtain ⟨seg, d, tail⟩ := cut
      obtain ⟨header, text, -⟩ := getHeader_new_some hm hc
      by_cases hd : d = memoryFinalizer
      · exact .of_ok (by rw [answer, header, if_pos hd]; rfl) (by simp [RequestSafe, hc, hd])
          (by simp [RequestTotal, hm, hc, hd])
      · rw [if_neg hd] at header
        by_cases fits : Url.NumbersFit seg
        · have here : (behindHeader mem seg d).memoryFinalized = false := decide_eq_false hd
          have called := callCallbacks_outcome lib app (.ofText seg) (.new mem) s.urls here
          simp only [answer, header, onPage_ok, ok_bind, text, Url.new_eq, if_pos fits, throwing_ok]
          refine (called.next fun answered => ?_).congr ?_ ?_
          · cases answered <;> exact ⟨_, rfl⟩
          · simp [RequestSafe, hm, hc, hd, fits]
          · simp [RequestTotal, hm, hc, hd]
        · refine .of_bad ?_ (isThrow_throws .outOfRange) fun h => fits (h hm seg d tail hc hd).1
          simp only [answer, header, onPage_ok, ok_bind, text, Url.new_eq, if_neg fits, throwing_error, error_bind]
  · have unmapped := getHeader_new_unmapped (eq_false_of_ne_true hm)
    exact .of_ok (by rw [answer, unmapped]; rfl) (fun h => absurd h hm) (fun h => absurd h hm)

/-- A message comes over a connection whose page holds no more than the server can take. -/
def Safe (lib : Nlohmann) (app : A) (s : ServerEnd A) (ntf : NotificationData) : Prop :=
  s.isInitialized = true → ntf.reciverId = s.serverId → ∀ con, s.findConnection ntf.senderId = some con →
    ∀ mem, s.memory con = .ok mem → s.RequestSafe lib app mem

/-- The memory of the connection is there and nothing leaves it. -/
def Total (app : A) (s : ServerEnd A) (ntf : NotificationData) : Prop :=
  s.isInitialized = true → ntf.reciverId = s.serverId → ∀ con, s.findConnection ntf.senderId = some con →
    ∃ mem, s.memory con = .ok mem ∧ s.RequestTotal app mem

theorem memory_cases (s : ServerEnd A) (con : ConnectionInfo) :
    s.memory con = .error .badPointer ∨ ∃ mem, s.memory con = .ok mem := by
  rw [memory]
  split
  · exact Or.inl rfl
  · split
    · split
      · exact Or.inl rfl
      · exact Or.inr ⟨_, rfl⟩
    · exact Or.inr ⟨_, rfl⟩

theorem dispatchNewMessage_outcome (hi : s.isInitialized = true) (hr : ntf.reciverId = s.serverId) :
    Outcome Stop.isThrow (s.dispatchNewMessage lib app ntf) (s.Safe lib app ntf) (s.Total app ntf) := by
  cases hc : s.findConnection ntf.senderId with
  | none =>
    exact .of_ok (by simp only [dispatchNewMessage, hi, hc]; rfl) (by simp [Safe, hc]) (by simp [Total, hc])
  | some con =>
    have answered : s.dispatchNewMessage lib app ntf = s.memory con >>= s.answer lib app con := by
      simp [dispatchNewMessage, hi, hc]
    rcases s.memory_cases con with hm | ⟨mem, hm⟩
    · exact .of_other (by rw [answered, hm, error_bind]) not_isThrow_badPointer (by simp [Safe, hc, hm])
        (by simp [Total, hc, hm, hi, hr])
    · rw [answered, hm, ok_bind]
      exact answer_outcome.congr (by simp [Safe, hc, hm, hi, hr]) (by simp [Total, hc, hm, hi, hr])

theorem handleNotification_outcome (lib : Nlohmann) (os : KernelAnswers) (app : A) (hw : ntf.whoSends = .client)
    (hv : ntf.isDataValid = true) :
    Outcome Stop.isThrow (s.handleNotification lib os app ntf) (ntf.type = .newMessage → s.Safe lib app ntf)
      (ntf.type = .newMessage → s.Total app ntf) := by
  have hid : isIdValid ntf.senderId ∧ isIdValid ntf.subMemId := by
    simp only [NotificationData.isDataValid, Bool.and_eq_true] at hv
    exact ⟨hv.2, hv.1.2⟩
  by_cases hi : s.isInitialized = true
  case neg => exact .of_ok (by simp [handleNotification, hi]; rfl) (by simp [Safe, hi]) (by simp [Total, hi])
  by_cases hr : ntf.reciverId = s.serverId
  case neg => exact .of_ok (by simp [handleNotification, hi, hr]; rfl) (by simp [Safe, hr]) (by simp [Total, hr])
  cases ht : ntf.type with
  | newConnection => exact .of_ok (by simp [handleNotification, hi, hr, hw, hid, ht]; rfl) (by simp) (by simp)
  | newMessage =>
    have handled : s.handleNotification lib os app ntf = s.dispatchNewMessage lib app ntf := by
      simp [handleNotification, hi, hr, hw, hid, ht]
    rw [handled]
    exact (dispatchNewMessage_outcome hi hr).congr (by simp) (by simp)
  | remoteDisconnect => exact .of_ok (by simp [handleNotification, hi, hr, hw, hid, ht]; rfl) (by simp) (by simp)

end ServerEnd

namespace CallbackIn

/-- The reply that `RESTClient::get` waits for is JSON. -/
def Safe (lib : Nlohmann) (page : Option Memory) : CallbackIn A → Prop
  | .plain _ => True
  | .get _ => ∀ mem, page = some mem → lib.Parses (.new mem)

/-- There is a page, and the callback does not leave it. -/
def Total (app : A) (page : Option Memory) : CallbackIn A → Prop
  | .plain input => ∃ app', input app (page.map .new) = .ok app'
  | .get _ => ∃ mem, page = some mem ∧ (ReadBufferView.new mem).payloadText ≠ none

theorem run_outcome (lib : Nlohmann) (app : A) (page : Option Memory) (callback : CallbackIn A) :
    Outcome Stop.isThrow (callback.run lib app page) (callback.Safe lib page) (callback.Total app page) := by
  cases callback with
  | plain input => exact onPage_outcome (input app (page.map .new))
  | get out =>
    cases page with
    | none => exact .of_other rfl not_isThrow_badPointer (by simp [Safe]) (by simp [Total])
    | some mem =>
      have read : Outcome _ (lib.payload (.new mem)) _ _ := Nlohmann.payload_outcome lib rfl
      exact (read.next fun _ => ⟨_, rfl⟩).congr (by simp [Safe]) (by simp [Total])

end CallbackIn

namespace ClientEnd

variable {c : ClientEnd A} {ntf : NotificationData}

/-- A callback that waits can take the reply. -/
def Safe (lib : Nlohmann) (c : ClientEnd A) (ntf : NotificationData) : Prop :=
  c.isInitialized = true → ntf.reciverId = c.clientId → c.isReady = true → c.callback.isSome = true →
    c.callbackIn.Safe lib c.page

def Total (app : A) (c : ClientEnd A) (ntf : NotificationData) : Prop :=
  c.isInitialized = true → ntf.reciverId = c.clientId → c.isReady = true → c.callback.isSome = true →
    c.callbackIn.Total app c.page

theorem dispatchNewMessage_outcome (hi : c.isInitialized = true) (hr : ntf.reciverId = c.clientId) :
    Outcome Stop.isThrow (c.dispatchNewMessage lib app) (c.Safe lib ntf) (c.Total app ntf) := by
  by_cases hm : c.isReady = true
  case neg =>
    exact .of_ok (by rw [dispatchNewMessage, eq_false_of_ne_true hm]; rfl) (by simp [Safe, hm]) (by simp [Total, hm])
  by_cases hc : c.callback.isSome = true
  · have called := c.callbackIn.run_outcome lib app c.page
    have handled : c.dispatchNewMessage lib app = (c.callbackIn.run lib app c.page >>= fun app =>
        .ok (app, { c with toRipcClient := c.toRipcClient.dispatchNewMessage })) := by
      simp [dispatchNewMessage, hm, hc]
    rw [handled]
    exact (called.next fun _ => ⟨_, rfl⟩).congr (by simp [Safe, hi, hr, hm, hc]) (by simp [Total, hi, hr, hm, hc])
  · exact .of_ok (by simp [dispatchNewMessage, hm, hc]; rfl) (by simp [Safe, hc]) (by simp [Total, hc])

theorem handleNotification_outcome (lib : Nlohmann) (os : KernelAnswers) (app : A) (hw : ntf.whoSends = .server) :
    Outcome Stop.isThrow (c.handleNotification lib os app ntf) (ntf.type = .newMessage → c.Safe lib ntf)
      (ntf.type = .newMessage → c.Total app ntf) := by
  by_cases hi : c.isInitialized = true
  case neg => exact .of_ok (by simp [handleNotification, hi]; rfl) (by simp [Safe, hi]) (by simp [Total, hi])
  by_cases hr : ntf.reciverId = c.clientId
  case neg => exact .of_ok (by simp [handleNotification, hi, hr]; rfl) (by simp [Safe, hr]) (by simp [Total, hr])
  cases ht : ntf.type with
  | newConnection => exact .of_ok (by simp [handleNotification, hi, hr, hw, ht]; rfl) (by simp) (by simp)
  | newMessage =>
    have handled : c.handleNotification lib os app ntf = c.dispatchNewMessage lib app := by
      simp [handleNotification, hi, hr, hw, ht]
    rw [handled]
    exact (dispatchNewMessage_outcome hi hr).congr (by simp) (by simp)
  | remoteDisconnect => exact .of_ok (by simp [handleNotification, hi, hr, hw, ht]; rfl) (by simp) (by simp)

end ClientEnd

namespace Manager

variable {m : Manager A} {ntf : NotificationData}

/-- The notification is handed on: its ids are valid, and the application has no handler of its own for its type. -/
def Delivers (m : Manager A) (ntf : NotificationData) : Prop :=
  ntf.isDataValid = true ∧ m.isInitialized = true ∧ m.notificationHandlers ntf.type = none

/-- The listener's manager is initialised, and the peer has left on the page what the handler of a message can take. -/
def Safe (lib : Nlohmann) (m : Manager A) (ntf : NotificationData) : Prop :=
  (ntf.isDataValid = true → m.criticalThrows = true → m.isInitialized = true) ∧
    (m.Delivers ntf → ntf.type = .newMessage →
      (ntf.whoSends = .client → ∀ server, m.servers.get? ntf.reciverId.toNat = some server →
        server.Safe lib m.app ntf) ∧
      (ntf.whoSends = .server → ∀ client, m.clients.get? ntf.reciverId.toNat = some client →
        client.Safe lib ntf))

/-- Nothing that handles the message leaves a page or follows a pointer to nowhere. -/
def Total (m : Manager A) (ntf : NotificationData) : Prop :=
  m.Delivers ntf → ntf.type = .newMessage →
    (ntf.whoSends = .client → ∀ server, m.servers.get? ntf.reciverId.toNat = some server →
      server.Total m.app ntf) ∧
    (ntf.whoSends = .server → ∀ client, m.clients.get? ntf.reciverId.toNat = some client →
      client.Total m.app ntf)

theorem dispatchNotification_outcome (lib : Nlohmann) (os : KernelAnswers) (m : Manager A) (ntf : NotificationData) :
    Outcome Stop.isThrow (m.dispatchNotification lib os ntf) (m.Safe lib ntf) (m.Total ntf) := by
  by_cases hv : ntf.isDataValid = true
  case neg =>
    exact .of_ok (by rw [dispatchNotification, eq_false_of_ne_true hv]; rfl) (by simp [Safe, Delivers, hv])
      (by simp [Total, Delivers, hv])
  by_cases hi : m.isInitialized = true
  case neg =>
    have stopped : m.dispatchNotification lib os ntf =
        if m.criticalThrows then .error (.throws .criticalLogError) else .ok (none, m) := by
      simp [dispatchNotification, hv, hi]
    by_cases hc : m.criticalThrows = true
    · rw [if_pos hc] at stopped
      exact .of_bad stopped (isThrow_throws _) fun h => hi (h.1 hv hc)
    · rw [if_neg hc] at stopped
      exact .of_ok stopped (by simp [Safe, Delivers, hi, hc]) (by simp [Total, Delivers, hi])
  cases hh : m.notificationHandlers ntf.type with
  | some handler =>
    exact .of_ok (by simp [dispatchNotification, hv, hi, hh]; rfl) (by simp [Safe, Delivers, hi, hh])
      (by simp [Total, Delivers, hh])
  | none =>
    have delivers : m.Delivers ntf := ⟨hv, hi, hh⟩
    cases hw : ntf.whoSends with
    | client =>
      cases hs : m.servers.get? ntf.reciverId.toNat with
      | none =>
        exact .of_ok (by simp [dispatchNotification, hv, hi, hh, hw, hs]; rfl) (by simp [Safe, hi, hw, hs])
          (by simp [Total, hw, hs])
      | some server =>
        have handled := server.handleNotification_outcome lib os m.app hw hv
        have dispatched : m.dispatchNotification lib os ntf =
            (server.handleNotification lib os m.app ntf >>= fun h => .ok (h.call,
              { m with app := h.app, servers := m.servers.modify ntf.reciverId.toNat fun _ => h.server })) := by
          simp [dispatchNotification, hv, hi, hh, hw, hs]
        rw [dispatched]
        exact (handled.next fun _ => ⟨_, rfl⟩).congr (by simp [Safe, delivers, hi, hw, hs])
          (by simp [Total, delivers, hw, hs])
    | server =>
      cases hc : m.clients.get? ntf.reciverId.toNat with
      | none =>
        exact .of_ok (by simp [dispatchNotification, hv, hi, hh, hw, hc]; rfl) (by simp [Safe, hi, hw, hc])
          (by simp [Total, hw, hc])
      | some client =>
        have handled := client.handleNotification_outcome lib os m.app hw
        have dispatched : m.dispatchNotification lib os ntf =
            (client.handleNotification lib os m.app ntf >>= fun h => .ok (none,
              { m with app := h.1, clients := m.clients.modify ntf.reciverId.toNat fun _ => h.2 })) := by
          simp [dispatchNotification, hv, hi, hh, hw, hc]
        rw [dispatched]
        exact (handled.next fun _ => ⟨_, rfl⟩).congr (by simp [Safe, delivers, hi, hw, hc])
          (by simp [Total, delivers, hw, hc])

/-- No exception leaves the handling of a notification exactly if it is safe for what the peer has left on the page,
and it returns exactly if it also stays on the page. -/
theorem dispatchNotification_returns (lib : Nlohmann) (os : KernelAnswers) (m : Manager A) (ntf : NotificationData) :
    ((∀ e, m.dispatchNotification lib os ntf ≠ .error (.throws e)) ↔ m.Safe lib ntf) ∧
      ((∃ r, m.dispatchNotification lib os ntf = .ok r) ↔ m.Safe lib ntf ∧ m.Total ntf) := by
  have ends := m.dispatchNotification_outcome lib os ntf
  refine ⟨Iff.trans ?_ ends.avoids, ends.returns⟩
  constructor
  · rintro h (f | _ | e) he
    · exact not_isThrow_fault f
    · exact not_isThrow_badPointer
    · exact absurd he (h e)
  · intro h e he
    exact h _ he (isThrow_throws e)

def pageOf (text : List UInt8) (h : text.length ≤ shmRegionPageSize) : Memory :=
  .ofBytes (text ++ List.replicate (shmRegionPageSize - text.length) 0) (by
    rw [List.length_append, List.length_replicate, Nat.add_sub_cancel' h]
    decide)

def serving (mem : Memory) (urls : List (UrlPattern × UrlCallback Unit)) : Manager Unit where
  isInitialized := true
  criticalThrows := true
  notificationHandlers _ := none
  servers := Table.empty.pushBack 1 ⟨⟨1, [⟨2, 3⟩], [(3, true)]⟩, true, fun _ => some mem, urls⟩
  clients := .empty
  app := ()

set_option maxRecDepth 40000 in
/-- A client asks for `99999999999`; and it asks a REST server for `a` with the payload `x`, which is not JSON. -/
theorem dispatchNotification_throws :
    (serving (pageOf (List.replicate 11 57 ++ [10]) (by decide)) []).dispatchNotification
        ⟨fun _ => none, fun _ => none⟩ ⟨none, true⟩ ⟨.client, .newMessage, 3, 2, 1⟩ =
      .error (.throws .outOfRange) ∧
    (serving (pageOf [97, 10, 120] (by decide)) [(⟨[.static (.string [97])], [97]⟩,
        .rest .null fun _ request => ((), request))]).dispatchNotification
        ⟨fun _ => none, fun _ => none⟩ ⟨none, true⟩ ⟨.client, .newMessage, 3, 2, 1⟩ =
      .error (.throws .parseError) :=
  ⟨rfl, rfl⟩

end Manager

end

end Ripc
