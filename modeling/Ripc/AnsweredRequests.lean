import Ripc.DispatchEnds

namespace Ripc

open BufferView ReadBufferView

section

variable {A : Type} {lib : Nlohmann} {app : A} {url : Url} {rb : ReadBufferView} {wb : WriteBufferView}

theorem ClientEnd.dispatchNewMessage_idle {c c' : ClientEnd A} {app' : A} (ready : c.isReady = true)
    (h : c.dispatchNewMessage lib app = .ok (app', c')) : c'.isRequestSent = false ∧ c'.callback = none := by
  have state : c'.toRipcClient = c.toRipcClient.dispatchNewMessage := by
    by_cases hc : c.callback.isSome = true
    · simp only [ClientEnd.dispatchNewMessage, ready, hc, Bool.not_true, Bool.false_eq_true, if_false, if_true] at h
      obtain ⟨_, _, h⟩ := bind_eq_ok.mp h
      cases h
      rfl
    · simp only [ClientEnd.dispatchNewMessage, ready, hc, Bool.not_true, Bool.false_eq_true, if_false] at h
      cases h
      rfl
  rw [state, RipcClient.dispatchNewMessage, if_pos ready]
  exact ⟨rfl, rfl⟩

/-- Callbacks are found and come to their end exactly if the first pattern that equals the URL has such callbacks. -/
theorem callCallbacks_some (urls : List (UrlPattern × UrlCallback A)) (hf : rb.memoryFinalized = false) :
    (∃ a, callCallbacks lib app url rb wb urls = .ok (some a)) ↔
      ∃ p, urls.find? (fun p => p.1.eqUrl url) = some p ∧ p.2.Safe lib app url rb ∧ p.2.Total app url rb := by
  induction urls with
  | nil => simp [callCallbacks]
  | cons p urls ih =>
    obtain ⟨pattern, callback⟩ := p
    rw [callCallbacks]
    split
    next he =>
      have ends : (∃ r, callback.call lib app url rb wb = .ok r) ↔ _ := (callback.call_outcome hf).returns
      simp [bind_eq_ok, he, ← ends]
    next he =>
      simp [bind_eq_ok, he, ← ih]

namespace ServerEnd

variable {s : ServerEnd A} {con : ConnectionInfo} {mem : Memory} {ntf : NotificationData}

/-- The server is initialised, the page holds a URL whose numbers fit, a pattern equals it and the callbacks of the
first such pattern come to their end; and the two ids are not taken for the error of `pack_ids`. -/
def Answers (lib : Nlohmann) (app : A) (s : ServerEnd A) (con : ConnectionInfo) (mem : Memory) : Prop :=
  s.isInitialized = true ∧ (∃ seg d tail, headerAhead mem.bytes = some (seg, d, tail) ∧ d ≠ memoryFinalizer ∧
    Url.NumbersFit seg ∧ ∃ p, s.urls.find? (fun p => p.1.eqUrl (.ofText seg)) = some p ∧
      p.2.Safe lib app (.ofText seg) (behindHeader mem seg d) ∧
      p.2.Total app (.ofText seg) (behindHeader mem seg d)) ∧
    packIds s.serverId con.subMemId ≠ packError

theorem writeToClient_eq (hi : s.isInitialized = true) (mapped : mem.isMapped = true) :
    s.writeToClient con mem = if packIds s.serverId con.subMemId = packError then none
      else some (.endWriting (packIds s.serverId con.subMemId)) := by
  simp [writeToClient, hi, mapped]

theorem answer_called {seg tail : List UInt8} {d : UInt8} (mapped : mem.isMapped = true)
    (hc : headerAhead mem.bytes = some (seg, d, tail)) (hd : d ≠ memoryFinalizer) (fits : Url.NumbersFit seg) :
    s.answer lib app con mem =
      (callCallbacks lib app (.ofText seg) (behindHeader mem seg d) (.new mem) s.urls >>= fun answered =>
        .ok (answered.elim ⟨none, app, s⟩ fun a => ⟨s.writeToClient con mem, a.app, { s with
          urls := a.urls
          pages := fun id => if id = con.subMemId then some a.wb.finalizePayload.2.mem else s.pages id }⟩)) := by
  obtain ⟨header, text, -⟩ := getHeader_new_some mapped hc
  rw [if_neg hd] at header
  simp only [answer, header, onPage_ok, ok_bind, text, Url.new_eq, if_pos fits, throwing_ok]
  refine congrArg _ (funext fun answered => ?_)
  cases answered <;> rfl

theorem answer_ignored {handled : ServerHandled A} (mapped : mem.isMapped = true)
    (hn : ∀ seg d tail, headerAhead mem.bytes = some (seg, d, tail) → d ≠ memoryFinalizer → ¬Url.NumbersFit seg)
    (h : s.answer lib app con mem = .ok handled) : handled.call = none := by
  cases hc : headerAhead mem.bytes with
  | none =>
    obtain ⟨e, he⟩ := getHeader_new_none mapped hc
    rw [answer, he, onPage_error, error_bind] at h
    cases h
  | some cut =>
    obtain ⟨seg, d, tail⟩ := cut
    obtain ⟨header, text, -⟩ := getHeader_new_some mapped hc
    by_cases hd : d = memoryFinalizer
    · rw [if_pos hd] at header
      simp only [answer, header, onPage_ok, ok_bind] at h
      cases h
      rfl
    · rw [if_neg hd] at header
      simp only [answer, header, onPage_ok, ok_bind, text, Url.new_eq, if_neg (hn seg d tail hc hd), throwing_error,
        error_bind] at h
      cases h

theorem answer_answers (hi : s.isInitialized = true) (mapped : mem.isMapped = true) :
    (∃ handled, s.answer lib app con mem = .ok handled ∧
      handled.call = some (.endWriting (packIds s.serverId con.subMemId))) ↔ s.Answers lib app con mem := by
  by_cases hurl : ∃ seg d tail, headerAhead mem.bytes = some (seg, d, tail) ∧ d ≠ memoryFinalizer ∧ Url.NumbersFit seg
  · obtain ⟨seg, d, tail, hc, hd, fits⟩ := hurl
    have here : (behindHeader mem seg d).memoryFinalized = false := decide_eq_false hd
    have found : (∃ a, callCallbacks lib app (.ofText seg) (behindHeader mem seg d) (.new mem) s.urls = .ok (some a)) ↔
        _ := callCallbacks_some s.urls here
    have answers : s.Answers lib app con mem ↔
        (∃ a, callCallbacks lib app (.ofText seg) (behindHeader mem seg d) (.new mem) s.urls = .ok (some a)) ∧
          packIds s.serverId con.subMemId ≠ packError := by
      rw [found]
      simp [Answers, hi, hc, hd, fits]
    rw [answers, answer_called mapped hc hd fits]
    constructor
    · rintro ⟨handled, h, call⟩
      obtain ⟨answered, called, rest⟩ := bind_eq_ok.mp h
      cases rest
      cases answered with
      | none => simp at call
      | some a =>
        refine ⟨⟨a, called⟩, fun he => ?_⟩
        simp [writeToClient_eq hi mapped, he] at call
    · rintro ⟨⟨a, called⟩, he⟩
      refine ⟨_, bind_eq_ok.mpr ⟨some a, called, rfl⟩, ?_⟩
      simp [writeToClient_eq hi mapped, he]
  · constructor
    · rintro ⟨handled, h, call⟩
      have silent := answer_ignored mapped (fun seg d tail hc hd fits => hurl ⟨seg, d, tail, hc, hd, fits⟩) h
      simp [silent] at call
    · rintro ⟨-, ⟨seg, d, tail, hc, hd, fits, -⟩, -⟩
      exact absurd ⟨seg, d, tail, hc, hd, fits⟩ hurl

theorem writeToClient_cases : s.writeToClient con mem = none ∨
    s.writeToClient con mem = some (.endWriting (packIds s.serverId con.subMemId)) := by
  unfold writeToClient
  split
  · exact Or.inl rfl
  · split
    · exact Or.inl rfl
    · split
      · exact Or.inl rfl
      · exact Or.inr rfl

theorem answer_call {handled : ServerHandled A} (h : s.answer lib app con mem = .ok handled) :
    handled.call = none ∨ handled.call = some (.endWriting (packIds s.serverId con.subMemId)) := by
  obtain ⟨⟨urlStr, rb⟩, -, h⟩ := bind_eq_ok.mp h
  cases urlStr with
  | none =>
    cases h
    exact Or.inl rfl
  | some view =>
    obtain ⟨url, -, h⟩ := bind_eq_ok.mp h
    obtain ⟨answered, -, h⟩ := bind_eq_ok.mp h
    cases answered with
    | none =>
      cases h
      exact Or.inl rfl
    | some a =>
      cases h
      exact writeToClient_cases

/-- A request over a connection with mapped memory is answered exactly under `Answers`, with this system call and no
other, and a client that is told of an answer has no request any more. -/
theorem dispatchNewMessage_answers (hc : s.findConnection ntf.senderId = some con)
    (hm : s.memory con = .ok mem) (mapped : mem.isMapped = true) :
    ((∃ handled, s.dispatchNewMessage lib app ntf = .ok handled ∧
      handled.call = some (.endWriting (packIds s.serverId con.subMemId))) ↔ s.Answers lib app con mem) ∧
      (∀ handled, s.dispatchNewMessage lib app ntf = .ok handled →
        handled.call = none ∨ handled.call = some (.endWriting (packIds s.serverId con.subMemId))) ∧
      ∀ (c c' : ClientEnd A) (app' : A), c.isReady = true → c.dispatchNewMessage lib app = .ok (app', c') →
        c'.isRequestSent = false ∧ c'.callback = none := by
  rw [← and_assoc]
  refine ⟨?_, fun c c' app' ready h => ClientEnd.dispatchNewMessage_idle ready h⟩
  by_cases hi : s.isInitialized = true
  · have answered : s.dispatchNewMessage lib app ntf = s.answer lib app con mem := by
      simp [dispatchNewMessage, hi, hc, hm]
    rw [answered]
    exact ⟨answer_answers hi mapped, fun handled h => answer_call h⟩
  · have ignored : s.dispatchNewMessage lib app ntf = .ok ⟨none, app, s⟩ := by
      simp [dispatchNewMessage, hi]
    simp [ignored, Answers, hi]

def serving (mem : Memory) (urls : List (UrlPattern × UrlCallback Unit)) : ServerEnd Unit :=
  ⟨⟨1, [⟨2, 3⟩], [(3, true)]⟩, true, fun _ => some mem, urls⟩

def pageA : Memory := Manager.pageOf [97, 10] (by decide)

set_option maxRecDepth 40000 in
theorem dispatchNewMessage_answers_pageA :
    ∃ handled, (serving pageA [(⟨[.static (.string [97])], [97]⟩, .plain none none)]).dispatchNewMessage
        ⟨fun _ => none, fun _ => none⟩ () ⟨.client, .newMessage, 3, 2, 1⟩ = .ok handled ∧
      handled.call = some (.endWriting (packIds 1 3)) := by
  have answers := @dispatchNewMessage_answers Unit ⟨fun _ => none, fun _ => none⟩ ()
    (serving pageA [(⟨[.static (.string [97])], [97]⟩, .plain none none)]) ⟨2, 3⟩ pageA
    ⟨.client, .newMessage, 3, 2, 1⟩ rfl rfl rfl
  refine answers.1.mpr ⟨rfl, ⟨[97], 10, _, rfl, by decide, by decide, _, rfl, trivial, ?_⟩, by decide⟩
  exact fun f hf => absurd hf (Option.some_ne_none f).symm

set_option maxRecDepth 40000 in
/-- A server without a pattern leaves the client that asks for `a` waiting. -/
theorem dispatchNewMessage_silent :
    (serving pageA []).findConnection 2 = some ⟨2, 3⟩ ∧ (serving pageA []).memory ⟨2, 3⟩ = .ok pageA ∧
      pageA.isMapped = true ∧
      (serving pageA []).dispatchNewMessage ⟨fun _ => none, fun _ => none⟩ () ⟨.client, .newMessage, 3, 2, 1⟩ =
        .ok ⟨none, (), serving pageA []⟩ :=
  ⟨rfl, rfl, rfl, rfl⟩

end ServerEnd

end

end Ripc
