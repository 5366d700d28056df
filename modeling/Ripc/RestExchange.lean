import Ripc.ExchangeRuns
import Ripc.RestCalls

namespace Ripc

/-- The page is what the server makes of the call: the callback of `get` is given what the handler has returned for the
URL and the payload of this call. -/
def RestCall.Answered {A : Type} (lib : Nlohmann) (adds : List (UrlPattern × (A → Json → A × Json))) (call : RestCall)
    (page : Memory) : Prop :=
  ∃ url pattern func app payload text,
    Url.new call.url.chars = .ok url ∧ call.payload lib = some payload ∧ Chosen adds url pattern func ∧
    lib.dump (func app (restJson url payload)).2 = some text ∧
    (text.length + 2 ≤ page.maxSize → ∀ (B : Type) (app : B) (out : B → Json → B),
      (CallbackIn.get out).run lib app (some page) = (lib.parsed text.chars).map (out app))

namespace Exchange

variable {A : Type}

/-- The client calls `get` and `post` only, as `sent` says for each call, with a URL that has no delimiters in it and a
request that fits; and all handlers have been added before. -/
def Restful (lib : Nlohmann) (sent : Nat → RestCall) (size : Nat) (x : Exchange A) : ExchangeMove A → Prop
  | .application _ urls _ => urls = x.server.urls
  | .caller url out => ∀ c, x.client.caller = .write c →
    (sent c.id).Fits lib size ∧ (sent c.id).url = url ∧ (sent c.id).out lib = some out
  | _ => True

/-- What is on the page, and what was there when it was looked at. -/
structure Rest (lib : Nlohmann) (adds : List (UrlPattern × (A → Json → A × Json))) (sent : Nat → RestCall) (size : Nat)
    (x : Exchange A) : Prop where
  served : RestServed lib adds x.server
  mapped : x.page.isMapped = true
  sized : x.page.maxSize = size
  written : ∀ c, x.client.caller = .announce c → (sent c.id).Carries lib x.page
  asked : ∀ call page, .asked call page ∈ x.log → (sent call).Carries lib page
  answered : ∀ before after, .served before after ∈ x.log → ∀ call : RestCall, call.Carries lib before →
    call.Answered lib adds after

end Exchange

section

variable {A : Type} {l : Line} {lib : Nlohmann} {own : Nat → Nat → Prop}
  {adds : List (UrlPattern × (A → Json → A × Json))} {sent : Nat → RestCall} {size : Nat} {x x₀ y : Exchange A}
  {moves : List (ExchangeMove A)} {m : ExchangeMove A}

theorem Caller.woken_announce {caller : Caller} {c : Request} (h : caller.woken = .announce c) :
    caller = .announce c := by
  cases caller <;> first | exact h | cases h

theorem ClientState.step_announce {s s' : ClientState} {m : Move} {c : Request} (hs : s.step m = some s')
    (hc : s'.caller = .announce c) : s.caller = .announce c ∨ s.caller = .write c ∧ m = .caller := by
  cases m with
  | call input =>
    simp only [step] at hs
    split at hs <;> cases hs
    simp only [beginCall] at hc
    split at hc
    · split at hc <;> cases hc
    · cases hc
  | endWriting ok =>
    simp only [step] at hs
    split at hs <;> cases hs
    simp only [announced] at hc
    split at hc <;> cases hc
  | caller =>
    simp only [step, callerStep] at hs
    split at hs <;> cases hs
    next c' hw =>
      simp only at hc
      split at hc
      · split at hc <;> cases hc
      · cases hc
    next c' hw =>
      cases hc
      exact Or.inr ⟨hw, rfl⟩
    all_goals first
      | cases hc
      | (simp only at hc; split at hc <;> cases hc)
  | reply =>
    simp only [step] at hs
    split at hs <;> cases hs
    exact Or.inl hc
  | take =>
    simp only [step] at hs
    split at hs <;> cases hs
    exact Or.inl hc
  | listener =>
    simp only [step, listenerStep] at hs
    split at hs
    · cases hs; exact Or.inl hc
    · obtain ⟨_, _, hs⟩ := Option.map_eq_some_iff.mp hs
      cases hs; exact Or.inl hc
    · cases hs; exact Or.inl hc
    · cases hs; exact Or.inl hc
    · cases hs
      simp only at hc
      split at hc
      · exact Or.inl (Caller.woken_announce hc)
      · exact Or.inl hc
    · cases hs

namespace Exchange.Rest

theorem same (h : x.Rest lib adds sent size) (urls : y.server.urls = x.server.urls) (page : y.page = x.page)
    (caller : ∀ c, y.client.caller = .announce c → x.client.caller = .announce c)
    (log : ∀ mark ∈ y.log, mark ∈ x.log ∨ ∃ call page, mark = .given call page) : y.Rest lib adds sent size := by
  refine ⟨h.served.other urls, page ▸ h.mapped, page ▸ h.sized, fun c hc => page ▸ h.written c (caller c hc),
    fun call page asked => ?_, fun before after served => ?_⟩
  · refine h.asked call page ((log _ asked).resolve_right ?_)
    rintro ⟨_, _, ⟨⟩⟩
  · refine h.answered before after ((log _ served).resolve_right ?_)
    rintro ⟨_, _, ⟨⟩⟩

theorem caller (h : x.Rest lib adds sent size) (texts : lib.Texts) {url : StdString}
    {out : Option (WriteBufferView → WriteBufferView)} {client : ClientState}
    (asks : ∀ c, x.client.caller = .write c →
      (sent c.id).Fits lib size ∧ (sent c.id).url = url ∧ (sent c.id).out lib = some out)
    (hs : x.client.step .caller = some client) :
    Exchange.Rest lib adds sent size { x with
      client
      page := match x.client.caller with
        | .write _ => callWrites url out x.page
        | _ => x.page } := by
  cases hw : x.client.caller with
  | write c =>
    obtain ⟨fits, rfl, hout⟩ := asks c hw
    have paged := callWrites_resembles hout x.page
    have carries := callWrites_carries texts h.mapped (h.sized.symm ▸ fits) hout
    simp only [ClientState.step, ClientState.callerStep, hw] at hs
    cases hs
    refine ⟨h.served.other rfl, paged.isMapped.trans h.mapped, paged.maxSize.trans h.sized, fun c' hc => ?_, h.asked,
      h.answered⟩
    cases hc
    exact carries
  | _ =>
    refine h.same rfl rfl (fun c hc => ?_) fun _ hm => Or.inl hm
    refine (ClientState.step_announce hs hc).resolve_right fun write => ?_
    cases hw.symm.trans write.1

theorem announce (h : x.Rest lib adds sent size) {K : Kernel} {c : Request} (hc : x.client.caller = .announce c)
    (hs : x.announce l K c = some y) : y.Rest lib adds sent size := by
  have leaves : ∀ ok c', (x.client.announced c ok).caller ≠ .announce c' := by
    intro ok c' same
    simp only [ClientState.announced] at same
    split at same <;> cases same
  unfold Exchange.announce at hs
  split at hs
  next =>
    cases hs
    exact h.same rfl rfl (fun c' hc' => absurd hc' (leaves _ c')) fun _ hm => Or.inl hm
  next =>
    obtain ⟨⟨r, z⟩, hd, hy⟩ := Option.map_eq_some_iff.mp hs
    obtain ⟨drv, -, rfl⟩ := driver_some hd
    cases hy
    refine ⟨h.served.other rfl, h.mapped, h.sized, fun c' hc' => absurd hc' (leaves _ c'), fun call page asked => ?_,
      fun before after served => ?_⟩
    · simp only at asked
      split at asked
      next =>
        rcases List.mem_cons.mp asked with new | asked
        · cases new
          exact h.written c hc
        · exact h.asked call page asked
      next => exact h.asked call page asked
    · simp only at served
      split at served
      next => exact h.answered before after ((List.mem_cons.mp served).resolve_left (by rintro ⟨⟩))
      next => exact h.answered before after served

end Exchange.Rest

theorem RestServed.handle {s : ServerEnd A} (served : RestServed lib adds s) {os : KernelAnswers} {app : A}
    {ntf : NotificationData} {handled : ServerHandled A} (h : s.handleNotification lib os app ntf = .ok handled) :
    RestServed lib adds handled.server := by
  have ignored : handled = ⟨none, app, s⟩ → RestServed lib adds handled.server := by
    rintro rfl
    exact served
  unfold ServerEnd.handleNotification at h
  split at h
  next => exact ignored (Except.ok.inj h).symm
  next =>
    split at h
    next => exact ignored (Except.ok.inj h).symm
    next =>
      split at h
      next => exact ignored (Except.ok.inj h).symm
      next =>
        split at h
        next => exact ignored (Except.ok.inj h).symm
        next =>
          split at h
          next =>
            cases h
            exact served.other rfl
          next => exact served.request h
          next =>
            cases h
            exact served.other rfl

theorem memory_seeing {s : ServerEnd A} {page mem : Memory} {con : ConnectionInfo} (mine : con.subMemId = l.subMemId)
    (h : (s.seeing l page).memory con = .ok mem) : mem = page ∨ mem = .new := by
  unfold ServerEnd.memory at h
  split at h
  next => cases h
  next =>
    split at h
    next =>
      split at h
      next => cases h
      next shown =>
        cases h
        rw [mine, ServerEnd.seeing_pages] at shown
        obtain ⟨_, _, rfl⟩ := Option.map_eq_some_iff.mp shown
        exact Or.inl rfl
    next =>
      cases h
      exact Or.inr rfl

theorem answer_unmapped {s : ServerEnd A} {app : A} {con : ConnectionInfo} {handled : ServerHandled A}
    (h : s.answer lib app con .new = .ok handled) : handled = ⟨none, app, s⟩ := by
  unfold ServerEnd.answer at h
  rw [ReadBufferView.getHeader_new_unmapped rfl, onPage_ok, ok_bind] at h
  exact (Except.ok.inj h).symm

theorem Exchange.Rest.answer (h : x.Rest lib adds sent size) (texts : lib.Texts) {call : RestCall}
    (carries : call.Carries lib x.page) {con : ConnectionInfo} {mem : Memory} (mine : con.subMemId = l.subMemId)
    (memory : (x.server.seeing l x.page).memory con = .ok mem) {handled : ServerHandled A}
    (ha : (x.server.seeing l x.page).answer lib x.app con mem = .ok handled) :
    (handled.server.pages l.subMemId).getD x.page = x.page ∧ handled.call = none ∨
      ∃ text, (handled.server.pages l.subMemId).getD x.page = replyWrites text x.page ∧
        call.Answered lib adds (replyWrites text x.page) := by
  have ignored : handled = ⟨none, x.app, x.server.seeing l x.page⟩ →
      (handled.server.pages l.subMemId).getD x.page = x.page ∧ handled.call = none := by
    rintro rfl
    exact ⟨ServerEnd.seeing_shown l x.page x.server, rfl⟩
  have table : RestTable adds (x.server.seeing l x.page).urls := h.served.table
  rcases memory_seeing mine memory with rfl | rfl
  · rcases table.answers texts carries ha with none | ⟨url, pattern, func, payload, text, parsed, hp, chosen, hd, page⟩
    · exact Or.inl (ignored none)
    · rw [mine] at page
      refine Or.inr ⟨text, by rw [page, Option.getD_some], url, pattern, func, x.app, payload, text, parsed, hp, chosen,
        hd, fun room B app out => ?_⟩
      rw [(replyWrites_resembles text x.page).maxSize] at room
      exact get_replyWrites texts hd h.mapped room app out
  · exact Or.inl (ignored (answer_unmapped ha))

theorem Exchange.Rest.handle (h : x.Rest lib adds sent size) (sound : Exchange.Sound l own x) (texts : lib.Texts)
    {os : KernelAnswers} {ntf : NotificationData} (hp : x.pending = some ntf) (hs : x.handle l lib os ntf = some y) :
    y.Rest lib adds sent size := by
  rcases sound.handle_cases hp hs with rfl | ⟨handled, hh, rfl, -, -, how⟩
  · exact h.same rfl rfl (fun _ hc => hc) fun _ hm => Or.inl hm
  have shown : RestServed lib adds (x.server.seeing l x.page) := h.served.other rfl
  have served := shown.handle hh
  have silently : (handled.server.pages l.subMemId).getD x.page = x.page ∧ handled.call.any (·.answers l) = false →
      Exchange.Rest lib adds sent size { x with
        server := handled.server
        app := handled.app
        page := (handled.server.pages l.subMemId).getD x.page
        pending := none
        call := handled.call
        log := if handled.call.any (·.answers l) then
          .served x.page ((handled.server.pages l.subMemId).getD x.page) :: x.log else x.log } := by
    rintro ⟨page, silent⟩
    rw [silent, page]
    exact ⟨served, h.mapped, h.sized, h.written, h.asked, h.answered⟩
  rcases how with silent | ⟨rfl, -, con, mem, mine, memory, ha⟩
  · exact silently silent
  have waits : l.request ∈ x.waiting l := by
    rw [Exchange.waiting, hp]
    exact List.mem_cons_self
  obtain ⟨call, rest, hlog⟩ := sound.asked waits
  have carries := h.asked call x.page (hlog ▸ List.mem_cons_self)
  rcases h.answer texts carries mine memory ha with ⟨page, none⟩ | ⟨text, page, -⟩
  · exact silently ⟨page, by rw [none]; rfl⟩
  · have paged := replyWrites_resembles text x.page
    rw [page]
    refine ⟨served, paged.isMapped.trans h.mapped, paged.maxSize.trans h.sized, fun c hc => ?_,
      fun call page asked => ?_, fun before after answered => ?_⟩
    · have empty := sound.alone.composing (by rw [hc]; rfl)
      exact absurd waits (sound.idle empty).1
    · simp only at asked
      split at asked
      next => exact h.asked call page ((List.mem_cons.mp asked).resolve_left (by rintro ⟨⟩))
      next => exact h.asked call page asked
    · simp only at answered
      split at answered
      next answers =>
        rcases List.mem_cons.mp answered with new | answered
        · cases new
          intro call carries
          rcases h.answer texts carries mine memory ha with ⟨-, none⟩ | ⟨text', page', result⟩
          · rw [none] at answers
            cases answers
          · rw [← page, page']
            exact result
        · exact h.answered before after answered
      next => exact h.answered before after answered

theorem Exchange.Rest.act (h : x.Rest lib adds sent size) (sound : Exchange.Sound l own x) (texts : lib.Texts)
    (restful : x.Restful lib sent size m) (hs : x.act l lib m = some y) : y.Rest lib adds sent size := by
  cases m with
  | other call =>
    obtain ⟨⟨r, z⟩, hd, hy⟩ := Option.map_eq_some_iff.mp hs
    obtain ⟨drv, -, rfl⟩ := driver_some hd
    cases hy
    exact h.same rfl rfl (fun _ hc => hc) fun _ hm => Or.inl hm
  | application app urls pages =>
    cases hs
    exact h.same restful rfl (fun _ hc => hc) fun _ hm => Or.inl hm
  | disconnect logs id =>
    obtain ⟨_, _, hy⟩ := Option.map_eq_some_iff.mp hs
    cases hy
    exact h.same rfl rfl (fun _ hc => hc) fun _ hm => Or.inl hm
  | call input =>
    obtain ⟨client, hstep, hy⟩ := Option.map_eq_some_iff.mp hs
    cases hy
    refine h.same rfl rfl (fun c hc => ?_) fun _ hm => Or.inl hm
    exact (ClientState.step_announce hstep hc).resolve_right (by rintro ⟨_, ⟨⟩⟩)
  | caller url out =>
    obtain ⟨client, hstep, hy⟩ := Option.map_eq_some_iff.mp hs
    cases hy
    exact h.caller texts restful hstep
  | endWriting K =>
    simp only [Exchange.act] at hs
    split at hs
    next c hc => exact h.announce hc hs
    next => cases hs
  | hear K =>
    simp only [Exchange.act] at hs
    split at hs
    next =>
      obtain ⟨⟨r, z⟩, hd, hy⟩ := Option.bind_eq_some_iff.mp hs
      obtain ⟨drv, -, rfl⟩ := driver_some hd
      have read : Exchange.Rest lib adds sent size { x with drv } :=
        h.same rfl rfl (fun _ hc => hc) fun _ hm => Or.inl hm
      split at hy
      next =>
        unfold Exchange.hear at hy
        split at hy
        next =>
          split at hy
          next => cases hy; exact read
          next =>
            obtain ⟨client, hstep, hy⟩ := Option.map_eq_some_iff.mp hy
            cases hy
            refine h.same rfl rfl (fun c hc => ?_) fun _ hm => Or.inl hm
            exact (ClientState.step_announce hstep hc).resolve_right (by rintro ⟨_, ⟨⟩⟩)
          next => cases hy
        next => cases hy; exact read
      next => cases hy; exact read
    next => cases hs
  | listener =>
    obtain ⟨client, hstep, hy⟩ := Option.map_eq_some_iff.mp hs
    cases hy
    refine h.same rfl rfl (fun c hc => ?_) fun mark hm => ?_
    · exact (ClientState.step_announce hstep hc).resolve_right (by rintro ⟨_, ⟨⟩⟩)
    · simp only at hm
      split at hm
      next => exact (List.mem_cons.mp hm).symm.imp_right fun new => ⟨_, _, new⟩
      next => exact Or.inl hm
  | read K =>
    simp only [Exchange.act] at hs
    split at hs
    next =>
      obtain ⟨⟨r, z⟩, hd, hy⟩ := Option.map_eq_some_iff.mp hs
      obtain ⟨drv, -, rfl⟩ := driver_some hd
      split at hy <;> cases hy <;> exact h.same rfl rfl (fun _ hc => hc) fun _ hm => Or.inl hm
    next => cases hs
  | handle os =>
    obtain ⟨ntf, hp, hy⟩ := Option.bind_eq_some_iff.mp hs
    exact h.handle sound texts hp hy
  | systemCall K =>
    obtain ⟨call, -, hy⟩ := Option.bind_eq_some_iff.mp hs
    obtain ⟨⟨r, z⟩, hd, hy⟩ := Option.bind_eq_some_iff.mp hy
    obtain ⟨drv, -, rfl⟩ := driver_some hd
    simp only at hy
    split at hy
    next =>
      obtain ⟨client, hstep, hy⟩ := Option.map_eq_some_iff.mp hy
      cases hy
      refine h.same rfl rfl (fun c hc => ?_) fun _ hm => Or.inl hm
      exact (ClientState.step_announce hstep hc).resolve_right (by rintro ⟨_, ⟨⟩⟩)
    next =>
      cases hy
      exact h.same rfl rfl (fun _ hc => hc) fun _ hm => Or.inl hm

namespace Exchange

theorem Fresh.rest (fresh : x₀.Fresh l) (served : RestServed lib adds x₀.server) (mapped : x₀.page.isMapped = true) :
    x₀.Rest lib adds sent x₀.page.maxSize := by
  obtain ⟨blocking, running, hclient⟩ := fresh.client
  refine ⟨served, mapped, rfl, fun c hc => ?_, fun call page asked => ?_, fun before after answered => ?_⟩
  · rw [hclient] at hc
    cases hc
  · rw [fresh.log] at asked
    cases asked
  · rw [fresh.log] at answered
    cases answered

end Exchange

end

namespace Exchange

end Exchange

end Ripc
