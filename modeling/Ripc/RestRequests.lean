import Ripc.DispatchEnds
import Ripc.ReferenceReader
import Ripc.RouteTable

namespace Ripc

open BufferView ReadBufferView

section

variable {A : Type}

namespace ServerEnd

def add (s : ServerEnd A) (urlPattern : UrlPattern) (func : A → Json → A × Json) : Bool × ServerEnd A :=
  s.registerCallback urlPattern (.rest .null func)

end ServerEnd

/-- The object that a request stands for. -/
def restJson (url : Url) (payload : Option Json) : Json :=
  .object ((payload.toList.map fun value => (RestRequest.payloadKey, value)) ++
    [(RestRequest.urlKey, .array (url.pattern.map UrlToken.json))])

/-- A `RESTServer` with these patterns and handlers, after any requests that came to their end. In between,
connections come and go and clients write to their memory, which is no matter of `m_urls`. -/
inductive RestServed (lib : Nlohmann) : List (UrlPattern × (A → Json → A × Json)) → ServerEnd A → Prop
  | new {s} (empty : s.urls = []) : RestServed lib [] s
  | add {adds s} (served : RestServed lib adds s) (urlPattern : UrlPattern) (func : A → Json → A × Json) :
    RestServed lib ((urlPattern, func) :: adds) (s.add urlPattern func).2
  | request {adds s app ntf handled} (served : RestServed lib adds s)
    (dispatched : s.dispatchNewMessage lib app ntf = .ok handled) : RestServed lib adds handled.server
  | other {adds s s'} (served : RestServed lib adds s) (same : s'.urls = s.urls) : RestServed lib adds s'

/-- No handler keeps anything of a request. -/
def Cleared (adds : List (UrlPattern × (A → Json → A × Json))) (urls : List (UrlPattern × UrlCallback A)) : Prop :=
  ∀ e ∈ urls, ∃ request func, e.2 = .rest request func ∧ request.members.getD [] = [] ∧ (e.1, func) ∈ adds

variable {lib : Nlohmann} {adds : List (UrlPattern × (A → Json → A × Json))} {s : ServerEnd A} {app : A} {url : Url}
  {rb : ReadBufferView} {wb : WriteBufferView}

theorem request_json {request : RestRequest} (h : request.members.getD [] = []) (url : Url) (payload : Option Json) :
    ((request.setUrl url).setPayload payload).json = restJson url payload := by
  have first : request.setUrl url =
      ⟨some [(RestRequest.urlKey, .array (url.pattern.map UrlToken.json))]⟩ := by
    rw [RestRequest.setUrl, RestRequest.set, h]
    rfl
  rw [first]
  cases payload with
  | none => rfl
  | some value =>
    have other : RestRequest.payloadKey ≠ RestRequest.urlKey := by decide
    have order : RestRequest.payloadKey < RestRequest.urlKey := by decide
    have set : setMember RestRequest.payloadKey value
        [(RestRequest.urlKey, .array (url.pattern.map UrlToken.json))] =
        [(RestRequest.payloadKey, value), (RestRequest.urlKey, .array (url.pattern.map UrlToken.json))] := by
      rw [setMember, if_neg other, if_pos order]
    exact congrArg Json.object set

theorem call_cleared {request : RestRequest} (h : request.members.getD [] = []) (func : A → Json → A × Json) :
    (UrlCallback.rest request func).call lib app url rb wb = (lib.payload rb >>= fun payload =>
      lib.dumped (func app (restJson url payload)).2 >>= fun text =>
        .ok ((func app (restJson url payload)).1, .rest ((request.setUrl url).setPayload payload).clear func,
          (wb.setPayload text).2)) := by
  rw [UrlCallback.call_rest]
  simp only [request_json h]

theorem clear_members (request : RestRequest) : request.clear.members.getD [] = [] := by
  rw [RestRequest.clear]
  cases request.members <;> rfl

/-- The output callback clears what the input callback has set. -/
theorem callCallbacks_cleared {urls : List (UrlPattern × UrlCallback A)} {answered : UrlAnswered A}
    (cleared : Cleared adds urls) (h : callCallbacks lib app url rb wb urls = .ok (some answered)) :
    Cleared adds answered.urls := by
  induction urls generalizing answered with
  | nil => cases h
  | cons e urls ih =>
    obtain ⟨here, rest⟩ := List.forall_mem_cons.mp cleared
    rw [callCallbacks] at h
    split at h
    next =>
      obtain ⟨request, func, he, hr, added⟩ := here
      rw [he, call_cleared hr] at h
      obtain ⟨r, hcall, h⟩ := bind_eq_ok.mp h
      obtain ⟨payload, -, hcall⟩ := bind_eq_ok.mp hcall
      obtain ⟨text, -, hcall⟩ := bind_eq_ok.mp hcall
      cases hcall
      cases h
      exact List.forall_mem_cons.mpr ⟨⟨_, func, rfl, clear_members _, added⟩, rest⟩
    next =>
      obtain ⟨found, hfound, h⟩ := bind_eq_ok.mp h
      obtain ⟨more, rfl, rfl⟩ := Option.map_eq_some_iff.mp (Except.ok.inj h)
      exact List.forall_mem_cons.mpr ⟨here, ih rest hfound⟩

theorem add_cleared (cleared : Cleared adds s.urls) (urlPattern : UrlPattern) (func : A → Json → A × Json) :
    Cleared ((urlPattern, func) :: adds) (s.add urlPattern func).2.urls := by
  intro e he
  rcases mem_tryEmplace he with rfl | he
  · exact ⟨.null, func, rfl, rfl, List.mem_cons_self⟩
  · obtain ⟨request, func', hc, hr, added⟩ := cleared e he
    exact ⟨request, func', hc, hr, List.mem_cons_of_mem _ added⟩

theorem RestServed.cleared (h : RestServed lib adds s) : Cleared adds s.urls := by
  induction h with
  | new empty =>
    rw [Cleared, empty]
    exact fun e he => absurd he List.not_mem_nil
  | add _ urlPattern func ih => exact add_cleared ih urlPattern func
  | request _ dispatched ih =>
    rcases ServerEnd.dispatchNewMessage_urls dispatched with same | ⟨url, rb, wb, answered, called, same⟩
    · rwa [same]
    · rw [same]
      exact callCallbacks_cleared ih called
  | other _ same ih => rwa [same]

variable {mem : Memory}

theorem mapped_of_getHeader {view : StringView} (h : (ReadBufferView.new mem).getHeader = .ok (some view, rb)) :
    mem.isMapped = true := by
  by_contra hm
  rw [getHeader_new_unmapped (eq_false_of_ne_true hm)] at h
  cases h

theorem payloadText_of_getPayload {v : StringView} {rb' : ReadBufferView} (hf : rb.memoryFinalized = false)
    (h : rb.getPayload = .ok (some v, rb')) : rb.payloadText = some (some (rb'.mem.text v)) := by
  cases hp : rb.payloadText with
  | none =>
    obtain ⟨e, he⟩ := getPayload_none hf hp
    cases he.symm.trans h
  | some text =>
    obtain ⟨start, r', hget, shown⟩ := getPayload_some hf hp
    obtain ⟨viewed, rfl⟩ := Prod.mk.inj (Except.ok.inj (hget.symm.trans h))
    obtain ⟨t, rfl, rfl⟩ := Option.map_eq_some_iff.mp viewed
    rw [shown t rfl]

theorem message_parts {view : StringView} (hf : memoryFinalizer ∈ mem.bytes)
    (lf : memoryDelimeter ∈ mem.messageText) (h : (ReadBufferView.new mem).getHeader = .ok (some view, rb)) :
    (headersOf mem.messageText)[0]? = some (mem.text view) ∧ rb.memoryFinalized = false ∧
      rb.payloadText = some (some (payloadOf mem.messageText)) := by
  obtain ⟨rest, cut, missing⟩ := messageText_cut hf
  have fresh : Before (.new mem) mem mem.messageText rest := ⟨rfl, mapped_of_getHeader h, rfl, rfl, cut⟩
  obtain ⟨headers, r', hrun, -, read, after⟩ := fresh.run_getHeaders missing 1
  have once : (ReadBufferView.new mem).run (List.replicate 1 .getHeader) = .ok ([.view (some view)], rb) := by
    rw [List.replicate_one, run_cons _ (call_getHeader h)]
    rfl
  obtain ⟨answers, rfl⟩ := Prod.mk.inj (Except.ok.inj (once.symm.trans hrun))
  have text : (headersOf mem.messageText)[0]? = some (mem.text view) := by
    cases headers with
    | nil => cases answers
    | cons v headers =>
      have hv : some view = v := ReadAnswer.view.inj (List.cons.inj answers).1
      have first := (List.cons.inj (read lf)).1
      rw [← hv] at first
      exact first.symm
  obtain ⟨open_memory, v, r', hget, hmem, shown, -⟩ := after.payload_found missing lf
  exact ⟨text, open_memory, by rw [payloadText_of_getPayload open_memory hget, hmem, shown]⟩

theorem message_payload {view : StringView} (hf : memoryFinalizer ∈ mem.bytes)
    (lf : memoryDelimeter ∈ mem.messageText) (h : (ReadBufferView.new mem).getHeader = .ok (some view, rb)) :
    lib.payload rb = if payloadOf mem.messageText = [] then .ok none
      else (lib.parsed (payloadOf mem.messageText)).map some := by
  obtain ⟨-, open_memory, payload⟩ := message_parts hf lf h
  rw [Nlohmann.payload_eq open_memory payload]
  rfl

/-- A handler is given the URL of the request it is for and the payload that was sent with it, whatever requests came
before: on the page of a finished message, the text between the headers and the first finalizer. -/
theorem rest_requests_apart (served : RestServed lib adds s) {ntf : NotificationData} {con : ConnectionInfo}
    (asked : ServerEnd.Asked s ntf con mem rb url) (app : A) :
    ((∀ e ∈ s.urls, e.1.eqUrl url = false) → s.dispatchNewMessage lib app ntf = .ok ⟨none, app, s⟩) ∧
      ((∃ e ∈ s.urls, e.1.eqUrl url = true) → ∃ before pattern request func after,
        s.urls = before ++ (pattern, .rest request func) :: after ∧ pattern.eqUrl url = true ∧
        (pattern, func) ∈ adds ∧
        s.dispatchNewMessage lib app ntf = (lib.payload rb >>= fun payload =>
          lib.dumped (func app (restJson url payload)).2 >>= fun text =>
            .ok ⟨s.writeToClient con mem, (func app (restJson url payload)).1, { s with
              urls := before ++ (pattern, .rest ((request.setUrl url).setPayload payload).clear func) :: after
              pages := fun id =>
                if id = con.subMemId then
                  some ((WriteBufferView.new mem).setPayload text).2.finalizePayload.2.mem
                else s.pages id }⟩)) ∧
      (memoryFinalizer ∈ mem.bytes → memoryDelimeter ∈ mem.messageText →
        (∃ header, (headersOf mem.messageText)[0]? = some header ∧ Url.new header = .ok url) ∧
          lib.payload rb = if payloadOf mem.messageText = [] then .ok none
            else (lib.parsed (payloadOf mem.messageText)).map some) := by
  refine ⟨fun unlike => ?_, fun found => ?_, fun hf lf => ?_⟩
  · rw [ServerEnd.dispatchNewMessage_asked asked, ServerEnd.callCallbacks_none unlike]
    rfl
  · obtain ⟨before, ⟨pattern, callback⟩, after, cut, hbefore, hp⟩ := exists_first found
    have unlike : ∀ e ∈ before, e.1.eqUrl url = false := fun e he => eq_false_of_ne_true (hbefore e he)
    obtain ⟨request, func, rfl, cleared, added⟩ := served.cleared (pattern, callback) (by simp [cut])
    refine ⟨before, pattern, request, func, after, cut, hp, added, ?_⟩
    rw [ServerEnd.dispatchNewMessage_asked asked, cut, ServerEnd.callCallbacks_first unlike hp, call_cleared cleared]
    simp only [bind_assoc, ok_bind, Option.elim]
  · obtain ⟨view, header, parsed⟩ := asked.header
    exact ⟨⟨mem.text view, (message_parts hf lf header).1, parsed⟩, message_payload hf lf header⟩

def digitPage (digit : UInt8) : Memory := Memory.ofBytes [97, 10, digit, 0, 7] (by simp [sizeModulus])

/-- What is known of the JSON texts `1`, `2` and `null`. -/
def oneLib : Nlohmann where
  parse text := if text = [49] then some (.integer 1) else if text = [50] then some (.integer 2) else none
  dump
    | .null => some ⟨[110, 117, 108, 108], by decide⟩
    | _ => none

def noting : ServerEnd (List Json) :=
  ((⟨⟨1, [⟨2, 3⟩], [(3, true)]⟩, true, fun _ => some (digitPage 49), []⟩ : ServerEnd (List Json)).add
    ⟨[.static (.string [97])], [97]⟩ fun notes request => (notes ++ [request], .null)).2

def ServerEnd.rewritten (s : ServerEnd A) (page : Memory) : ServerEnd A := { s with pages := fun _ => some page }

/-- Of two requests for one pattern, the second brings nothing of the first. -/
theorem rest_requests_apart_one : ∃ first second,
    noting.dispatchNewMessage oneLib [] ⟨.client, .newMessage, 3, 2, 1⟩ = .ok first ∧
      (first.server.rewritten (digitPage 50)).dispatchNewMessage oneLib first.app ⟨.client, .newMessage, 3, 2, 1⟩ =
        .ok second ∧
      second.app = [restJson ⟨[.string [97]], [97]⟩ (some (.integer 1)),
        restJson ⟨[.string [97]], [97]⟩ (some (.integer 2))] := by
  have asked : ServerEnd.Asked noting ⟨.client, .newMessage, 3, 2, 1⟩ ⟨2, 3⟩ (digitPage 49)
      ⟨⟨digitPage 49, 2, true, false⟩⟩ ⟨[.string [97]], [97]⟩ := ⟨rfl, rfl, rfl, ⟨0, 1⟩, rfl, rfl⟩
  have served : RestServed oneLib _ noting := (RestServed.new rfl).add _ _
  obtain ⟨-, answered, parts⟩ := rest_requests_apart served asked []
  obtain ⟨before, pattern, request, func, after, -, like, added, dispatched⟩ :=
    answered ⟨_, List.mem_cons_self, by decide⟩
  obtain ⟨-, payload⟩ := parts (by decide) (by decide)
  obtain ⟨-, rfl⟩ := Prod.mk.inj (List.mem_singleton.mp added)
  rw [payload] at dispatched
  obtain ⟨first, hfirst, table, init, urls, app⟩ : ∃ first,
      noting.dispatchNewMessage oneLib [] ⟨.client, .newMessage, 3, 2, 1⟩ = .ok first ∧
      first.server.toLibServer = noting.toLibServer ∧ first.server.isInitialized = true ∧
      (∃ e ∈ first.server.urls, e.1.eqUrl ⟨[.string [97]], [97]⟩ = true) ∧
      first.app = [restJson ⟨[.string [97]], [97]⟩ (some (.integer 1))] :=
    ⟨_, dispatched, rfl, rfl, ⟨_, List.mem_append_right before List.mem_cons_self, like⟩, rfl⟩
  have asked : ServerEnd.Asked (first.server.rewritten (digitPage 50)) ⟨.client, .newMessage, 3, 2, 1⟩ ⟨2, 3⟩
      (digitPage 50) ⟨⟨digitPage 50, 2, true, false⟩⟩ ⟨[.string [97]], [97]⟩ := by
    refine ⟨init, ?_, ?_, ⟨0, 1⟩, rfl, rfl⟩
    · simp only [ServerEnd.rewritten, table]
      rfl
    · simp only [ServerEnd.memory, ServerEnd.rewritten, table]
      rfl
  have served : RestServed oneLib _ (first.server.rewritten (digitPage 50)) := (served.request hfirst).other rfl
  obtain ⟨-, answered, parts⟩ := rest_requests_apart served asked first.app
  obtain ⟨before, pattern, request, func, after, -, -, added, dispatched⟩ := answered urls
  obtain ⟨-, payload⟩ := parts (by decide) (by decide)
  obtain ⟨-, rfl⟩ := Prod.mk.inj (List.mem_singleton.mp added)
  rw [payload] at dispatched
  refine ⟨first, _, hfirst, dispatched, ?_⟩
  rw [app]
  rfl

end

end Ripc
