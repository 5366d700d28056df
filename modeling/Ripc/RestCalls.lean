import Ripc.Exchange
import Ripc.RestRequests
import Ripc.RoundTrip

namespace Ripc

open BufferView Memory WriteBufferView

/-- `RESTClient::get` and `RESTClient::post`. -/
inductive RestCall
  | get (url : StdString)
  | post (url : StdString) (json : Json)

/-- `dump` never returns an empty text, and it escapes zero characters. -/
def Nlohmann.Texts (lib : Nlohmann) : Prop :=
  ∀ value text, lib.dump value = some text → text.chars ≠ [] ∧ memoryFinalizer ∉ text.chars

namespace RestCall

def url : RestCall → StdString
  | get url | post url _ => url

/-- The second callback for `Client::call`, unless `dump` throws in it. -/
def out (lib : Nlohmann) : RestCall → Option (Option (WriteBufferView → WriteBufferView))
  | get _ => some none
  | post _ json => (lib.dump json).map fun text => some fun wb => (wb.setPayload text).2

/-- The text behind the URL. -/
def text (lib : Nlohmann) : RestCall → Option (List UInt8)
  | get _ => some []
  | post _ json => (lib.dump json).map StdString.chars

/-- What `nlohmann::json::parse` makes of that text on the other side. -/
def payload (lib : Nlohmann) : RestCall → Option (Option Json)
  | get _ => some none
  | post _ json => (lib.dump json).bind fun text => (lib.parse text.chars).map some

/-- The URL has no delimiters in it, and there is room for the request. -/
structure Fits (lib : Nlohmann) (size : Nat) (call : RestCall) : Prop where
  header : HeaderText call.url.chars
  room : ∀ text, call.text lib = some text → call.url.length + text.length + 2 ≤ size

/-- The page is that of the request. -/
structure Carries (lib : Nlohmann) (call : RestCall) (page : Memory) : Prop where
  mapped : page.isMapped = true
  header : HeaderText call.url.chars
  bytes : ∃ text rest, call.text lib = some text ∧ memoryFinalizer ∉ text ∧
    page.bytes = message [call.url.chars] text ++ rest

end RestCall

/-- What the output callback of a REST handler and the end of the message leave. -/
def replyWrites (text : StdString) (mem : Memory) : Memory :=
  ((WriteBufferView.new mem).setPayload text).2.finalizePayload.2.mem

section

variable {A : Type} {lib : Nlohmann} {adds : List (UrlPattern × (A → Json → A × Json))} {call : RestCall}
  {page mem : Memory} {w : WriteBufferView} {text : StdString} {s : ServerEnd A} {app : A}

namespace Memory

@[simp] theorem write_isMapped (m : Memory) (i : Nat) (data : StdString) :
    (m.write i data).2.isMapped = m.isMapped := by
  simp only [write]
  repeat' split
  all_goals rfl

@[simp] theorem add_isMapped (m : Memory) (i : Nat) (ch : UInt8) : (m.add i ch).2.isMapped = m.isMapped := by
  simp only [add]
  repeat' split
  all_goals rfl

/-- A page that was only written to. -/
structure Resembles (m m' : Memory) : Prop where
  isMapped : m'.isMapped = m.isMapped
  maxSize : m'.maxSize = m.maxSize

theorem Resembles.refl (m : Memory) : m.Resembles m := ⟨rfl, rfl⟩

theorem Resembles.trans {m m' m'' : Memory} (h : m.Resembles m') (h' : m'.Resembles m'') : m.Resembles m'' :=
  ⟨h'.isMapped.trans h.isMapped, h'.maxSize.trans h.maxSize⟩

end Memory

namespace WriteBufferView

theorem addChar_resembles (w : WriteBufferView) (ch : UInt8) : w.mem.Resembles (w.addChar ch).2.mem := by
  have isMapped := add_isMapped w.mem w.currentSize ch
  have maxSize := add_maxSize w.mem w.currentSize ch
  unfold addChar
  split
  next mem hadd =>
    rw [hadd] at isMapped maxSize
    exact ⟨isMapped, maxSize⟩
  next => exact .refl _

theorem addHeader_resembles (w : WriteBufferView) (data : StdString) : w.mem.Resembles (w.addHeader data).2.mem := by
  have first := addChar_resembles w headerDelimeter
  have header : ∀ w' : WriteBufferView, w'.mem.Resembles (w'.writeHeader data).2.mem := fun w' =>
    ⟨write_isMapped _ _ _, write_maxSize _ _ _⟩
  unfold addHeader
  split
  next => exact .refl _
  next =>
    split
    next => exact .refl _
    next =>
      split
      next => exact .refl _
      next =>
        split
        next hw =>
          split at hw
          next => rw [hw] at first; exact first
          next => cases hw
        next hw =>
          split at hw
          next => rw [hw] at first; exact first.trans (header _)
          next => cases hw; exact header _

theorem finalizeHeader_resembles (w : WriteBufferView) : w.mem.Resembles w.finalizeHeader.2.mem := by
  have closed := addChar_resembles w memoryDelimeter
  unfold finalizeHeader
  split
  next => exact .refl _
  next =>
    split
    next => exact .refl _
    next =>
      split
      next => exact .refl _
      next =>
        split
        next hw => rw [hw] at closed; exact closed
        next hw => rw [hw] at closed; exact closed

theorem closeHeaders_resembles (w : WriteBufferView) : w.mem.Resembles w.closeHeaders.2.mem := by
  unfold closeHeaders
  split
  next => exact finalizeHeader_resembles w
  next => exact .refl _

theorem finalizePayload_resembles (w : WriteBufferView) : w.mem.Resembles w.finalizePayload.2.mem := by
  have headers := closeHeaders_resembles w
  unfold finalizePayload
  split
  next => exact .refl _
  next =>
    split
    next => exact .refl _
    next =>
      split
      next hw => rw [hw] at headers; exact headers
      next w' hw =>
        rw [hw] at headers
        have closed := addChar_resembles w' memoryFinalizer
        split
        next hw' => rw [hw'] at closed; exact headers.trans closed
        next hw' => rw [hw'] at closed; exact headers.trans closed

theorem setPayload_resembles (w : WriteBufferView) (data : StdString) : w.mem.Resembles (w.setPayload data).2.mem := by
  have headers := closeHeaders_resembles w
  unfold setPayload
  split
  next => exact .refl _
  next =>
    split
    next hw => rw [hw] at headers; exact headers
    next w' hw =>
      rw [hw] at headers
      have written : w'.mem.Resembles (w'.mem.write w'.currentSize data).2 :=
        ⟨write_isMapped _ _ _, write_maxSize _ _ _⟩
      split
      next size mem hwrite =>
        rw [hwrite] at written
        split
        next => exact headers.trans written
        next =>
          have closed := finalizePayload_resembles { w' with mem, currentSize := sizeAdd w'.currentSize size }
          exact headers.trans (written.trans closed)

end WriteBufferView

theorem replyWrites_resembles (text : StdString) (mem : Memory) : mem.Resembles (replyWrites text mem) :=
  (setPayload_resembles (.new mem) text).trans (finalizePayload_resembles _)

theorem callWrites_resembles {out : Option (WriteBufferView → WriteBufferView)} (hout : call.out lib = some out)
    (mem : Memory) : mem.Resembles (callWrites call.url out mem) := by
  have header := addHeader_resembles (.new mem) call.url
  cases call with
  | get url =>
    cases hout
    exact header.trans (finalizePayload_resembles _)
  | post url json =>
    obtain ⟨text, -, rfl⟩ := Option.map_eq_some_iff.mp hout
    exact header.trans ((setPayload_resembles _ text).trans (finalizePayload_resembles _))

theorem callWrites_carries (texts : lib.Texts) (hm : page.isMapped = true) (fits : call.Fits lib page.maxSize)
    {out : Option (WriteBufferView → WriteBufferView)} (hout : call.out lib = some out) :
    call.Carries lib (callWrites call.url out page) := by
  cases call with
  | get url =>
    cases hout
    have room : url.length + 0 + 2 ≤ page.maxSize := fits.room [] rfl
    have enough : url.length + 0 + (1 - 1) + 1 + 0 + 1 ≤ page.maxSize := by omega
    obtain ⟨-, mapped, rest, bytes⟩ := @writeMessage_ok page ⟨[], by decide⟩ [url] hm enough
    exact ⟨mapped, fits.header, [], rest, rfl, List.not_mem_nil, bytes⟩
  | post url json =>
    obtain ⟨text, dumped, rfl⟩ := Option.map_eq_some_iff.mp hout
    obtain ⟨nonempty, escaped⟩ := texts json text dumped
    have shown : (RestCall.post url json).text lib = some text.chars := by rw [RestCall.text, dumped]; rfl
    have room : url.length + text.length + 2 ≤ page.maxSize := fits.room text.chars shown
    have enough : url.length + 0 + (1 - 1) + 1 + text.length + 1 ≤ page.maxSize := by omega
    obtain ⟨-, mapped, rest, bytes⟩ := @writeMessage_ok page text [url] hm enough
    have written : (writeMessage (.new page) [url] text).2.mem =
        callWrites url (some fun wb => (wb.setPayload text).2) page := by
      simp only [writeMessage, if_neg nonempty]
      rfl
    rw [written] at mapped bytes
    exact ⟨mapped, fits.header, text.chars, rest, shown, escaped, bytes⟩

theorem RestCall.Carries.reads (h : call.Carries lib page) (texts : lib.Texts) : ∃ view rb,
    (ReadBufferView.new page).getHeader = .ok (some view, rb) ∧ page.text view = call.url.chars ∧
      ∀ payload, lib.payload rb = .ok payload → call.payload lib = some payload := by
  obtain ⟨text, rest, shown, escaped, bytes⟩ := h.bytes
  have fresh : ReadBufferView.AtHeaders (.new page) page [call.url.chars] text rest := ⟨rfl, h.mapped, rfl, rfl, bytes⟩
  obtain ⟨view, rb, header, url, behind⟩ := ReadBufferView.getHeader_last fresh h.header
  obtain ⟨v, r', read, same⟩ := behind.getPayload escaped
  refine ⟨view, rb, header, url, fun payload hp => ?_⟩
  have carried := payloadText_of_getPayload behind.open_memory read
  rw [same] at carried
  rw [Nlohmann.payload_eq behind.open_memory carried, Option.elim_some] at hp
  cases call with
  | get url =>
    cases shown
    cases hp
    rfl
  | post url json =>
    obtain ⟨dumped, hd, rfl⟩ := Option.map_eq_some_iff.mp shown
    rw [if_neg (texts json dumped hd).1] at hp
    rw [RestCall.payload, hd, Option.bind_some]
    unfold Nlohmann.parsed at hp
    split at hp
    next value parsed =>
      cases hp
      rw [parsed]
      rfl
    next => cases hp

/-- The handler that is asked for the URL: that of the most specific pattern. -/
structure Chosen (adds : List (UrlPattern × (A → Json → A × Json))) (url : Url) (pattern : UrlPattern)
    (func : A → Json → A × Json) : Prop where
  added : (pattern, func) ∈ adds
  equals : pattern.eqUrl url = true
  specific : ∀ e ∈ adds, e.1.eqUrl url = true → e.1.pattern = pattern.pattern ∨ MoreSpecific pattern e.1

/-- The patterns of the server are those that were added, in their order. -/
structure RestTable (adds : List (UrlPattern × (A → Json → A × Json))) (urls : List (UrlPattern × UrlCallback A)) :
    Prop where
  cleared : Cleared adds urls
  ordered : Ascending (List.Lex PatternToken.Less) IUrl.pattern urls
  all : ∀ e ∈ adds, ∃ e' ∈ urls, e'.1.pattern = e.1.pattern

theorem RestServed.table (served : RestServed lib adds s) : RestTable adds s.urls := by
  have sorted : Ascending (List.Lex PatternToken.Less) IUrl.pattern s.urls ∧
      ∀ e ∈ adds, ∃ e' ∈ s.urls, e'.1.pattern = e.1.pattern := by
    induction served with
    | new empty => exact ⟨empty ▸ Ascending.nil, fun e he => absurd he List.not_mem_nil⟩
    | @add adds s _ urlPattern func ih =>
      rw [ServerEnd.add]
      rcases ServerEnd.registerCallback_cases ih.1 urlPattern (.rest .null func) with
        ⟨⟨e', he', same⟩, kept⟩ | ⟨-, urls, registered, ordered, perm⟩
      · rw [kept]
        exact ⟨ih.1, List.forall_mem_cons.mpr ⟨⟨e', he', same⟩, ih.2⟩⟩
      · rw [registered]
        refine ⟨ordered, List.forall_mem_cons.mpr ⟨⟨_, perm.mem_iff.mpr List.mem_cons_self, rfl⟩, fun e he => ?_⟩⟩
        obtain ⟨e', he', same⟩ := ih.2 e he
        exact ⟨e', perm.mem_iff.mpr (List.mem_cons_of_mem _ he'), same⟩
    | request _ dispatched ih =>
      have keys := ServerEnd.dispatchNewMessage_keys dispatched
      refine ⟨ServerEnd.ascending_of_keys ih.1 keys, fun e he => ?_⟩
      obtain ⟨e', he', same⟩ := ih.2 e he
      obtain ⟨k, hk, kept⟩ := List.mem_map.mp (keys ▸ List.mem_map_of_mem (f := Prod.fst) he')
      exact ⟨k, hk, kept ▸ same⟩
    | other _ same ih => rwa [same]
  exact ⟨served.cleared, sorted.1, sorted.2⟩

theorem RestTable.chosen (table : RestTable adds s.urls) {url : Url} (found : ∃ e ∈ s.urls, e.1.eqUrl url = true) :
    ∃ before pattern request func after, s.urls = before ++ (pattern, .rest request func) :: after ∧
      (∀ e ∈ before, e.1.eqUrl url = false) ∧ request.members.getD [] = [] ∧ Chosen adds url pattern func := by
  obtain ⟨before, pattern, callback, after, cut, unlike, equals, specific⟩ :=
    ServerEnd.exists_chosen table.ordered found
  obtain ⟨request, func, rfl, cleared, added⟩ := table.cleared (pattern, callback) (by simp [cut])
  refine ⟨before, pattern, request, func, after, cut, unlike, cleared, added, equals, fun e he matched => ?_⟩
  obtain ⟨e', he', same⟩ := table.all e he
  have matched' : e'.1.eqUrl url = true := by rwa [UrlPattern.eqUrl, same]
  rcases specific e' he' matched' with rfl | more
  · exact Or.inl same.symm
  · refine Or.inr ?_
    obtain ⟨first, tok, rest, d, rest2, hp, hp2⟩ := more
    exact ⟨first, tok, rest, d, rest2, hp, same ▸ hp2⟩

/-- What the server writes for a request, if it answers it. -/
theorem RestTable.answers (table : RestTable adds s.urls) (texts : lib.Texts) (carries : call.Carries lib page)
    {con : ConnectionInfo} {handled : ServerHandled A} (h : s.answer lib app con page = .ok handled) :
    handled = ⟨none, app, s⟩ ∨ ∃ url pattern func payload text,
      Url.new call.url.chars = .ok url ∧ call.payload lib = some payload ∧ Chosen adds url pattern func ∧
        lib.dump (func app (restJson url payload)).2 = some text ∧
        handled.server.pages con.subMemId = some (replyWrites text page) := by
  obtain ⟨view, rb, header, shown, reads⟩ := carries.reads texts
  unfold ServerEnd.answer at h
  rw [header, onPage_ok, ok_bind] at h
  simp only [shown] at h
  obtain ⟨url, hurl, h⟩ := bind_eq_ok.mp h
  have parsed : Url.new call.url.chars = .ok url := by
    cases hp : Url.new call.url.chars with
    | ok url' =>
      rw [hp] at hurl
      exact congrArg _ (Except.ok.inj hurl)
    | error e =>
      rw [hp] at hurl
      cases hurl
  obtain ⟨result, called, h⟩ := bind_eq_ok.mp h
  by_cases found : ∃ e ∈ s.urls, e.1.eqUrl url = true
  · obtain ⟨before, pattern, request, func, after, cut, unlike, cleared, chosen⟩ := table.chosen found
    rw [cut, ServerEnd.callCallbacks_first unlike chosen.equals, call_cleared cleared] at called
    obtain ⟨r, hcall, called⟩ := bind_eq_ok.mp called
    obtain ⟨payload, hpayload, hcall⟩ := bind_eq_ok.mp hcall
    obtain ⟨text, htext, hcall⟩ := bind_eq_ok.mp hcall
    cases hcall
    cases called
    cases h
    have dumped : lib.dump (func app (restJson url payload)).2 = some text := by
      unfold Nlohmann.dumped at htext
      split at htext
      next hd => rw [hd, Except.ok.inj htext]
      next => cases htext
    exact Or.inr ⟨url, pattern, func, payload, text, parsed, reads payload hpayload, chosen, dumped, if_pos rfl⟩
  · have unlike : ∀ e ∈ s.urls, e.1.eqUrl url = false := fun e he =>
      eq_false_of_ne_true fun equals => found ⟨e, he, equals⟩
    rw [ServerEnd.callCallbacks_none unlike] at called
    cases called
    exact Or.inl (Except.ok.inj h).symm

theorem get_replyWrites (texts : lib.Texts) {value : Json} (dumped : lib.dump value = some text)
    (hm : page.isMapped = true) (room : text.length + 2 ≤ page.maxSize) (app : A) (out : A → Json → A) :
    (CallbackIn.get out).run lib app (some (replyWrites text page)) = (lib.parsed text.chars).map (out app) := by
  obtain ⟨nonempty, escaped⟩ := texts value text dumped
  have enough : 0 + (0 - 1) + 1 + text.length + 1 ≤ page.maxSize := by omega
  obtain ⟨-, mapped, rest, bytes⟩ := @writeMessage_ok page text [] hm enough
  have written : (writeMessage (.new page) [] text).2.mem = replyWrites text page := by
    simp only [writeMessage, if_neg nonempty]
    rfl
  rw [written] at mapped bytes
  have fresh : ReadBufferView.AtHeaders (.new (replyWrites text page)) (replyWrites text page) [] text.chars rest :=
    ⟨rfl, mapped, rfl, rfl, bytes⟩
  obtain ⟨v, r', read, same⟩ := fresh.getPayload (fun _ h => absurd h List.not_mem_nil) escaped
  have carried := payloadText_of_getPayload fresh.open_memory read
  rw [same] at carried
  rw [CallbackIn.run, Nlohmann.payload_eq fresh.open_memory carried, Option.elim_some, if_neg nonempty]
  cases lib.parsed text.chars <;> rfl

end

end Ripc
