import Ripc.Dispatch
import Ripc.PatternUrls

namespace Ripc

section

variable {A : Type}

namespace ServerEnd

def registerCallback (s : ServerEnd A) (urlPattern : UrlPattern) (callback : UrlCallback A) : Bool × ServerEnd A :=
  let (inserted, urls) := tryEmplace (List.Lex PatternToken.Less) IUrl.pattern urlPattern callback s.urls
  (inserted, { s with urls })

end ServerEnd

/-- What `m_urls` is at any time: ordered, with patterns that were made of texts. -/
structure RouteTable (urls : List (UrlPattern × UrlCallback A)) : Prop where
  ordered : Ascending (List.Lex PatternToken.Less) IUrl.pattern urls
  made : ∀ e ∈ urls, ∃ p, UrlPattern.new p = .ok e.1

theorem made_ofText {p : List UInt8} {pat : UrlPattern} (h : UrlPattern.new p = .ok pat) :
    Url.NumbersFit p ∧ pat = .ofText p := by
  rw [UrlPattern.new_eq] at h
  split at h
  next fits => exact ⟨fits, (Except.ok.inj h).symm⟩
  next => cases h

theorem sameUrls_of_made {p p2 : List UInt8} {pat pat2 : UrlPattern} (h : UrlPattern.new p = .ok pat)
    (h2 : UrlPattern.new p2 = .ok pat2) : SameUrls pat pat2 ↔ pat.pattern = pat2.pattern := by
  obtain ⟨fits, rfl⟩ := made_ofText h
  obtain ⟨-, rfl⟩ := made_ofText h2
  exact sameUrls_iff fits

theorem RouteTable.single {p : List UInt8} {pat : UrlPattern} (made : UrlPattern.new p = .ok pat)
    (callback : UrlCallback A) : RouteTable [(pat, callback)] := by
  refine ⟨List.pairwise_singleton _ _, fun e he => ?_⟩
  obtain rfl := List.mem_singleton.mp he
  exact ⟨p, made⟩

namespace ServerEnd

variable {s : ServerEnd A} {urlPattern : UrlPattern}

theorem registerCallback_cases (ordered : Ascending (List.Lex PatternToken.Less) IUrl.pattern s.urls)
    (urlPattern : UrlPattern) (callback : UrlCallback A) :
    (∃ e ∈ s.urls, e.1.pattern = urlPattern.pattern) ∧ s.registerCallback urlPattern callback = (false, s) ∨
      (∀ e ∈ s.urls, e.1.pattern ≠ urlPattern.pattern) ∧ ∃ urls,
        s.registerCallback urlPattern callback = (true, { s with urls }) ∧
          Ascending (List.Lex PatternToken.Less) IUrl.pattern urls ∧
          urls.Perm ((urlPattern, callback) :: s.urls) := by
  rcases tryEmplace_cases ordered urlPattern callback with ⟨found, kept⟩ | ⟨missing, urls, added, asc, perm⟩
  · exact Or.inl ⟨found, by rw [registerCallback, kept]⟩
  · exact Or.inr ⟨missing, urls, by rw [registerCallback, added], asc, perm⟩

/-- A pattern is refused exactly if there is one for the same URLs, and then nothing changes. -/
theorem registerCallback_refused (table : RouteTable s.urls) {p : List UInt8}
    (made : UrlPattern.new p = .ok urlPattern) (callback : UrlCallback A) :
    ((s.registerCallback urlPattern callback).1 = false ↔ ∃ e ∈ s.urls, SameUrls e.1 urlPattern) ∧
      ((s.registerCallback urlPattern callback).1 = false → s.registerCallback urlPattern callback = (false, s)) := by
  have same : ∀ e ∈ s.urls, (SameUrls e.1 urlPattern ↔ e.1.pattern = urlPattern.pattern) := fun e he => by
    obtain ⟨p', hp'⟩ := table.made e he
    exact sameUrls_of_made hp' made
  rcases registerCallback_cases table.ordered urlPattern callback with
    ⟨⟨e, he, found⟩, kept⟩ | ⟨missing, urls, added, -⟩
  · rw [kept]
    exact ⟨iff_of_true rfl ⟨e, he, (same e he).mpr found⟩, fun _ => rfl⟩
  · have no : ¬∃ e ∈ s.urls, SameUrls e.1 urlPattern := fun ⟨e, he, h⟩ => missing e he ((same e he).mp h)
    rw [added]
    exact ⟨iff_of_false Bool.false_ne_true.symm no, fun h => absurd h Bool.false_ne_true.symm⟩

/-- A second pattern is refused, and the first one keeps its callbacks, exactly if both equal the same URLs. On a
server with more patterns it is also refused where one of these equals the same URLs as the second. -/
theorem registerCallback_duplicate (p₁ p₂ : List UInt8) (fits₁ : Url.NumbersFit p₁) (fits₂ : Url.NumbersFit p₂) :
    ∃ pat₁ pat₂, UrlPattern.new p₁ = .ok pat₁ ∧ UrlPattern.new p₂ = .ok pat₂ ∧
      ∀ (s : ServerEnd A) (callback₁ callback₂ : UrlCallback A), RouteTable s.urls → (pat₁, callback₁) ∈ s.urls →
        (SameUrls pat₁ pat₂ → s.registerCallback pat₂ callback₂ = (false, s)) ∧
        ((s.registerCallback pat₂ callback₂).1 = false →
          s.registerCallback pat₂ callback₂ = (false, s) ∧ ∃ e ∈ s.urls, SameUrls e.1 pat₂) ∧
        (s.urls = [(pat₁, callback₁)] → ((s.registerCallback pat₂ callback₂).1 = false ↔ SameUrls pat₁ pat₂)) := by
  refine ⟨.ofText p₁, .ofText p₂, by rw [UrlPattern.new_eq, if_pos fits₁], by rw [UrlPattern.new_eq, if_pos fits₂],
    fun s callback₁ callback₂ table held => ?_⟩
  have made : UrlPattern.new p₂ = .ok (.ofText p₂) := by rw [UrlPattern.new_eq, if_pos fits₂]
  obtain ⟨refused, kept⟩ := registerCallback_refused table made callback₂
  refine ⟨fun same => kept (refused.mpr ⟨_, held, same⟩), fun h => ⟨kept h, refused.mp h⟩, fun only => ?_⟩
  rw [refused, only]
  simp

/-- A server that holds `/<int>` refuses `//<int>/`. -/
theorem registerCallback_duplicate_slashes :
    ∃ pat₁ pat₂, UrlPattern.new [47, 60, 105, 110, 116, 62] = .ok pat₁ ∧
      UrlPattern.new [47, 47, 60, 105, 110, 116, 62, 47] = .ok pat₂ ∧
      ((⟨⟨1, [], []⟩, true, fun _ => none, [(pat₁, .plain none none)]⟩ : ServerEnd Unit).registerCallback pat₂
        (.plain none none)).1 = false := by
  obtain ⟨pat₁, pat₂, h₁, h₂, duplicate⟩ := registerCallback_duplicate (A := Unit) [47, 60, 105, 110, 116, 62]
    [47, 47, 60, 105, 110, 116, 62, 47] (by decide) (by decide)
  have here := duplicate ⟨⟨1, [], []⟩, true, fun _ => none, [(pat₁, .plain none none)]⟩ (.plain none none)
    (.plain none none) (RouteTable.single h₁ _) (List.mem_singleton_self _)
  refine ⟨pat₁, pat₂, h₁, h₂, (here.2.2 rfl).mpr ?_⟩
  rw [sameUrls_of_made h₁ h₂, (made_ofText h₁).2, (made_ofText h₂).2]
  decide

/-- The request on the page of a connection: the server has read this URL. -/
structure Asked (s : ServerEnd A) (ntf : NotificationData) (con : ConnectionInfo) (mem : Memory) (rb : ReadBufferView)
    (url : Url) : Prop where
  initialized : s.isInitialized = true
  connection : s.findConnection ntf.senderId = some con
  memory : s.memory con = .ok mem
  header : ∃ view, (ReadBufferView.new mem).getHeader = .ok (some view, rb) ∧ Url.new (mem.text view) = .ok url

variable {lib : Nlohmann} {app : A} {url : Url} {rb : ReadBufferView} {wb : WriteBufferView}

theorem callCallbacks_none {urls : List (UrlPattern × UrlCallback A)} (h : ∀ e ∈ urls, e.1.eqUrl url = false) :
    callCallbacks lib app url rb wb urls = .ok none := by
  induction urls with
  | nil => rfl
  | cons e urls ih =>
    have rest := ih fun e' he => h e' (List.mem_cons_of_mem _ he)
    rw [callCallbacks, if_neg (by simp [h e List.mem_cons_self]), rest]
    rfl

theorem callCallbacks_first {before after : List (UrlPattern × UrlCallback A)} {pattern : UrlPattern}
    {callback : UrlCallback A} (h : ∀ e ∈ before, e.1.eqUrl url = false) (hp : pattern.eqUrl url = true) :
    callCallbacks lib app url rb wb (before ++ (pattern, callback) :: after) =
      (callback.call lib app url rb wb >>= fun r =>
        .ok (some ⟨r.1, before ++ (pattern, r.2.1) :: after, r.2.2⟩)) := by
  induction before with
  | nil =>
    rw [List.nil_append, callCallbacks, if_pos hp]
    rfl
  | cons e before ih =>
    have rest := ih fun e' he => h e' (List.mem_cons_of_mem _ he)
    rw [List.cons_append, callCallbacks, if_neg (by simp [h e List.mem_cons_self]), rest]
    cases callback.call lib app url rb wb <;> rfl

theorem dispatchNewMessage_asked {s : ServerEnd A} {ntf : NotificationData} {con : ConnectionInfo} {mem : Memory}
    (asked : Asked s ntf con mem rb url) : s.dispatchNewMessage lib app ntf =
      (callCallbacks lib app url rb (.new mem) s.urls >>= fun answered =>
        .ok (answered.elim ⟨none, app, s⟩ fun a => ⟨s.writeToClient con mem, a.app, { s with
          urls := a.urls
          pages := fun id => if id = con.subMemId then some a.wb.finalizePayload.2.mem else s.pages id }⟩)) := by
  obtain ⟨view, header, parsed⟩ := asked.header
  simp only [dispatchNewMessage, asked.initialized, asked.connection, asked.memory, ok_bind, answer, header, onPage,
    Except.mapError, parsed, throwing, Bool.not_true, Bool.false_eq_true, if_false]
  refine congrArg _ (funext fun answered => ?_)
  cases answered <;> rfl

/-- The first pattern of an ordered table that equals the URL is more specific than all others that do. -/
theorem exists_chosen {urls : List (UrlPattern × UrlCallback A)}
    (ordered : Ascending (List.Lex PatternToken.Less) IUrl.pattern urls) (h : ∃ e ∈ urls, e.1.eqUrl url = true) :
    ∃ before pattern callback after, urls = before ++ (pattern, callback) :: after ∧
      (∀ e ∈ before, e.1.eqUrl url = false) ∧ pattern.eqUrl url = true ∧
      ∀ e ∈ urls, e.1.eqUrl url = true → e.1 = pattern ∨ MoreSpecific pattern e.1 := by
  obtain ⟨before, ⟨pattern, callback⟩, after, rfl, hbefore, hp⟩ := exists_first h
  have unlike : ∀ e ∈ before, e.1.eqUrl url = false := fun e he => eq_false_of_ne_true (hbefore e he)
  refine ⟨before, pattern, callback, after, rfl, unlike, hp, fun e he heq => ?_⟩
  rcases List.mem_append.mp he with he | he
  · exact absurd heq (hbefore e he)
  · rcases List.mem_cons.mp he with rfl | he
    · exact Or.inl rfl
    · have behind := (List.pairwise_cons.mp (List.pairwise_append.mp ordered).2.1).1 e he
      exact Or.inr (moreSpecific_of_less hp heq behind)

theorem ascending_of_keys {urls urls' : List (UrlPattern × UrlCallback A)}
    (h : Ascending (List.Lex PatternToken.Less) IUrl.pattern urls) (keys : urls'.map Prod.fst = urls.map Prod.fst) :
    Ascending (List.Lex PatternToken.Less) IUrl.pattern urls' := by
  have sorted : (urls.map Prod.fst).Pairwise fun p q => p.Less q := List.pairwise_map.mpr h
  rw [← keys] at sorted
  have back := List.pairwise_map.mp sorted
  exact back

theorem callCallbacks_keys {urls : List (UrlPattern × UrlCallback A)} {answered : UrlAnswered A}
    (h : callCallbacks lib app url rb wb urls = .ok (some answered)) :
    answered.urls.map Prod.fst = urls.map Prod.fst := by
  induction urls generalizing answered with
  | nil => cases h
  | cons e urls ih =>
    rw [callCallbacks] at h
    split at h
    next =>
      obtain ⟨r, -, h⟩ := bind_eq_ok.mp h
      cases h
      rfl
    next =>
      obtain ⟨found, hfound, h⟩ := bind_eq_ok.mp h
      obtain ⟨rest, rfl, rfl⟩ := Option.map_eq_some_iff.mp (Except.ok.inj h)
      exact congrArg (List.cons e.1) (ih hfound)

theorem dispatchNewMessage_urls {ntf : NotificationData} {handled : ServerHandled A}
    (h : s.dispatchNewMessage lib app ntf = .ok handled) : handled.server.urls = s.urls ∨
      ∃ url rb wb answered, callCallbacks lib app url rb wb s.urls = .ok (some answered) ∧
        handled.server.urls = answered.urls := by
  rw [dispatchNewMessage] at h
  split at h
  next =>
    cases h
    exact Or.inl rfl
  next =>
    split at h
    next =>
      cases h
      exact Or.inl rfl
    next con hcon =>
      obtain ⟨mem, -, h⟩ := bind_eq_ok.mp h
      obtain ⟨⟨view, rb⟩, -, h⟩ := bind_eq_ok.mp h
      cases view with
      | none =>
        cases h
        exact Or.inl rfl
      | some view =>
        obtain ⟨url, -, h⟩ := bind_eq_ok.mp h
        obtain ⟨answered, hanswered, h⟩ := bind_eq_ok.mp h
        cases answered with
        | none =>
          cases h
          exact Or.inl rfl
        | some answered =>
          cases h
          exact Or.inr ⟨url, rb, _, answered, hanswered, rfl⟩

theorem dispatchNewMessage_keys {ntf : NotificationData} {handled : ServerHandled A}
    (h : s.dispatchNewMessage lib app ntf = .ok handled) : handled.server.urls.map Prod.fst = s.urls.map Prod.fst := by
  rcases dispatchNewMessage_urls h with same | ⟨url, rb, wb, answered, called, same⟩
  · rw [same]
  · rw [same, callCallbacks_keys called]

end ServerEnd

end

end Ripc
