import Ripc.PageText
import Ripc.Codec

namespace Ripc

open BufferView Memory

def Memory.messageText (m : Memory) : List UInt8 := m.bytes.takeWhile (· ≠ memoryFinalizer)

/-- The pieces of a text before its first delimiter between headers and payload. -/
def headersOf (t : List UInt8) : List (List UInt8) :=
  (t.takeWhile (· ≠ memoryDelimeter)).splitOn headerDelimeter

/-- What is behind that delimiter. -/
def payloadOf (t : List UInt8) : List UInt8 := (t.dropWhile (· ≠ memoryDelimeter)).tail

section

variable {t seg tail : List UInt8}

theorem takeWhile_ne_append {d : UInt8} (h : d ∉ seg) (tail : List UInt8) :
    (seg ++ tail).takeWhile (· ≠ d) = seg ++ tail.takeWhile (· ≠ d) ∧
      (seg ++ tail).dropWhile (· ≠ d) = tail.dropWhile (· ≠ d) := by
  have skip : ∀ b ∈ seg, decide (b ≠ d) = true := fun b hb => decide_eq_true fun he => h (he ▸ hb)
  exact ⟨List.takeWhile_append_of_pos skip, List.dropWhile_append_of_pos skip⟩

theorem headersOf_more (hh : headerDelimeter ∉ seg) (hp : memoryDelimeter ∉ seg) (tail : List UInt8) :
    headersOf (seg ++ headerDelimeter :: tail) = seg :: headersOf tail ∧
      payloadOf (seg ++ headerDelimeter :: tail) = payloadOf tail := by
  obtain ⟨taken, dropped⟩ := takeWhile_ne_append hp (headerDelimeter :: tail)
  refine ⟨?_, ?_⟩
  · rw [headersOf, taken, List.takeWhile_cons_of_pos (by decide),
      List.splitOn_append_cons_self_of_not_mem hh, headersOf]
  · rw [payloadOf, dropped, List.dropWhile_cons_of_pos (by decide), payloadOf]

theorem mem_more (hp : memoryDelimeter ∉ seg) (tail : List UInt8) :
    memoryDelimeter ∈ seg ++ headerDelimeter :: tail ↔ memoryDelimeter ∈ tail := by
  rw [List.mem_append, List.mem_cons]
  exact ⟨fun h => (h.resolve_left hp).resolve_left (by decide), fun h => Or.inr (Or.inr h)⟩

theorem count_more (hh : headerDelimeter ∉ seg) (tail : List UInt8) :
    (seg ++ headerDelimeter :: tail).count headerDelimeter = tail.count headerDelimeter + 1 := by
  rw [List.count_append, List.count_eq_zero_of_not_mem hh, List.count_cons_self, Nat.zero_add]

theorem headers_succ {headers tail : List (List UInt8)} {header : List UInt8} (h : headers = header :: tail) (k : Nat) :
    ((List.range (k + 1)).map fun i => headers[i]?) = some header :: (List.range k).map fun i => tail[i]? := by
  rw [h, List.range_succ_eq_map, List.map_cons, List.map_map]
  rfl

theorem payloadOf_behind (hp : memoryDelimeter ∉ seg) (tail : List UInt8) :
    payloadOf (seg ++ memoryDelimeter :: tail) = tail := by
  rw [payloadOf, (takeWhile_ne_append hp _).2, List.dropWhile_cons_of_neg (by decide), List.tail_cons]

theorem headersOf_last (hh : headerDelimeter ∉ seg) (hp : memoryDelimeter ∉ seg) (tail : List UInt8) :
    headersOf (seg ++ memoryDelimeter :: tail) = [seg] := by
  rw [headersOf, (takeWhile_ne_append hp _).1, List.takeWhile_cons_of_neg (by decide), List.append_nil,
    List.splitOn_eq_singleton hh]

theorem text_cases (t : List UInt8) :
    (∃ seg tail, t = seg ++ headerDelimeter :: tail ∧ headerDelimeter ∉ seg ∧ memoryDelimeter ∉ seg) ∨
      (∃ seg tail, t = seg ++ memoryDelimeter :: tail ∧ headerDelimeter ∉ seg ∧ memoryDelimeter ∉ seg) ∨
      headerDelimeter ∉ t ∧ memoryDelimeter ∉ t := by
  by_cases h : ∃ b ∈ t, b = headerDelimeter ∨ b = memoryDelimeter
  · obtain ⟨seg, d, tail, cut, hseg, hd⟩ := exists_first h
    have free : headerDelimeter ∉ seg ∧ memoryDelimeter ∉ seg :=
      ⟨fun hb => hseg _ hb (Or.inl rfl), fun hb => hseg _ hb (Or.inr rfl)⟩
    rcases hd with rfl | rfl
    · exact Or.inl ⟨seg, tail, cut, free⟩
    · exact Or.inr (Or.inl ⟨seg, tail, cut, free⟩)
  · exact Or.inr (Or.inr ⟨fun hb => h ⟨_, hb, Or.inl rfl⟩, fun hb => h ⟨_, hb, Or.inr rfl⟩⟩)

theorem headerText_of_notMem (hh : headerDelimeter ∉ seg) (hp : memoryDelimeter ∉ seg)
    (hf : memoryFinalizer ∉ seg) : HeaderText seg := by
  intro b hb hmem
  simp only [ReadBufferView.headerEnds, List.mem_cons, List.not_mem_nil, or_false] at hmem
  rcases hmem with rfl | rfl | rfl
  · exact hh hb
  · exact hp hb
  · exact hf hb

end

namespace ReadBufferView

variable {r r' : ReadBufferView} {m : Memory} {t rest : List UInt8}

/-- The reader is among the headers, `t` is what it has before it up to the first finalizer. -/
structure Before (r : ReadBufferView) (m : Memory) (t rest : List UInt8) : Prop where
  mem : r.mem = m
  mapped : m.isMapped = true
  open_headers : r.headersFinalized = false
  open_memory : r.memoryFinalized = false
  ahead : m.bytes.drop r.currentSize = t ++ memoryFinalizer :: rest

/-- Where the reader is after `k` calls of `getHeader`. -/
inductive After (m : Memory) (t rest : List UInt8) (k : Nat) (r : ReadBufferView) : Prop
  | among (t' : List UInt8) (here : Before r m t' rest) (few : memoryDelimeter ∉ t → k ≤ t.count headerDelimeter)
      (same : memoryDelimeter ∈ t' ↔ memoryDelimeter ∈ t) (payload : payloadOf t' = payloadOf t)
      (suffix : t' <:+ t)
  | behind (found : memoryDelimeter ∈ t) (here : AtPayload r m (payloadOf t) rest)
  | ended (missing : memoryDelimeter ∉ t) (many : t.count headerDelimeter < k) (done : r.memoryFinalized = true)

/-- A view ends before the first finalizer. -/
def Short (m : Memory) (rest : List UInt8) (v : StringView) : Prop :=
  v.start + v.size + rest.length < m.bytes.length

theorem short_view {seg : List UInt8} {i : Nat} (tail : List UInt8)
    (h : m.bytes.drop i = seg ++ (tail ++ memoryFinalizer :: rest)) : Short m rest ⟨i, seg.length⟩ := by
  have hl := congrArg List.length h
  simp only [List.length_drop, List.length_append, List.length_cons] at hl
  show i + seg.length + rest.length < m.bytes.length
  omega

theorem call_getHeader {v : Option StringView} (h : r.getHeader = .ok (v, r')) :
    r.call .getHeader = .ok (.view v, r') := by
  rw [call, h, ok_bind]

theorem run_idle (h : r.getHeader = .ok (none, r)) (k : Nat) :
    r.run (List.replicate k .getHeader) = .ok ((List.replicate k none).map .view, r) := by
  induction k with
  | zero => rfl
  | succ k ih =>
    rw [List.replicate_succ, run_cons _ (call_getHeader h), ih]
    rfl

theorem run_append {answers : List ReadAnswer} {calls : List ReadCall} (more : List ReadCall)
    (h : r.run calls = .ok (answers, r')) :
    r.run (calls ++ more) = (r'.run more >>= fun p => .ok (answers ++ p.1, p.2)) := by
  induction calls generalizing r answers with
  | nil =>
    cases h
    cases hm : r'.run more <;> simp [hm]
  | cons c calls ih =>
    obtain ⟨⟨a, next⟩, hcall, h⟩ := bind_eq_ok.mp h
    obtain ⟨⟨rest, last⟩, hrun, h⟩ := bind_eq_ok.mp h
    cases h
    rw [List.cons_append, run_cons _ hcall, ih hrun]
    cases r'.run more <;> rfl

theorem Before.getHeader_more {seg tail : List UInt8} (h : Before r m (seg ++ headerDelimeter :: tail) rest)
    (ht : HeaderText seg) : ∃ v r', r.call .getHeader = .ok (.view (some v), r') ∧ m.text v = seg ∧
      Short m rest v ∧ Before r' m tail rest := by
  obtain ⟨rfl, hm, hh, hf, ahead⟩ := h
  have cut : r.mem.bytes.drop r.currentSize =
      seg ++ headerDelimeter :: (tail ++ memoryFinalizer :: rest) := by
    simpa using ahead
  have found := getHeader_found hm hh hf cut ht (by simp [headerEnds])
  refine ⟨⟨r.currentSize, seg.length⟩, _, call_getHeader found, text_view cut,
    short_view (headerDelimeter :: tail) (by simpa using ahead), rfl, hm, rfl, rfl, ?_⟩
  simpa [Nat.add_assoc] using drop_behind cut

theorem Before.getHeader_last {seg tail : List UInt8} (h : Before r m (seg ++ memoryDelimeter :: tail) rest)
    (ht : HeaderText seg) : ∃ v r', r.call .getHeader = .ok (.view (some v), r') ∧ m.text v = seg ∧
      Short m rest v ∧ AtPayload r' m tail rest := by
  obtain ⟨rfl, hm, hh, hf, ahead⟩ := h
  have cut : r.mem.bytes.drop r.currentSize =
      seg ++ memoryDelimeter :: (tail ++ memoryFinalizer :: rest) := by
    simpa using ahead
  have found := getHeader_found hm hh hf cut ht (by simp [headerEnds])
  refine ⟨⟨r.currentSize, seg.length⟩, _, call_getHeader found, text_view cut,
    short_view (memoryDelimeter :: tail) (by simpa using ahead), rfl, hm, rfl, rfl, ?_⟩
  simpa [Nat.add_assoc] using drop_behind cut

theorem Before.getHeader_ended (h : Before r m t rest) (ht : HeaderText t) :
    ∃ r', r.call .getHeader = .ok (.view none, r') ∧ r'.memoryFinalized = true := by
  obtain ⟨rfl, hm, hh, hf, ahead⟩ := h
  have found := getHeader_found hm hh hf ahead ht (by simp [headerEnds])
  exact ⟨_, call_getHeader found, rfl⟩

/-- So many calls return so many headers, then nothing more. -/
theorem Before.run_getHeaders (h : Before r m t rest) (hf : memoryFinalizer ∉ t) (k : Nat) :
    ∃ (headers : List (Option StringView)) (r' : ReadBufferView),
      r.run (List.replicate k .getHeader) = .ok (headers.map .view, r') ∧
      (∀ v, some v ∈ headers → Short m rest v) ∧
      (memoryDelimeter ∈ t → headers.map (Option.map m.text) = (List.range k).map fun i => (headersOf t)[i]?) ∧
      After m t rest k r' := by
  induction k generalizing r t with
  | zero =>
    exact ⟨[], r, rfl, by simp, fun _ => rfl, .among t h (fun _ => Nat.zero_le _) Iff.rfl rfl (List.suffix_refl t)⟩
  | succ k ih =>
    rw [List.replicate_succ]
    rcases text_cases t with ⟨seg, tail, rfl, hh, hp⟩ | ⟨seg, tail, rfl, hh, hp⟩ | ⟨hh, hp⟩
    · have ht := headerText_of_notMem hh hp fun hb => hf (List.mem_append_left _ hb)
      obtain ⟨v, r₁, first, text, hv, here⟩ := h.getHeader_more ht
      obtain ⟨headers, r₂, hrun, short, read, after⟩ := ih here fun hb => hf (by simp [hb])
      obtain ⟨pieces, payload⟩ := headersOf_more hh hp tail
      have found := mem_more hp tail
      refine ⟨some v :: headers, r₂, ?_, ?_, fun lf => ?_, ?_⟩
      · rw [run_cons _ first, hrun]
        rfl
      · intro w hw
        rcases List.mem_cons.mp hw with he | hw
        · exact Option.some.inj he ▸ hv
        · exact short w hw
      · rw [headers_succ pieces, List.map_cons, read (found.mp lf), Option.map_some, text]
      · have tabs := count_more hh tail
        cases after with
        | among t' here few same payload' suffix =>
          refine .among t' here (fun missing => ?_) (same.trans found.symm) (payload'.trans payload.symm) ?_
          · have := few fun lf => missing (found.mpr lf)
            omega
          · exact suffix.trans ⟨seg ++ [headerDelimeter], by simp⟩
        | behind lf here => exact .behind (found.mpr lf) (payload ▸ here)
        | ended missing many done => exact .ended (fun lf => missing (found.mp lf)) (by omega) done
    · have ht := headerText_of_notMem hh hp fun hb => hf (List.mem_append_left _ hb)
      obtain ⟨v, r₁, first, text, hv, here⟩ := h.getHeader_last ht
      have pieces := headersOf_last hh hp tail
      refine ⟨some v :: List.replicate k none, r₁, ?_, ?_, fun _ => ?_, ?_⟩
      · rw [run_cons _ first, run_idle here.getHeader]
        rfl
      · intro w hw
        rcases List.mem_cons.mp hw with he | hw
        · exact Option.some.inj he ▸ hv
        · exact absurd (List.eq_of_mem_replicate hw) (Option.some_ne_none w)
      · rw [headers_succ pieces, List.map_cons, Option.map_some, text]
        simp
      · exact .behind (by simp) ((payloadOf_behind hp tail).symm ▸ here)
    · obtain ⟨r₁, first, done⟩ := h.getHeader_ended (headerText_of_notMem hh hp hf)
      refine ⟨none :: List.replicate k none, r₁, ?_, by simp, fun lf => absurd lf hp, ?_⟩
      · rw [run_cons _ first, run_idle (getHeader_finalized (Or.inl done))]
        rfl
      · have tabs : t.count headerDelimeter = 0 := List.count_eq_zero_of_not_mem hh
        exact .ended hp (by omega) done

theorem call_getPayload {v : Option StringView} (h : r.getPayload = .ok (v, r')) :
    r.call .getPayload = .ok (.view v, r') := by
  rw [call, h, ok_bind]

theorem AtPayload.payload_found (h : AtPayload r m t rest) (hf : memoryFinalizer ∉ t) :
    ∃ v r', r.getPayload = .ok (some v, r') ∧ r'.mem = m ∧ m.text v = t ∧ Short m rest v := by
  obtain ⟨rfl, hm, hh, hm', ahead⟩ := h
  exact ⟨_, _, getPayload_found hm hh hm' ahead hf, rfl, text_view ahead, short_view [] ahead⟩

theorem Before.payload_found (h : Before r m t rest) (hf : memoryFinalizer ∉ t) (lf : memoryDelimeter ∈ t) :
    ∃ v r', r.getPayload = .ok (some v, r') ∧ r'.mem = m ∧ m.text v = payloadOf t ∧ Short m rest v := by
  obtain ⟨rfl, hm, hh, hm', ahead⟩ := h
  obtain ⟨seg, d, tail, rfl, hseg, rfl⟩ := exists_first (p := (· = memoryDelimeter)) ⟨_, lf, rfl⟩
  have missing : memoryDelimeter ∉ seg := fun hb => hseg _ hb rfl
  have cut : r.mem.bytes.drop r.currentSize =
      seg ++ memoryDelimeter :: (tail ++ memoryFinalizer :: rest) := by
    simpa using ahead
  have closed := finalizeHeader_found hm hh hm' cut missing
  rw [payloadOf_behind missing, getPayload_open hh hm' closed rfl hm']
  exact AtPayload.payload_found ⟨rfl, hm, rfl, hm', drop_behind cut⟩ fun hb => hf (by simp [hb])

theorem After.payload_found {k : Nat} (h : After m t rest k r) (hf : memoryFinalizer ∉ t) (lf : memoryDelimeter ∈ t) :
    r.memoryFinalized = false ∧
      ∃ v r', r.getPayload = .ok (some v, r') ∧ r'.mem = m ∧ m.text v = payloadOf t ∧ Short m rest v := by
  cases h with
  | among t' here few same payload suffix =>
    have missing : memoryFinalizer ∉ t' := fun hb => hf (suffix.subset hb)
    exact ⟨here.open_memory, payload ▸ here.payload_found missing (same.mpr lf)⟩
  | behind _ here =>
    have missing : memoryFinalizer ∉ payloadOf t := fun hb =>
      hf ((List.dropWhile_suffix _).subset (List.mem_of_mem_tail hb))
    exact ⟨here.open_memory, here.payload_found missing⟩
  | ended no _ _ => exact absurd lf no

theorem payloadAhead_some {ahead : List UInt8} {text : Option (List UInt8)} (hne : ahead ≠ [])
    (h : payloadAhead false ahead = some text) : text ≠ none := by
  rw [payloadAhead, if_neg Bool.false_ne_true, if_neg hne] at h
  obtain ⟨⟨seg, d, tail⟩, -, h⟩ := Option.bind_eq_some_iff.mp h
  obtain ⟨t, -, rfl⟩ := Option.map_eq_some_iff.mp h
  exact Option.some_ne_none t

theorem Before.getPayload_ne_none (h : Before r m t rest) : r.call .getPayload ≠ .ok (.view none, r') := by
  obtain ⟨rfl, hm, hh, hf, ahead⟩ := h
  intro hcall
  obtain ⟨⟨v, r₁⟩, hget, he⟩ := bind_eq_ok.mp hcall
  cases he
  cases hp : r.payloadText with
  | none =>
    obtain ⟨e, he⟩ := getPayload_none hf hp
    cases hget.symm.trans he
  | some text =>
    obtain ⟨start, r₂, hsome, -⟩ := getPayload_some hf hp
    have nothing : text.map (fun t => (⟨start, t.length⟩ : StringView)) = none :=
      (Prod.mk.inj (Except.ok.inj (hsome.symm.trans hget))).1
    rw [payloadText, if_pos hm, hh] at hp
    have hne : r.ahead ≠ [] := fun he => by
      rw [ReadBufferView.ahead, ahead] at he
      simp at he
    exact payloadAhead_some hne hp (Option.map_eq_none_iff.mp nothing)

/-- After `k` calls of `getHeader` a fresh reader gets the payload of the text before the first finalizer, and it was
given the first `k` headers; without a delimiter it gets nothing. No view shows a byte behind the text. -/
def DecodesText (m : Memory) (k : Nat) : Prop :=
  ∃ (headers : List (Option StringView)) (payload : Option StringView) (last : ReadBufferView),
    (new m).run (List.replicate k .getHeader ++ [.getPayload]) =
        .ok ((headers ++ [payload]).map .view, last) ∧
      (∀ v, some v ∈ headers ++ [payload] → ∀ i, v.start ≤ i → i < v.start + v.size → i < m.messageText.length) ∧
      if memoryDelimeter ∈ m.messageText then
        headers.map (Option.map m.text) = (List.range k).map (fun i => (headersOf m.messageText)[i]?) ∧
          payload.map m.text = some (payloadOf m.messageText)
      else payload = none

theorem messageText_cut (hf : memoryFinalizer ∈ m.bytes) :
    ∃ rest, m.bytes = m.messageText ++ memoryFinalizer :: rest ∧ memoryFinalizer ∉ m.messageText := by
  obtain ⟨seg, d, rest, cut, hseg, rfl⟩ := exists_first (p := (· = memoryFinalizer)) ⟨_, hf, rfl⟩
  have missing : memoryFinalizer ∉ seg := fun hb => hseg _ hb rfl
  have text : m.messageText = seg := by
    rw [Memory.messageText, cut, (takeWhile_ne_append missing _).1, List.takeWhile_cons_of_neg (by decide),
      List.append_nil]
  exact ⟨rest, text.symm ▸ cut, text.symm ▸ missing⟩

theorem Short.lt {v : StringView} (h : Short m rest v) (cut : m.bytes = t ++ memoryFinalizer :: rest) :
    v.start + v.size ≤ t.length := by
  have hl := congrArg List.length cut
  simp only [List.length_append, List.length_cons] at hl
  unfold Short at h
  omega

theorem run_reads {answers : List (Option StringView)} {a : ReadAnswer} {last : ReadBufferView} {k : Nat}
    (headers : r.run (List.replicate k .getHeader) = .ok (answers.map .view, r'))
    (payload : r'.call .getPayload = .ok (a, last)) :
    r.run (List.replicate k .getHeader ++ [.getPayload]) = .ok (answers.map .view ++ [a], last) := by
  rw [run_append _ headers, run_cons _ payload]
  rfl

theorem answer_of_run_reads {answers found : List (Option StringView)} {v : Option StringView}
    {last : ReadBufferView} (k : Nat) (headers : r.run (List.replicate k .getHeader) = .ok (answers.map .view, r'))
    (h : r.run (List.replicate k .getHeader ++ [.getPayload]) = .ok ((found ++ [v]).map .view, last)) :
    r'.call .getPayload = .ok (.view v, last) := by
  rw [run_append _ headers, bind_eq_ok] at h
  obtain ⟨⟨more, r₁⟩, hrun, he⟩ := h
  obtain ⟨⟨a, r₂⟩, hcall, hdone⟩ := bind_eq_ok.mp hrun
  cases hdone
  obtain ⟨same, rfl⟩ := Prod.mk.inj (Except.ok.inj he)
  rw [List.map_append, List.map_singleton] at same
  obtain rfl : a = .view v := List.singleton_inj.mp (List.append_inj' same rfl).2
  exact hcall

end ReadBufferView

open ReadBufferView

/-- The reader decodes the text before the first finalizer when that has a delimiter between headers and payload, or
when the reader has come to the finalizer before it is asked for the payload. -/
theorem reader_reference (m : Memory) (hm : m.isMapped = true) (hf : memoryFinalizer ∈ m.bytes) (k : Nat) :
    DecodesText m k ↔ memoryDelimeter ∈ m.messageText ∨ m.messageText.count headerDelimeter < k := by
  obtain ⟨rest, cut, missing⟩ := messageText_cut hf
  have fresh : Before (new m) m m.messageText rest := ⟨rfl, hm, rfl, rfl, cut⟩
  obtain ⟨headers, r, hrun, short, read, after⟩ := fresh.run_getHeaders missing k
  by_cases lf : memoryDelimeter ∈ m.messageText
  · refine iff_of_true ?_ (Or.inl lf)
    obtain ⟨-, v, last, hget, -, text, hv⟩ := after.payload_found missing lf
    refine ⟨headers, some v, last, by simpa using run_reads hrun (call_getPayload hget), fun w hw i _ hi => ?_, ?_⟩
    · have hw' : Short m rest w := by
        rcases List.mem_append.mp hw with hw | hw
        · exact short w hw
        · exact Option.some.inj (List.mem_singleton.mp hw) ▸ hv
      have := hw'.lt cut
      omega
    · rw [if_pos lf, Option.map_some, text]
      exact ⟨read lf, rfl⟩
  · rw [or_iff_right lf]
    cases after with
    | among t' here few _ _ _ =>
      have := few lf
      refine iff_of_false ?_ (by omega)
      rintro ⟨headers', payload', last, hrun', -, answer⟩
      rw [if_neg lf] at answer
      subst answer
      exact here.getPayload_ne_none (answer_of_run_reads k hrun hrun')
    | behind found _ => exact absurd found lf
    | ended _ many done =>
      refine iff_of_true ?_ many
      have idle : r.call .getPayload = .ok (.view none, r) := call_getPayload (by simp [getPayload, done])
      refine ⟨headers, none, r, by simpa using run_reads hrun idle, fun w hw i _ hi => ?_, by rw [if_neg lf]⟩
      have hw' : some w ∈ headers := by simpa using hw
      have := (short w hw').lt cut
      omega

theorem reader_reference_message : DecodesText fiveBytes 1 :=
  (reader_reference fiveBytes rfl (by decide) 1).mpr (Or.inl (by decide))

/-- Behind the finalizer the page still holds the end of a longer message. -/
def leftover : Memory := ofBytes [97, 0, 98, 10, 99, 0] (by decide)

/-- The payload of the message that was overwritten is returned. -/
theorem leftover_payload : ¬DecodesText leftover 0 ∧
    (ReadBufferView.new leftover).run [.getPayload] = .ok ([.view (some ⟨4, 1⟩)], ⟨⟨leftover, 5, true, true⟩⟩) := by
  have returned : (ReadBufferView.new leftover).call .getPayload =
      .ok (.view (some ⟨4, 1⟩), ⟨⟨leftover, 5, true, true⟩⟩) := rfl
  refine ⟨?_, by rw [run_cons _ returned]; rfl⟩
  rintro ⟨headers, payload, last, hrun, -, answer⟩
  have missing : memoryDelimeter ∉ leftover.messageText := by decide
  rw [if_neg missing] at answer
  subst answer
  have start : (ReadBufferView.new leftover).run (List.replicate 0 .getHeader) =
      .ok (([] : List (Option StringView)).map .view, ReadBufferView.new leftover) := rfl
  have nothing := answer_of_run_reads 0 start hrun
  cases returned.symm.trans nothing

end Ripc
