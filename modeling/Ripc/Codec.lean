import Ripc.WriteBuffer

namespace Ripc

open BufferView Memory

/-- The headers, the delimiter behind them, the payload and the terminator. -/
def message (headers : List (List UInt8)) (payload : List UInt8) : List UInt8 :=
  joined headerDelimeter headers ++ memoryDelimeter :: (payload ++ [memoryFinalizer])

/-- What a header may contain. -/
def HeaderText (header : List UInt8) : Prop := ∀ b ∈ header, b ∉ ReadBufferView.headerEnds

instance (header : List UInt8) : Decidable (HeaderText header) :=
  List.decidableBAll (fun b => b ∉ ReadBufferView.headerEnds) header

namespace ReadBufferView

def getHeaders : Nat → ReadBufferView →
    Except MemoryFault (List (Option (List UInt8)) × ReadBufferView)
  | 0, r => .ok ([], r)
  | k + 1, r => do
    let (v, next) ← r.getHeader
    let (vs, last) ← getHeaders k next
    .ok (v.map next.mem.text :: vs, last)

variable {r : ReadBufferView} {m : Memory} {header payload rest : List UInt8}
  {headers : List (List UInt8)}

/-- The reader stands before these headers. -/
structure AtHeaders (r : ReadBufferView) (m : Memory) (headers : List (List UInt8))
    (payload rest : List UInt8) : Prop where
  mem : r.mem = m
  mapped : m.isMapped = true
  open_headers : r.headersFinalized = false
  open_memory : r.memoryFinalized = false
  ahead : m.bytes.drop r.currentSize = message headers payload ++ rest

/-- The reader stands before the payload. -/
structure AtPayload (r : ReadBufferView) (m : Memory) (payload rest : List UInt8) : Prop where
  mem : r.mem = m
  mapped : m.isMapped = true
  closed_headers : r.headersFinalized = true
  open_memory : r.memoryFinalized = false
  ahead : m.bytes.drop r.currentSize = payload ++ memoryFinalizer :: rest

theorem getHeader_more {next : List UInt8} (h : AtHeaders r m (header :: next :: headers) payload rest)
    (ht : HeaderText header) : ∃ v r', r.getHeader = .ok (some v, r') ∧ m.text v = header ∧
      AtHeaders r' m (next :: headers) payload rest := by
  obtain ⟨rfl, hm, hh, hf, ahead⟩ := h
  have cut : r.mem.bytes.drop r.currentSize =
      header ++ headerDelimeter :: (message (next :: headers) payload ++ rest) := by
    rw [ahead]
    simp [message]
  refine ⟨_, _, getHeader_found hm hh hf cut ht (by simp [headerEnds]), text_view cut,
    rfl, hm, rfl, rfl, ?_⟩
  simpa [Nat.add_assoc] using drop_behind cut

theorem getHeader_last (h : AtHeaders r m [header] payload rest) (ht : HeaderText header) :
    ∃ v r', r.getHeader = .ok (some v, r') ∧ m.text v = header ∧ AtPayload r' m payload rest := by
  obtain ⟨rfl, hm, hh, hf, ahead⟩ := h
  have cut : r.mem.bytes.drop r.currentSize =
      header ++ memoryDelimeter :: (payload ++ memoryFinalizer :: rest) := by
    rw [ahead]
    simp [message]
  refine ⟨_, _, getHeader_found hm hh hf cut ht (by simp [headerEnds]), text_view cut,
    rfl, hm, rfl, rfl, ?_⟩
  simpa [Nat.add_assoc] using drop_behind cut

theorem AtPayload.getHeader (h : AtPayload r m payload rest) : r.getHeader = .ok (none, r) :=
  getHeader_finalized (Or.inr h.closed_headers)

theorem AtPayload.getPayload (h : AtPayload r m payload rest) (hp : memoryFinalizer ∉ payload) :
    ∃ v r', r.getPayload = .ok (some v, r') ∧ r'.mem.text v = payload := by
  obtain ⟨rfl, hm, hh, hf, ahead⟩ := h
  exact ⟨_, _, getPayload_found hm hh hf ahead hp, text_view ahead⟩

/-- Headers that were not read are skipped. -/
theorem AtHeaders.getPayload (h : AtHeaders r m headers payload rest)
    (ht : ∀ header ∈ headers, HeaderText header) (hp : memoryFinalizer ∉ payload) :
    ∃ v r', r.getPayload = .ok (some v, r') ∧ r'.mem.text v = payload := by
  obtain ⟨rfl, hm, hh, hf, ahead⟩ := h
  have none_inside : memoryDelimeter ∉ joined headerDelimeter headers :=
    notMem_joined (by decide) fun header hmem hb => ht header hmem _ hb (by simp [headerEnds])
  have cut : r.mem.bytes.drop r.currentSize = joined headerDelimeter headers ++
      memoryDelimeter :: (payload ++ memoryFinalizer :: rest) := by
    rw [ahead]
    simp [message]
  have closed := finalizeHeader_found hm hh hf cut none_inside
  rw [getPayload_open hh hf closed rfl hf]
  exact AtPayload.getPayload ⟨rfl, hm, rfl, hf, drop_behind cut⟩ hp

/-- The reader has some headers before it, or it has read all of them. -/
def Reading (r : ReadBufferView) (m : Memory) (headers : List (List UInt8))
    (payload rest : List UInt8) : Prop :=
  headers ≠ [] ∧ AtHeaders r m headers payload rest ∨ headers = [] ∧ AtPayload r m payload rest

theorem Reading.getPayload (h : Reading r m headers payload rest)
    (ht : ∀ header ∈ headers, HeaderText header) (hp : memoryFinalizer ∉ payload) :
    ∃ v r', r.getPayload = .ok (some v, r') ∧ r'.mem.text v = payload := by
  rcases h with ⟨-, h⟩ | ⟨-, h⟩
  · exact h.getPayload ht hp
  · exact h.getPayload hp

theorem getHeader_next (h : AtHeaders r m (header :: headers) payload rest) (ht : HeaderText header) :
    ∃ v r', r.getHeader = .ok (some v, r') ∧ r'.mem = m ∧ m.text v = header ∧
      Reading r' m headers payload rest := by
  cases headers with
  | nil =>
    obtain ⟨v, r', hget, htext, hr⟩ := getHeader_last h ht
    exact ⟨v, r', hget, hr.mem, htext, Or.inr ⟨rfl, hr⟩⟩
  | cons next headers =>
    obtain ⟨v, r', hget, htext, hr⟩ := getHeader_more h ht
    exact ⟨v, r', hget, hr.mem, htext, Or.inl ⟨List.cons_ne_nil _ _, hr⟩⟩

/-- So many calls return so many headers, and the reader stands before the others. -/
theorem getHeaders_take (h : Reading r m headers payload rest)
    (ht : ∀ header ∈ headers, HeaderText header) {k : Nat} (hk : k ≤ headers.length) :
    ∃ r', getHeaders k r = .ok ((headers.take k).map some, r') ∧
      Reading r' m (headers.drop k) payload rest := by
  induction k generalizing r headers with
  | zero => exact ⟨r, by simp [getHeaders], h⟩
  | succ k ih =>
    cases headers with
    | nil => exact absurd hk (Nat.not_succ_le_zero k)
    | cons header headers =>
      have here := (h.resolve_right (by simp)).2
      obtain ⟨v, r', hget, hmem, htext, hr⟩ := getHeader_next here (ht _ (by simp))
      obtain ⟨r'', hmore, hr'⟩ := ih hr (fun q hq => ht q (List.mem_cons_of_mem _ hq))
        (Nat.le_of_succ_le_succ hk)
      exact ⟨r'', by simp [getHeaders, hget, hmore, hmem, htext], hr'⟩

theorem getHeaders_succ {k : Nat} {vs : List (Option (List UInt8))} {r' : ReadBufferView}
    (h : getHeaders k r = .ok (vs, r')) : getHeaders (k + 1) r =
      (r'.getHeader >>= fun p => .ok (vs ++ [p.1.map p.2.mem.text], p.2)) := by
  induction k generalizing r vs with
  | zero =>
    cases h
    rfl
  | succ k ih =>
    obtain ⟨⟨v, r₁⟩, hget, h⟩ := bind_eq_ok.mp h
    obtain ⟨⟨vs', r₂⟩, hmore, h⟩ := bind_eq_ok.mp h
    cases h
    rw [getHeaders, hget, ok_bind]
    simp only [ih hmore]
    cases r'.getHeader <;> rfl

end ReadBufferView

/-- A fresh reader gets this answer from each of the `getHeader` calls and then this payload. -/
def ReadsBack (m : Memory) (headers : List (Option (List UInt8))) (payload : List UInt8) : Prop :=
  ∃ r v r', ReadBufferView.getHeaders headers.length (.new m) = .ok (headers, r) ∧
    r.getPayload = .ok (some v, r') ∧ r'.mem.text v = payload

/-- After any number of headers a fresh reader gets the payload, and after all headers it gets no
further one. -/
def Decodes (m : Memory) (headers : List (List UInt8)) (payload : List UInt8) : Prop :=
  (∀ k ≤ headers.length, ReadsBack m ((headers.take k).map some) payload) ∧
    (headers ≠ [] → ReadsBack m (headers.map some ++ [none]) payload)

theorem decodes_of_bytes {m : Memory} {headers : List (List UInt8)} {payload rest : List UInt8}
    (hm : m.isMapped = true) (hb : m.bytes = message headers payload ++ rest)
    (ht : ∀ header ∈ headers, HeaderText header) (hp : memoryFinalizer ∉ payload) :
    Decodes m headers payload := by
  have fresh : ReadBufferView.AtHeaders (.new m) m headers payload rest :=
    ⟨rfl, hm, rfl, rfl, hb⟩
  by_cases hne : headers = []
  · subst hne
    refine ⟨fun k hk => ?_, fun h => absurd rfl h⟩
    obtain ⟨v, r', hget, htext⟩ := fresh.getPayload ht hp
    exact ⟨_, v, r', by simp [ReadBufferView.getHeaders], hget, htext⟩
  · have start : ReadBufferView.Reading (.new m) m headers payload rest := Or.inl ⟨hne, fresh⟩
    refine ⟨fun k hk => ?_, fun _ => ?_⟩
    · obtain ⟨r, htake, hr⟩ := ReadBufferView.getHeaders_take start ht hk
      obtain ⟨v, r', hget, htext⟩ := hr.getPayload
        (fun header hmem => ht header (List.mem_of_mem_drop hmem)) hp
      exact ⟨r, v, r', by simpa [Nat.min_eq_left hk] using htake, hget, htext⟩
    · obtain ⟨r, htake, hr⟩ := ReadBufferView.getHeaders_take start ht (Nat.le_refl _)
      rw [List.drop_length, List.take_length] at *
      have done := (hr.resolve_left fun h => h.1 rfl).2
      obtain ⟨v, r', hget, htext⟩ := done.getPayload hp
      refine ⟨r, v, r', ?_, hget, htext⟩
      rw [List.length_append, List.length_map, List.length_singleton,
        ReadBufferView.getHeaders_succ htake, done.getHeader]
      rfl

end Ripc
