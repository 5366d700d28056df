import Ripc.ReaderBounds

namespace Ripc

open BufferView Memory

namespace ReadBufferView

/-- The next header, the character that ends it and the bytes behind; `none` where the reader runs off the page. -/
def headerAhead (ahead : List UInt8) : Option (List UInt8 × UInt8 × List UInt8) :=
  cutFirst (· ∈ headerEnds) ahead

/-- The bytes up to the finalizer; `none` where the reader runs off the page. -/
def closedAhead (ahead : List UInt8) : Option (List UInt8) :=
  (cutFirst (· = memoryFinalizer) ahead).map Prod.fst

/-- The payload, if there is one, for a reader that is behind the headers or not; `none` where it runs off the
page. At the end of the page it does not look for the end of the headers. -/
def payloadAhead (closed : Bool) (ahead : List UInt8) : Option (Option (List UInt8)) :=
  if closed then (closedAhead ahead).map some
  else if ahead = [] then some none
  else (cutFirst (· = memoryDelimeter) ahead).bind fun (_, _, tail) => (closedAhead tail).map some

/-- The payload that the reader comes to, if there is one; `none` where it runs off the page. -/
def payloadText (r : ReadBufferView) : Option (Option (List UInt8)) :=
  if r.mem.isMapped then payloadAhead r.headersFinalized r.ahead else some none

def behindHeader (m : Memory) (seg : List UInt8) (d : UInt8) : ReadBufferView :=
  { ReadBufferView.new m with
    currentSize := seg.length + 1
    headersFinalized := decide (d ≠ headerDelimeter)
    memoryFinalized := decide (d = memoryFinalizer) }

variable {r : ReadBufferView} {m : Memory} {seg tail : List UInt8} {d : UInt8}

theorem fault_of_call {c : ReadCall} {β : Type} {x : Except MemoryFault β} {f : β → ReadAnswer × ReadBufferView}
    (same : r.call c = x >>= fun p => .ok (f p)) (h : r.Faults c) : ∃ e, x = .error e := by
  obtain ⟨e, he⟩ := h
  rw [same] at he
  rcases bind_eq_error.mp he with hx | ⟨_, _, hok⟩
  · exact ⟨e, hx⟩
  · cases hok

theorem getHeader_new_unmapped (hm : m.isMapped = false) : (new m).getHeader = .ok (none, new m) := by
  simp [getHeader, new, BufferView.new, hm]

theorem getHeader_new_none (hm : m.isMapped = true) (h : headerAhead m.bytes = none) :
    ∃ e, (new m).getHeader = .error e := by
  refine fault_of_call (c := .getHeader) rfl (getHeader_faults hm ?_)
  rintro (hf | hh | ⟨b, hb, hd⟩)
  · cases hf
  · cases hh
  · exact cutFirst_eq_none.mp h b hb hd

theorem getHeader_new_some (hm : m.isMapped = true) (h : headerAhead m.bytes = some (seg, d, tail)) :
    (new m).getHeader = .ok (if d = memoryFinalizer then none else some ⟨0, seg.length⟩, behindHeader m seg d) ∧
      m.text ⟨0, seg.length⟩ = seg ∧ (behindHeader m seg d).ahead = tail := by
  obtain ⟨cut, hseg, hd⟩ := cutFirst_eq_some h
  have here : m.bytes.drop (new m).currentSize = seg ++ d :: tail := cut
  refine ⟨?_, text_view here, ?_⟩
  · simpa [behindHeader, new, BufferView.new] using getHeader_found hm rfl rfl here hseg hd
  · simpa [behindHeader, ahead, new, BufferView.new] using drop_behind here

theorem getPayload_closed_some {text : List UInt8} (hm : r.mem.isMapped = true) (hh : r.headersFinalized = true)
    (hf : r.memoryFinalized = false) (h : closedAhead r.ahead = some text) :
    ∃ start r', r.getPayload = .ok (some ⟨start, text.length⟩, r') ∧ r'.mem.text ⟨start, text.length⟩ = text := by
  obtain ⟨⟨seg, d, tail⟩, hc, rfl⟩ := Option.map_eq_some_iff.mp h
  obtain ⟨cut, hseg, rfl⟩ := cutFirst_eq_some hc
  exact ⟨_, _, getPayload_found hm hh hf cut fun hn => hseg _ hn rfl, text_view cut⟩

theorem getPayload_closed_none (hm : r.mem.isMapped = true) (hh : r.headersFinalized = true)
    (hf : r.memoryFinalized = false) (h : closedAhead r.ahead = none) : r.Faults .getPayload := by
  have absent := cutFirst_eq_none.mp (Option.map_eq_none_iff.mp h)
  exact getPayload_closed_faults hm hh hf fun hn => absent _ hn rfl

theorem getPayload_none (hf : r.memoryFinalized = false) (h : r.payloadText = none) :
    ∃ e, r.getPayload = .error e := by
  by_cases hm : r.mem.isMapped = true
  case neg => simp [payloadText, hm] at h
  rw [payloadText, if_pos hm] at h
  refine fault_of_call (c := .getPayload) rfl ?_
  by_cases hh : r.headersFinalized = true
  · rw [payloadAhead, if_pos hh, Option.map_eq_none_iff] at h
    exact getPayload_closed_none hm hh hf h
  · have hh' := eq_false_of_ne_true hh
    rw [payloadAhead, if_neg hh] at h
    split at h
    next => cases h
    next hne =>
      cases hc : cutFirst (· = memoryDelimeter) r.ahead with
      | none =>
        have room : r.currentSize < r.mem.maxSize := by
          have := List.length_pos_iff.mpr hne
          rw [ahead, List.length_drop, (bytes_of_mapped hm).2] at this
          omega
        have outside := finalizeHeader_outside hm hh' hf room fun hd => cutFirst_eq_none.mp hc _ hd rfl
        exact ⟨_, by rw [call, getPayload_error hh' hf outside, error_bind]⟩
      | some cut =>
        obtain ⟨seg, d, tail⟩ := cut
        obtain ⟨cut, hseg, rfl⟩ := cutFirst_eq_some hc
        obtain ⟨r', same, hmem, hh'', hf'', rfl⟩ := getPayload_skips hm hh' hf cut fun hd => hseg _ hd rfl
        obtain ⟨e, he⟩ := getPayload_closed_none (hmem ▸ hm) hh'' hf'' (by simpa [hc] using h)
        exact ⟨e, same.trans he⟩

theorem getPayload_unmapped (hm : r.mem.isMapped = false) : r.getPayload = .ok (none, r) := by
  by_cases hf : r.memoryFinalized = true
  · simp [getPayload, hf]
  · by_cases hh : r.headersFinalized = true <;> simp [getPayload, finalizeHeader, hm, hh, hf]

theorem getPayload_some {text : Option (List UInt8)} (hf : r.memoryFinalized = false)
    (h : r.payloadText = some text) : ∃ start r',
      r.getPayload = .ok (text.map fun t => ⟨start, t.length⟩, r') ∧
        ∀ t, text = some t → r'.mem.text ⟨start, t.length⟩ = t := by
  by_cases hm : r.mem.isMapped = true
  case neg =>
    obtain rfl : none = text := by simpa [payloadText, hm] using h
    exact ⟨0, r, getPayload_unmapped (eq_false_of_ne_true hm), by simp⟩
  rw [payloadText, if_pos hm] at h
  by_cases hh : r.headersFinalized = true
  · rw [payloadAhead, if_pos hh, Option.map_eq_some_iff] at h
    obtain ⟨t, closed, rfl⟩ := h
    obtain ⟨start, r', hr, ht⟩ := getPayload_closed_some hm hh hf closed
    exact ⟨start, r', hr, fun _ he => Option.some.inj he ▸ ht⟩
  · have hh' := eq_false_of_ne_true hh
    rw [payloadAhead, if_neg hh] at h
    split at h
    next hne =>
      cases h
      have ho : r.mem.maxSize ≤ r.currentSize := by
        rw [ahead, List.drop_eq_nil_iff, (bytes_of_mapped hm).2] at hne
        exact hne
      exact ⟨0, r, by simp [getPayload, hh', hf, finalizeHeader_null hm hh' hf ho], by simp⟩
    next =>
      obtain ⟨⟨seg, d, tail⟩, hc, h⟩ := Option.bind_eq_some_iff.mp h
      obtain ⟨t, closed, rfl⟩ := Option.map_eq_some_iff.mp h
      obtain ⟨cut, hseg, rfl⟩ := cutFirst_eq_some hc
      have opened := finalizeHeader_found hm hh' hf cut fun hd => hseg _ hd rfl
      obtain ⟨start, r', hr, ht⟩ := getPayload_closed_some
        (r := { r with currentSize := r.currentSize + seg.length + 1, headersFinalized := true }) hm rfl hf
        (by simpa [ahead, drop_behind cut] using closed)
      exact ⟨start, r', (getPayload_open hh' hf opened rfl hf).trans hr, fun _ he => Option.some.inj he ▸ ht⟩

end ReadBufferView

end Ripc
