import Ripc.Codec

namespace Ripc

open BufferView Memory WriteBufferView

/-- A whole message: one `addHeader` for each header, `setPayload` unless the payload is empty,
`finalizePayload`; the results in order. -/
def writeMessage (w : WriteBufferView) (headers : List StdString) (payload : StdString) :
    List Bool × WriteBufferView :=
  let (added, w) := w.addHeaders headers
  let (set, w) :=
    if payload.chars = [] then ([], w)
    else
      let (b, w) := w.setPayload payload
      ([b], w)
  let (closed, w) := w.finalizePayload
  (added ++ set ++ [closed], w)

variable {m : Memory} {w : WriteBufferView} {headers : List (List UInt8)} {rest : List UInt8}

theorem headers_length (headers : List StdString) :
    (joined headerDelimeter (headers.map StdString.chars)).length =
      (headers.map StdString.length).sum + (headers.length - 1) := by
  rw [joined_length, List.map_map, List.length_map]
  rfl

theorem closed_message (hc : Composing w headers rest) (payload : StdString)
    (fits : payload.length + 1 < rest.length) :
    ∃ w', (if payload.chars = [] then w.finalizePayload else w.setPayload payload) = (true, w') ∧
      w'.mem.isMapped = true ∧ w'.memoryFinalized = true ∧
      ∃ rest', w'.mem.bytes = message headers payload.chars ++ rest' := by
  obtain ⟨b, rest, rfl⟩ := List.exists_cons_of_length_pos (by omega : 0 < rest.length)
  rw [List.length_cons] at fits
  obtain ⟨w₁, hclose, hc₁⟩ := closeHeaders_room hc
  split
  next hp =>
    obtain ⟨b', rest', rfl⟩ := List.exists_cons_of_length_pos (by omega : 0 < rest.length)
    obtain ⟨w₂, hfin, hm, hf, hb⟩ := finalizePayload_room hc₁
    exact ⟨w₂, (finalizePayload_composing hc hclose hc₁).trans hfin, hm, hf, rest',
      by simp [hb, hp, message]⟩
  next hp =>
    obtain ⟨w₂, hset, hm, hf, rest', hb⟩ := setPayload_fits hc₁ hp (by omega)
    exact ⟨w₂, (setPayload_composing hc hclose hc₁ payload).trans hset, hm, hf, rest',
      by simp [hb, message]⟩

theorem addHeaders_rest {added : List StdString} (hm : m.isMapped = true)
    (h : ∀ b ∈ ((WriteBufferView.new m).addHeaders added).1, b = true) :
    ∃ rest, Composing ((WriteBufferView.new m).addHeaders added).2 (added.map StdString.chars) rest ∧
      m.maxSize = (added.map StdString.length).sum + (added.length - 1) + rest.length := by
  obtain ⟨rest, hc⟩ := addHeaders_true (new_composing hm) h
  rw [List.nil_append] at hc
  have hsize := maxSize_of_bytes hc.mapped hc.bytes
  rw [addHeaders_maxSize, headers_length] at hsize
  exact ⟨rest, hc, hsize⟩

theorem addHeaders_new_fit (hm : m.isMapped = true) (added : List StdString)
    (room : (added.map StdString.length).sum + (added.length - 1) < m.maxSize) :
    ∀ b ∈ ((WriteBufferView.new m).addHeaders added).1, b = true :=
  addHeaders_fit (new_composing hm) (by rwa [List.nil_append, headers_length])

theorem writeMessage_ok {payload : StdString} {added : List StdString} (hm : m.isMapped = true)
    (fits : (added.map StdString.length).sum + (added.length - 1) + 1 + payload.length + 1 ≤ m.maxSize) :
    (∀ b ∈ (writeMessage (.new m) added payload).1, b = true) ∧
      (writeMessage (.new m) added payload).2.mem.isMapped = true ∧
      ∃ rest, (writeMessage (.new m) added payload).2.mem.bytes =
        message (added.map StdString.chars) payload.chars ++ rest := by
  have all := addHeaders_new_fit hm added (by omega)
  obtain ⟨rest, hc, hsize⟩ := addHeaders_rest hm all
  obtain ⟨w', hrun, hm', hf, hb⟩ := closed_message hc payload (by omega)
  by_cases hp : payload.chars = []
  · rw [if_pos hp] at hrun
    simp only [writeMessage, if_pos hp, hrun, List.mem_append, List.mem_singleton]
    refine ⟨fun b hb => ?_, hm', hb⟩
    rcases hb with (hb | hb) | rfl
    · exact all b hb
    · cases hb
    · rfl
  · rw [if_neg hp] at hrun
    simp only [writeMessage, if_neg hp, hrun, finalizePayload_twice hm' hf, List.mem_append,
      List.mem_singleton]
    refine ⟨fun b hb => ?_, hm', hb⟩
    rcases hb with (hb | rfl) | rfl
    · exact all b hb
    · rfl
    · rfl

theorem headerTexts {headers : List StdString} (ht : ∀ header ∈ headers, HeaderText header.chars) :
    ∀ header ∈ headers.map StdString.chars, HeaderText header := by
  intro header hmem
  obtain ⟨h, hh, rfl⟩ := List.mem_map.mp hmem
  exact ht h hh

/-- Every message that fits the page is written with success and is read back header by header and
payload, from any previous contents of the page. -/
theorem codec_roundTrip (m : Memory) (hm : m.isMapped = true) (headers : List StdString)
    (payload : StdString) (ht : ∀ header ∈ headers, HeaderText header.chars)
    (hp : memoryFinalizer ∉ payload.chars)
    (fits : (headers.map StdString.length).sum + (headers.length - 1) + 1 + payload.length + 1 ≤
      m.maxSize) :
    (∀ b ∈ (writeMessage (.new m) headers payload).1, b = true) ∧
      Decodes (writeMessage (.new m) headers payload).2.mem (headers.map StdString.chars)
        payload.chars := by
  obtain ⟨all, hm', rest, hb⟩ := writeMessage_ok hm fits
  exact ⟨all, decodes_of_bytes hm' hb (headerTexts ht) hp⟩

def oneChar (b : UInt8) : StdString := ⟨[b], Nat.lt_of_lt_of_le Nat.one_lt_two (by decide)⟩

theorem oneChar_headerText {b : UInt8} (hb : b ∉ ReadBufferView.headerEnds) :
    HeaderText (oneChar b).chars := by
  intro c hc
  rwa [List.mem_singleton.mp hc]

def sixBytes : Memory := ofBytes (List.replicate 6 7) (by decide)

theorem codec_roundTrip_exact :
    (∀ b ∈ (writeMessage (.new sixBytes) [oneChar 97, oneChar 98] (oneChar 99)).1, b = true) ∧
      Decodes (writeMessage (.new sixBytes) [oneChar 97, oneChar 98] (oneChar 99)).2.mem
        [[97], [98]] [99] :=
  codec_roundTrip sixBytes rfl [oneChar 97, oneChar 98] (oneChar 99)
    (by simp [oneChar_headerText (b := 97) (by decide), oneChar_headerText (b := 98) (by decide)])
    (by decide) (by decide)

/-- All headers are accepted and the payload is, only if a reader gets exactly these. -/
def Truthful (m : Memory) (headers : List StdString) (payload : StdString) : Prop :=
  let (added, w) := (WriteBufferView.new m).addHeaders headers
  (∀ b ∈ added, b = true) → (w.setPayload payload).1 = true →
    Decodes (w.setPayload payload).2.mem (headers.map StdString.chars) payload.chars

/-- A page that ends with the header section: the payload is reported as written, but the terminator
took the place of the delimiter. -/
theorem setPayload_over_delimeter {b : UInt8} (hc : Composing w headers [b]) (payload : StdString) :
    ∃ w', w.setPayload payload = (true, w') ∧ w'.mem.isMapped = true ∧
      w'.mem.bytes = joined headerDelimeter headers ++ [memoryFinalizer] := by
  obtain ⟨w₁, hclose, hc₁⟩ := closeHeaders_room hc
  obtain ⟨w', hset, hm, hb⟩ := setPayload_full hc₁ payload
  exact ⟨w', (setPayload_composing hc hclose hc₁ payload).trans hset, hm, hb⟩

theorem not_decodes_of_no_delimeter {payload : List UInt8} (hm : m.isMapped = true)
    (hpos : 0 < m.maxSize) (hb : memoryDelimeter ∉ m.bytes) : ¬Decodes m headers payload := by
  intro h
  obtain ⟨r, v, r', hget, hpay, -⟩ := h.1 0 (Nat.zero_le _)
  cases hget
  have outside := ReadBufferView.finalizeHeader_outside (r := .new m) hm rfl rfl hpos hb
  cases (ReadBufferView.getPayload_error rfl rfl outside).symm.trans hpay

/-- When the header section with its delimiter fills the page, everything is reported as written and
the message is lost. -/
theorem full_page_lost (hm : m.isMapped = true) (headers : List StdString) (payload : StdString)
    (ht : ∀ header ∈ headers, HeaderText header.chars)
    (hfull : (headers.map StdString.length).sum + (headers.length - 1) + 1 = m.maxSize) :
    (∀ b ∈ ((WriteBufferView.new m).addHeaders headers).1, b = true) ∧
      (((WriteBufferView.new m).addHeaders headers).2.setPayload payload).1 = true ∧
      ¬Decodes (((WriteBufferView.new m).addHeaders headers).2.setPayload payload).2.mem
        (headers.map StdString.chars) payload.chars := by
  have all := addHeaders_new_fit hm headers (by omega)
  obtain ⟨rest, hc, hsize⟩ := addHeaders_rest hm all
  obtain ⟨b, rfl⟩ := List.length_eq_one_iff.mp (by omega : rest.length = 1)
  obtain ⟨w', hset, hm', hb⟩ := setPayload_over_delimeter hc payload
  rw [hset]
  refine ⟨all, rfl, not_decodes_of_no_delimeter hm' ?_ ?_⟩
  · simp [maxSize_of_bytes hm' hb]
  · rw [hb, List.mem_append, not_or]
    exact ⟨notMem_joined (by decide) fun header hmem hlf =>
      headerTexts ht header hmem _ hlf (by simp [ReadBufferView.headerEnds]), by decide⟩

/-- What the writer reports as written is what a reader gets, unless the header section with its
delimiter fills the page to the last byte. -/
theorem setPayload_truthful (m : Memory) (hm : m.isMapped = true) (headers : List StdString)
    (payload : StdString) (ht : ∀ header ∈ headers, HeaderText header.chars)
    (hp : payload.chars ≠ [] ∧ memoryFinalizer ∉ payload.chars) :
    Truthful m headers payload ↔
      (headers.map StdString.length).sum + (headers.length - 1) + 1 ≠ m.maxSize := by
  constructor
  · intro truthful hfull
    obtain ⟨all, hset, lost⟩ := full_page_lost hm headers payload ht hfull
    exact lost (truthful all hset)
  · intro hfull all hset
    obtain ⟨rest, hc, hsize⟩ := addHeaders_rest hm all
    cases rest with
    | nil => simp [setPayload, hc.open_memory, closeHeaders_full hc] at hset
    | cons b rest =>
      obtain ⟨w₁, hclose, hc₁⟩ := closeHeaders_room hc
      rw [setPayload_composing hc hclose hc₁] at hset ⊢
      have hr : rest ≠ [] := fun h => hfull (by rw [hsize, h]; rfl)
      by_cases fits : payload.length < rest.length
      · obtain ⟨w', hset', hm', -, rest', hb⟩ := setPayload_fits hc₁ hp.1 fits
        rw [hset']
        have page : w'.mem.bytes = message (headers.map StdString.chars) payload.chars ++ rest' := by
          simp [hb, message]
        exact decodes_of_bytes hm' page (headerTexts ht) hp.2
      · exact absurd hset (by simp [setPayload_cut hc₁ hr hp.1 (by omega)])

theorem setPayload_truthful_six : Truthful sixBytes [oneChar 97, oneChar 98] (oneChar 99) :=
  (setPayload_truthful sixBytes rfl [oneChar 97, oneChar 98] (oneChar 99)
    (by simp [oneChar_headerText (b := 97) (by decide), oneChar_headerText (b := 98) (by decide)])
    (by decide)).mpr (by decide)

def twoBytes : Memory := ofBytes [7, 7] (by decide)

/-- One header and its delimiter fill the page, and the payload is lost with the delimiter. -/
theorem setPayload_lost :
    (∀ b ∈ ((WriteBufferView.new twoBytes).addHeaders [oneChar 97]).1, b = true) ∧
      (((WriteBufferView.new twoBytes).addHeaders [oneChar 97]).2.setPayload (oneChar 98)).1 = true ∧
      ¬Truthful twoBytes [oneChar 97] (oneChar 98) := by
  obtain ⟨all, hset, lost⟩ :=
    full_page_lost (m := twoBytes) rfl [oneChar 97] (oneChar 98)
      (by simp [oneChar_headerText (b := 97) (by decide)]) (by decide)
  exact ⟨all, hset, fun truthful => lost (truthful all hset)⟩

end Ripc
