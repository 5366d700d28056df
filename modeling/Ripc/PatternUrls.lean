import Ripc.Block
import Ripc.PatternOrder

namespace Ripc

def SameUrls (pat pat2 : UrlPattern) : Prop :=
  ∀ u url, Url.new u = .ok url → (pat.eqUrl url = true ↔ pat2.eqUrl url = true)

/-- Where the two patterns differ first, the first one has a static token and the second a dynamic one. -/
def MoreSpecific (pat pat2 : UrlPattern) : Prop :=
  ∃ first tok rest d rest2, pat.pattern = first ++ .static tok :: rest ∧ pat2.pattern = first ++ .dynamic d :: rest2

/-- What can stand between two slashes of a URL. -/
structure IsSegment (tok : List UInt8) : Prop where
  nonempty : tok ≠ []
  no_slash : slash ∉ tok
  fits : tok.all isDigit = true → number tok ≤ intMax

theorem mem_segments {u tok : List UInt8} (h : tok ∈ segments u) : tok ≠ [] ∧ slash ∉ tok := by
  induction hn : u.length using Nat.strong_induction_on generalizing u with
  | _ n ih =>
    by_cases hs : slash ∈ u
    · obtain ⟨first, d, rest, rfl, hfirst, rfl⟩ := exists_first (p := (· = slash)) ⟨_, hs, rfl⟩
      have missing : slash ∉ first := fun hb => hfirst _ hb rfl
      rw [segments_slash missing, List.mem_append] at h
      rcases h with h | h
      · split at h
        next => cases h
        next hne => exact List.mem_singleton.mp h ▸ ⟨hne, missing⟩
      · refine ih rest.length ?_ h rfl
        rw [← hn, List.length_append, List.length_cons]
        omega
    · rw [segments_single hs] at h
      split at h
      next => cases h
      next hne => exact List.mem_singleton.mp h ▸ ⟨hne, hs⟩

theorem isSegment_of_mem {u tok : List UInt8} (fits : Url.NumbersFit u) (h : tok ∈ segments u) : IsSegment tok :=
  ⟨(mem_segments h).1, (mem_segments h).2, fits tok h⟩

theorem exists_url {toks : List (List UInt8)} (h : ∀ tok ∈ toks, IsSegment tok) :
    ∃ u, segments u = toks ∧ Url.NumbersFit u := by
  have made : ∃ u, segments u = toks := by
    induction toks with
    | nil => exact ⟨[], rfl⟩
    | cons tok toks ih =>
      obtain ⟨u, hu⟩ := ih fun t ht => h t (List.mem_cons_of_mem _ ht)
      have first := h tok List.mem_cons_self
      refine ⟨tok ++ slash :: u, ?_⟩
      rw [segments_slash first.no_slash, if_neg first.nonempty, hu, List.singleton_append]
  obtain ⟨u, hu⟩ := made
  exact ⟨u, hu, fun tok ht => (h tok (hu ▸ ht)).fits⟩

/-- A segment that faces the given one. -/
def sample (ptok : List UInt8) : List UInt8 :=
  if ptok = UrlPattern.intToken then [48]
  else if ptok = UrlPattern.stringToken then [97]
  else ptok

theorem sample_isSegment {ptok : List UInt8} (h : IsSegment ptok) : IsSegment (sample ptok) := by
  unfold sample
  split
  next => exact ⟨by decide, by decide, fun _ => by decide⟩
  next =>
    split
    next => exact ⟨by decide, by decide, fun hd => absurd hd (by decide)⟩
    next => exact h

theorem faces_static {ptok tok : List UInt8} (hi : ptok ≠ UrlPattern.intToken) (hs : ptok ≠ UrlPattern.stringToken) :
    Faces ptok tok ↔ Url.tokenOf ptok = Url.tokenOf tok := by
  rw [Faces, if_neg hi, if_neg hs, tokenOf_inj]

theorem faces_sample (ptok : List UInt8) : Faces ptok (sample ptok) := by
  by_cases hi : ptok = UrlPattern.intToken
  · subst hi
    decide
  · by_cases hs : ptok = UrlPattern.stringToken
    · subst hs
      decide
    · rw [faces_static hi hs, sample, if_neg hi, if_neg hs]

theorem faces_one {ptok tok tok' : List UInt8} (hi : ptok ≠ UrlPattern.intToken)
    (hs : ptok ≠ UrlPattern.stringToken) (h : Faces ptok tok) (h' : Faces ptok tok') :
    Url.tokenOf tok = Url.tokenOf tok' :=
  ((faces_static hi hs).mp h).symm.trans ((faces_static hi hs).mp h')

theorem eq_intToken {ptok : List UInt8} (h : ∀ tok, IsSegment tok → Faces UrlPattern.intToken tok → Faces ptok tok) :
    ptok = UrlPattern.intToken := by
  have zero : Faces ptok [48] := h _ ⟨by decide, by decide, fun _ => by decide⟩ (by decide)
  have one : Faces ptok [49] := h _ ⟨by decide, by decide, fun _ => by decide⟩ (by decide)
  by_contra hi
  by_cases hs : ptok = UrlPattern.stringToken
  · subst hs
    exact absurd zero (by decide)
  · exact absurd (faces_one hi hs zero one) (by decide)

theorem eq_stringToken {ptok : List UInt8}
    (h : ∀ tok, IsSegment tok → Faces UrlPattern.stringToken tok → Faces ptok tok) :
    ptok = UrlPattern.stringToken := by
  have a : Faces ptok [97] := h _ ⟨by decide, by decide, fun hd => absurd hd (by decide)⟩ (by decide)
  have b : Faces ptok [98] := h _ ⟨by decide, by decide, fun hd => absurd hd (by decide)⟩ (by decide)
  by_contra hs
  by_cases hi : ptok = UrlPattern.intToken
  · subst hi
    exact absurd a (by decide)
  · exact absurd (faces_one hi hs a b) (by decide)

theorem tokenOf_of_faces {ptok ptok2 : List UInt8} (hp : IsSegment ptok)
    (same : ∀ tok, IsSegment tok → (Faces ptok tok ↔ Faces ptok2 tok)) :
    UrlPattern.tokenOf ptok = UrlPattern.tokenOf ptok2 := by
  by_cases hi : ptok = UrlPattern.intToken
  · subst hi
    rw [eq_intToken fun tok ht => (same tok ht).mp]
  · by_cases hi2 : ptok2 = UrlPattern.intToken
    · subst hi2
      rw [eq_intToken fun tok ht => (same tok ht).mpr]
    · by_cases hs : ptok = UrlPattern.stringToken
      · subst hs
        rw [eq_stringToken fun tok ht => (same tok ht).mp]
      · by_cases hs2 : ptok2 = UrlPattern.stringToken
        · subst hs2
          rw [eq_stringToken fun tok ht => (same tok ht).mpr]
        · have itself : Faces ptok2 ptok := (same _ hp).mp ((faces_static hi hs).mpr rfl)
          simp only [UrlPattern.tokenOf, hi, hs, hi2, hs2, if_false, (faces_static hi2 hs2).mp itself]

theorem forall₂_sample (ptoks : List (List UInt8)) : List.Forall₂ Faces ptoks (ptoks.map sample) := by
  induction ptoks with
  | nil => exact .nil
  | cons ptok ptoks ih => exact .cons (faces_sample ptok) ih

theorem tokens_of_faces {ptoks ptoks2 : List (List UInt8)} (hp : ∀ ptok ∈ ptoks, IsSegment ptok)
    (same : ∀ toks, (∀ tok ∈ toks, IsSegment tok) → (List.Forall₂ Faces ptoks toks ↔ List.Forall₂ Faces ptoks2 toks)) :
    ptoks.map UrlPattern.tokenOf = ptoks2.map UrlPattern.tokenOf := by
  induction ptoks generalizing ptoks2 with
  | nil =>
    have empty := (same [] (by simp)).mp .nil
    rw [List.forall₂_nil_right_iff.mp empty]
  | cons ptok ptoks ih =>
    have sampled : ∀ tok ∈ (ptok :: ptoks).map sample, IsSegment tok := by
      intro tok ht
      obtain ⟨p, hmem, rfl⟩ := List.mem_map.mp ht
      exact sample_isSegment (hp p hmem)
    have faced := (same _ sampled).mp (forall₂_sample (ptok :: ptoks))
    cases ptoks2 with
    | nil => cases faced
    | cons ptok2 ptoks2 =>
      obtain ⟨first, rest⟩ := List.forall₂_cons.mp faced
      have head : UrlPattern.tokenOf ptok = UrlPattern.tokenOf ptok2 := by
        refine tokenOf_of_faces (hp _ List.mem_cons_self) fun tok ht => ?_
        have both := same (tok :: ptoks.map sample)
          (List.forall_mem_cons.mpr ⟨ht, fun t h => sampled t (List.mem_cons_of_mem _ h)⟩)
        rw [List.forall₂_cons, List.forall₂_cons, and_iff_left (forall₂_sample ptoks), and_iff_left rest] at both
        exact both
      have tail : ptoks.map UrlPattern.tokenOf = ptoks2.map UrlPattern.tokenOf := by
        refine ih (fun p hmem => hp p (List.mem_cons_of_mem _ hmem)) fun toks ht => ?_
        have both := same (sample ptok :: toks)
          (List.forall_mem_cons.mpr ⟨sample_isSegment (hp _ List.mem_cons_self), ht⟩)
        rw [List.forall₂_cons, List.forall₂_cons, and_iff_right (faces_sample ptok), and_iff_right first] at both
        exact both
      rw [List.map_cons, List.map_cons, head, tail]

/-- Patterns equal the same URLs exactly if they have the same tokens. -/
theorem sameUrls_iff {p p2 : List UInt8} (fits : Url.NumbersFit p) :
    SameUrls (.ofText p) (.ofText p2) ↔ (UrlPattern.ofText p).pattern = (UrlPattern.ofText p2).pattern := by
  constructor
  · intro same
    refine tokens_of_faces (fun ptok h => isSegment_of_mem fits h) fun toks ht => ?_
    obtain ⟨u, rfl, hu⟩ := exists_url ht
    have here := same u (.ofText u) (by rw [Url.new_eq, if_pos hu])
    rwa [eqUrl_ofText, eqUrl_ofText] at here
  · intro h u url _
    rw [eqUrl_iff, eqUrl_iff, h]

theorem static_of_less {ptok ptok2 : PatternToken} {tok : UrlToken} (h : ptok.accepts tok = true)
    (h2 : ptok2.accepts tok = true) (less : ptok.Less ptok2) : ∃ s d, ptok = .static s ∧ ptok2 = .dynamic d := by
  cases ptok with
  | static s =>
    cases ptok2 with
    | static s2 =>
      have hs : s = tok := by simpa [PatternToken.accepts] using h
      have hs2 : s2 = tok := by simpa [PatternToken.accepts] using h2
      subst hs hs2
      exact absurd less (irrefl (r := UrlToken.Less) _)
    | dynamic d => exact ⟨s, d, rfl, rfl⟩
  | dynamic d =>
    cases ptok2 with
    | static s2 => exact absurd less id
    | dynamic d2 =>
      cases d <;> cases d2 <;> cases tok <;> simp_all [PatternToken.accepts, PatternToken.Less, Dynamic.Less]

theorem split_of_less {ptoks ptoks2 : List PatternToken} {toks : List UrlToken}
    (h : List.Forall₂ (fun ptok tok => ptok.accepts tok = true) ptoks toks)
    (h2 : List.Forall₂ (fun ptok tok => ptok.accepts tok = true) ptoks2 toks)
    (less : List.Lex PatternToken.Less ptoks ptoks2) :
    ∃ first tok rest d rest2, ptoks = first ++ .static tok :: rest ∧ ptoks2 = first ++ .dynamic d :: rest2 := by
  induction less generalizing toks with
  | nil =>
    cases h
    cases h2
  | @rel ptok ptoks ptok2 ptoks2 less =>
    cases toks with
    | nil => cases h
    | cons tok toks =>
      obtain ⟨s, d, rfl, rfl⟩ := static_of_less (List.forall₂_cons.mp h).1 (List.forall₂_cons.mp h2).1 less
      exact ⟨[], s, ptoks, d, ptoks2, rfl, rfl⟩
  | @cons ptok ptoks ptoks2 _ ih =>
    cases toks with
    | nil => cases h
    | cons tok toks =>
      obtain ⟨first, s, rest, d, rest2, rfl, rfl⟩ := ih (List.forall₂_cons.mp h).2 (List.forall₂_cons.mp h2).2
      exact ⟨ptok :: first, s, rest, d, rest2, rfl, rfl⟩

/-- Of two patterns for a URL the smaller one is more specific. -/
theorem moreSpecific_of_less {pat pat2 : UrlPattern} {url : Url} (h : pat.eqUrl url = true)
    (h2 : pat2.eqUrl url = true) (less : pat.Less pat2) : MoreSpecific pat pat2 :=
  split_of_less ((eqUrl_iff pat url).mp h) ((eqUrl_iff pat2 url).mp h2) less

end Ripc
