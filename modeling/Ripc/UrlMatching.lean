import Mathlib.Logic.Relation
import Mathlib.Data.List.Forall2
import Ripc.Url

namespace Ripc

/-- A segment of a pattern and the segment of a URL at the same place. -/
def Faces (ptok tok : List UInt8) : Prop :=
  if ptok = UrlPattern.intToken then tok.all isDigit = true
  else if ptok = UrlPattern.stringToken then ∃ b ∈ tok, isDigit b = false
  else if ptok.all isDigit then tok.all isDigit = true ∧ number tok = number ptok
  else tok = ptok

instance (ptok tok : List UInt8) : Decidable (Faces ptok tok) := by
  unfold Faces
  infer_instance

def urlMatches (u p : List UInt8) : Except CppException Bool := do
  let url ← Url.new u
  let pattern ← UrlPattern.new p
  .ok (pattern.eqUrl url)

/-- One slash more, where it is leading, trailing or beside another one. -/
inductive SlashAdded : List UInt8 → List UInt8 → Prop
  | leading (u : List UInt8) : SlashAdded u (slash :: u)
  | trailing (u : List UInt8) : SlashAdded u (u ++ [slash])
  | repeated (a b : List UInt8) : SlashAdded (a ++ slash :: b) (a ++ slash :: slash :: b)

/-- The texts differ only in slashes that separate nothing. -/
def SlashAlike : List UInt8 → List UInt8 → Prop := Relation.EqvGen SlashAdded

theorem segments_nil : segments [] = [] := rfl

theorem segments_append_slash (a b : List UInt8) : segments (a ++ slash :: b) = segments a ++ segments b := by
  rw [segments, List.splitOn_append_cons_self, List.filter_append, segments, segments]

theorem segments_slash_cons (u : List UInt8) : segments (slash :: u) = segments u := by
  simpa [segments_nil] using segments_append_slash [] u

theorem segments_added {u u' : List UInt8} (h : SlashAdded u u') : segments u' = segments u := by
  cases h with
  | leading => exact segments_slash_cons u
  | trailing => rw [segments_append_slash, segments_nil, List.append_nil]
  | repeated a b => rw [segments_append_slash, segments_append_slash, segments_slash_cons]

theorem segments_alike {u u' : List UInt8} (h : SlashAlike u u') : segments u' = segments u := by
  induction h with
  | rel u u' h => exact segments_added h
  | refl u => rfl
  | symm u u' _ ih => exact ih.symm
  | trans u v w _ _ ih ih' => exact ih'.trans ih

theorem subdivide_append {T : Type} (processToken : List UInt8 → Except CppException T) (a b : List UInt8) :
    (IUrl.subdivide processToken (a ++ slash :: b)).map IUrl.pattern =
      ((IUrl.subdivide processToken a).map IUrl.pattern >>= fun first =>
        (IUrl.subdivide processToken b).map fun second => first ++ second.pattern) := by
  rw [IUrl.subdivide_eq, IUrl.subdivide_eq, IUrl.subdivide_eq, segments_append_slash, List.mapM_append]
  cases (segments a).mapM processToken with
  | error e => rfl
  | ok first => cases (segments b).mapM processToken <;> rfl

namespace UrlPattern

def tokenOf (ptok : List UInt8) : PatternToken :=
  if ptok = stringToken then .dynamic .string
  else if ptok = intToken then .dynamic .int
  else .static (Url.tokenOf ptok)

def ofText (pattern : List UInt8) : UrlPattern := ⟨(segments pattern).map tokenOf, pattern⟩

theorem processToken_eq (ptok : List UInt8) : processToken ptok =
    if ptok.all isDigit = true → number ptok ≤ intMax then .ok (tokenOf ptok) else .error .outOfRange := by
  by_cases hs : ptok = stringToken
  · subst hs
    rfl
  · by_cases hi : ptok = intToken
    · subst hi
      rfl
    · simp only [processToken, tokenOf, hs, hi, if_false, Url.tokenOf]
      by_cases hd : ptok.all isDigit = true
      · by_cases hn : number ptok ≤ intMax <;> simp [stoi, hd, hn, Except.map]
      · simp [hd]

theorem new_eq (pattern : List UInt8) :
    UrlPattern.new pattern = if Url.NumbersFit pattern then .ok (ofText pattern) else .error .outOfRange := by
  have toks : (segments pattern).mapM processToken =
      if Url.NumbersFit pattern then .ok ((segments pattern).map tokenOf) else .error .outOfRange :=
    mapM_eq_ite processToken_eq (segments pattern)
  rw [UrlPattern.new, IUrl.subdivide_eq, toks]
  split <;> rfl

end UrlPattern

theorem tokenOf_inj {ptok tok : List UInt8} : Url.tokenOf ptok = Url.tokenOf tok ↔
    if ptok.all isDigit then tok.all isDigit = true ∧ number tok = number ptok else tok = ptok := by
  by_cases hp : ptok.all isDigit = true
  · by_cases ht : tok.all isDigit = true
    · simp [Url.tokenOf, hp, ht, eq_comm]
    · simp [Url.tokenOf, hp, ht]
  · by_cases ht : tok.all isDigit = true
    · have other : tok ≠ ptok := fun he => hp (he ▸ ht)
      simp [Url.tokenOf, hp, ht, other]
    · simp [Url.tokenOf, hp, ht, eq_comm]

theorem accepts_tokenOf (ptok tok : List UInt8) :
    (UrlPattern.tokenOf ptok).accepts (Url.tokenOf tok) = true ↔ Faces ptok tok := by
  by_cases hi : ptok = UrlPattern.intToken
  · subst hi
    by_cases ht : tok.all isDigit = true
    · simp [Faces, UrlPattern.tokenOf, UrlPattern.intToken, UrlPattern.stringToken, Url.tokenOf, ht,
        PatternToken.accepts]
    · simp [Faces, UrlPattern.tokenOf, UrlPattern.intToken, UrlPattern.stringToken, Url.tokenOf, ht,
        PatternToken.accepts]
  · by_cases hs : ptok = UrlPattern.stringToken
    · subst hs
      have other : (∃ b ∈ tok, isDigit b = false) ↔ ¬tok.all isDigit = true := by simp
      rw [Faces, if_neg hi, if_pos rfl, other, UrlPattern.tokenOf, if_pos rfl, Url.tokenOf]
      split
      next ht => simp [PatternToken.accepts, ht]
      next ht => simp [PatternToken.accepts, ht]
    · simp only [Faces, hi, hs, if_false, UrlPattern.tokenOf, PatternToken.accepts, decide_eq_true_eq]
      exact tokenOf_inj

theorem eqUrl_iff (pattern : UrlPattern) (url : Url) : pattern.eqUrl url = true ↔
    List.Forall₂ (fun ptok tok => ptok.accepts tok = true) pattern.pattern url.pattern := by
  rw [List.forall₂_iff_zip]
  simp [UrlPattern.eqUrl]

theorem urlMatches_congr {u u' p p' : List UInt8} (hu : segments u' = segments u) (hp : segments p' = segments p) :
    urlMatches u' p' = urlMatches u p := by
  simp only [urlMatches, Url.new, UrlPattern.new, IUrl.subdivide_eq, hu, hp]
  cases (segments u).mapM Url.processToken with
  | error e => rfl
  | ok toks => cases (segments p).mapM UrlPattern.processToken <;> rfl

theorem eqUrl_ofText (u p : List UInt8) :
    (UrlPattern.ofText p).eqUrl (.ofText u) = true ↔ List.Forall₂ Faces (segments p) (segments u) := by
  rw [eqUrl_iff, UrlPattern.ofText, Url.ofText, List.forall₂_map_left_iff, List.forall₂_map_right_iff]
  simp only [accepts_tokenOf]

/-- A URL equals a pattern if their segments face each other. Slashes that separate nothing do not count, and a slash
between two texts puts their tokens together. -/
theorem urlMatches_segments (u p : List UInt8) (hu : Url.NumbersFit u) (hp : Url.NumbersFit p) :
    (∃ b, urlMatches u p = .ok b ∧ (b = true ↔ List.Forall₂ Faces (segments p) (segments u))) ∧
      (∀ u' p', SlashAlike u u' → SlashAlike p p' → urlMatches u' p' = urlMatches u p) ∧
      ∀ a b : List UInt8,
        (Url.new (a ++ slash :: b)).map IUrl.pattern = ((Url.new a).map IUrl.pattern >>= fun first =>
          (Url.new b).map fun second => first ++ second.pattern) ∧
        (UrlPattern.new (a ++ slash :: b)).map IUrl.pattern = ((UrlPattern.new a).map IUrl.pattern >>= fun first =>
          (UrlPattern.new b).map fun second => first ++ second.pattern) := by
  refine ⟨⟨(UrlPattern.ofText p).eqUrl (.ofText u), ?_, eqUrl_ofText u p⟩, fun u' p' su sp => ?_, fun a b => ?_⟩
  · rw [urlMatches, Url.new_eq, if_pos hu, UrlPattern.new_eq, if_pos hp]
    rfl
  · exact urlMatches_congr (segments_alike su) (segments_alike sp)
  · exact ⟨subdivide_append Url.processToken a b, subdivide_append UrlPattern.processToken a b⟩

/-- The URL `/7/a` and the pattern `<int>//a/`. -/
theorem urlMatches_segments_int : ∃ b, urlMatches [47, 55, 47, 97] [60, 105, 110, 116, 62, 47, 47, 97, 47] = .ok b ∧
    (b = true ↔ List.Forall₂ Faces [[60, 105, 110, 116, 62], [97]] [[55], [97]]) :=
  (urlMatches_segments [47, 55, 47, 97] [60, 105, 110, 116, 62, 47, 47, 97, 47] (by decide) (by decide)).1

end Ripc
