import Ripc.Result

namespace Ripc

/-- What the library and what it is built on throw. -/
inductive CppException
  /-- `std::out_of_range`, by `std::stoi`. -/
  | outOfRange
  /-- `nlohmann::json::parse_error`. -/
  | parseError
  /-- `nlohmann::json::type_error`, by the `dump` of a string that is not UTF-8. -/
  | typeError
  /-- By `LOG_CRIT`. -/
  | criticalLogError
  deriving DecidableEq, Repr

def slash : UInt8 := 47

def isDigit (b : UInt8) : Bool := 48 ≤ b && b ≤ 57

/-- The number that a string of digits stands for. -/
def number (tok : List UInt8) : Nat := tok.foldl (fun n b => n * 10 + (b.toNat - 48)) 0

def intMax : Nat := 2147483647

/-- `std::stoi` of a string of digits. -/
def stoi (tok : List UInt8) : Except CppException Nat :=
  if number tok ≤ intMax then .ok (number tok) else .error .outOfRange

/-- `m_pattern` are the tokens of `m_url`. -/
structure IUrl (T : Type) where
  pattern : List T
  url : List UInt8

namespace IUrl

variable {T : Type} (processToken : List UInt8 → Except CppException T)

/-- The loop of `subdivide`, with `m_pattern` so far and the bytes of the token it is in. -/
def subdivideLoop (pattern : List T) (current : List UInt8) : List UInt8 → Except CppException (List T)
  | [] => if current = [] then .ok pattern else do
      let tok ← processToken current
      .ok (pattern ++ [tok])
  | ch :: url =>
    if ch = slash then
      if current = [] then subdivideLoop pattern current url else do
        let tok ← processToken current
        subdivideLoop (pattern ++ [tok]) [] url
    else subdivideLoop pattern (current ++ [ch]) url

def subdivide (url : List UInt8) : Except CppException (IUrl T) := do
  let pattern ← subdivideLoop processToken [] [] url
  .ok ⟨pattern, url⟩

end IUrl

/-- `TokenType::Url::Type`. -/
inductive UrlToken
  | string (tok : List UInt8)
  | int (n : Nat)
  deriving DecidableEq, Repr

/-- `TokenType::UrlPattern::Dynamic`. -/
inductive Dynamic
  | string
  | int
  deriving DecidableEq, Repr

/-- `TokenType::UrlPattern::Type`. -/
inductive PatternToken
  | static (tok : UrlToken)
  | dynamic (tok : Dynamic)
  deriving DecidableEq, Repr

abbrev Url := IUrl UrlToken

abbrev UrlPattern := IUrl PatternToken

def Url.processToken (tok : List UInt8) : Except CppException UrlToken :=
  if tok.all isDigit then (stoi tok).map .int else .ok (.string tok)

def Url.new (url : List UInt8) : Except CppException Url := IUrl.subdivide Url.processToken url

namespace UrlPattern

def stringToken : List UInt8 := [60, 115, 116, 114, 105, 110, 103, 62]

def intToken : List UInt8 := [60, 105, 110, 116, 62]

/-- Any other token in angle brackets is reported and then taken as it stands. -/
def processToken (tok : List UInt8) : Except CppException PatternToken :=
  if tok = stringToken then .ok (.dynamic .string)
  else if tok = intToken then .ok (.dynamic .int)
  else if tok.all isDigit then (stoi tok).map fun n => .static (.int n)
  else .ok (.static (.string tok))

def new (url : List UInt8) : Except CppException UrlPattern := IUrl.subdivide processToken url

end UrlPattern

/-- The comparison of two tokens in `operator==`. -/
def PatternToken.accepts : PatternToken → UrlToken → Bool
  | .static ptok, tok => ptok = tok
  | .dynamic .int, .int _ => true
  | .dynamic .string, .string _ => true
  | .dynamic _, _ => false

def UrlPattern.eqUrl (pattern : UrlPattern) (url : Url) : Bool :=
  pattern.pattern.length = url.pattern.length &&
    (pattern.pattern.zip url.pattern).all fun p => p.1.accepts p.2

/-- The parts between the slashes, without the empty ones. -/
def segments (url : List UInt8) : List (List UInt8) := (url.splitOn slash).filter (· ≠ [])

theorem segments_single {current : List UInt8} (h : slash ∉ current) :
    segments current = if current = [] then [] else [current] := by
  rw [segments, List.splitOn_eq_singleton h]
  by_cases hc : current = [] <;> simp [hc]

theorem segments_slash {current : List UInt8} (h : slash ∉ current) (url : List UInt8) :
    segments (current ++ slash :: url) = (if current = [] then [] else [current]) ++ segments url := by
  rw [segments, List.splitOn_append_cons_self_of_not_mem h, List.filter_cons, segments]
  by_cases hc : current = [] <;> simp [hc]

namespace IUrl

variable {T : Type} {processToken : List UInt8 → Except CppException T}

theorem subdivideLoop_eq (pattern : List T) {current : List UInt8} (h : slash ∉ current) (url : List UInt8) :
    subdivideLoop processToken pattern current url =
      ((segments (current ++ url)).mapM processToken >>= fun toks => .ok (pattern ++ toks)) := by
  induction url generalizing pattern current with
  | nil =>
    rw [subdivideLoop, List.append_nil, segments_single h]
    split
    next => simp [pure, Except.pure]
    next => cases htok : processToken current <;> simp [htok, pure, Except.pure]
  | cons ch url ih =>
    rw [subdivideLoop]
    split
    next hch =>
      subst hch
      rw [segments_slash h]
      split
      next hc => simpa [hc] using ih pattern h
      next hc =>
        rw [List.singleton_append, List.mapM_cons]
        cases htok : processToken current with
        | error e => simp
        | ok tok => simp [ih (pattern ++ [tok]) List.not_mem_nil, pure, Except.pure, bind_assoc]
    next hch =>
      have more : slash ∉ current ++ [ch] := by simpa [h] using fun he => hch he.symm
      rw [ih pattern more, List.append_assoc, List.singleton_append]

theorem subdivide_eq (url : List UInt8) : subdivide processToken url =
    ((segments url).mapM processToken >>= fun pattern => .ok ⟨pattern, url⟩) := by
  rw [subdivide, subdivideLoop_eq [] List.not_mem_nil url, bind_assoc]
  rfl

end IUrl

namespace Url

/-- Every segment of digits is the number of an `int`. -/
def NumbersFit (url : List UInt8) : Prop := ∀ tok ∈ segments url, tok.all isDigit = true → number tok ≤ intMax

instance (url : List UInt8) : Decidable (NumbersFit url) :=
  inferInstanceAs (Decidable (∀ tok ∈ segments url, _ → _))

def tokenOf (tok : List UInt8) : UrlToken := if tok.all isDigit then .int (number tok) else .string tok

def ofText (url : List UInt8) : Url := ⟨(segments url).map tokenOf, url⟩

theorem processToken_eq (tok : List UInt8) : processToken tok =
    if tok.all isDigit = true → number tok ≤ intMax then .ok (tokenOf tok) else .error .outOfRange := by
  by_cases hd : tok.all isDigit = true
  · by_cases hn : number tok ≤ intMax <;> simp [processToken, tokenOf, stoi, hd, hn, Except.map]
  · simp [processToken, tokenOf, hd]

theorem new_eq (url : List UInt8) :
    Url.new url = if NumbersFit url then .ok (ofText url) else .error .outOfRange := by
  have toks : (segments url).mapM processToken =
      if NumbersFit url then .ok ((segments url).map tokenOf) else .error .outOfRange :=
    mapM_eq_ite processToken_eq (segments url)
  rw [Url.new, IUrl.subdivide_eq, toks]
  split <;> rfl

end Url

end Ripc
