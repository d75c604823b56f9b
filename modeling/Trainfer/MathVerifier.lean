import Trainfer.Errors
import Trainfer.Lib.Regex
import Mathlib.Data.List.DropRight

/-! The `math` verifier: the answer that it extracts from a text, and the prompts it claims.

The character classes of Python's patterns are a parameter; what they say of ASCII characters is
fixed. -/

namespace Trainfer

open Regex

/-- The character classes of `re` for `str` patterns. -/
structure Unicode where
  /-- `\d`, with the value of the digit. -/
  decimal : Char → Option ℕ
  /-- `\s`. -/
  isSpace : Char → Bool
  /-- `\w`. -/
  isWord : Char → Bool
  /-- A letter of a pattern and a character of the text, under `(?i)`. -/
  sameLetter : Char → Char → Bool
  decimal_lt : ∀ c n, decimal c = some n → n < 10
  decimal_ascii : ∀ c : Char, c.toNat < 128 →
    decimal c = if c.isDigit then some (c.toNat - '0'.toNat) else none
  isSpace_ascii : ∀ c : Char, c.toNat < 128 →
    isSpace c = (c.toNat == 32 || (9 ≤ c.toNat && c.toNat ≤ 13) ||
      (28 ≤ c.toNat && c.toNat ≤ 31))
  isWord_ascii : ∀ c : Char, c.toNat < 128 → isWord c = (c.isAlphanum || c == '_')
  sameLetter_ascii : ∀ p c : Char, p.toNat < 128 → c.toNat < 128 →
    sameLetter p c = (p.toLower == c.toLower)

/-- Text beyond ASCII is neither a digit nor a space nor a word. -/
def Unicode.ascii : Unicode where
  decimal c := if c.isDigit then some (c.toNat - '0'.toNat) else none
  isSpace c := c.toNat == 32 || (9 ≤ c.toNat && c.toNat ≤ 13) || (28 ≤ c.toNat && c.toNat ≤ 31)
  isWord c := c.isAlphanum || c == '_'
  sameLetter p c := p.toLower == c.toLower
  decimal_lt c n h := by
    split at h
    · rename_i hdigit
      obtain rfl := Option.some.inj h
      simp only [Char.isDigit, Bool.and_eq_true, decide_eq_true_eq] at hdigit
      have hle : c.toNat ≤ 57 := hdigit.2
      have hzero : '0'.toNat = 48 := rfl
      omega
    · cases h
  decimal_ascii _ _ := rfl
  isSpace_ascii _ _ := rfl
  isWord_ascii _ _ := rfl
  sameLetter_ascii _ _ _ _ := rfl

variable (u : Unicode)

def Unicode.isDigit (c : Char) : Bool := (u.decimal c).isSome

/-! ## Patterns -/

def word (s : String) : Regex Char := seqs (s.toList.map fun p => char (· == p))

/-- A word under `(?i)`. -/
def letters (s : String) : Regex Char := seqs (s.toList.map fun p => char (u.sameLetter p))

/-- `\d`. -/
def digit : Regex Char := char u.isDigit

/-- `\s`. -/
def space : Regex Char := char u.isSpace

/-- `\b`. -/
def boundary : Regex Char := look fun a b => a.any u.isWord != b.any u.isWord

/-- `-?\d[\d,]*(?:\.\d+)?`. -/
def numberPattern : Regex Char :=
  seqs [opt (word "-"), digit u, many (char fun c => u.isDigit c || c == ','),
    opt (seq (word ".") (plus (digit u)))]

/-- `-?\d+\s*/\s*\d+`. -/
def ratioPattern : Regex Char :=
  seqs [opt (word "-"), plus (digit u), many (space u), word "/", many (space u),
    plus (digit u)]

/-- The three anchors of an answer, around a pattern for the answer. -/
def anchored (answer : Regex Char) : List (Regex Char) :=
  [seqs [word "####", many (space u), group answer],
    seqs [word "\\boxed\x7b", many (space u), group answer, many (space u), word "\x7d"],
    seqs [boundary u, letters u "answer", opt (seq (plus (space u)) (letters u "is")),
      many (space u), opt (char fun c => c == ':' || c == '='), many (space u), group answer]]

/-- `_ANSWER_PATTERNS`. -/
def answerPatterns : List (Regex Char) := anchored u (numberPattern u)

/-- `_FRACTION_ANCHORED`. -/
def fractionAnchored : List (Regex Char) := anchored u (ratioPattern u)

/-- `_FRACTION`. -/
def fractionPattern : Regex Char :=
  seqs [look fun a _ => !a.any fun c => u.isDigit c || c == '/', ratioPattern u,
    look fun _ b => !b.any fun c => u.isDigit c || c == '/']

/-- `_PROMPT_CLAIM`. -/
def promptClaim : Regex Char :=
  alts (["how many", "how much", "what is", "what's", "find", "compute", "calculate", "solve",
    "sum of", "product of", "average", "mean", "total", "percentage", "fraction"].map (letters u))

/-- `_FRACTION_PROMPT`. -/
def fractionPrompt : Regex Char :=
  let spaces := plus (space u)
  let asAFraction := [letters u "as", spaces, letters u "a", spaces, letters u "fraction"]
  seqs [boundary u,
    group (alts [
      seqs [letters u "what", spaces, letters u "fraction"],
      seqs [letters u "as", spaces, alts [letters u "a", letters u "the"], spaces,
        letters u "fraction"],
      seqs ([letters u "express", spaces,
        opt (seqs [letters u "the", spaces, letters u "answer", spaces])] ++ asAFraction),
      seqs ([alts [letters u "give", letters u "write", letters u "leave"], spaces,
        alts [seqs [letters u "your", spaces, letters u "answer"],
          seqs [letters u "the", spaces, letters u "answer"]], spaces] ++ asAFraction),
      seqs [letters u "in", spaces, alts [letters u "lowest", letters u "simplest"], spaces,
        alts [letters u "terms", letters u "form"]]]),
    boundary u]

/-! ## Answers -/

/-- `_normalize_decimal`. -/
def normalizeDecimal (s : List Char) : List Char :=
  let s := s.filter (· != ',')
  let s := if '.' ∈ s then (s.rdropWhile (· == '0')).rdropWhile (· == '.') else s
  if s.isEmpty then ['0'] else s

/-- `_normalize_fraction`. -/
def normalizeFraction (s : List Char) : List Char := s.filter (· != ' ')

/-- `_is_fraction_prompt`. -/
def isFractionPrompt : Option String → Bool
  | none => false
  | some prompt => !prompt.isEmpty && (search (fractionPrompt u) prompt.toList).isSome

/-- `m.group(1)` for the first of the patterns that is found. The group is in every match. -/
def firstGroup (patterns : List (Regex Char)) (text : List Char) : Option (List Char) :=
  patterns.findSome? fun pattern => (search pattern text).bind Cursor.captured

/-- `extract_answer`. -/
def extractAnswer (text : String) (prompt : Option String) : Option String :=
  let text := text.toList
  String.ofList <$>
    if isFractionPrompt u prompt then
      ((normalizeFraction <$> firstGroup (fractionAnchored u) text).or
        (normalizeFraction <$> (findall (fractionPattern u) text).getLast?)).or
        -- no last number here: in fraction mode it is almost always spurious
        (normalizeDecimal <$> firstGroup (answerPatterns u) text)
    else
      (normalizeDecimal <$> firstGroup (answerPatterns u) text).or
        (normalizeDecimal <$> (findall (numberPattern u) text).getLast?)

/-- `claims`. -/
def mathClaims (prompt : String) : Bool :=
  (search (promptClaim u) prompt.toList).isSome && (search (numberPattern u) prompt.toList).isSome

/-- `verify`, with `none` for `None`. -/
def mathVerify (prompt candidate : String) : Option Bool :=
  if mathClaims u prompt then some (extractAnswer u candidate (some prompt)).isSome else none

end Trainfer
