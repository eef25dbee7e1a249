import JobBundler.Text.Numeric

/-! # Literals

Each function takes one literal, or one chunk of a template literal, off the front of a text and
returns the text after it. The text taken and the text after it are the whole text, as the lemma
beside each function says. -/

namespace JobBundler.Literal

/-- Whether `c` starts a name. -/
def isNameStart (c : Char) : Bool :=
  Text.isAlphabetic c || c == '_' || c == '$'

/-- Whether `c` continues a name. -/
def isNameContinue (c : Char) : Bool :=
  Text.isAlphanumeric c || c == '_' || c == '$' || c == '\u200c' || c == '\u200d'

/-- Whether the text is a number in another base than ten, by its first two characters. -/
def hasRadix : List Char → Bool
  | '0' :: c :: _ => ['x', 'X', 'o', 'O', 'b', 'B'].contains c
  | _ => false

/-- Whether `c` belongs to a number when it follows `previous`: digits, letters, separators and
points do, and a sign does after the `e` of a decimal exponent. -/
def continuesNumber (radix : Bool) (previous c : Char) : Bool :=
  c.isAlphanum || c == '_' || c == '.' ||
    ((c == '+' || c == '-') && (previous == 'e' || previous == 'E') && !radix)

/-- The longest part of a number at the front, after the character `previous`. -/
def numberText (radix : Bool) : (previous : Char) → List Char → List Char × List Char
  | _, [] => ([], [])
  | previous, c :: cs =>
    if continuesNumber radix previous c then (numberText radix c cs).map (c :: ·) id
    else ([], c :: cs)

theorem numberText_append (radix : Bool) (previous : Char) (cs : List Char) :
    (numberText radix previous cs).1 ++ (numberText radix previous cs).2 = cs := by
  fun_induction numberText radix previous cs <;> simp_all

/-- The number at the front of the text. -/
def number (cs : List Char) : List Char × List Char :=
  numberText (hasRadix cs) '\x00' cs

theorem number_append (cs : List Char) : (number cs).1 ++ (number cs).2 = cs :=
  numberText_append ..

theorem number_ne_nil {c : Char} (cs : List Char) (h : c.isDigit || c == '.') :
    (number (c :: cs)).1 ≠ [] := by
  have hc (radix : Bool) : continuesNumber radix '\x00' c := by
    simp only [continuesNumber, Char.isAlphanum, Bool.or_eq_true] at h ⊢
    grind
  simp [number, numberText, hc]

/-- The body of a string literal after its opening quote, and the text after its closing quote.
Where there is no closing quote on the line, the body is all that stands on it. -/
def stringBody (quote : Char) : List Char → List Char × Option (List Char)
  | [] => ([], none)
  | '\\' :: '\r' :: '\n' :: cs =>
    (stringBody quote cs).map ('\\' :: '\r' :: '\n' :: ·) id
  | '\\' :: c :: cs => (stringBody quote cs).map ('\\' :: c :: ·) id
  | c :: cs =>
    if c = quote then ([], some cs)
    else if c = '\n' ∨ c = '\r' then ([], none)
    else (stringBody quote cs).map (c :: ·) id

theorem stringBody_append {quote : Char} {cs rest : List Char}
    (h : (stringBody quote cs).2 = some rest) : (stringBody quote cs).1 ++ quote :: rest = cs := by
  fun_induction stringBody quote cs <;> simp_all

/-- What ends a chunk of template text. -/
inductive ChunkEnd where
  /-- The closing backtick. -/
  | backtick
  /-- The start of a substitution. -/
  | substitution
  deriving DecidableEq, Repr

def ChunkEnd.text : ChunkEnd → List Char
  | backtick => ['\x60']
  | substitution => ['$', '{']

/-- The template text up to the closing backtick or the next substitution, and the text after. -/
def templateChunk? : List Char → Option (List Char × ChunkEnd × List Char)
  | [] => none
  | '\x60' :: cs => some ([], .backtick, cs)
  | '$' :: '{' :: cs => some ([], .substitution, cs)
  | '\\' :: c :: cs =>
    (templateChunk? cs).map fun (text, chunkEnd, rest) => ('\\' :: c :: text, chunkEnd, rest)
  | c :: cs => (templateChunk? cs).map fun (text, chunkEnd, rest) => (c :: text, chunkEnd, rest)

theorem templateChunk?_append {cs text rest : List Char} {chunkEnd : ChunkEnd}
    (h : templateChunk? cs = some (text, chunkEnd, rest)) :
    text ++ chunkEnd.text ++ rest = cs := by
  fun_induction templateChunk? cs generalizing text with
  | case1 => simp at h
  | case2 => cases h; rfl
  | case3 => cases h; rfl
  | case4 c cs ih =>
    obtain ⟨⟨t, e, r⟩, ht, heq⟩ := Option.map_eq_some_iff.1 h
    cases heq
    simpa using ih ht
  | case5 c cs _ _ _ ih =>
    obtain ⟨⟨t, e, r⟩, ht, heq⟩ := Option.map_eq_some_iff.1 h
    cases heq
    simpa using ih ht

/-- The body of a regular expression with its closing slash, and the text after it. Where there is
no closing slash on the line, the body is all that stands on it. -/
def regexBody : (inClass : Bool) → List Char → List Char × Option (List Char)
  | _, [] => ([], none)
  | inClass, '\\' :: c :: cs =>
    if c = '\n' ∨ c = '\r' then (['\\'], none)
    else (regexBody inClass cs).map ('\\' :: c :: ·) id
  | inClass, c :: cs =>
    if c = '\n' ∨ c = '\r' then ([], none)
    else if c = '/' ∧ inClass = false then (['/'], some cs)
    else (regexBody (c == '[' || (inClass && c != ']')) cs).map (c :: ·) id

theorem regexBody_append {inClass : Bool} {cs rest : List Char}
    (h : (regexBody inClass cs).2 = some rest) : (regexBody inClass cs).1 ++ rest = cs := by
  fun_induction regexBody inClass cs <;> simp_all

end JobBundler.Literal
