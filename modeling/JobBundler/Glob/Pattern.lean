import JobBundler.Path.Basic

/-! # Glob patterns

A pattern is matched against the names of a path, one component of the pattern for each. In a
component `?` stands for a character, `*` for any text, and `[…]` for a character of a class. A
component `**` stands for any directories, and two stars may stand nowhere else. -/

namespace JobBundler.Glob

inductive PatternFault where
  /-- More than two stars in a row. -/
  | starRun
  /-- Two stars that are not a whole component. -/
  | partialRecursion
  /-- A class without an end. -/
  | openClass
  deriving DecidableEq, Repr

structure PatternError where
  /-- The number of characters before the fault. -/
  position : Nat
  fault : PatternFault
  deriving DecidableEq, Repr

def PatternFault.message : PatternFault → String
  | starRun => "wildcards are either regular \x60*\x60 or recursive \x60**\x60"
  | partialRecursion => "recursive wildcards must form a single path component"
  | openClass => "invalid range pattern"

def PatternError.message (e : PatternError) : String :=
  s!"Pattern syntax error near position {e.position}: {e.fault.message}"

/-- A closed range of characters. -/
structure CharRange where
  first : Char
  last : Char
  deriving DecidableEq, Repr

def CharRange.contains (r : CharRange) (c : Char) : Bool :=
  r.first ≤ c && c ≤ r.last

inductive Token where
  | char (c : Char)
  | anyChar
  | anyText
  /-- `**` with the separator after it. -/
  | anyDirectories
  | oneOf (ranges : List CharRange)
  | noneOf (ranges : List CharRange)
  deriving DecidableEq, Repr

/-- The ranges of a class: `a-z` is one, and so is any other character. -/
def ranges : List Char → List CharRange
  | a :: '-' :: b :: cs => ⟨a, b⟩ :: ranges cs
  | c :: cs => ⟨c, c⟩ :: ranges cs
  | [] => []

/-- A class after its bracket, and the text after it. The first character belongs to the class even
if it is a bracket. -/
def charClass? : List Char → Option (Token × List Char)
  | '!' :: c :: cs =>
    (upToBracket? cs).map fun (inner, rest) => (.noneOf (ranges (c :: inner)), rest)
  | ['!'] => none
  | c :: cs =>
    (upToBracket? cs).map fun (inner, rest) => (.oneOf (ranges (c :: inner)), rest)
  | [] => none
where
  /-- The text before the first closing bracket and after it. -/
  upToBracket? : List Char → Option (List Char × List Char)
    | [] => none
    | c :: cs =>
      if c = ']' then some ([], cs)
      else (upToBracket? cs).map fun (inner, rest) => (c :: inner, rest)

theorem upToBracket?_length_lt {cs inner rest : List Char}
    (h : charClass?.upToBracket? cs = some (inner, rest)) : rest.length < cs.length := by
  fun_induction charClass?.upToBracket? cs generalizing inner with
  | case1 => cases h
  | case2 =>
    cases h
    simp
  | case3 c cs _ ih =>
    obtain ⟨⟨i, r⟩, hi, heq⟩ := Option.map_eq_some_iff.1 h
    cases heq
    exact Nat.lt_succ_of_lt (ih hi)

theorem charClass?_length_lt {cs rest : List Char} {t : Token}
    (h : charClass? cs = some (t, rest)) : rest.length < cs.length := by
  unfold charClass? at h
  split at h
  · obtain ⟨⟨i, r⟩, hi, heq⟩ := Option.map_eq_some_iff.1 h
    cases heq
    exact Nat.lt_succ_of_lt (Nat.lt_succ_of_lt (upToBracket?_length_lt hi))
  · cases h
  · obtain ⟨⟨i, r⟩, hi, heq⟩ := Option.map_eq_some_iff.1 h
    cases heq
    exact Nat.lt_succ_of_lt (upToBracket?_length_lt hi)
  · cases h

/-- The tokens of a text with `position` characters before it, of which `previous` is the last. -/
def tokensFrom (position : Nat) (previous : Option Char) :
    List Char → Except PatternError (List Token)
  | [] => .ok []
  | '*' :: '*' :: '*' :: _ => .error ⟨position + 2, .starRun⟩
  | '*' :: '*' :: rest =>
    if previous.all (· == '/') then
      match rest with
      | [] => .ok [.anyDirectories]
      | '/' :: cs => do return .anyDirectories :: (← tokensFrom (position + 3) (some '/') cs)
      | _ => .error ⟨position + 2, .partialRecursion⟩
    else .error ⟨position - 1, .partialRecursion⟩
  | '[' :: cs =>
    match _h : charClass? cs with
    | none => .error ⟨position, .openClass⟩
    | some (t, rest) => do
      return t :: (← tokensFrom (position + 1 + (cs.length - rest.length)) (some ']') rest)
  | '?' :: cs => do return .anyChar :: (← tokensFrom (position + 1) (some '?') cs)
  | '*' :: cs => do return .anyText :: (← tokensFrom (position + 1) (some '*') cs)
  | c :: cs => do return .char c :: (← tokensFrom (position + 1) (some c) cs)
termination_by cs => cs.length
decreasing_by
  all_goals simp only [List.length_cons]
  · omega
  · exact Nat.lt_succ_of_lt (charClass?_length_lt _h)
  all_goals omega

/-- The tokens of a pattern. -/
def tokens (pattern : String) : Except PatternError (List Token) :=
  tokensFrom 0 none pattern.toList

/-- A pattern that matches just this text. -/
def escape (text : String) : String :=
  String.ofList (text.toList.flatMap fun c =>
    if c = '?' ∨ c = '*' ∨ c = '[' ∨ c = ']' then ['[', c, ']'] else [c])

/-- Whether a token stands for a character. -/
def Token.accepts : Token → Char → Bool
  | char a, c => a == c
  | oneOf rs, c => rs.any (·.contains c)
  | noneOf rs, c => !rs.any (·.contains c)
  | _, _ => true

/-- Whether the tokens stand for the text. -/
def accepts : List Token → List Char → Bool
  | [], cs => cs.isEmpty
  | .anyText :: ts, [] => accepts ts []
  | .anyText :: ts, c :: cs => accepts ts (c :: cs) || accepts (.anyText :: ts) cs
  | _ :: _, [] => false
  | t :: ts, c :: cs => t.accepts c && accepts ts cs
termination_by ts cs => ts.length + cs.length

/-- What a component of a pattern stands for. -/
inductive Component where
  /-- An entry of this name, a dot or two included. -/
  | literal (name : String)
  /-- An entry whose name the tokens stand for. -/
  | wild (tokens : List Token)
  /-- Any directories below. -/
  | directories
  deriving DecidableEq, Repr

/-- The text of tokens that are characters. -/
def literal? : List Token → Option (List Char)
  | [] => some []
  | .char c :: ts => (literal? ts).map (c :: ·)
  | _ :: _ => none

def Component.ofTokens (ts : List Token) : Component :=
  if ts.contains .anyDirectories then .directories
  else match literal? ts with
    | some name => .literal (String.ofList name)
    | none => .wild ts

/-- The components without a `**` right after another. -/
def collapse : List Component → List Component
  | .directories :: .directories :: cs => collapse (.directories :: cs)
  | c :: cs => c :: collapse cs
  | [] => []

/-- The components of a pattern between its separators. The last one may be followed by a
separator. The pattern is read as a whole first, so a class may hold a separator there, though no
component can. -/
def components (pattern : String) : Except PatternError (List Component) := do
  let _ ← tokens pattern
  let pieces := Path.segments (pattern.toList.dropWhile (· == '/'))
  let pieces := if pieces.getLast? = some [] then pieces.dropLast else pieces
  return collapse (← pieces.mapM fun piece => return .ofTokens (← tokensFrom 0 none piece))

end JobBundler.Glob
