import JobBundler.Json.Basic
import JobBundler.Json.Text

/-! # Reading JSON texts

A text is cut into tokens, white space apart, and the tokens are read as one value. -/

namespace JobBundler.Json

inductive Token where
  /-- A bracket, a brace, a comma or a colon. -/
  | mark (c : Char)
  | scalar (value : Json)

def isSpace (c : Char) : Bool :=
  c == ' ' || c == '\n' || c == '\t' || c == '\r'

def isMark (c : Char) : Bool :=
  ['[', ']', '{', '}', ',', ':'].contains c

/-- The digits at the front of a text, of which there has to be one, and the text after them. -/
def digits? (cs : List Char) : Option (List Char × List Char) :=
  let ds := cs.takeWhile Char.isDigit
  if ds.isEmpty then none else some (ds, cs.dropWhile Char.isDigit)

/-- The integer part of a number: no zero stands before another digit. -/
def integer? : List Char → Option (List Char × List Char)
  | '0' :: cs => if cs.head?.any Char.isDigit then none else some (['0'], cs)
  | cs => digits? cs

/-- The fraction of a number, if one stands at the front of the text. -/
def fraction? : List Char → Option (List Char × List Char)
  | '.' :: cs => digits? cs
  | cs => some ([], cs)

/-- The exponent of a number, if one stands at the front of the text, and whether it is negative. -/
def exponent? : List Char → Option (Bool × List Char × List Char)
  | c :: cs =>
    if c = 'e' ∨ c = 'E' then
      match cs with
      | '-' :: cs => (digits? cs).map (true, ·)
      | '+' :: cs => (digits? cs).map (false, ·)
      | cs => (digits? cs).map (false, ·)
    else some (false, [], c :: cs)
  | [] => some (false, [], [])

/-- The number at the front of the text after its sign. -/
def number? (cs : List Char) : Option (Number × List Char) := do
  let (integer, cs) ← integer? cs
  let (fraction, cs) ← fraction? cs
  let (negativeExponent, exponent, cs) ← exponent? cs
  return (⟨integer, fraction, negativeExponent, exponent⟩, cs)

/-- The scalar that starts with the character `c`, and the text after it. -/
def scalar? (c : Char) (cs : List Char) : Option (Json × List Char) :=
  match c, cs with
  | '"', cs =>
    (stringParts? cs).map fun (ps, rest) => (.string ((textOf? ps).map String.ofList), rest)
  | '-', cs => (number? cs).map fun (x, rest) => (.number x, rest)
  | 't', 'r' :: 'u' :: 'e' :: cs => some (.bool true, cs)
  | 'f', 'a' :: 'l' :: 's' :: 'e' :: cs => some (.bool false, cs)
  | 'n', 'u' :: 'l' :: 'l' :: cs => some (.null, cs)
  | c, cs => (number? (c :: cs)).map fun (x, rest) => (.number x, rest)

theorem digits?_length_lt {cs ds rest : List Char} (h : digits? cs = some (ds, rest)) :
    rest.length < cs.length := by
  unfold digits? at h
  dsimp only at h
  split at h
  · cases h
  · rename_i hd
    cases h
    have hs := congrArg List.length (List.takeWhile_append_dropWhile (p := Char.isDigit) (l := cs))
    have hp := List.length_pos_iff.2 (by simpa using hd : cs.takeWhile Char.isDigit ≠ [])
    rw [List.length_append] at hs
    omega

theorem number?_length_lt {cs rest : List Char} {x : Number} (h : number? cs = some (x, rest)) :
    rest.length < cs.length := by
  unfold number? at h
  obtain ⟨⟨i, cs₁⟩, h₁, h⟩ := Option.bind_eq_some_iff.1 h
  obtain ⟨⟨f, cs₂⟩, h₂, h⟩ := Option.bind_eq_some_iff.1 h
  obtain ⟨⟨n, e, cs₃⟩, h₃, h⟩ := Option.bind_eq_some_iff.1 h
  cases h
  have hi : cs₁.length < cs.length := by
    unfold integer? at h₁
    split at h₁
    · split at h₁ <;> cases h₁
      exact Nat.lt_succ_self _
    · exact digits?_length_lt h₁
  have hf : cs₂.length ≤ cs₁.length := by
    unfold fraction? at h₂
    split at h₂
    · exact Nat.le_of_lt (Nat.lt_succ_of_lt (digits?_length_lt h₂))
    · cases h₂
      exact Nat.le_refl _
  have he : rest.length ≤ cs₂.length := by
    unfold exponent? at h₃
    split at h₃
    · rename_i c cs
      split at h₃
      · split at h₃
        all_goals
          obtain ⟨⟨ds, r⟩, hd, heq⟩ := Option.map_eq_some_iff.1 h₃
          cases heq
          have := digits?_length_lt hd
          simp only [List.length_cons] at this ⊢
          omega
      · cases h₃
        exact Nat.le_refl _
    · cases h₃
      exact Nat.le_refl _
  omega

theorem scalar?_length_le {c : Char} {cs rest : List Char} {j : Json}
    (h : scalar? c cs = some (j, rest)) : rest.length ≤ cs.length := by
  unfold scalar? at h
  split at h
  · obtain ⟨⟨ps, r⟩, hp, heq⟩ := Option.map_eq_some_iff.1 h
    cases heq
    exact Nat.le_of_lt (stringParts?_length_lt hp)
  · obtain ⟨⟨x, r⟩, hx, heq⟩ := Option.map_eq_some_iff.1 h
    cases heq
    exact Nat.le_of_lt (number?_length_lt hx)
  iterate 3
    · cases h
      simp only [List.length_cons]
      omega
  · obtain ⟨⟨x, r⟩, hx, heq⟩ := Option.map_eq_some_iff.1 h
    cases heq
    exact Nat.le_of_lt_succ (number?_length_lt hx)

/-- The tokens of a text. -/
def tokens? (cs : List Char) : Option (List Token) :=
  match cs with
  | [] => some []
  | c :: cs =>
    if isSpace c then tokens? cs
    else if isMark c then (tokens? cs).map (.mark c :: ·)
    else match _h : scalar? c cs with
      | none => none
      | some (j, rest) => (tokens? rest).map (.scalar j :: ·)
termination_by cs.length
decreasing_by
  all_goals simp only [List.length_cons]
  · exact Nat.lt_succ_self _
  · exact Nat.lt_succ_self _
  · exact Nat.lt_succ_of_le (scalar?_length_le _h)

mutual

/-- The value at the front of the tokens, read in at most `fuel` steps, and the tokens after it. -/
def value? : (fuel : Nat) → List Token → Option (Json × List Token)
  | _, .scalar j :: ts => some (j, ts)
  | _, .mark '[' :: .mark ']' :: ts => some (.array [], ts)
  | _, .mark '{' :: .mark '}' :: ts => some (.object [], ts)
  | fuel + 1, .mark '[' :: ts => (items? fuel ts).map fun (js, ts) => (.array js, ts)
  | fuel + 1, .mark '{' :: ts => (members? fuel ts).map fun (ms, ts) => (.object ms, ts)
  | _, _ => none

/-- The items of an array up to its end. -/
def items? : (fuel : Nat) → List Token → Option (List Json × List Token)
  | 0, _ => none
  | fuel + 1, ts =>
    match value? fuel ts with
    | some (j, .mark ',' :: ts) => (items? fuel ts).map fun (js, ts) => (j :: js, ts)
    | some (j, .mark ']' :: ts) => some ([j], ts)
    | _ => none

/-- The members of an object up to its end. -/
def members? : (fuel : Nat) → List Token → Option (List (Option String × Json) × List Token)
  | 0, _ => none
  | fuel + 1, .scalar (.string name) :: .mark ':' :: ts =>
    match value? fuel ts with
    | some (j, .mark ',' :: ts) => (members? fuel ts).map fun (ms, ts) => ((name, j) :: ms, ts)
    | some (j, .mark '}' :: ts) => some ([(name, j)], ts)
    | _ => none
  | _, _ => none

end

/-- The value of a text. Each token takes at most two steps. -/
def ofText? (text : String) : Option Json := do
  let ts ← tokens? text.toList
  match value? (2 * ts.length + 2) ts with
  | some (j, []) => some j
  | _ => none

end JobBundler.Json
