import JobBundler.Outline.SyntaxError

/-! # Reading positions among tokens

A cursor stands between two tokens. Each reading function returns the cursor after what it read,
and the lemma beside it says that no token comes back: the cursor after has fewer tokens before it,
or no more. -/

namespace JobBundler

theorem Except.bind_eq_ok_iff {ε α β : Type} {x : Except ε α} {f : α → Except ε β} {b : β} :
    (x >>= f) = .ok b ↔ ∃ a, x = .ok a ∧ f a = .ok b := by
  cases x <;> simp [bind, Except.bind]

structure Cursor where
  /-- Where the token before the cursor ends. -/
  lastStop : Nat
  /-- The tokens after the cursor. -/
  tokens : List Token

namespace Cursor

/-- The cursor after the token `t`, before the tokens `ts`. -/
def past (t : Token) (ts : List Token) : Cursor :=
  ⟨t.span.stop, ts⟩

/-- The cursor after the next token, at the end the cursor itself. -/
def advance (c : Cursor) : Cursor :=
  match c.tokens with
  | [] => c
  | t :: ts => past t ts

/-- Whether the next token is of this kind. -/
def atKind (c : Cursor) (kind : TokenKind) : Bool :=
  c.tokens.head?.any (·.kind == kind)

/-- Whether the next token is this identifier or keyword. -/
def atWord (c : Cursor) (word : String) : Bool :=
  c.atKind (.ident word)

/-- Where the next token starts, at the end where the last one stops. -/
def start (c : Cursor) : Nat :=
  (c.tokens.head?.map (·.span.start)).getD c.lastStop

/-- The error of a cursor whose next token is not what was expected. -/
def unexpected (c : Cursor) (expected : Expectation) : SyntaxError :=
  match c.tokens with
  | [] => .unexpectedEnd expected
  | t :: _ => .unexpectedToken t expected

/-- The cursor after the next token when that is of this kind, else the cursor itself. -/
def skipKind (c : Cursor) (kind : TokenKind) : Cursor :=
  if c.atKind kind then c.advance else c

/-- Takes the word `word`. -/
def expectWord (c : Cursor) (word : String) : Except SyntaxError Cursor :=
  if c.atWord word then .ok c.advance else .error (c.unexpected (.word word))

/-- Takes an identifier or keyword. -/
def expectName (c : Cursor) (expected : Expectation) : Except SyntaxError (String × Cursor) :=
  match c.tokens with
  | ⟨.ident name, _, _⟩ :: _ => .ok (name, c.advance)
  | _ => .error (c.unexpected expected)

/-- Takes a string literal. -/
def expectString (c : Cursor) (expected : Expectation) : Except SyntaxError (String × Cursor) :=
  match c.tokens with
  | ⟨.str value, _, _⟩ :: _ => .ok (value, c.advance)
  | _ => .error (c.unexpected expected)

theorem advance_length_le (c : Cursor) : c.advance.tokens.length ≤ c.tokens.length := by
  unfold advance
  split <;> simp_all [past]

theorem skipKind_length_le (c : Cursor) (kind : TokenKind) :
    (c.skipKind kind).tokens.length ≤ c.tokens.length := by
  unfold skipKind
  split
  · exact c.advance_length_le
  · exact Nat.le_refl _

theorem expectWord_length_le {c c' : Cursor} {word : String} (h : c.expectWord word = .ok c') :
    c'.tokens.length ≤ c.tokens.length := by
  unfold expectWord at h
  split at h <;> cases h
  exact c.advance_length_le

theorem expectName_length_le {c c' : Cursor} {expected : Expectation} {name : String}
    (h : c.expectName expected = .ok (name, c')) : c'.tokens.length ≤ c.tokens.length := by
  unfold expectName at h
  split at h <;> cases h
  exact c.advance_length_le

theorem expectString_length_le {c c' : Cursor} {expected : Expectation} {value : String}
    (h : c.expectString expected = .ok (value, c')) : c'.tokens.length ≤ c.tokens.length := by
  unfold expectString at h
  split at h <;> cases h
  exact c.advance_length_le

end Cursor

/-- The cursor after the bracket that closes a group, whose opening bracket and `inner` more are
open. Brackets are matched by number alone. -/
def skipGroup (inner : Nat) : List Token → Except SyntaxError Cursor
  | [] => .error (.unexpectedEnd .closingDelimiter)
  | t :: ts =>
    match t.kind, inner with
    | .opening _, inner => skipGroup (inner + 1) ts
    | .closing _, 0 => .ok (.past t ts)
    | .closing _, inner + 1 => skipGroup inner ts
    | _, inner => skipGroup inner ts

theorem skipGroup_length_lt {inner : Nat} {ts : List Token} {c : Cursor}
    (h : skipGroup inner ts = .ok c) : c.tokens.length < ts.length := by
  fun_induction skipGroup inner ts with
  | case1 => cases h
  | case2 _ _ _ _ _ ih => exact Nat.lt_succ_of_lt (ih h)
  | case3 =>
    cases h
    exact Nat.lt_succ_self _
  | case4 _ _ _ _ _ ih => exact Nat.lt_succ_of_lt (ih h)
  | case5 _ _ _ _ _ _ ih => exact Nat.lt_succ_of_lt (ih h)

end JobBundler
