import JobBundler.Outline.Basic
import JobBundler.Outline.Cursor

/-! # Decorators -/

namespace JobBundler

/-- A dotted name. -/
def dottedName : List Token → Except SyntaxError (String × Cursor)
  | [] => .error (.unexpectedEnd .decoratorName)
  | t :: ts =>
    match t.name?, ts with
    | none, _ => .error (.unexpectedToken t .decoratorName)
    | some name, d :: us =>
      if d.kind = .dot then do
        let (more, c) ← dottedName us
        return (name ++ "." ++ more, c)
      else .ok (name, .past t (d :: us))
    | some name, [] => .ok (name, .past t [])

/-- An argument to which one more token belongs, from the part before that token. -/
def DecoratorArg.extend : Option DecoratorArg → TokenKind → DecoratorArg
  | none, .str value => .str value
  | _, _ => .other

/-- The arguments of a call up to its closing parenthesis, where `current` is read of the next
argument. Empty arguments do not count. -/
def decoratorArgs (current : Option DecoratorArg) (ts : List Token) :
    Except SyntaxError (List DecoratorArg × Cursor) :=
  match ts with
  | [] => .error (.unexpectedEnd .closingParen)
  | t :: ts =>
    match t.kind with
    | .closing .paren => .ok (current.toList, .past t ts)
    | .comma => do
      let (args, c) ← decoratorArgs none ts
      return (current.toList ++ args, c)
    | .opening _ =>
      match _h : skipGroup 0 ts with
      | .error e => .error e
      | .ok c => decoratorArgs (some (.extend current t.kind)) c.tokens
    | kind => decoratorArgs (some (.extend current kind)) ts
termination_by ts.length
decreasing_by
  all_goals simp only [List.length_cons]
  · exact Nat.lt_succ_self _
  · exact Nat.lt_succ_of_lt (skipGroup_length_lt _h)
  · exact Nat.lt_succ_self _

/-- The decorator whose `@` stands at byte `start`, before the cursor. A parenthesised expression
has no name. -/
def decorator (start : Nat) (c : Cursor) : Except SyntaxError (Decorator × Cursor) :=
  match c.tokens with
  | ⟨.opening .paren, _, _⟩ :: ts => do
    let c ← skipGroup 0 ts
    return (⟨"", none, start, c.lastStop⟩, c)
  | ts => do
    let (name, c) ← dottedName ts
    match c.tokens with
    | ⟨.opening .paren, _, _⟩ :: ts =>
      let (args, c) ← decoratorArgs none ts
      return (⟨name, some args, start, c.lastStop⟩, c)
    | _ => return (⟨name, none, start, c.lastStop⟩, c)

theorem dottedName_length_lt {ts : List Token} {name : String} {c : Cursor}
    (h : dottedName ts = .ok (name, c)) : c.tokens.length < ts.length := by
  fun_induction dottedName ts generalizing name c with
  | case1 => cases h
  | case2 => cases h
  | case3 t _ d us _ _ ih =>
    obtain ⟨⟨more, c'⟩, hm, hc⟩ := Except.bind_eq_ok_iff.1 h
    cases hc
    have := ih hm
    simp only [List.length_cons]
    omega
  | case4 | case5 =>
    cases h
    simp [Cursor.past]

theorem decoratorArgs_length_lt {current : Option DecoratorArg} {ts : List Token}
    {args : List DecoratorArg} {c : Cursor} (h : decoratorArgs current ts = .ok (args, c)) :
    c.tokens.length < ts.length := by
  fun_induction decoratorArgs current ts generalizing args c with
  | case1 => cases h
  | case2 =>
    cases h
    simp [Cursor.past]
  | case3 current t ts _ ih =>
    obtain ⟨⟨more, c'⟩, hm, hc⟩ := Except.bind_eq_ok_iff.1 h
    cases hc
    exact Nat.lt_succ_of_lt (ih hm)
  | case4 => cases h
  | case5 current t ts _ _ c' hg ih =>
    exact Nat.lt_succ_of_lt (Nat.lt_trans (ih h) (skipGroup_length_lt hg))
  | case6 current t ts _ _ _ ih => exact Nat.lt_succ_of_lt (ih h)

/-- The ways to read a decorator after its sign. -/
inductive ReadsDecorator (start : Nat) (c : Cursor) : Decorator → Cursor → Prop
  | computed {span : Span} {newline : Bool} {ts : List Token} {c' : Cursor}
    (hc : c.tokens = ⟨.opening .paren, span, newline⟩ :: ts) (hgroup : skipGroup 0 ts = .ok c') :
    ReadsDecorator start c ⟨"", none, start, c'.lastStop⟩ c'
  | called {name : String} {span : Span} {newline : Bool} {ts : List Token} {c₁ c' : Cursor}
    {args : List DecoratorArg} (hname : dottedName c.tokens = .ok (name, c₁))
    (hc : c₁.tokens = ⟨.opening .paren, span, newline⟩ :: ts)
    (hargs : decoratorArgs none ts = .ok (args, c')) :
    ReadsDecorator start c ⟨name, some args, start, c'.lastStop⟩ c'
  | plain {name : String} {c' : Cursor} (hname : dottedName c.tokens = .ok (name, c')) :
    ReadsDecorator start c ⟨name, none, start, c'.lastStop⟩ c'

theorem decorator_eq_ok {start : Nat} {c c' : Cursor} {d : Decorator}
    (h : decorator start c = .ok (d, c')) : ReadsDecorator start c d c' := by
  unfold decorator at h
  split at h
  · rename_i hc
    obtain ⟨c₁, h₁, h⟩ := Except.bind_eq_ok_iff.1 h
    cases h
    exact .computed hc h₁
  · obtain ⟨⟨name, c₁⟩, h₁, h⟩ := Except.bind_eq_ok_iff.1 h
    dsimp only at h
    split at h
    · rename_i hc
      obtain ⟨⟨args, c₂⟩, h₂, h⟩ := Except.bind_eq_ok_iff.1 h
      cases h
      exact .called h₁ hc h₂
    · cases h
      exact .plain h₁

theorem decorator_length_le {start : Nat} {c c' : Cursor} {d : Decorator}
    (h : decorator start c = .ok (d, c')) : c'.tokens.length ≤ c.tokens.length := by
  cases decorator_eq_ok h with
  | computed hc hgroup =>
    rw [hc]
    exact Nat.le_of_lt (Nat.lt_succ_of_lt (skipGroup_length_lt hgroup))
  | called hname hc hargs =>
    have hn := dottedName_length_lt hname
    rw [hc, List.length_cons] at hn
    exact Nat.le_of_lt (Nat.lt_trans (decoratorArgs_length_lt hargs) (Nat.lt_of_succ_lt hn))
  | plain hname => exact Nat.le_of_lt (dottedName_length_lt hname)

/-- A decorator reaches from its sign to the last token that is read of it. -/
theorem decorator_span {start : Nat} {c c' : Cursor} {d : Decorator}
    (h : decorator start c = .ok (d, c')) : d.span = ⟨start, c'.lastStop⟩ := by
  cases decorator_eq_ok h with
  | computed | called | plain => rfl

/-- The decorators at the cursor, and the cursor after them. -/
def decorators (c : Cursor) : Except SyntaxError (List Decorator × Cursor) :=
  match _hc : c.tokens with
  | t :: ts =>
    if t.kind = .atSign then
      match _h : decorator t.span.start (.past t ts) with
      | .error e => .error e
      | .ok (d, c') => do
        let (ds, c'') ← decorators c'
        return (d :: ds, c'')
    else .ok ([], c)
  | [] => .ok ([], c)
termination_by c.tokens.length
decreasing_by
  rw [_hc, List.length_cons]
  exact Nat.lt_succ_of_le (decorator_length_le _h)

theorem decorators_length_le {c c' : Cursor} {ds : List Decorator}
    (h : decorators c = .ok (ds, c')) : c'.tokens.length ≤ c.tokens.length := by
  fun_induction decorators c generalizing ds c' with
  | case1 => cases h
  | case2 _ t ts hc _ d c₁ hd ih =>
    obtain ⟨⟨ds', c₂⟩, h₂, h⟩ := Except.bind_eq_ok_iff.1 h
    cases h
    rw [hc, List.length_cons]
    exact Nat.le_succ_of_le (Nat.le_trans (ih h₂) (decorator_length_le hd))
  | case3 | case4 =>
    cases h
    exact Nat.le_refl _

end JobBundler
