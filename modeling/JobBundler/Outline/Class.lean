import JobBundler.Outline.Decorator
import JobBundler.Outline.Statement

/-! # Class declarations

A class declaration, with the decorators and the `export` before it. -/

namespace JobBundler

/-- Skips the type parameters and the `extends` and `implements` clauses of a class up to its body,
with `angles` type argument lists open, and returns the opening brace of the body and the tokens
after it. -/
def classHeritage (angles : Nat) (ts : List Token) : Except SyntaxError (Token × List Token) :=
  match ts with
  | [] => .error (.unexpectedEnd .classBody)
  | t :: ts =>
    match t.kind with
    | .opening b =>
      if b = .brace ∧ angles = 0 then .ok (t, ts)
      else match _h : skipGroup 0 ts with
        | .error e => .error e
        | .ok c => classHeritage angles c.tokens
    | .semicolon | .closing _ => .error (.unexpectedToken t .classBody)
    | .less => classHeritage (angles + 1) ts
    | .greater => classHeritage (angles - 1) ts
    | .operator text =>
      if text.toList.all (· = '>') then classHeritage (angles - text.length) ts
      else classHeritage angles ts
    | _ => classHeritage angles ts
termination_by ts.length
decreasing_by
  all_goals simp only [List.length_cons]
  · exact Nat.lt_succ_of_lt (skipGroup_length_lt _h)
  all_goals exact Nat.lt_succ_self _

/-- The name of a class, if one stands at the cursor. -/
def className? (c : Cursor) : Option String :=
  match c.tokens with
  | ⟨.ident word, _, _⟩ :: _ => if word = "extends" ∨ word = "implements" then none else some word
  | _ => none

/-- The rest of a class declaration after the keyword `class`. -/
def classRest (start : Nat) (decorators : List Decorator) (exported : ExportKind) (c : Cursor) :
    Except SyntaxError (ClassDecl × Cursor) :=
  let name := className? c
  if name.isNone && exported != .byDefault then .error (c.unexpected .className)
  else do
    let (brace, ts) ← classHeritage 0 (if name.isSome then c.advance else c).tokens
    let c ← skipGroup 0 ts
    return ({ name, decorators, exported, span := ⟨start, c.lastStop⟩,
              body := ⟨brace.span.start, c.lastStop⟩ }, c)

/-- The error of decorators without a class after them. -/
def dangling (decorators : List Decorator) : SyntaxError :=
  .danglingDecorator ((decorators.head?.map (·.span)).getD ⟨0, 0⟩)

/-- What stands after `export`, or `export default`, and the decorators `ds`: a class, or a
statement to skip when there are no decorators. -/
def exported (start : Nat) (ds : List Decorator) (how : ExportKind) (c : Cursor) :
    Except SyntaxError (Option ClassDecl × Cursor) :=
  match afterClassKeyword? c.tokens with
  | some c => do
    let (decl, c) ← classRest start ds how c
    return (some decl, c)
  | none =>
    if !ds.isEmpty then .error (dangling ds)
    else match c.tokens with
      | [] => .ok (none, c)
      | t :: ts => do return (none, ← skipStatement t ts)

/-- What stands after the keyword `export` and the decorators `before` it. More decorators may
follow the keyword. -/
def exportRest (start : Nat) (before : List Decorator) (c : Cursor) :
    Except SyntaxError (Option ClassDecl × Cursor) := do
  let isDefault := c.atWord "default"
  let (own, c) ← decorators (if isDefault then c.advance else c)
  exported start (before ++ own) (if isDefault then .byDefault else .byName) c

/-- What stands after decorators: an exported class or a class. -/
def decoratedRest (ds : List Decorator) (c : Cursor) :
    Except SyntaxError (Option ClassDecl × Cursor) :=
  let start := (ds.head?.map (·.span.start)).getD c.start
  if c.atWord "export" then exportRest start ds c.advance
  else match afterClassKeyword? c.tokens with
    | some c => do
      let (decl, c) ← classRest start ds .notExported c
      return (some decl, c)
    | none => .error (dangling ds)

theorem classHeritage_length_lt {angles : Nat} {ts us : List Token} {t : Token}
    (h : classHeritage angles ts = .ok (t, us)) : us.length < ts.length := by
  fun_induction classHeritage angles ts with
  | case2 =>
    cases h
    exact Nat.lt_succ_self _
  | case4 _ _ _ _ _ _ c hg ih =>
    exact Nat.lt_succ_of_lt (Nat.lt_trans (ih h) (skipGroup_length_lt hg))
  | case1 | case3 | case5 | case6 => cases h
  | _ => rename_i ih; exact Nat.lt_succ_of_lt (ih h)

/-- The way to read what stands after the keyword `class`. -/
inductive ReadsClass (start : Nat) (ds : List Decorator) (how : ExportKind) (c : Cursor) :
    ClassDecl → Cursor → Prop
  | intro {brace : Token} {ts : List Token} {c' : Cursor}
    (hname : ¬((className? c).isNone && how != .byDefault))
    (hheritage : classHeritage 0 (if (className? c).isSome then c.advance else c).tokens =
      .ok (brace, ts)) (hbody : skipGroup 0 ts = .ok c') :
    ReadsClass start ds how c
      { name := className? c, decorators := ds, exported := how
        span := ⟨start, c'.lastStop⟩, body := ⟨brace.span.start, c'.lastStop⟩ } c'

theorem classRest_eq_ok {start : Nat} {ds : List Decorator} {how : ExportKind} {c c' : Cursor}
    {d : ClassDecl} (h : classRest start ds how c = .ok (d, c')) : ReadsClass start ds how c d c' := by
  unfold classRest at h
  dsimp only at h
  split at h
  · cases h
  · rename_i hname
    obtain ⟨⟨brace, ts⟩, h₁, h⟩ := Except.bind_eq_ok_iff.1 h
    obtain ⟨c₂, h₂, h⟩ := Except.bind_eq_ok_iff.1 h
    cases h
    exact .intro hname h₁ h₂

theorem classRest_length_le {start : Nat} {ds : List Decorator} {how : ExportKind} {c c' : Cursor}
    {decl : ClassDecl} (h : classRest start ds how c = .ok (decl, c')) :
    c'.tokens.length ≤ c.tokens.length := by
  cases classRest_eq_ok h with
  | intro _ hheritage hbody =>
    have hb := classHeritage_length_lt hheritage
    have hc : (if (className? c).isSome then c.advance else c).tokens.length ≤ c.tokens.length := by
      split
      · exact c.advance_length_le
      · exact Nat.le_refl _
    exact Nat.le_of_lt (Nat.lt_trans (skipGroup_length_lt hbody) (Nat.lt_of_lt_of_le hb hc))

theorem afterClassKeyword?_length_lt {ts : List Token} {c : Cursor}
    (h : afterClassKeyword? ts = some c) : c.tokens.length < ts.length := by
  unfold afterClassKeyword? at h
  split at h
  · split at h
    · cases h
      exact Nat.lt_succ_self _
    · split at h
      · split at h <;> cases h
        exact Nat.lt_succ_of_lt (Nat.lt_succ_self _)
      · cases h
  · cases h

/-- The ways to read what stands after `export` and its decorators. -/
inductive ReadsExported (start : Nat) (ds : List Decorator) (how : ExportKind) (c : Cursor) :
    Option ClassDecl → Cursor → Prop
  | plain {c₁ c' : Cursor} {d : ClassDecl} (hkeyword : afterClassKeyword? c.tokens = some c₁)
    (hrest : classRest start ds how c₁ = .ok (d, c')) : ReadsExported start ds how c (some d) c'
  | nothing (hds : ds = []) (hc : c.tokens = []) : ReadsExported start ds how c none c
  | skipped {t : Token} {ts : List Token} {c' : Cursor} (hds : ds = [])
    (hkeyword : afterClassKeyword? c.tokens = none) (hc : c.tokens = t :: ts)
    (hskip : skipStatement t ts = .ok c') : ReadsExported start ds how c none c'

theorem exported_eq_ok {start : Nat} {ds : List Decorator} {how : ExportKind} {c c' : Cursor}
    {decl : Option ClassDecl} (h : exported start ds how c = .ok (decl, c')) :
    ReadsExported start ds how c decl c' := by
  unfold exported at h
  split at h
  · rename_i hkeyword
    obtain ⟨⟨d, c₂⟩, h₂, h⟩ := Except.bind_eq_ok_iff.1 h
    cases h
    exact .plain hkeyword h₂
  · rename_i hkeyword
    split at h
    · cases h
    · rename_i hne
      have hds : ds = [] := by simpa using hne
      split at h
      · rename_i hc
        cases h
        exact .nothing hds hc
      · rename_i hc
        obtain ⟨c₂, h₂, h⟩ := Except.bind_eq_ok_iff.1 h
        cases h
        exact .skipped hds hkeyword hc h₂

theorem exported_length_le {start : Nat} {ds : List Decorator} {how : ExportKind} {c c' : Cursor}
    {decl : Option ClassDecl} (h : exported start ds how c = .ok (decl, c')) :
    c'.tokens.length ≤ c.tokens.length := by
  cases exported_eq_ok h with
  | plain hkeyword hrest =>
    exact Nat.le_trans (classRest_length_le hrest) (Nat.le_of_lt (afterClassKeyword?_length_lt hkeyword))
  | nothing => exact Nat.le_refl _
  | skipped _ _ hc hskip =>
    rw [hc, List.length_cons]
    exact Nat.le_succ_of_le (skipStatement_length_le hskip)

theorem exportRest_length_le {start : Nat} {before : List Decorator} {c c' : Cursor}
    {decl : Option ClassDecl} (h : exportRest start before c = .ok (decl, c')) :
    c'.tokens.length ≤ c.tokens.length := by
  unfold exportRest at h
  obtain ⟨⟨own, c₁⟩, h₁, h⟩ := Except.bind_eq_ok_iff.1 h
  have hc : (if c.atWord "default" then c.advance else c).tokens.length ≤ c.tokens.length := by
    split
    · exact c.advance_length_le
    · exact Nat.le_refl _
  exact Nat.le_trans (exported_length_le h) (Nat.le_trans (decorators_length_le h₁) hc)

/-- The ways to read what stands after decorators. -/
inductive ReadsDecorated (ds : List Decorator) (c : Cursor) : Option ClassDecl → Cursor → Prop
  | exporting {decl : Option ClassDecl} {c' : Cursor} (hexport : c.atWord "export")
    (hrest : exportRest ((ds.head?.map (·.span.start)).getD c.start) ds c.advance = .ok (decl, c')) :
    ReadsDecorated ds c decl c'
  | plain {c₁ c' : Cursor} {d : ClassDecl} (hexport : ¬c.atWord "export")
    (hkeyword : afterClassKeyword? c.tokens = some c₁)
    (hrest : classRest ((ds.head?.map (·.span.start)).getD c.start) ds .notExported c₁ =
      .ok (d, c')) : ReadsDecorated ds c (some d) c'

theorem decoratedRest_eq_ok {ds : List Decorator} {c c' : Cursor} {decl : Option ClassDecl}
    (h : decoratedRest ds c = .ok (decl, c')) : ReadsDecorated ds c decl c' := by
  unfold decoratedRest at h
  dsimp only at h
  split at h
  · exact .exporting ‹_› h
  · rename_i hexport
    split at h
    · rename_i hkeyword
      obtain ⟨⟨d, c₂⟩, h₂, h⟩ := Except.bind_eq_ok_iff.1 h
      cases h
      exact .plain hexport hkeyword h₂
    · cases h

theorem decoratedRest_length_le {ds : List Decorator} {c c' : Cursor} {decl : Option ClassDecl}
    (h : decoratedRest ds c = .ok (decl, c')) : c'.tokens.length ≤ c.tokens.length := by
  cases decoratedRest_eq_ok h with
  | exporting _ hrest => exact Nat.le_trans (exportRest_length_le hrest) c.advance_length_le
  | plain _ hkeyword hrest =>
    exact Nat.le_trans (classRest_length_le hrest) (Nat.le_of_lt (afterClassKeyword?_length_lt hkeyword))

end JobBundler
