import JobBundler.Outline.Cursor

/-! # Statements that are skipped

A statement of no interest ends at a semicolon outside brackets, or before a line that starts a
decorator, a class, an import or an export. -/

namespace JobBundler

/-- The tokens after `class`, or after `abstract class` on one line, at the front. -/
def afterClassKeyword? : List Token → Option Cursor
  | t :: ts =>
    if t.isWord "class" then some (.past t ts)
    else match ts with
      | u :: us =>
        if t.isWord "abstract" && u.isWord "class" && !u.newlineBefore then some (.past u us)
        else none
      | [] => none
  | [] => none

/-- Whether a line that starts with these tokens starts a statement of its own. -/
def startsDeclaration (ts : List Token) : Bool :=
  ts.head?.any (fun t => t.kind == .atSign || t.isWord "import" || t.isWord "export") ||
    (afterClassKeyword? ts).isSome

/-- Skips to the end of a statement of which some tokens are read. -/
def skipStatementRest (c : Cursor) : Except SyntaxError Cursor :=
  match _hc : c.tokens with
  | [] => .ok c
  | t :: ts =>
    if t.newlineBefore && startsDeclaration (t :: ts) then .ok c
    else match t.kind with
      | .semicolon => .ok (.past t ts)
      | .opening _ =>
        match _h : skipGroup 0 ts with
        | .error e => .error e
        | .ok c' => skipStatementRest c'
      | .closing _ => .error (.unexpectedToken t .statement)
      | _ => skipStatementRest (.past t ts)
termination_by c.tokens.length
decreasing_by
  all_goals rw [_hc, List.length_cons]
  · exact Nat.lt_succ_of_lt (skipGroup_length_lt _h)
  · exact Nat.lt_succ_self _

/-- Skips the statement that starts with the token `t`. -/
def skipStatement (t : Token) (ts : List Token) : Except SyntaxError Cursor :=
  match t.kind with
  | .semicolon => .ok (.past t ts)
  | .opening _ => skipGroup 0 ts >>= skipStatementRest
  | .closing _ => .error (.unexpectedToken t .statement)
  | _ => skipStatementRest (.past t ts)

theorem skipStatementRest_length_le {c c' : Cursor} (h : skipStatementRest c = .ok c') :
    c'.tokens.length ≤ c.tokens.length := by
  fun_induction skipStatementRest c with
  | case1 | case2 =>
    cases h
    exact Nat.le_refl _
  | case3 _ t ts hc =>
    cases h
    simp [hc, Cursor.past]
  | case4 => cases h
  | case5 _ t ts hc _ _ _ c₁ hg ih =>
    rw [hc, List.length_cons]
    exact Nat.le_of_lt (Nat.lt_succ_of_le (Nat.le_trans (ih h) (Nat.le_of_lt (skipGroup_length_lt hg))))
  | case6 => cases h
  | case7 _ t ts hc _ _ _ _ ih =>
    rw [hc, List.length_cons]
    exact Nat.le_succ_of_le (ih h)

theorem skipStatement_length_le {t : Token} {ts : List Token} {c : Cursor}
    (h : skipStatement t ts = .ok c) : c.tokens.length ≤ ts.length := by
  unfold skipStatement at h
  split at h
  · cases h
    exact Nat.le_refl _
  · obtain ⟨c₁, h₁, h⟩ := Except.bind_eq_ok_iff.1 h
    exact Nat.le_trans (skipStatementRest_length_le h) (Nat.le_of_lt (skipGroup_length_lt h₁))
  · cases h
  · exact skipStatementRest_length_le h

end JobBundler
