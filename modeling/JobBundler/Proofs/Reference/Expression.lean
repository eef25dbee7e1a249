import JobBundler.Proofs.Reference.Words
import JobBundler.Proofs.Token.Decimal

/-!
# Divisions

An expression of numbers and member accesses is read as it is written, with every slash between its
operands a division, unless a slash follows a member whose name is a word after which an expression
starts, as in `a.in / b`: what such a word allows after it does not depend on where it stands. The names
that an expression refers to are those that its accesses start with (`Expression.reads_as_written_iff`).
-/

namespace JobBundler

open Lexeme (sources)

/-! ## Expressions -/

inductive BinaryOperator where
  | plus
  | minus
  | times
  | divide
  | remainder
  | equal
  | identical
  | less
  | greater
  | and
  | or
  | coalesce
  deriving DecidableEq, Repr

namespace BinaryOperator

def sign : BinaryOperator → String
  | plus => "+"
  | minus => "-"
  | times => "*"
  | divide => "/"
  | remainder => "%"
  | equal => "=="
  | identical => "==="
  | less => "<"
  | greater => ">"
  | and => "&&"
  | or => "||"
  | coalesce => "??"

def kind : BinaryOperator → TokenKind
  | times => .star
  | less => .less
  | greater => .greater
  | op => .operator op.sign

end BinaryOperator

/-- A step from a value to one of its members, which may have any name. -/
structure MemberAccess where
  /-- The access is made only if there is a value. -/
  optional : Bool
  name : String
  isName : Lexeme.IsName name

/-- The name that a path starts with. -/
structure PathHead where
  name : String
  isName : Lexeme.IsName name
  notReserved : isReservedWord name = false
  notKeyword : TokenKind.expressionKeywords.contains name = false

inductive Operand where
  | number (digits : String) (isDecimal : Literal.IsDecimal digits.toList)
  | path (head : PathHead) (members : List MemberAccess)

/-- Operands with operators between them. -/
structure Expression where
  first : Operand
  more : List (BinaryOperator × Operand)

namespace MemberAccess

def sign (m : MemberAccess) : String :=
  if m.optional then "?." else "."

def signKind (m : MemberAccess) : TokenKind :=
  if m.optional then .optionalChain else .dot

def text (m : MemberAccess) : List Char :=
  m.sign.toList ++ m.name.toList

def lexemes (m : MemberAccess) : List Lexeme :=
  [⟨[], m.sign.toList, m.signKind⟩, ⟨[], m.name.toList, .ident m.name⟩]

end MemberAccess

namespace Operand

def text : Operand → List Char
  | number digits _ => digits.toList
  | path head members => head.name.toList ++ members.flatMap MemberAccess.text

/-- The lexemes of the operand after a gap. -/
def lexemes (gap : List Char) : Operand → List Lexeme
  | number digits _ => [⟨gap, digits.toList, .number digits⟩]
  | path head members =>
    ⟨gap, head.name.toList, .ident head.name⟩ :: members.flatMap MemberAccess.lexemes

/-- The name that the operand refers to. -/
def head? : Operand → Option String
  | number _ _ => none
  | path head _ => some head.name

/-- The operand ends in a member whose name is a word after which an expression starts. -/
def endsInKeyword : Operand → Bool
  | number _ _ => false
  | path _ members => members.getLast?.any (TokenKind.expressionKeywords.contains ·.name)

end Operand

namespace Expression

/-- The operators and operands after the first one, each after a space. -/
def tailText : List (BinaryOperator × Operand) → List Char
  | [] => []
  | (op, o) :: more => ' ' :: op.sign.toList ++ ' ' :: o.text ++ tailText more

def tailLexemes : List (BinaryOperator × Operand) → List Lexeme
  | [] => []
  | (op, o) :: more => ⟨[' '], op.sign.toList, op.kind⟩ :: (o.lexemes [' '] ++ tailLexemes more)

def text (e : Expression) : String :=
  String.ofList (e.first.text ++ tailText e.more)

/-- The lexemes of the operands and operators, with the spaces before them. -/
def lexemes (e : Expression) : List Lexeme :=
  e.first.lexemes [] ++ tailLexemes e.more

/-- The names that the operands refer to. -/
def heads (e : Expression) : List String :=
  (e.first :: e.more.map (·.2)).filterMap Operand.head?

/-- No division follows an operand that ends in a word after which an expression starts. -/
def DividesPlainly : Operand → List (BinaryOperator × Operand) → Prop
  | _, [] => True
  | o, (op, p) :: more => (op = .divide → o.endsInKeyword = false) ∧ DividesPlainly p more

end Expression

/-! ## Reading operands and operators -/

theorem Literal.isDigit_of_isNameStart {c : Char} (h : isNameStart c) : c.isDigit = false := by
  by_contra hdigit
  rw [Bool.not_eq_false] at hdigit
  have hc : 0x30 ≤ c.toNat ∧ c.toNat ≤ 0x39 := Char.isDigit_iff_toNat.1 hdigit
  have halpha : Text.isAlphabetic c = false := by
    have hascii : c.toNat < 0x80 := by omega
    rw [Text.isAlphabetic, if_pos hascii]
    by_contra hletter
    have hletter := Text.isAlpha_iff.1 (Bool.not_eq_false _ ▸ hletter)
    omega
  simp only [isNameStart, halpha, Bool.false_or, Bool.or_eq_true, beq_iff_eq] at h
  rcases h with rfl | rfl <;> cases hdigit

namespace Lexeme

variable {d : Nat} {s : List Nat} {b : Bool} {rest : List Char}

/-- A member access is read as its sign and its name. -/
theorem next_accessSign (m : MemberAccess) (ctx : Context) (rest : List Char) :
    next ctx (m.sign.toList ++ (m.name.toList ++ rest)) =
      .ok (.lexeme ⟨[], m.sign.toList, m.signKind⟩ { ctx with regexAllowed := true }
        (m.name.toList ++ rest)) := by
  obtain ⟨c, cs, hname, hc, -⟩ := m.isName
  have hdigit := Literal.isDigit_of_isNameStart hc
  have hpoint : '.' ≠ c := by
    rintro rfl
    exact absurd hc (by decide)
  have hdot : Literal.isNameStart '.' = false := rfl
  have hquestion : Literal.isNameStart '?' = false := rfl
  rw [hname, MemberAccess.sign, MemberAccess.signKind]
  cases m.optional with
  | false =>
    have hfront : Punctuator.front? ('.' :: c :: (cs ++ rest)) = some ['.'] := by
      simp [Punctuator.front?, Punctuator.long, Punctuator.startsWith, Punctuator.short, hpoint]
    have hread : read ctx true '.' (c :: (cs ++ rest)) =
        .ok ⟨.dot, ['.'], { ctx with regexAllowed := true }, c :: (cs ++ rest)⟩ := by
      simp [read, hdot, hdigit, readPunctuator, hfront, Punctuator.kind, Context.after]
      rfl
    exact next_of_read (g := []) (.inl rfl) (by decide) (by decide) hread
  | true =>
    have hfront : Punctuator.front? ('?' :: '.' :: c :: (cs ++ rest)) = some ['?', '.'] := by
      simp [Punctuator.front?, Punctuator.long, Punctuator.startsWith, hdigit]
    have hread : read ctx true '?' ('.' :: c :: (cs ++ rest)) =
        .ok ⟨.optionalChain, ['?', '.'], { ctx with regexAllowed := true }, c :: (cs ++ rest)⟩ := by
      simp [read, hquestion, readPunctuator, hfront, Punctuator.kind, Context.after]
      rfl
    exact next_of_read (g := []) (.inl rfl) (by decide) (by decide) hread

/-- The context after a word. -/
theorem after_ident (ctx : Context) (glued : Bool) (name : String) :
    ctx.after glued (.ident name) =
      { ctx with regexAllowed := TokenKind.expressionKeywords.contains name } := rfl

theorem endsName_of_endsOperand (h : Literal.EndsOperand rest) : EndsName rest := by
  cases rest with
  | nil => rfl
  | cons c cs =>
    obtain rfl : c = ' ' := by simpa [Literal.EndsOperand] using h
    rfl

theorem endsName_members (ms : List MemberAccess) (h : Literal.EndsOperand rest) :
    EndsName (sources (ms.flatMap MemberAccess.lexemes) ++ rest) := by
  cases ms with
  | nil => exact endsName_of_endsOperand h
  | cons m ms =>
    rw [List.flatMap_cons, MemberAccess.lexemes, MemberAccess.sign]
    cases m.optional <;> exact rfl

theorem reads_members (ms : List MemberAccess) (h : Literal.EndsOperand rest) (b : Bool) :
    Reads rest ⟨d, s, b⟩ (ms.flatMap MemberAccess.lexemes)
      ⟨d, s, ms.getLast?.elim b (TokenKind.expressionKeywords.contains ·.name)⟩ := by
  induction ms generalizing b with
  | nil => exact .nil
  | cons m ms ih =>
    have hsign := next_accessSign m ⟨d, s, b⟩ (sources (ms.flatMap MemberAccess.lexemes) ++ rest)
    have hname := @next_name ⟨d, s, true⟩ _ _ [] m.isName (.inl rfl) (endsName_members ms h)
    have hlast : (m :: ms).getLast?.elim b (TokenKind.expressionKeywords.contains ·.name) =
        ms.getLast?.elim (TokenKind.expressionKeywords.contains m.name)
          (TokenKind.expressionKeywords.contains ·.name) := by
      rw [List.getLast?_cons]
      cases ms.getLast? <;> rfl
    have htail : Reads rest ⟨d, s, true⟩
        (⟨[], m.name.toList, .ident m.name⟩ :: ms.flatMap MemberAccess.lexemes)
        ⟨d, s, ms.getLast?.elim (TokenKind.expressionKeywords.contains m.name)
          (TokenKind.expressionKeywords.contains ·.name)⟩ := .cons hname (ih _)
    rw [hlast, List.flatMap_cons, MemberAccess.lexemes, List.cons_append, List.singleton_append]
    refine .cons ?_ htail
    rw [sources_cons, List.append_assoc]
    exact hsign

theorem next_number {digits : String} (h : Literal.IsDecimal digits.toList) {gap : List Char}
    (hgap : gap = [] ∨ gap = [' ']) (hrest : Literal.EndsOperand rest) :
    next ⟨d, s, b⟩ (gap ++ (digits.toList ++ rest)) =
      .ok (.lexeme ⟨gap, digits.toList, .number digits⟩ ⟨d, s, false⟩ rest) := by
  obtain ⟨c, cs, hcs, hc⟩ := h.exists_cons
  have hnumber := Literal.number_decimal h hrest
  rw [hcs, List.cons_append] at hnumber
  have hstart : Literal.isNameStart c = false := by
    by_contra hname
    rw [Bool.not_eq_false] at hname
    rcases hc with hc | ⟨rfl, -⟩
    · rw [Literal.isDigit_of_isNameStart hname] at hc
      cases hc
    · exact absurd hname (by decide)
  have hdigit : (c.isDigit || (c == '.' && (cs ++ rest).head?.any Char.isDigit)) = true := by
    rcases hc with hc | ⟨rfl, hdigit⟩
    · rw [hc, Bool.true_or]
    · cases cs with
      | nil => cases hdigit
      | cons e cs => simpa using hdigit
  have hread : read ⟨d, s, b⟩ gap.isEmpty c (cs ++ rest) =
      .ok ⟨.number digits, digits.toList, ⟨d, s, false⟩, rest⟩ := by
    rw [read, hstart, if_neg Bool.false_ne_true, if_pos hdigit, hnumber]
    simp only [← hcs, String.ofList_toList]
    rfl
  have hspace : Trivia.isSpace c = false := by
    rcases hc with hc | ⟨rfl, -⟩
    · by_contra hspace
      have hword := Reference.isWordChar_of_isSpace (Bool.not_eq_false _ ▸ hspace)
      simp [Reference.isWordChar, Char.isAlphanum, hc] at hword
    · rfl
  have hslash : c ≠ '/' := by
    rintro rfl
    rcases hc with hc | ⟨hc, -⟩ <;> cases hc
  have hnext := next_of_read hgap hspace hslash hread
  rwa [← List.cons_append, ← hcs] at hnext

/-- A division is read where no regular expression may start, the other operators anywhere. -/
theorem next_operator (op : BinaryOperator) (h : op = .divide → b = false) (rest : List Char) :
    next ⟨d, s, b⟩ (' ' :: (op.sign.toList ++ ' ' :: rest)) =
      .ok (.lexeme ⟨[' '], op.sign.toList, op.kind⟩ ⟨d, s, true⟩ (' ' :: rest)) := by
  by_cases hop : op = .divide
  · subst hop
    have hgap : Trivia.gap (' ' :: '/' :: ' ' :: rest) = .ok ([' '], '/' :: ' ' :: rest) := by
      rw [Trivia.gap_cons_of_isSpace rfl, Trivia.gap]
      · rfl
      · rintro line - ⟨⟩
      · rintro more - ⟨⟩
    have hread : read ⟨d, s, b⟩ false '/' (' ' :: rest) =
        .ok ⟨.operator "/", ['/'], ⟨d, s, true⟩, ' ' :: rest⟩ := by
      rw [h rfl]
      rfl
    exact next_of_gap hgap hread
  · obtain ⟨c, cs, hsign, hspace, hslash, hread⟩ : ∃ c cs, op.sign.toList = c :: cs ∧
        Trivia.isSpace c = false ∧ c ≠ '/' ∧
        read ⟨d, s, b⟩ false c (cs ++ ' ' :: rest) =
          .ok ⟨op.kind, op.sign.toList, ⟨d, s, true⟩, ' ' :: rest⟩ := by
      cases op
      case divide => exact absurd rfl hop
      all_goals exact ⟨_, _, rfl, rfl, by decide, rfl⟩
    have hnext := next_of_read (g := [' ']) (.inr rfl) hspace hslash hread
    rwa [← List.cons_append, ← hsign] at hnext

/-- An operand is read as its lexemes, and a slash after it starts a regular expression exactly if it ends
in a word after which an expression starts. -/
theorem reads_operand (o : Operand) {gap : List Char} (hgap : gap = [] ∨ gap = [' '])
    (h : Literal.EndsOperand rest) (b : Bool) :
    Reads rest ⟨d, s, b⟩ (o.lexemes gap) ⟨d, s, o.endsInKeyword⟩ := by
  cases o with
  | number digits isDecimal =>
    refine .cons ?_ .nil
    rw [source, sources_nil, List.nil_append, List.append_assoc]
    exact next_number isDecimal hgap h
  | path head members =>
    have hhead := @next_name ⟨d, s, b⟩ _ _ _ head.isName hgap (endsName_members members h)
    have hkeyword : members.getLast?.elim (TokenKind.expressionKeywords.contains head.name)
        (TokenKind.expressionKeywords.contains ·.name) =
          (Operand.path head members).endsInKeyword := by
      rw [Operand.endsInKeyword, head.notKeyword]
      cases members.getLast? <;> rfl
    rw [← hkeyword]
    refine .cons ?_ (reads_members members h _)
    rw [source, List.append_assoc]
    exact hhead

open Expression in
theorem endsOperand_tail (more : List (BinaryOperator × Operand)) :
    Literal.EndsOperand (sources (tailLexemes more)) := by
  cases more <;> rfl

open Expression in
theorem reads_tail {o : Operand} {more : List (BinaryOperator × Operand)} (h : DividesPlainly o more) :
    ∃ b, Reads [] ⟨d, s, o.endsInKeyword⟩ (tailLexemes more) ⟨d, s, b⟩ := by
  induction more generalizing o with
  | nil => exact ⟨_, .nil⟩
  | cons e more ih =>
    obtain ⟨op, p⟩ := e
    obtain ⟨hdivide, hmore⟩ := h
    obtain ⟨b, htail⟩ := ih hmore
    have hoperand : Reads (sources (tailLexemes more) ++ []) ⟨d, s, true⟩ (p.lexemes [' '])
        ⟨d, s, p.endsInKeyword⟩ := by
      rw [List.append_nil]
      exact reads_operand p (.inr rfl) (endsOperand_tail more) true
    refine ⟨b, .cons ?_ (hoperand.append htail)⟩
    have hspace : ∃ text, sources (p.lexemes [' '] ++ tailLexemes more) ++ [] = ' ' :: text := by
      cases p <;> exact ⟨_, rfl⟩
    obtain ⟨text, htext⟩ := hspace
    have hnext := next_operator (d := d) (s := s) op hdivide text
    rw [htext, source, List.append_assoc]
    exact hnext

/-- Where a regular expression may start, a slash starts one. -/
theorem read_slash {ctx : Context} (h : ctx.regexAllowed = true) (glued : Bool) (cs : List Char) :
    read ctx glued '/' cs = readRegex ctx cs := by
  have hstart : Literal.isNameStart '/' = false := rfl
  simp [read, hstart, h]

end Lexeme

/-! ## Where a slash starts a regular expression -/

/-- A slash after a word after which an expression starts is no operator. -/
theorem Lexing.kind_ne_slash {cs : List Char} {y : Lexing} {as bs : List Lexeme} {l m : Lexeme} {name : String}
    (h : ofSource cs = .ok y) (hy : y.lexemes = as ++ l :: m :: bs) (hl : l.kind = .ident name)
    (hname : TokenKind.expressionKeywords.contains name) : m.kind ≠ .operator "/" := by
  intro hm
  obtain ⟨ctx, ctx', glued, c, tl, -, hread, hreads⟩ := exists_read h hy
  obtain ⟨-, -, -, hctx⟩ := Lexeme.name_of_read hread hl
  cases hreads with
  | cons head _ =>
    obtain ⟨c', tl', -, -, hread'⟩ := Lexeme.next_eq_ok head
    have hwritten := Lexeme.isWritten_of_read hread'
    dsimp only at hctx hwritten
    rw [hm] at hwritten hread'
    obtain ⟨rfl, rfl⟩ : c' = '/' ∧ tl' = [] := by simpa [TokenKind.IsWritten] using hwritten
    have hallowed : ctx'.regexAllowed = true := by
      rw [hctx, Lexeme.after_ident]
      exact hname
    rw [Lexeme.read_slash hallowed, Lexeme.readRegex] at hread'
    split at hread' <;> cases hread'

namespace Expression

variable {o : Operand} {more : List (BinaryOperator × Operand)}

theorem sources_operand (o : Operand) (gap : List Char) : sources (o.lexemes gap) = gap ++ o.text := by
  cases o with
  | number digits _ => simp [Operand.lexemes, Operand.text, Lexeme.source]
  | path head members =>
    have hmembers (ms : List MemberAccess) :
        sources (ms.flatMap MemberAccess.lexemes) = ms.flatMap MemberAccess.text := by
      induction ms with
      | nil => rfl
      | cons m ms ih => simp [MemberAccess.lexemes, MemberAccess.text, Lexeme.source, ← ih]
    simp [Operand.lexemes, Operand.text, Lexeme.source, hmembers]

theorem sources_tail (more : List (BinaryOperator × Operand)) : sources (tailLexemes more) = tailText more := by
  induction more with
  | nil => rfl
  | cons e more ih => simp [tailLexemes, tailText, sources_operand, Lexeme.source, ih]

theorem sources_lexemes (e : Expression) : sources e.lexemes = e.text.toList := by
  simp [lexemes, text, sources_operand, sources_tail]

theorem exists_last (o : Operand) (gap : List Char) (h : o.endsInKeyword) :
    ∃ front l name, o.lexemes gap = front ++ [l] ∧ l.kind = .ident name ∧
      TokenKind.expressionKeywords.contains name := by
  cases o with
  | number => cases h
  | path head members =>
    rw [Operand.endsInKeyword] at h
    cases hlast : members.getLast? with
    | none =>
      rw [hlast] at h
      cases h
    | some m =>
      rw [hlast] at h
      obtain ⟨init, rfl⟩ := List.getLast?_eq_some_iff.1 hlast
      refine ⟨⟨gap, head.name.toList, .ident head.name⟩ ::
        (init.flatMap MemberAccess.lexemes ++ [⟨[], m.sign.toList, m.signKind⟩]),
        ⟨[], m.name.toList, .ident m.name⟩, m.name, ?_, rfl, h⟩
      simp [Operand.lexemes, MemberAccess.lexemes]

/-- Where the lexemes of an expression are read, its divisions are plain. -/
theorem dividesPlainly_of_lexemes {g : List Char}
    (h : ∀ as l m bs name, o.lexemes g ++ tailLexemes more = as ++ l :: m :: bs →
      l.kind = .ident name → TokenKind.expressionKeywords.contains name → m.kind ≠ .operator "/") :
    DividesPlainly o more := by
  induction more generalizing o g with
  | nil => trivial
  | cons e more ih =>
    obtain ⟨op, p⟩ := e
    refine ⟨?_, ih (g := [' ']) fun as l m bs name hls => ?_⟩
    · rintro rfl
      by_contra hkeyword
      obtain ⟨front, l, name, hlast, hl, hname⟩ := exists_last o g (Bool.not_eq_false _ ▸ hkeyword)
      refine h front l ⟨[' '], ['/'], .operator "/"⟩ (p.lexemes [' '] ++ tailLexemes more) name ?_ hl hname rfl
      rw [hlast, List.append_assoc]
      rfl
    · refine h (o.lexemes g ++ ⟨[' '], op.sign.toList, op.kind⟩ :: as) l m bs name ?_
      rw [tailLexemes, hls, List.append_assoc, List.cons_append]

theorem head?_lexemes (e : Expression) : (sources e.lexemes).head? ≠ some '#' := by
  obtain ⟨o, more⟩ := e
  cases o with
  | number digits h =>
    obtain ⟨c, cs, hcs, hc⟩ := h.exists_cons
    simp only [lexemes, Operand.lexemes, Lexeme.sources_append, Lexeme.sources_cons, Lexeme.source, hcs]
    rintro ⟨⟩
    rcases hc with hc | ⟨hc, -⟩ <;> cases hc
  | path head members =>
    obtain ⟨c, cs, hcs, hc, -⟩ := head.isName
    simp only [lexemes, Operand.lexemes, Lexeme.sources_append, Lexeme.sources_cons, Lexeme.source, hcs]
    rintro ⟨⟩
    cases hc

/-- The tokens of an expression are those that it is written with exactly if no division follows an operand
that ends in a word after which an expression starts. -/
theorem tokenize_iff (e : Expression) :
    tokenize e.text = .ok (Token.place 0 e.lexemes) ↔ DividesPlainly e.first e.more := by
  constructor
  · intro h
    obtain ⟨y, hy, hplace⟩ := tokenize_eq_ok_iff.1 h
    refine dividesPlainly_of_lexemes (g := []) fun as l m bs name hls hl hname hm => ?_
    have hkinds : y.lexemes.map (·.kind) = (as ++ l :: m :: bs).map (·.kind) := by
      rw [← Token.map_kind_place 0 y.lexemes, ← hplace, Token.map_kind_place]
      exact congrArg (List.map (·.kind)) hls
    rw [List.map_append, List.map_cons, List.map_cons, List.map_eq_append_iff] at hkinds
    obtain ⟨as', tail, hys, -, htail⟩ := hkinds
    obtain ⟨l', tail', rfl, hl', htail'⟩ := List.map_eq_cons_iff.1 htail
    obtain ⟨m', bs', rfl, hm', -⟩ := List.map_eq_cons_iff.1 htail'
    exact Lexing.kind_ne_slash hy hys (hl'.trans hl) hname (hm'.trans hm)
  · intro h
    obtain ⟨b, htail⟩ := Lexeme.reads_tail (d := 0) (s := []) h
    have hfirst := Lexeme.reads_operand (d := 0) (s := []) e.first (.inl rfl) (Lexeme.endsOperand_tail e.more) true
    rw [← List.append_nil (sources (tailLexemes e.more))] at hfirst
    have hreads : Lexeme.Reads [] .initial e.lexemes ⟨0, [], b⟩ := hfirst.append htail
    have hsource := (Lexing.ofSource_sources_iff hreads e.head?_lexemes).2 ⟨rfl, rfl⟩
    rw [sources_lexemes] at hsource
    exact Lexing.tokenize_eq hsource

/-! ## References -/

theorem ofTokens_members (ms : List MemberAccess) (previous : Option TokenKind) (n : Nat) (rest : List Lexeme) :
    ∃ k m, Reference.ofTokens previous (Token.place n (ms.flatMap MemberAccess.lexemes ++ rest)) =
      Reference.ofTokens k (Token.place m rest) := by
  induction ms generalizing previous n with
  | nil => exact ⟨previous, n, rfl⟩
  | cons a ms ih =>
    obtain ⟨k, m, hrest⟩ :=
      ih (some (.ident a.name)) (n + Text.byteLength a.sign.toList + Text.byteLength a.name.toList)
    refine ⟨k, m, ?_⟩
    have hsign : a.signKind = .optionalChain ∨ a.signKind = .dot := by
      unfold MemberAccess.signKind
      split
      · exact .inl rfl
      · exact .inr rfl
    rw [← hrest, List.flatMap_cons, MemberAccess.lexemes]
    rcases hsign with hsign | hsign <;>
      simp [Token.place, Reference.ofTokens, Token.name?, Reference.isPropertyName, hsign]

/-- After a token that no member or key follows, an operand refers to its head. -/
theorem ofTokens_operand (o : Operand) {previous : Option TokenKind}
    (h : ∀ next, Reference.isPropertyName previous next = false) (gap : List Char) (n : Nat) (rest : List Lexeme) :
    ∃ k m, Reference.ofTokens previous (Token.place n (o.lexemes gap ++ rest)) =
      o.head?.toList ++ Reference.ofTokens k (Token.place m rest) := by
  cases o with
  | number digits _ => exact ⟨_, _, rfl⟩
  | path head members =>
    obtain ⟨k, m, hmembers⟩ := ofTokens_members members (some (.ident head.name))
      (n + Text.byteLength gap + Text.byteLength head.name.toList) rest
    refine ⟨k, m, ?_⟩
    rw [← hmembers]
    simp [Operand.lexemes, Token.place, Reference.ofTokens, Token.name?, h, head.notReserved, Operand.head?]

theorem ofTokens_tail (more : List (BinaryOperator × Operand)) (previous : Option TokenKind) (n : Nat) :
    Reference.ofTokens previous (Token.place n (tailLexemes more)) =
      (more.map (·.2)).filterMap Operand.head? := by
  induction more generalizing previous n with
  | nil => rfl
  | cons e more ih =>
    obtain ⟨op, p⟩ := e
    have hoperator (next : Option TokenKind) : Reference.isPropertyName (some op.kind) next = false := by
      cases op <;> rfl
    obtain ⟨k, m, hp⟩ := ofTokens_operand p hoperator [' '] (n + 1 + Text.byteLength op.sign.toList)
      (tailLexemes more)
    have hname : Reference.ofTokens previous (Token.place n (tailLexemes ((op, p) :: more))) =
        Reference.ofTokens (some op.kind)
          (Token.place (n + 1 + Text.byteLength op.sign.toList) (p.lexemes [' '] ++ tailLexemes more)) := by
      cases op <;> rfl
    rw [hname, hp, ih, List.map_cons]
    cases hhead : p.head? <;> simp [hhead]

/-- The names that the text of an expression refers to are its heads. -/
theorem lexical_text (e : Expression) (h : DividesPlainly e.first e.more) :
    Reference.lexical e.text = .ok (.ofList e.heads) := by
  have hnone (next : Option TokenKind) : Reference.isPropertyName none next = false := rfl
  obtain ⟨k, m, hfirst⟩ := ofTokens_operand e.first hnone [] 0 (tailLexemes e.more)
  have hheads : Reference.ofTokens none (Token.place 0 e.lexemes) = e.heads := by
    rw [lexemes, hfirst, ofTokens_tail, heads]
    cases hhead : e.first.head? <;> simp [hhead]
  rw [Reference.lexical, (tokenize_iff e).2 h, ← hheads]
  rfl

/-- An expression is read as it is written exactly if no division follows an operand that ends in a word
after which an expression starts, and then it refers to the heads of its operands. -/
theorem reads_as_written_iff (e : Expression) :
    (tokenize e.text = .ok (Token.place 0 e.lexemes) ↔ DividesPlainly e.first e.more) ∧
    (DividesPlainly e.first e.more → Reference.lexical e.text = .ok (.ofList e.heads)) :=
  ⟨tokenize_iff e, lexical_text e⟩

/-- `a.of + b?.in.x / 2.5e-3` -/
def memberWords : Expression where
  first := .path ⟨"a", ⟨'a', [], by decide⟩, by decide, by decide⟩ [⟨false, "of", 'o', ['f'], by decide⟩]
  more :=
    [(.plus, .path ⟨"b", ⟨'b', [], by decide⟩, by decide, by decide⟩
        [⟨true, "in", 'i', ['n'], by decide⟩, ⟨false, "x", 'x', [], by decide⟩]),
      (.divide, .number "2.5e-3" memberWords.isDecimal)]
where
  isDecimal : Literal.IsDecimal (['2'] ++ '.' :: ['5'] ++ 'e' :: (['-'] ++ ['3'])) :=
    .scaled (.point ⟨'2', [], by decide⟩ (.inr ⟨'5', [], by decide⟩)) (.inl rfl) (.inr (.inr rfl))
      ⟨'3', [], by decide⟩

/-- Members may have any names where no division follows them. -/
theorem memberWords_read :
    DividesPlainly memberWords.first memberWords.more ∧
      tokenize "a.of + b?.in.x / 2.5e-3" = .ok (Token.place 0 memberWords.lexemes) ∧
      Reference.lexical "a.of + b?.in.x / 2.5e-3" = .ok (.ofList ["a", "b"]) := by
  have hplain : DividesPlainly memberWords.first memberWords.more := ⟨nofun, fun _ => rfl, trivial⟩
  have htext : memberWords.text = "a.of + b?.in.x / 2.5e-3" := by decide +kernel
  obtain ⟨hiff, hheads⟩ := reads_as_written_iff memberWords
  rw [htext] at hiff hheads
  exact ⟨hplain, hiff.2 hplain, hheads hplain⟩

/-- `a.in / b` -/
def memberKeyword : Expression where
  first := .path ⟨"a", ⟨'a', [], by decide⟩, by decide, by decide⟩ [⟨false, "in", 'i', ['n'], by decide⟩]
  more := [(.divide, .path ⟨"b", ⟨'b', [], by decide⟩, by decide, by decide⟩ [])]

/-- After the member `in` a slash is taken for the start of a regular expression, which has no end. -/
theorem memberKeyword_misread :
    memberKeyword.text = "a.in / b" ∧ memberKeyword.heads = ["a", "b"] ∧
      (tokenize "a.in / b").isOk = false ∧ (Reference.lexical "a.in / b").isOk = false := by
  decide +kernel

end Expression

end JobBundler
