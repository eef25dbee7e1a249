import JobBundler.Token.Lexer
import Mathlib.Tactic.Common

/-!
# Reading lexemes one after the other

Lexemes are read from their texts with the text that follows them present (`Lexeme.Reads`), so that a
reading can be cut in two and put together, although a token ends where the next character says so.
-/

namespace JobBundler

theorem takeWhile_append_of_all {p : Char → Bool} {as bs : List Char} (ha : as.all p)
    (hb : bs.head?.all (!p ·)) :
    (as ++ bs).takeWhile p = as ∧ (as ++ bs).dropWhile p = bs := by
  have hall : ∀ a ∈ as, p a := by simpa using ha
  have htake : bs.takeWhile p = [] ∧ bs.dropWhile p = bs := by
    cases bs with
    | nil => exact ⟨rfl, rfl⟩
    | cons b bs => simp_all
  rw [List.takeWhile_append_of_pos hall, List.dropWhile_append_of_pos hall, htake.1, htake.2]
  exact ⟨List.append_nil _, rfl⟩

/-- A token of this kind is a name or a literal. -/
def TokenKind.isWordOrLiteral : TokenKind → Bool
  | .ident _ | .privateName _ | .str _ | .template _ | .number _ | .regex _ => true
  | _ => false

theorem Punctuator.kind_ne {kind : TokenKind} (h : kind.isWordOrLiteral) (text : List Char) :
    Punctuator.kind text ≠ kind := by
  rintro rfl
  unfold Punctuator.kind at h
  split at h <;> cases h

namespace Lexeme

/-- The texts of lexemes put together. -/
def sources (ls : List Lexeme) : List Char :=
  ls.flatMap source

variable {ctx ctx' ctx'' : Context} {l : Lexeme} {ls ms : List Lexeme} {rest : List Char}

@[simp] theorem sources_nil : sources [] = [] := rfl

@[simp] theorem sources_cons : sources (l :: ls) = l.source ++ sources ls := rfl

@[simp] theorem sources_append : sources (ls ++ ms) = sources ls ++ sources ms := by
  induction ls with
  | nil => rfl
  | cons l ls ih => simp [ih]

/-- With the text `rest` after them, these lexemes are read from their texts, from the first context
to the second. -/
inductive Reads (rest : List Char) : Context → List Lexeme → Context → Prop
  | nil {ctx : Context} : Reads rest ctx [] ctx
  | cons {ctx ctx' ctx'' : Context} {l : Lexeme} {ls : List Lexeme}
    (head : next ctx (l.source ++ (sources ls ++ rest)) =
      .ok (.lexeme l ctx' (sources ls ++ rest)))
    (tail : Reads rest ctx' ls ctx'') : Reads rest ctx (l :: ls) ctx''

namespace Reads

theorem append (h : Reads (sources ms ++ rest) ctx ls ctx') (h' : Reads rest ctx' ms ctx'') :
    Reads rest ctx (ls ++ ms) ctx'' := by
  induction h with
  | nil => exact h'
  | cons head _ ih =>
    refine .cons ?_ (ih h')
    rw [List.append_eq, sources_append, List.append_assoc]
    exact head

theorem of_append (h : Reads rest ctx (ls ++ ms) ctx'') :
    ∃ ctx', Reads (sources ms ++ rest) ctx ls ctx' ∧ Reads rest ctx' ms ctx'' := by
  induction ls generalizing ctx with
  | nil => exact ⟨ctx, .nil, h⟩
  | cons l ls ih =>
    cases h with
    | cons head tail =>
      obtain ⟨ctx₁, hl, hm⟩ := ih tail
      rw [List.append_eq, sources_append, List.append_assoc] at head
      exact ⟨ctx₁, .cons head hl, hm⟩

theorem ne_nil (h : Reads rest ctx ls ctx') (hl : l ∈ ls) : l.text ≠ [] := by
  induction h with
  | nil => cases hl
  | cons head _ ih =>
    rcases List.mem_cons.1 hl with rfl | hl
    · exact next_ne_nil head
    · exact ih hl

end Reads

theorem next_finished {gap cs : List Char} (h : next ctx cs = .ok (.finished gap)) : gap = cs := by
  unfold next at h
  split at h
  · cases h
  · rename_i hg
    cases h
    simpa using Trivia.gap_append hg
  · split at h <;> cases h

theorem next_of_gap {g : List Char} {c : Char} {as bs : List Char} {r : Reading}
    (hg : Trivia.gap as = .ok (g, c :: bs)) (hr : read ctx g.isEmpty c bs = .ok r) :
    next ctx as = .ok (.lexeme ⟨g, r.text, r.kind⟩ r.context r.rest) := by
  unfold next
  rw [hg]
  simp only [hr]

theorem next_eq_ok {cs : List Char} (h : next ctx cs = .ok (.lexeme l ctx' rest)) :
    ∃ c tl, l.text = c :: tl ∧ Trivia.gap cs = .ok (l.gap, c :: (tl ++ rest)) ∧
      read ctx l.gap.isEmpty c (tl ++ rest) = .ok ⟨l.kind, c :: tl, ctx', rest⟩ := by
  unfold next at h
  split at h
  · cases h
  · cases h
  · rename_i gap c more hg
    split at h
    · cases h
    · rename_i r hr
      cases h
      have happend := read_append hr
      obtain ⟨kind, text, ctx', rest⟩ := r
      obtain ⟨a, tl, rfl⟩ := List.exists_cons_of_ne_nil (read_ne_nil hr)
      obtain ⟨rfl, rfl⟩ := List.cons.inj happend
      exact ⟨a, tl, rfl, hg, hr⟩

/-! ## Whole texts -/

theorem lexemesFrom_of_error {cs : List Char} {f : Fault} (h : next ctx cs = .error f) :
    lexemesFrom ctx cs = .error f := by
  rw [lexemesFrom]
  split <;> simp_all

theorem lexemesFrom_of_finished {gap cs : List Char} (h : next ctx cs = .ok (.finished gap)) :
    lexemesFrom ctx cs = .ok ⟨[], gap, ctx⟩ := by
  rw [lexemesFrom]
  split <;> simp_all

theorem lexemesFrom_of_next {cs : List Char} (h : next ctx cs = .ok (.lexeme l ctx' rest)) :
    lexemesFrom ctx cs =
      match lexemesFrom ctx' rest with
      | .ok x => .ok { x with lexemes := l :: x.lexemes }
      | .error f => .error (f.after l.source) := by
  rw [lexemesFrom]
  split
  · simp_all
  · simp_all
  · rename_i h'
    rw [h] at h'
    cases h'
    rcases lexemesFrom ctx' rest with f | x <;> rfl

/-- The first lexeme of a whole text, and what is read after it. -/
theorem next_of_lexemesFrom {cs : List Char} {x : Lexing} (h : lexemesFrom ctx cs = .ok x)
    (hls : x.lexemes = l :: ls) :
    ∃ ctx' rest, next ctx cs = .ok (.lexeme l ctx' rest) ∧
      lexemesFrom ctx' rest = .ok { x with lexemes := ls } := by
  rw [lexemesFrom] at h
  split at h
  · cases h
  · cases h
    cases hls
  · rename_i ctx' rest hnext
    split at h
    · cases h
    · rename_i x' hx
      cases h
      cases hls
      exact ⟨ctx', rest, hnext, hx⟩

theorem sources_of_lexemesFrom {cs : List Char} {x : Lexing} (h : lexemesFrom ctx cs = .ok x) :
    sources x.lexemes ++ x.trailing = cs :=
  lexemesFrom_source h

/-- The lexemes of a whole text are read one after the other. -/
theorem reads_of_lexemesFrom {cs : List Char} {x : Lexing} (h : lexemesFrom ctx cs = .ok x) :
    Reads x.trailing ctx x.lexemes x.context := by
  fun_induction lexemesFrom ctx cs generalizing x with
  | case1 => cases h
  | case2 =>
    cases h
    exact .nil
  | case3 => cases h
  | case4 ctx cs l ctx' rest hn x' hx ih =>
    cases h
    rw [← next_source hn, ← sources_of_lexemesFrom hx] at hn
    exact .cons hn (ih hx)

/-- What is read after some lexemes is read of the text after them. -/
theorem Reads.lexemesFrom_eq (h : Reads rest ctx ls ctx') :
    lexemesFrom ctx (sources ls ++ rest) =
      match lexemesFrom ctx' rest with
      | .ok x => .ok { x with lexemes := ls ++ x.lexemes }
      | .error f => .error (f.after (sources ls)) := by
  induction h with
  | nil =>
    rw [sources_nil, List.nil_append]
    rcases lexemesFrom _ rest with f | x <;> rfl
  | @cons ctx ctx₁ ctx₂ l ls head _ ih =>
    rw [sources_cons, List.append_assoc, lexemesFrom_of_next head, ih]
    rcases lexemesFrom ctx₂ rest with f | x
    · simp [Fault.after]
    · rfl

end Lexeme

end JobBundler
