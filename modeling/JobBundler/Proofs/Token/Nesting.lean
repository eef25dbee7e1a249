import JobBundler.Proofs.Token.Locality

/-!
# Reading inside of brackets

Inside of braces and substitutions that stay open, a text is read as it is by itself
(`Lexeme.next_around`), unless it closes one of them, which nothing by itself can do
(`Lexeme.next_of_isOutside`).
-/

namespace JobBundler

namespace Context

/-- The context inside of another one, of which both the open braces and the open substitutions stay
open. -/
def around (base ctx : Context) : Context :=
  { depth := base.depth + ctx.depth
    substitutions := ctx.substitutions.map (base.depth + ·) ++ base.substitutions
    regexAllowed := ctx.regexAllowed }

/-- A substitution started at most as deep as those inside of it, and none deeper than where the
context is. -/
def Nested (ctx : Context) : Prop :=
  (ctx.depth :: ctx.substitutions).Pairwise (· ≥ ·)

/-- Where nothing is open, it is nested. -/
theorem nested_nil (regexAllowed : Bool) : Nested ⟨0, [], regexAllowed⟩ :=
  List.pairwise_singleton _ _

theorem nested_initial : initial.Nested :=
  nested_nil true

/-- A context seen from inside, where nothing is open yet. -/
theorem around_nil (base : Context) (regexAllowed : Bool) :
    base.around ⟨0, [], regexAllowed⟩ = { base with regexAllowed } := by
  simp [around]

theorem Nested.after {ctx : Context} (h : ctx.Nested) (glued : Bool) (kind : TokenKind) :
    (ctx.after glued kind).Nested :=
  h

theorem Nested.le_of_mem {ctx : Context} (h : ctx.Nested) {s : Nat} (hs : s ∈ ctx.substitutions) :
    s ≤ ctx.depth :=
  (List.pairwise_cons.1 h).1 s hs

/-- When the innermost substitution did not start here, no other one did. -/
theorem Nested.lt_of_mem {ctx : Context} (h : ctx.Nested)
    (hne : ctx.substitutions.head? ≠ some ctx.depth) {s : Nat} (hs : s ∈ ctx.substitutions) :
    s < ctx.depth := by
  obtain ⟨hle, hsubs⟩ := List.pairwise_cons.1 h
  generalize ctx.substitutions = ss at *
  cases ss with
  | nil => cases hs
  | cons t ts =>
    have ht : t < ctx.depth := by
      refine Nat.lt_of_le_of_ne (hle t List.mem_cons_self) fun heq => ?_
      rw [heq] at hne
      exact hne rfl
    rcases List.mem_cons.1 hs with rfl | hs
    · exact ht
    · exact Nat.lt_of_le_of_lt ((List.pairwise_cons.1 hsubs).1 s hs) ht

/-- There is no brace and no substitution that a closing brace could close. -/
def IsOutside (ctx : Context) : Prop :=
  ctx.depth = 0 ∧ ctx.substitutions = []

variable {base ctx : Context}

/-- Where no substitution started, a brace is open unless nothing is. -/
theorem Nested.depth_ne_zero (h : ctx.Nested) (hne : ctx.substitutions.head? ≠ some ctx.depth)
    (ho : ¬ctx.IsOutside) : ctx.depth ≠ 0 := by
  intro hd
  refine ho ⟨hd, List.eq_nil_iff_forall_not_mem.2 fun s hs => ?_⟩
  have := h.lt_of_mem hne hs
  omega

theorem head?_around (hb : base.Nested) (ho : ¬ctx.IsOutside) :
    (base.around ctx).substitutions.head? = some (base.around ctx).depth ↔
      ctx.substitutions.head? = some ctx.depth := by
  obtain ⟨depth, subs, regex⟩ := ctx
  cases subs with
  | cons s ss => simp [around]
  | nil =>
    have hd : depth ≠ 0 := fun hd => ho ⟨hd, rfl⟩
    simp only [around, List.map_nil, List.nil_append, List.head?_nil, reduceCtorEq, iff_false]
    intro hs
    have := hb.le_of_mem (List.mem_of_head? hs)
    omega

end Context

namespace Lexeme

variable {ctx ctx' base : Context} {glued : Bool} {c : Char} {cs rest : List Char} {r : Reading}

/-! ## Nested contexts -/

theorem nested_afterChunk (hn : ctx.Nested) (chunkEnd : Literal.ChunkEnd) :
    (afterChunk ctx chunkEnd).Nested := by
  cases chunkEnd with
  | backtick => exact hn
  | substitution =>
    refine List.pairwise_cons.2 ⟨fun s hs => ?_, hn⟩
    rcases List.mem_cons.1 hs with rfl | hs
    · exact Nat.le_refl _
    · exact hn.le_of_mem hs

theorem nested_read (h : read ctx glued c cs = .ok r) (hn : ctx.Nested) : r.context.Nested := by
  obtain ⟨hle, hsubs⟩ := List.pairwise_cons.1 hn
  cases read_eq_ok h with
  | name | number | string | privateName | regex | punctuator => exact hn
  | chunk => exact nested_afterChunk hn _
  | nextChunk =>
    refine nested_afterChunk (List.pairwise_cons.2 ⟨fun s hs => ?_, hsubs.tail⟩) _
    exact hle s (List.mem_of_mem_tail hs)
  | openingBrace =>
    exact List.pairwise_cons.2 ⟨fun s hs => Nat.le_succ_of_le (hle s hs), hsubs⟩
  | closingBrace _ hs =>
    exact List.pairwise_cons.2 ⟨fun s hmem => Nat.le_sub_one_of_lt (hn.lt_of_mem hs hmem), hsubs⟩

theorem nested_next {l : Lexeme} (h : next ctx cs = .ok (.lexeme l ctx' rest)) (hn : ctx.Nested) :
    ctx'.Nested := by
  obtain ⟨c, tl, -, -, hread⟩ := next_eq_ok h
  exact nested_read hread hn

theorem Reads.nested {ls : List Lexeme} (h : Reads rest ctx ls ctx') (hn : ctx.Nested) :
    ctx'.Nested := by
  induction h with
  | nil => exact hn
  | cons head _ ih => exact ih (nested_next head hn)

/-! ## Contexts inside of others -/

/-- The reading inside of another context. -/
def Reading.around (base : Context) (r : Reading) : Reading :=
  { r with context := base.around r.context }

theorem readChunk_around (base ctx : Context) (c : Char) (cs : List Char) :
    readChunk (base.around ctx) c cs = (readChunk ctx c cs).map (Reading.around base) := by
  unfold readChunk
  split <;> rfl

theorem readClosingBrace_around (hb : base.Nested) (hn : ctx.Nested) (ho : ¬ctx.IsOutside)
    (cs : List Char) :
    readClosingBrace (base.around ctx) cs =
      (readClosingBrace ctx cs).map (Reading.around base) := by
  unfold readClosingBrace
  by_cases hs : ctx.substitutions.head? = some ctx.depth
  · rw [if_pos hs, if_pos ((Context.head?_around hb ho).2 hs), ← readChunk_around]
    obtain ⟨ss, hss⟩ := List.head?_eq_some_iff.1 hs
    simp [Context.around, hss]
  · have hd : ctx.depth ≠ 0 := hn.depth_ne_zero hs ho
    have hbase : (base.around ctx).depth ≠ 0 := fun h => hd (Nat.eq_zero_of_add_eq_zero_left h)
    rw [if_neg hs, if_neg fun h => hs ((Context.head?_around hb ho).1 h), if_neg hd, if_neg hbase]
    have hdepth : base.depth + ctx.depth - 1 = base.depth + (ctx.depth - 1) := by omega
    simp [Except.map, Reading.around, Context.around, Context.after, hdepth]

theorem read_around (hb : base.Nested) (hn : ctx.Nested) (ho : c = '}' → ¬ctx.IsOutside) :
    read (base.around ctx) glued c cs = (read ctx glued c cs).map (Reading.around base) := by
  have hregex : (base.around ctx).regexAllowed = ctx.regexAllowed := rfl
  unfold read
  rw [hregex]
  split
  · rfl
  split
  · rfl
  split
  · unfold readString
    split <;> rfl
  split
  · exact readChunk_around ..
  split
  · rfl
  split
  · exact readClosingBrace_around hb hn (ho ‹_›) cs
  split
  · rfl
  split
  · unfold readRegex
    split <;> rfl
  · unfold readPunctuator
    split <;> rfl

/-- The step inside of another context. -/
def Step.around (base : Context) : Step → Step
  | .finished gap => .finished gap
  | .lexeme l ctx rest => .lexeme l (base.around ctx) rest

/-- A text is read in the same way inside of another context. -/
theorem next_around (hb : base.Nested) (hn : ctx.Nested)
    (ho : ∀ gap tl, Trivia.gap cs = .ok (gap, '}' :: tl) → ¬ctx.IsOutside) :
    next (base.around ctx) cs = (next ctx cs).map (Step.around base) := by
  unfold next
  split
  · rfl
  · rfl
  · rename_i gap c tl hgap
    have hread : read (base.around ctx) gap.isEmpty c tl =
        (read ctx gap.isEmpty c tl).map (Reading.around base) :=
      read_around hb hn fun hc => ho gap tl (hc ▸ hgap)
    rw [hread]
    cases read ctx gap.isEmpty c tl <;> rfl

/-- Where nothing is open, there is nothing for a brace to close. -/
theorem next_of_isOutside {gap tl : List Char} (hgap : Trivia.gap cs = .ok (gap, '}' :: tl))
    (ho : ctx.IsOutside) : ∃ f, next ctx cs = .error f := by
  have hread : read ctx gap.isEmpty '}' tl = .error ⟨[], ['}'], .unmatchedBrace⟩ := by
    show readClosingBrace ctx tl = _
    rw [readClosingBrace, ho.2, if_neg (by simp), if_pos ho.1]
  rw [next, hgap]
  simp only [hread]
  exact ⟨_, rfl⟩

theorem next_around_of_ok (hb : base.Nested) (hn : ctx.Nested) {s : Step}
    (h : next ctx cs = .ok s) : next (base.around ctx) cs = .ok (s.around base) := by
  rw [next_around hb hn, h]
  · rfl
  · intro gap tl hgap ho
    obtain ⟨f, hf⟩ := next_of_isOutside hgap ho
    rw [hf] at h
    cases h

/-- What is read inside of another context is read by itself too, or it closes what is open around. -/
theorem of_next_around (hb : base.Nested) (hn : ctx.Nested) {l : Lexeme}
    (h : next (base.around ctx) cs = .ok (.lexeme l ctx' rest)) :
    (∃ ctx₁, ctx' = base.around ctx₁ ∧ next ctx cs = .ok (.lexeme l ctx₁ rest)) ∨
      (l.text.head? = some '}' ∧ ctx.IsOutside) := by
  obtain ⟨c, tl, htext, hgap, -⟩ := next_eq_ok h
  by_cases ho : c = '}' ∧ ctx.IsOutside
  · rw [htext, ho.1]
    exact .inr ⟨rfl, ho.2⟩
  · left
    rw [next_around hb hn] at h
    · cases hnext : next ctx cs with
      | error f =>
        rw [hnext] at h
        cases h
      | ok s =>
        rw [hnext] at h
        cases s <;> cases h
        exact ⟨_, rfl, rfl⟩
    · intro gap' tl' hgap' houtside
      rw [hgap'] at hgap
      cases hgap
      exact ho ⟨rfl, houtside⟩

theorem Reads.around {ls : List Lexeme} (hb : base.Nested) (hn : ctx.Nested)
    (h : Reads rest ctx ls ctx') : Reads rest (base.around ctx) ls (base.around ctx') := by
  induction h with
  | nil => exact .nil
  | cons head _ ih => exact .cons (next_around_of_ok hb hn head) (ih (nested_next head hn))

/-- Lexemes that are read inside of some context are read in the context by itself, up to one that closes
what is open around it. -/
theorem Reads.of_around {ls : List Lexeme} (hb : base.Nested) (hn : ctx.Nested)
    (h : Reads rest (base.around ctx) ls ctx') :
    (∃ ctx₁, ctx' = base.around ctx₁ ∧ Reads rest ctx ls ctx₁) ∨
      ∃ ms u bs ctx₁ ctx₂, ls = ms ++ u :: bs ∧ Reads (sources (u :: bs) ++ rest) ctx ms ctx₁ ∧
        ctx₁.IsOutside ∧ u.text.head? = some '}' ∧
        next (base.around ctx₁) (u.source ++ (sources bs ++ rest)) =
          .ok (.lexeme u ctx₂ (sources bs ++ rest)) := by
  induction ls generalizing ctx with
  | nil =>
    cases h
    exact .inl ⟨ctx, rfl, .nil⟩
  | cons l ls ih =>
    cases h with
    | @cons _ ctx₂ _ _ _ head tail =>
      rcases of_next_around hb hn head with ⟨ctx₁, rfl, hnext⟩ | ⟨hclose, ho⟩
      · rcases ih (nested_next hnext hn) tail with
          ⟨ctx', rfl, hreads⟩ | ⟨ms, u, bs, ctx', ctx₂, rfl, hreads, hu⟩
        · exact .inl ⟨ctx', rfl, .cons hnext hreads⟩
        · refine .inr ⟨l :: ms, u, bs, ctx', ctx₂, rfl, .cons ?_ hreads, hu⟩
          rwa [sources_append, List.append_assoc] at hnext
      · exact .inr ⟨[], l, ls, ctx, ctx₂, rfl, .nil, ho, hclose, head⟩

/-- A text that is read by itself is read inside of another context. -/
theorem lexemesFrom_around {x : Lexing} (hb : base.Nested) (hn : ctx.Nested)
    (h : lexemesFrom ctx cs = .ok x) :
    lexemesFrom (base.around ctx) cs = .ok { x with context := base.around x.context } := by
  fun_induction lexemesFrom ctx cs generalizing x with
  | case1 => cases h
  | case2 ctx cs gap hnext =>
    cases h
    exact lexemesFrom_of_finished (next_around_of_ok hb hn hnext)
  | case3 => cases h
  | case4 ctx cs l ctx₁ rest hnext x₁ hx ih =>
    cases h
    have hrest := ih (nested_next hnext hn) hx
    rw [lexemesFrom_of_next (next_around_of_ok hb hn hnext), hrest]

end Lexeme

end JobBundler
