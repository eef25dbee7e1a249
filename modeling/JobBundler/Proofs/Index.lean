import JobBundler.Index
import Mathlib.Data.List.Nodup
import Mathlib.Data.List.Pairwise

/-!
# What a table holds

Filled from a list that has no key twice, a table holds what the list does (`Index.mem_ofList_iff`).
Filled by keys, it holds under each key the elements with it, in the order of the list
(`Index.mem_foldl_pushBy_iff`).
-/

namespace JobBundler.Index

variable {κ : Type} [Labelled κ] {α : Type}

theorem get?_empty (k : κ) : (∅ : Index κ α).get? k = none := rfl

theorem get?_insert_self (x : Index κ α) (k : κ) (a : α) : (x.insert k a).get? k = some a := by
  rw [get?_insert, if_pos rfl]

theorem get?_insert_of_ne (x : Index κ α) {j k : κ} (h : j ≠ k) (a : α) :
    (x.insert k a).get? j = x.get? j := by
  rw [get?_insert, if_neg fun hl => h (label_injective hl)]

/-- The keys of a table are in their order, so none is there twice. -/
theorem nodup_keys (x : Index κ α) : x.keys.Nodup :=
  List.pairwise_map.2 (x.ascending.imp fun hlt heq => String.ne_of_lt hlt (congrArg label heq))

theorem mem_toList_iff {x : Index κ α} {k : κ} {a : α} : (k, a) ∈ x.toList ↔ x.get? k = some a := by
  have hnodup := x.nodup_keys
  rw [get?, find?, Option.map_eq_some_iff]
  constructor
  · intro h
    obtain ⟨e, he⟩ : ∃ e, x.toList.find? (label ·.1 == label k) = some e :=
      Option.isSome_iff_exists.1 (List.find?_isSome.2 ⟨_, h, by simp⟩)
    have hkey : e.1 = k := label_injective (by simpa using List.find?_some he)
    have : e = (k, a) := List.inj_on_of_nodup_map hnodup (List.mem_of_find?_eq_some he) h hkey
    exact ⟨e, he, this ▸ rfl⟩
  · rintro ⟨⟨j, b⟩, he, rfl⟩
    have hkey : j = k := label_injective (by simpa using List.find?_some he)
    exact hkey ▸ List.mem_of_find?_eq_some he

/-! ## Tables filled from lists -/

theorem mem_of_mem_toList_ofList {es : List (κ × α)} {e : κ × α} (h : e ∈ (ofList es).toList) :
    e ∈ es := by
  have hf : ∀ (es : List (κ × α)) (x : Index κ α),
      e ∈ (es.foldl (fun x e => x.insert e.1 e.2) x).toList → e ∈ x.toList ∨ e ∈ es := by
    intro es
    induction es with
    | nil => exact fun _ h => .inl h
    | cons f es ih =>
      intro x h
      rcases ih _ h with h | h
      · rcases mem_of_mem_insertEntry h with rfl | h
        · exact .inr List.mem_cons_self
        · exact .inl h
      · exact .inr (List.mem_cons_of_mem _ h)
  exact (hf es ∅ h).resolve_left (fun h => nomatch h)

theorem get?_foldl_insert_iff {es : List (κ × α)} (h : (es.map (·.1)).Nodup) (x : Index κ α) {k : κ}
    {a : α} : (es.foldl (fun x e => x.insert e.1 e.2) x).get? k = some a ↔
      (k, a) ∈ es ∨ k ∉ es.map (·.1) ∧ x.get? k = some a := by
  induction es generalizing x with
  | nil => simp
  | cons e es ih =>
    obtain ⟨j, b⟩ := e
    rw [List.map_cons, List.nodup_cons] at h
    rw [List.foldl_cons, ih h.2]
    by_cases hk : k = j
    · subst hk
      have hnot : (k, a) ∉ es := fun hmem => h.1 (List.mem_map.2 ⟨_, hmem, rfl⟩)
      rw [get?_insert_self]
      simp [hnot, h.1, eq_comm]
    · rw [get?_insert_of_ne x hk]
      simp [hk]

/-- A table filled from a list that has no key twice holds what the list does. -/
theorem mem_ofList_iff {es : List (κ × α)} (h : (es.map (·.1)).Nodup) {e : κ × α} :
    e ∈ (ofList es).toList ↔ e ∈ es := by
  rw [mem_toList_iff, ofList, get?_foldl_insert_iff h, get?_empty]
  simp

theorem insertEntry_of_lt {k : κ} {a : α} {es : List (κ × α)} (h : ∀ e ∈ es, label e.1 < label k) :
    insertEntry k a es = es ++ [(k, a)] := by
  induction es with
  | nil => rfl
  | cons e es ih =>
    have he : label e.1 < label k := h e List.mem_cons_self
    rw [insertEntry, if_neg (String.lt_asymm he), if_pos he, ih fun f hf => h f (List.mem_cons_of_mem e hf)]
    rfl

/-- A table filled from its own list is the same. -/
theorem ofList_toList (x : Index κ α) : ofList x.toList = x := by
  have hf (es : List (κ × α)) (y : Index κ α)
      (h : (y.toList ++ es).Pairwise fun a b => label a.1 < label b.1) :
      (es.foldl (fun x e => x.insert e.1 e.2) y).toList = y.toList ++ es := by
    induction es generalizing y with
    | nil => exact (List.append_nil _).symm
    | cons e es ih =>
      have hinsert : (y.insert e.1 e.2).toList = y.toList ++ [e] :=
        insertEntry_of_lt fun f hf => (List.pairwise_append.1 h).2.2 f hf e List.mem_cons_self
      rw [List.foldl_cons, ih, hinsert, List.append_assoc]
      · rfl
      · rw [hinsert, List.append_assoc]
        exact h
  exact ext (hf x.toList ∅ x.ascending)

theorem insert_ne_nil (x : Index κ α) (k : κ) (a : α) : (x.insert k a).toList ≠ [] := by
  intro h
  have hk := get?_insert x k a k
  rw [if_pos rfl, get?, find?, h] at hk
  cases hk

theorem ofList_ne_nil {es : List (κ × α)} (h : es ≠ []) : (ofList es).toList ≠ [] := by
  rw [ofList, ← List.dropLast_append_getLast h, List.foldl_concat]
  exact insert_ne_nil _ _ _

/-! ## Keys -/

theorem contains_insert (x : Index κ α) (k : κ) (a : α) {j : κ} (h : label j = label k ∨ x.contains j) :
    (x.insert k a).contains j := by
  rw [contains, get?_insert]
  split
  · rfl
  · rename_i hne
    exact h.resolve_left hne

theorem contains_iff_mem_keys {x : Index κ α} {k : κ} : x.contains k ↔ k ∈ x.keys := by
  rw [contains, get?, find?, Option.isSome_map, List.find?_isSome, keys, List.mem_map]
  constructor
  · rintro ⟨e, he, hk⟩
    exact ⟨e, he, label_injective (by simpa using hk)⟩
  · rintro ⟨e, he, rfl⟩
    exact ⟨e, he, by simp⟩

theorem mem_keys_ofList {es : List (κ × α)} {e : κ × α} (h : e ∈ es) : e.1 ∈ (ofList es).keys := by
  have hf (es : List (κ × α)) (x : Index κ α) (h : e ∈ es ∨ x.contains e.1) :
      (es.foldl (fun x e => x.insert e.1 e.2) x).contains e.1 := by
    induction es generalizing x with
    | nil => exact h.resolve_left (fun h => nomatch h)
    | cons f es ih =>
      refine ih _ ?_
      rcases h with h | h
      · rcases List.mem_cons.1 h with rfl | h
        · exact .inr (contains_insert x _ _ (.inl rfl))
        · exact .inl h
      · exact .inr (contains_insert x _ _ (.inr h))
  exact contains_iff_mem_keys.1 (hf es ∅ (.inl h))

theorem mem_keys_ofNames {names : List String} {name : String} :
    name ∈ (NameSet.ofList names).keys ↔ name ∈ names := by
  constructor
  · intro h
    obtain ⟨e, he, rfl⟩ := List.mem_map.1 h
    obtain ⟨n, hn, rfl⟩ := List.mem_map.1 (mem_of_mem_toList_ofList he)
    exact hn
  · intro h
    exact mem_keys_ofList (e := (name, ())) (List.mem_map.2 ⟨name, h, rfl⟩)

/-! ## Tables filled by keys -/

/-- Adds an element under its key, if it has one. -/
def pushBy (key : α → Option κ) (x : Index κ (List α)) (a : α) : Index κ (List α) :=
  match key a with
  | some k => x.push k a
  | none => x

variable [DecidableEq κ]

/-- What is under a key are the elements with it after those that were there before, if any. -/
theorem get?_foldl_pushBy (key : α → Option κ) (as : List α) (x : Index κ (List α)) (k : κ) :
    (as.foldl (pushBy key) x).get? k =
      if as.filter (key · == some k) = [] then x.get? k
      else some ((x.get? k).getD [] ++ as.filter (key · == some k)) := by
  induction as generalizing x with
  | nil => rfl
  | cons a as ih =>
    rw [List.foldl_cons, ih]
    by_cases hk : key a = some k
    · have hpush : (pushBy key x a).get? k = some ((x.get? k).getD [] ++ [a]) := by
        rw [pushBy, hk]
        exact get?_insert_self x k _
      rw [List.filter_cons_of_pos (by simp [hk]), hpush, if_neg (List.cons_ne_nil _ _)]
      split
      · rename_i h
        rw [h]
      · simp
    · have hpush : (pushBy key x a).get? k = x.get? k := by
        unfold pushBy
        split
        · rename_i j hj
          refine get?_insert_of_ne x ?_ _
          rintro rfl
          exact hk hj
        · rfl
      rw [List.filter_cons_of_neg (by simp [hk]), hpush]

/-- Under each key are the elements with it, in order. -/
theorem mem_foldl_pushBy_iff {key : α → Option κ} {as bs : List α} {k : κ} :
    (k, bs) ∈ (as.foldl (pushBy key) ∅).toList ↔
      bs = as.filter (key · == some k) ∧ ∃ a ∈ as, key a = some k := by
  rw [mem_toList_iff, get?_foldl_pushBy, get?_empty, Option.getD_none, List.nil_append]
  split
  · rename_i hnil
    have hnone : ¬∃ a ∈ as, key a = some k := by
      simpa [List.filter_eq_nil_iff] using hnil
    simp [hnone]
  · rename_i hne
    obtain ⟨a, ha⟩ := List.exists_mem_of_ne_nil _ hne
    rw [List.mem_filter, beq_iff_eq] at ha
    rw [Option.some.injEq]
    exact ⟨fun h => ⟨h.symm, a, ha⟩, fun h => h.1.symm⟩

theorem mem_groupBy_iff {key : α → κ} {as bs : List α} {k : κ} :
    (k, bs) ∈ (groupBy key as).toList ↔ bs = as.filter (key · == k) ∧ ∃ a ∈ as, key a = k := by
  have hgroup : groupBy key as = as.foldl (pushBy (some ∘ key)) ∅ := rfl
  rw [hgroup, mem_foldl_pushBy_iff]
  simp

/-- No two elements have the same key when there is no group of several. -/
theorem nodup_map_of_groupBy {key : α → κ} {as : List α}
    (h : ∀ e ∈ (groupBy key as).toList, e.2.length ≤ 1) : (as.map key).Nodup := by
  rw [List.nodup_iff_count_le_one]
  intro k
  by_cases hk : k ∈ as.map key
  · obtain ⟨a, ha, rfl⟩ := List.mem_map.1 hk
    have hgroup := h _ (mem_groupBy_iff.2 ⟨rfl, a, ha, rfl⟩)
    rw [List.count_eq_countP, List.countP_map, List.countP_eq_length_filter]
    exact hgroup
  · rw [List.count_eq_zero_of_not_mem hk]
    exact Nat.zero_le 1

end JobBundler.Index
