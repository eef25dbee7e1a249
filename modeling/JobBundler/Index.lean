/-! # Sorted tables

An index holds one value for each of some keys, and lists them in the order of the keys' labels.
The order of two texts is that of their characters' code points. The order is part of the type, so
an index has one form whatever the order of the insertions, and `get?_insert` says what an insertion
changes. -/

namespace JobBundler

/-- Values that are told apart and ordered by a text. -/
class Labelled (κ : Type) where
  label : κ → String
  label_injective : ∀ {a b : κ}, label a = label b → a = b

export Labelled (label label_injective)

instance : Labelled String where
  label := id
  label_injective := id

structure Index (κ : Type) [Labelled κ] (α : Type) where
  /-- The keys with their values. -/
  toList : List (κ × α)
  ascending : toList.Pairwise fun a b => label a.1 < label b.1

namespace Index

variable {κ : Type} [Labelled κ] {α β : Type}

theorem ext {x y : Index κ α} (h : x.toList = y.toList) : x = y := by
  cases x
  cases y
  cases h
  rfl

instance [DecidableEq κ] [DecidableEq α] : DecidableEq (Index κ α) := fun x y =>
  decidable_of_iff (x.toList = y.toList) ⟨ext, congrArg _⟩

def empty : Index κ α :=
  ⟨[], .nil⟩

instance : EmptyCollection (Index κ α) :=
  ⟨empty⟩

def size (x : Index κ α) : Nat :=
  x.toList.length

def isEmpty (x : Index κ α) : Bool :=
  x.toList.isEmpty

def keys (x : Index κ α) : List κ :=
  x.toList.map (·.1)

def values (x : Index κ α) : List α :=
  x.toList.map (·.2)

/-- The value at the key with this label. -/
def find? (x : Index κ α) (text : String) : Option α :=
  (x.toList.find? (label ·.1 == text)).map (·.2)

/-- The value at a key. -/
def get? (x : Index κ α) (k : κ) : Option α :=
  x.find? (label k)

def contains (x : Index κ α) (k : κ) : Bool :=
  (x.get? k).isSome

/-- The entries with the value at `k` set to `a`. -/
def insertEntry (k : κ) (a : α) : List (κ × α) → List (κ × α)
  | [] => [(k, a)]
  | e :: es =>
    if label k < label e.1 then (k, a) :: e :: es
    else if label e.1 < label k then e :: insertEntry k a es
    else (k, a) :: es

theorem mem_of_mem_insertEntry {k : κ} {a : α} {es : List (κ × α)} {e : κ × α}
    (h : e ∈ insertEntry k a es) : e = (k, a) ∨ e ∈ es := by
  fun_induction insertEntry k a es with
  | case1 => simpa using h
  | case2 => simpa using h
  | case3 f es _ _ ih =>
    rcases List.mem_cons.1 h with rfl | h
    · exact .inr (List.mem_cons_self ..)
    · exact (ih h).imp_right (List.mem_cons_of_mem f)
  | case4 f es _ _ => exact (List.mem_cons.1 h).imp_right (List.mem_cons_of_mem f)

theorem insertEntry_ascending (k : κ) (a : α) {es : List (κ × α)}
    (h : es.Pairwise fun a b => label a.1 < label b.1) :
    (insertEntry k a es).Pairwise fun a b => label a.1 < label b.1 := by
  fun_induction insertEntry k a es with
  | case1 => exact List.pairwise_singleton _ _
  | case2 e es hlt =>
    refine List.pairwise_cons.2 ⟨fun f hf => ?_, h⟩
    rcases List.mem_cons.1 hf with rfl | hf
    · exact hlt
    · exact String.lt_trans hlt ((List.pairwise_cons.1 h).1 f hf)
  | case3 e es _ hlt ih =>
    refine List.pairwise_cons.2 ⟨fun f hf => ?_, ih (List.pairwise_cons.1 h).2⟩
    rcases mem_of_mem_insertEntry hf with rfl | hf
    · exact hlt
    · exact (List.pairwise_cons.1 h).1 f hf
  | case4 e es hk he =>
    have heq : label k = label e.1 :=
      String.le_antisymm (String.not_lt.1 he) (String.not_lt.1 hk)
    refine List.pairwise_cons.2 ⟨fun f hf => ?_, (List.pairwise_cons.1 h).2⟩
    exact heq ▸ (List.pairwise_cons.1 h).1 f hf

/-- The index with the value at `k` set to `a`. -/
def insert (x : Index κ α) (k : κ) (a : α) : Index κ α :=
  ⟨insertEntry k a x.toList, insertEntry_ascending k a x.ascending⟩

/-- The index of the pairs; the last value of a key counts. -/
def ofList (es : List (κ × α)) : Index κ α :=
  es.foldl (fun x e => x.insert e.1 e.2) ∅

/-- The index with `a` added at the end of the list at `k`. -/
def push (x : Index κ (List α)) (k : κ) (a : α) : Index κ (List α) :=
  x.insert k ((x.get? k).getD [] ++ [a])

/-- The elements by their keys, those of one key in the order of the list. -/
def groupBy (key : α → κ) (as : List α) : Index κ (List α) :=
  as.foldl (fun x a => x.push (key a) a) ∅

theorem find?_cons (e : κ × α) (es : List (κ × α)) (text : String) :
    ((e :: es).find? (label ·.1 == text)).map (·.2) =
      if text = label e.1 then some e.2 else (es.find? (label ·.1 == text)).map (·.2) := by
  by_cases h : text = label e.1
  · simp [h]
  · simp [beq_eq_false_iff_ne.2 (Ne.symm h), h]

theorem find?_insertEntry (k : κ) (a : α) (es : List (κ × α)) (text : String) :
    ((insertEntry k a es).find? (label ·.1 == text)).map (·.2) =
      if text = label k then some a else (es.find? (label ·.1 == text)).map (·.2) := by
  fun_induction insertEntry k a es with
  | case1 => exact find?_cons ..
  | case2 e es hlt => exact find?_cons ..
  | case3 e es _ hlt ih =>
    rw [find?_cons, find?_cons, ih]
    by_cases hk : text = label k
    · have : text ≠ label e.1 := fun he => String.lt_irrefl _ (hk ▸ he ▸ hlt)
      rw [if_neg this, if_pos hk, if_pos hk]
    · rw [if_neg hk, if_neg hk]
  | case4 e es hk he =>
    have heq : label k = label e.1 :=
      String.le_antisymm (String.not_lt.1 he) (String.not_lt.1 hk)
    rw [find?_cons, find?_cons, heq]
    by_cases ht : text = label e.1
    · rw [if_pos ht, if_pos ht]
    · rw [if_neg ht, if_neg ht, if_neg ht]

theorem find?_insert (x : Index κ α) (k : κ) (a : α) (text : String) :
    (x.insert k a).find? text = if text = label k then some a else x.find? text :=
  find?_insertEntry k a x.toList text

theorem get?_insert (x : Index κ α) (k : κ) (a : α) (j : κ) :
    (x.insert k a).get? j = if label j = label k then some a else x.get? j :=
  find?_insert x k a (label j)

end Index

/-- A set of names, listed in their order. -/
abbrev NameSet := Index String Unit

def NameSet.ofList (names : List String) : NameSet :=
  Index.ofList (names.map fun name => (name, ()))

end JobBundler
