import JobBundler.Disk.Change
import Mathlib.Tactic.Common

/-!
# Runs of actions

A run of an action takes a state to a result and a state, also when it fails. What holds between the
states before and after each part of a run holds for the whole run (`Keeps`), if it is a frame.
-/

namespace JobBundler

theorem mapError_eq_ok_iff {ε ε' α : Type} {x : Except ε α} {f : ε → ε'} {a : α} :
    x.mapError f = .ok a ↔ x = .ok a := by
  cases x <;> simp [Except.mapError]

section
variable {σ ε α β : Type}

theorem run_bind (x : ExceptT ε (StateM σ) α) (f : α → ExceptT ε (StateM σ) β) (s : σ) :
    (x >>= f).run s =
      match x.run s with
      | (.ok a, s') => (f a).run s'
      | (.error e, s') => (.error e, s') := by
  show (ExceptT.bindCont f (x.run s).1) (x.run s).2 = _
  rcases x.run s with ⟨_ | _, s'⟩ <;> rfl

theorem run_bind_eq_ok_iff {x : ExceptT ε (StateM σ) α} {f : α → ExceptT ε (StateM σ) β}
    {s s'' : σ} {b : β} :
    (x >>= f).run s = (.ok b, s'') ↔
      ∃ a s', x.run s = (.ok a, s') ∧ (f a).run s' = (.ok b, s'') := by
  rw [run_bind]
  rcases x.run s with ⟨e | a, s'⟩
  · constructor
    · rintro ⟨⟩
    · rintro ⟨_, _, ⟨⟩, _⟩
  · refine ⟨fun h => ⟨a, s', rfl, h⟩, fun ⟨_, _, h, h'⟩ => ?_⟩
    cases h
    exact h'

/-- A run of two parts fails in the first one, or in the second one. -/
theorem run_bind_eq_error_iff {x : ExceptT ε (StateM σ) α} {f : α → ExceptT ε (StateM σ) β}
    {s s'' : σ} {e : ε} :
    (x >>= f).run s = (.error e, s'') ↔
      x.run s = (.error e, s'') ∨ ∃ a s', x.run s = (.ok a, s') ∧ (f a).run s' = (.error e, s'') := by
  rw [run_bind]
  rcases x.run s with ⟨e' | a, s'⟩
  · constructor
    · rintro ⟨⟩
      exact .inl rfl
    · rintro (⟨⟨⟩⟩ | ⟨_, _, ⟨⟩, _⟩)
      rfl
  · constructor
    · intro h
      exact .inr ⟨a, s', rfl, h⟩
    · rintro (⟨⟨⟩⟩ | ⟨_, _, h, h'⟩)
      cases h
      exact h'

/-- A relation between the states before and after a part of a run that holds of the whole run when
it holds of its parts. -/
structure IsFrame (R : σ → σ → Prop) : Prop where
  refl (s : σ) : R s s
  trans {s t u : σ} : R s t → R t u → R s u

/-- However a run of the action ends, `R` relates the states before and after it. -/
def Keeps (R : σ → σ → Prop) (x : ExceptT ε (StateM σ) α) : Prop :=
  ∀ s, R s (x.run s).2

variable {R : σ → σ → Prop}

theorem Keeps.pure (hR : IsFrame R) (a : α) : Keeps R (Pure.pure a : ExceptT ε (StateM σ) α) :=
  hR.refl

theorem Keeps.throw (hR : IsFrame R) (e : ε) :
    Keeps R (MonadExcept.throw e : ExceptT ε (StateM σ) α) :=
  hR.refl

/-- A frame of both parts of a run, where that of the second part may use how the first one ended. -/
theorem Keeps.bind_of_ok {x : ExceptT ε (StateM σ) α} {f : α → ExceptT ε (StateM σ) β}
    (hx : Keeps R x)
    (hf : ∀ s a s', x.run s = (.ok a, s') → R s s' → R s ((f a).run s').2) :
    Keeps R (x >>= f) := by
  intro s
  have h := hx s
  have h' := hf s
  rw [run_bind]
  revert h h'
  rcases x.run s with ⟨e | a, s'⟩
  · exact fun h _ => h
  · exact fun h h' => h' a s' rfl h

theorem Keeps.bind (hR : IsFrame R) {x : ExceptT ε (StateM σ) α}
    {f : α → ExceptT ε (StateM σ) β} (hx : Keeps R x) (hf : ∀ a, Keeps R (f a)) :
    Keeps R (x >>= f) :=
  .bind_of_ok hx fun _ a s' _ h => hR.trans h (hf a s')

theorem Keeps.get (hR : IsFrame R) : Keeps R (MonadState.get : ExceptT ε (StateM σ) σ) :=
  hR.refl

theorem Keeps.mapM (hR : IsFrame R) {f : α → ExceptT ε (StateM σ) β} {as : List α}
    (h : ∀ a ∈ as, Keeps R (f a)) : Keeps R (as.mapM f) := by
  induction as with
  | nil => rw [List.mapM_nil]; exact .pure hR _
  | cons a as ih =>
    rw [List.mapM_cons]
    refine .bind hR (h a List.mem_cons_self) fun b => ?_
    exact .bind hR (ih fun a ha => h a (List.mem_cons_of_mem _ ha)) fun bs => .pure hR _

theorem Keeps.forM (hR : IsFrame R) {f : α → ExceptT ε (StateM σ) PUnit} {as : List α}
    (h : ∀ a ∈ as, Keeps R (f a)) : Keeps R (as.forM f) := by
  induction as with
  | nil => exact .pure hR _
  | cons a as ih =>
    exact .bind hR (h a List.mem_cons_self) fun _ => ih fun a ha => h a (List.mem_cons_of_mem _ ha)

/-- Each part of a run that succeeds has succeeded, with a frame before and after it. -/
theorem exists_run_of_mem (hR : IsFrame R) {f : α → ExceptT ε (StateM σ) PUnit} {as : List α}
    (h : ∀ a ∈ as, Keeps R (f a)) {s s' : σ} (hrun : (as.forM f).run s = (.ok (), s')) {a : α}
    (ha : a ∈ as) : ∃ s₁ s₂, R s s₁ ∧ (f a).run s₁ = (.ok (), s₂) ∧ R s₂ s' := by
  induction as generalizing s with
  | nil => cases ha
  | cons b as ih =>
    obtain ⟨_, s₁, hb, hrest⟩ := run_bind_eq_ok_iff.1 hrun
    have htail : ∀ a ∈ as, Keeps R (f a) := fun a ha => h a (List.mem_cons_of_mem b ha)
    rcases List.mem_cons.1 ha with rfl | ha
    · have hafter := Keeps.forM hR htail s₁
      rw [hrest] at hafter
      exact ⟨s, s₁, hR.refl s, hb, hafter⟩
    · obtain ⟨s₂, s₃, hbefore, hrun, hafter⟩ := ih htail hrest ha
      have hhead := h b List.mem_cons_self s
      rw [hb] at hhead
      exact ⟨s₂, s₃, hR.trans hhead hbefore, hrun, hafter⟩

end

/-! ## Actions on disks -/

namespace Disk.Action

variable {ε ε' α : Type} {R : Disk → Disk → Prop}

theorem run_get_bind (f : Disk → Action ε α) (d : Disk) :
    (get >>= f : Action ε α).run d = (f d).run d :=
  rfl

theorem run_view (f : Disk → Except ε α) (d : Disk) : (view f).run d = (f d, d) := by
  unfold view
  rw [run_get_bind]
  rcases f d with _ | _ <;> rfl

theorem run_attempt (x : Action ε α) (d : Disk) :
    (attempt x : Action ε' _).run d = (.ok (x.run d).1, (x.run d).2) :=
  rfl

theorem run_orFail (x : Action ε α) (f : ε → ε') (d : Disk) :
    (orFail x f).run d = ((x.run d).1.mapError f, (x.run d).2) :=
  rfl

theorem run_orFail_eq_ok_iff {x : Action ε α} {f : ε → ε'} {d d' : Disk} {a : α} :
    (orFail x f).run d = (.ok a, d') ↔ x.run d = (.ok a, d') := by
  rw [run_orFail, Prod.mk.injEq, mapError_eq_ok_iff, Prod.ext_iff]

theorem run_change (f : Disk → Except ε Disk) (d : Disk) :
    (change f).run d =
      match f d with
      | .ok d' => (.ok (), d')
      | .error e => (.error e, d) := by
  unfold change
  rw [run_get_bind]
  rcases f d with _ | _ <;> rfl

theorem run_change_eq_ok_iff {f : Disk → Except ε Disk} {d d' : Disk} :
    (change f).run d = (.ok (), d') ↔ f d = .ok d' := by
  rw [run_change]
  cases f d with
  | error e => constructor <;> rintro ⟨⟩
  | ok d₁ => constructor <;> (rintro ⟨⟩; rfl)

theorem keeps_attempt {x : Action ε α} (h : Keeps R x) : Keeps R (attempt x : Action ε' _) :=
  h

theorem keeps_orFail {x : Action ε α} (h : Keeps R x) (f : ε → ε') : Keeps R (orFail x f) :=
  h

theorem keeps_change (hR : IsFrame R) {f : Disk → Except ε Disk}
    (h : ∀ d d', f d = .ok d' → R d d') : Keeps R (change f) := by
  intro d
  rw [run_change]
  cases hf : f d with
  | error e => exact hR.refl d
  | ok d' => exact h d d' hf

end Disk.Action

end JobBundler
