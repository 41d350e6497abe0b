import Mathlib.Data.List.Forall2

/-!
Checks one after another, the first fault ending them.

* `Except.bind_eq_ok`, `Except.bind_eq_error`: a check and what follows it.
* `FirstFails`: the first of some checks that fails; `FirstFails.unique`: there is one at most.
* `Obeys`: a computation that fails with the first check that fails, and succeeds if none does.
  `Obeys.bind` is how such computations are put together.
-/

namespace Linkage

variable {ε α β : Type}

theorem Except.bind_eq_ok {x : Except ε α} {f : α → Except ε β} {b : β} :
    (x >>= f) = .ok b ↔ ∃ a, x = .ok a ∧ f a = .ok b := by
  cases x with
  | error e => exact ⟨nofun, nofun⟩
  | ok a => exact ⟨fun h => ⟨a, rfl, h⟩, by rintro ⟨_, ⟨⟩, h⟩; exact h⟩

theorem Except.bind_eq_error {x : Except ε α} {f : α → Except ε β} {e : ε} :
    (x >>= f) = .error e ↔ x = .error e ∨ ∃ a, x = .ok a ∧ f a = .error e := by
  cases x with
  | error e' =>
    constructor
    · intro h
      cases h
      exact .inl rfl
    · rintro (h | ⟨a, h, _⟩) <;> cases h
      rfl
  | ok a =>
    constructor
    · exact fun h => .inr ⟨a, rfl, h⟩
    · rintro (h | ⟨a', h, hf⟩) <;> cases h
      exact hf

/-- The same check on all items of a list. -/
theorem mapM_eq_ok {f : α → Except ε β} {xs : List α} {ys : List β} :
    xs.mapM f = .ok ys ↔ List.Forall₂ (fun x y => f x = .ok y) xs ys := by
  induction xs generalizing ys with
  | nil =>
    rw [List.mapM_nil, List.forall₂_nil_left_iff]
    exact ⟨fun h => (Except.ok.inj h).symm, fun h => congrArg _ h.symm⟩
  | cons x rest ih =>
    rw [List.mapM_cons, List.forall₂_cons_left_iff]
    constructor
    · intro h
      obtain ⟨y, hy, h⟩ := Except.bind_eq_ok.mp h
      obtain ⟨ys', hrest, h⟩ := Except.bind_eq_ok.mp h
      exact ⟨y, ys', hy, ih.mp hrest, (Except.ok.inj h).symm⟩
    · rintro ⟨y, ys', hy, hrest, rfl⟩
      exact Except.bind_eq_ok.mpr ⟨y, hy, Except.bind_eq_ok.mpr ⟨ys', ih.mpr hrest, rfl⟩⟩

theorem mem_of_mapM {f : α → Except ε β} {xs : List α} {ys : List β} {x : α}
    (h : xs.mapM f = .ok ys) (hx : x ∈ xs) : ∃ y ∈ ys, f x = .ok y := by
  have hall := mapM_eq_ok.mp h
  clear h
  induction hall with
  | nil => cases hx
  | @cons first y rest ys hfirst _ ih =>
    rcases List.mem_cons.mp hx with rfl | hx
    · exact ⟨y, List.mem_cons_self, hfirst⟩
    · obtain ⟨y', hy', hf⟩ := ih hx
      exact ⟨y', List.mem_cons_of_mem y hy', hf⟩

/-! ## The first check that fails -/

section Obeys

variable {γ : Type} {passes : γ → Prop} {fault : γ → ε}

/-- A check that fails, while all those before it pass. -/
def FirstFails (passes : γ → Prop) (checks : List γ) (check : γ) : Prop :=
  ∃ before rest, checks = before ++ check :: rest ∧ (∀ b ∈ before, passes b) ∧ ¬ passes check

/-- There is one first failure at most. -/
theorem FirstFails.unique {checks : List γ} {check other : γ}
    (h : FirstFails passes checks check) (h' : FirstFails passes checks other) :
    check = other := by
  obtain ⟨before, rest, rfl, hbefore, hfail⟩ := h
  obtain ⟨before', rest', heq, hbefore', hfail'⟩ := h'
  rcases List.append_eq_append_iff.mp heq with ⟨middle, rfl, hrest⟩ | ⟨middle, rfl, hrest⟩
  · cases middle with
    | nil => exact (List.cons.inj hrest).1
    | cons m middle =>
      -- the first check would be among those that pass
      have hm : m = check := (List.cons.inj hrest).1.symm
      exact absurd (hbefore' check (by simp [hm])) hfail
  · cases middle with
    | nil => exact (List.cons.inj hrest).1.symm
    | cons m middle =>
      have hm : m = other := (List.cons.inj hrest).1.symm
      exact absurd (hbefore other (by simp [hm])) hfail'

/-- A computation succeeds if all checks pass, and otherwise fails with the first that does not. -/
def Obeys (passes : γ → Prop) (fault : γ → ε) (checks : List γ) (x : Except ε α) : Prop :=
  (∃ a, x = .ok a ∧ ∀ check ∈ checks, passes check) ∨
    ∃ before check rest, checks = before ++ check :: rest ∧ (∀ b ∈ before, passes b) ∧
      ¬ passes check ∧ x = .error (fault check)

namespace Obeys

variable {checks later : List γ} {x : Except ε α} {f : α → Except ε β}

theorem ok (a : α) : Obeys passes fault [] (.ok a) := .inl ⟨a, rfl, nofun⟩

theorem pass {check : γ} (h : passes check) (a : α) : Obeys passes fault [check] (.ok a) :=
  .inl ⟨a, rfl, List.forall_mem_singleton.mpr h⟩

/-- The checks after one that fails are not made. -/
theorem fail {check : γ} (h : ¬ passes check) :
    Obeys passes fault (check :: later) (.error (fault check) : Except ε α) :=
  .inr ⟨[], check, later, rfl, nofun, h, rfl⟩

theorem next {check : γ} (h : passes check) (hx : Obeys passes fault later x) :
    Obeys passes fault (check :: later) x := by
  rcases hx with ⟨a, rfl, hpassed⟩ | ⟨before, other, rest, rfl, hpassed, hfail, rfl⟩
  · exact .inl ⟨a, rfl, List.forall_mem_cons.mpr ⟨h, hpassed⟩⟩
  · exact .inr ⟨check :: before, other, rest, rfl, List.forall_mem_cons.mpr ⟨h, hpassed⟩, hfail,
      rfl⟩

/-- A computation with one check, that something is found. -/
theorem found {δ : Type} {check : γ} {found? : Option δ}
    (hpasses : found?.isSome ↔ passes check) (hsome : ∀ d, found? = some d → ∃ a, x = .ok a)
    (hnone : found? = none → x = .error (fault check)) : Obeys passes fault [check] x := by
  cases hfound : found? with
  | some d =>
    obtain ⟨a, rfl⟩ := hsome d hfound
    exact pass (hpasses.mp (by rw [hfound]; rfl)) a
  | none =>
    have hfail : ¬ passes check := by
      rw [← hpasses, hfound]
      exact Bool.false_ne_true
    rw [hnone hfound]
    exact fail hfail

/-- The checks of a second computation come after those of the first. -/
theorem bind (hx : Obeys passes fault checks x)
    (hf : ∀ a, x = .ok a → Obeys passes fault later (f a)) :
    Obeys passes fault (checks ++ later) (x >>= f) := by
  rcases hx with ⟨a, rfl, hpassed⟩ | ⟨before, check, rest, rfl, hpassed, hfail, rfl⟩
  · rcases hf a rfl with ⟨b, hb, hlater⟩ | ⟨before, check, rest, rfl, hlater, hfail, hb⟩
    · exact .inl ⟨b, hb, List.forall_mem_append.mpr ⟨hpassed, hlater⟩⟩
    · refine .inr ⟨checks ++ before, check, rest, ?_, ?_, hfail, hb⟩
      · rw [List.append_assoc]
      · exact List.forall_mem_append.mpr ⟨hpassed, hlater⟩
  · refine .inr ⟨before, check, rest ++ later, ?_, hpassed, hfail, rfl⟩
    rw [List.append_assoc, List.cons_append]

/-- What is done with the result of a computation checks nothing more. -/
theorem andThen (hx : Obeys passes fault checks x) (h : α → β) :
    Obeys passes fault checks (x >>= fun a => .ok (h a)) := by
  have hdone (a : α) : Obeys passes fault [] (.ok (h a) : Except ε β) := ok (h a)
  have hbind := hx.bind fun a _ => hdone a
  rwa [List.append_nil] at hbind

theorem mapM {δ : Type} {check : δ → γ} {f : δ → Except ε α}
    (h : ∀ d, Obeys passes fault [check d] (f d)) (list : List δ) :
    Obeys passes fault (list.map check) (list.mapM f) := by
  induction list with
  | nil => exact ok []
  | cons d rest ih =>
    rw [List.mapM_cons]
    exact (h d).bind fun a _ => ih.andThen (a :: ·)

/-- A computation succeeds exactly when all of its checks pass. -/
theorem ok_iff (hx : Obeys passes fault checks x) :
    (∃ a, x = .ok a) ↔ ∀ check ∈ checks, passes check := by
  rcases hx with ⟨a, rfl, hpassed⟩ | ⟨before, check, rest, rfl, _, hfail, rfl⟩
  · exact iff_of_true ⟨a, rfl⟩ hpassed
  · apply iff_of_false
    · exact fun ⟨a, ha⟩ => nomatch ha
    · exact fun hpassed => hfail (hpassed check (by simp))

/-- It fails with the fault of the first check that fails, and with no other. -/
theorem error_iff (hx : Obeys passes fault checks x) (e : ε) :
    x = .error e ↔ ∃ check, FirstFails passes checks check ∧ e = fault check := by
  rcases hx with ⟨a, rfl, hpassed⟩ | ⟨before, check, rest, hchecks, hpassed, hfail, rfl⟩
  · apply iff_of_false nofun
    rintro ⟨check, ⟨before, rest, rfl, _, hfail⟩, _⟩
    exact hfail (hpassed check (by simp))
  · have hfirst : FirstFails passes checks check := ⟨before, rest, hchecks, hpassed, hfail⟩
    constructor
    · intro h
      cases h
      exact ⟨check, hfirst, rfl⟩
    · rintro ⟨other, hother, rfl⟩
      rw [hfirst.unique hother]

end Obeys

end Obeys

end Linkage
