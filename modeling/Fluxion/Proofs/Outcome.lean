import Mathlib

/-!
# Outcomes of steps that may refuse

A computation of several steps succeeds if and only if every step does, and a
refusal of the whole is that of one of its steps. These are the forms in which
that is used: one step after another, and one step for each entry of a list.
-/

namespace Fluxion

variable {ε α β : Type}

/-- Two steps in a row succeed if and only if the first one succeeds and the
second one succeeds with its result. -/
theorem bind_eq_ok_iff {first : Except ε α} {next : α → Except ε β} {b : β} :
    (first >>= next) = .ok b ↔ ∃ a, first = .ok a ∧ next a = .ok b := by
  cases first with
  | error e =>
      constructor
      · intro h
        cases h
      · rintro ⟨a, h, -⟩
        cases h
  | ok a =>
      constructor
      · intro h
        exact ⟨a, rfl, h⟩
      · rintro ⟨a', h, hNext⟩
        cases h
        exact hNext

/-- Two steps in a row are refused if the first one is, or if the second one
is with its result. -/
theorem bind_eq_error_iff {first : Except ε α} {next : α → Except ε β} {err : ε} :
    (first >>= next) = .error err ↔
      first = .error err ∨ ∃ a, first = .ok a ∧ next a = .error err := by
  cases first with
  | error e =>
      constructor
      · intro h
        cases h
        exact .inl rfl
      · rintro (h | ⟨a, h, -⟩)
        · cases h
          rfl
        · cases h
  | ok a =>
      constructor
      · intro h
        exact .inr ⟨a, rfl, h⟩
      · rintro (h | ⟨a', h, hNext⟩)
        · cases h
        · cases h
          exact hNext

/-- A step for each entry of a list succeeds if and only if all of them do. -/
theorem mapM_eq_ok_iff {step : α → Except ε β} {as : List α} {bs : List β} :
    as.mapM step = .ok bs ↔ List.Forall₂ (fun a b => step a = .ok b) as bs := by
  induction as generalizing bs with
  | nil =>
      rw [List.mapM_nil, List.forall₂_nil_left_iff]
      constructor
      · intro h
        cases h
        rfl
      · rintro rfl
        rfl
  | cons a as ih =>
      rw [List.mapM_cons, bind_eq_ok_iff, List.forall₂_cons_left_iff]
      constructor
      · rintro ⟨b, hb, hRest⟩
        obtain ⟨bs', hbs', hEq⟩ := bind_eq_ok_iff.1 hRest
        cases hEq
        exact ⟨b, bs', hb, ih.1 hbs', rfl⟩
      · rintro ⟨b, bs', hb, hbs', rfl⟩
        exact ⟨b, hb, bind_eq_ok_iff.2 ⟨bs', ih.2 hbs', rfl⟩⟩

/-- If each step succeeds, all of them do. -/
theorem exists_mapM_eq_ok {step : α → Except ε β} {as : List α}
    (h : ∀ a ∈ as, ∃ b, step a = .ok b) : ∃ bs, as.mapM step = .ok bs := by
  induction as with
  | nil => exact ⟨[], rfl⟩
  | cons a as ih =>
      rw [List.forall_mem_cons] at h
      obtain ⟨b, hb⟩ := h.1
      obtain ⟨bs, hbs⟩ := ih h.2
      exact ⟨b :: bs, mapM_eq_ok_iff.2 (.cons hb (mapM_eq_ok_iff.1 hbs))⟩

/-- Whatever is in the second of two related lists is related to something in
the first. -/
theorem exists_of_mem_right {R : α → β → Prop} {as : List α} {bs : List β} {b : β}
    (hRelated : List.Forall₂ R as bs) (hb : b ∈ bs) : ∃ a ∈ as, R a b := by
  induction hRelated with
  | nil => cases hb
  | @cons first _ _ _ hFirst _ ih =>
      rcases List.mem_cons.1 hb with rfl | hMem
      · exact ⟨first, List.mem_cons_self, hFirst⟩
      · obtain ⟨a, ha, hLater⟩ := ih hMem
        exact ⟨a, List.mem_cons_of_mem _ ha, hLater⟩

/-- If the steps are refused, it is for one of them. -/
theorem exists_of_mapM_eq_error {step : α → Except ε β} {as : List α} {err : ε}
    (h : as.mapM step = .error err) : ∃ a ∈ as, step a = .error err := by
  induction as with
  | nil => cases h
  | cons a as ih =>
      rw [List.mapM_cons, bind_eq_error_iff] at h
      rcases h with hFirst | ⟨b, -, hRest⟩
      · exact ⟨a, List.mem_cons_self, hFirst⟩
      · rcases bind_eq_error_iff.1 hRest with hLater | ⟨bs, -, hOk⟩
        · obtain ⟨a', hMem, hStep⟩ := ih hLater
          exact ⟨a', List.mem_cons_of_mem _ hMem, hStep⟩
        · cases hOk

/-- If checks of the entries are refused, it is for one of them. -/
theorem exists_of_forM_eq_error {check : α → Except ε Unit} {as : List α} {err : ε}
    (h : as.forM check = .error err) : ∃ a ∈ as, check a = .error err := by
  induction as with
  | nil => cases h
  | cons a as ih =>
      rcases bind_eq_error_iff.1 h with hFirst | ⟨b, -, hRest⟩
      · exact ⟨a, List.mem_cons_self, hFirst⟩
      · obtain ⟨a', hMem, hStep⟩ := ih hRest
        exact ⟨a', List.mem_cons_of_mem _ hMem, hStep⟩

end Fluxion
