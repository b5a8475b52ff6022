import Mathlib.Data.List.Forall2

/-!
# Outcomes of steps that may fail

A sequence of steps succeeds exactly if every single step does.
-/

namespace Flowchart

variable {ε δ α β : Type}

theorem bind_eq_ok_iff {first : Except ε α} {next : α → Except ε β}
    {result : β} :
    first >>= next = .ok result ↔
      ∃ value, first = .ok value ∧ next value = .ok result := by
  cases first <;> simp [bind, Except.bind]

theorem mapError_eq_ok_iff {rename : ε → δ} {outcome : Except ε α}
    {result : α} :
    outcome.mapError rename = .ok result ↔ outcome = .ok result := by
  cases outcome <;> simp [Except.mapError]

theorem map_eq_ok_iff {f : α → β} {outcome : Except ε α} {result : β} :
    outcome.map f = .ok result ↔
      ∃ value, outcome = .ok value ∧ f value = result := by
  cases outcome <;> simp [Except.map]

theorem mapM_eq_ok_iff {step : α → Except ε β} {inputs : List α}
    {results : List β} :
    inputs.mapM step = .ok results ↔
      List.Forall₂ (fun input result => step input = .ok result)
        inputs results := by
  induction inputs generalizing results with
  | nil =>
      rw [List.mapM_nil, List.forall₂_nil_left_iff]
      constructor
      · intro h
        cases h
        rfl
      · rintro rfl
        rfl
  | cons input rest ih =>
      rw [List.mapM_cons, bind_eq_ok_iff, List.forall₂_cons_left_iff]
      simp only [bind_eq_ok_iff, ih]
      constructor
      · rintro ⟨value, hvalue, values, hvalues, h⟩
        cases h
        exact ⟨value, values, hvalue, hvalues, rfl⟩
      · rintro ⟨value, values, hvalue, hvalues, rfl⟩
        exact ⟨value, hvalue, values, hvalues, rfl⟩

theorem exists_of_mem_of_mapM_eq_ok {step : α → Except ε β}
    {inputs : List α} {results : List β}
    (h : inputs.mapM step = .ok results) {result : β}
    (hresult : result ∈ results) :
    ∃ input ∈ inputs, step input = .ok result := by
  have hall := mapM_eq_ok_iff.mp h
  obtain ⟨i, hi, rfl⟩ := List.mem_iff_getElem.mp hresult
  have hlength : i < inputs.length := by
    rw [hall.length_eq]
    exact hi
  exact ⟨inputs[i], List.getElem_mem hlength, hall.get hlength hi⟩

/-- What every step keeps, a sequence of steps keeps in order. -/
theorem map_eq_of_mapM_eq_ok {γ : Type} {step : α → Except ε β}
    {inputs : List α} {results : List β} {view : α → γ} {seen : β → γ}
    (h : inputs.mapM step = .ok results)
    (hstep : ∀ input result, step input = .ok result →
      seen result = view input) :
    results.map seen = inputs.map view := by
  have hall := mapM_eq_ok_iff.mp h
  clear h
  induction hall with
  | nil => rfl
  | cons hfirst _ ih =>
      rw [List.map_cons, List.map_cons, hstep _ _ hfirst, ih]

theorem exists_mapM_eq_ok {step : α → Except ε β} {inputs : List α}
    (h : ∀ input ∈ inputs, ∃ result, step input = .ok result) :
    ∃ results, inputs.mapM step = .ok results := by
  simp only [mapM_eq_ok_iff]
  induction inputs with
  | nil => exact ⟨[], .nil⟩
  | cons input rest ih =>
      obtain ⟨result, hresult⟩ := h input List.mem_cons_self
      obtain ⟨results, hresults⟩ :=
        ih fun other hother => h other (List.mem_cons_of_mem input hother)
      exact ⟨result :: results, .cons hresult hresults⟩

end Flowchart
