import Mathlib.Data.List.Forall2

/-!
Steps that may fail, taken one after the other.
-/

namespace LedgerWire

variable {ε α β : Type}

@[simp] theorem ok_bind (value : α) (next : α → Except ε β) :
    (Except.ok value >>= next) = next value := rfl

@[simp] theorem error_bind (fault : ε) (next : α → Except ε β) :
    (Except.error fault >>= next) = .error fault := rfl

@[simp] theorem ok_map (value : α) (change : α → β) :
    (Except.ok value : Except ε α).map change = .ok (change value) := rfl

@[simp] theorem error_map (fault : ε) (change : α → β) :
    (Except.error fault : Except ε α).map change = .error fault := rfl

theorem bind_eq_ok {first : Except ε α} {next : α → Except ε β} {result : β} :
    (first >>= next) = .ok result ↔ ∃ value, first = .ok value ∧ next value = .ok result := by
  cases first with
  | error fault => simp
  | ok value => simp

theorem bind_eq_error {first : Except ε α} {next : α → Except ε β} {fault : ε} :
    (first >>= next) = .error fault ↔
      first = .error fault ∨ ∃ value, first = .ok value ∧ next value = .error fault := by
  cases first with
  | error other => simp
  | ok value => simp

theorem map_eq_ok {outcome : Except ε α} {change : α → β} {result : β} :
    outcome.map change = .ok result ↔ ∃ value, outcome = .ok value ∧ change value = result := by
  cases outcome with
  | error fault => simp
  | ok value => simp

theorem ok_pair_inj {first other : α} {second behind : β}
    (same : (Except.ok (first, second) : Except ε (α × β)) = .ok (other, behind)) :
    first = other ∧ second = behind :=
  Prod.mk.inj (Except.ok.inj same)

theorem mapError_eq_ok {φ : Type} {outcome : Except ε α} {change : ε → φ} {result : α} :
    outcome.mapError change = .ok result ↔ outcome = .ok result := by
  cases outcome with
  | error fault => simp [Except.mapError]
  | ok value => simp [Except.mapError]

theorem mapError_eq_error {φ : Type} {outcome : Except ε α} {change : ε → φ} {fault : φ} :
    outcome.mapError change = .error fault ↔ ∃ cause, outcome = .error cause ∧ change cause = fault := by
  cases outcome with
  | error cause => simp [Except.mapError]
  | ok value => simp [Except.mapError]

theorem mapM_eq_ok {step : α → Except ε β} {inputs : List α} : ∀ {results : List β},
    inputs.mapM step = .ok results ↔
      List.Forall₂ (fun input result => step input = .ok result) inputs results := by
  induction inputs with
  | nil =>
      intro results
      simp [pure, Except.pure, eq_comm]
  | cons input inputs ih =>
      intro results
      simp only [List.mapM_cons, bind_eq_ok, ih, pure, Except.pure, Except.ok.injEq,
        List.forall₂_cons_left_iff]
      constructor
      · rintro ⟨result, stepped, others, related, same⟩
        exact ⟨result, others, stepped, related, same.symm⟩
      · rintro ⟨result, others, stepped, related, same⟩
        exact ⟨result, stepped, others, related, same.symm⟩

/-- A run of steps fails as the first step that fails does. -/
theorem mapM_eq_error {step : α → Except ε β} {inputs : List α} {fault : ε} :
    inputs.mapM step = .error fault ↔
      ∃ before input after, inputs = before ++ input :: after ∧ step input = .error fault ∧
        ∀ earlier ∈ before, ∃ result, step earlier = .ok result := by
  induction inputs with
  | nil => simp [pure, Except.pure]
  | cons first rest ih =>
      rw [List.mapM_cons, bind_eq_error]
      constructor
      · rintro (failed | ⟨value, stepped, later⟩)
        · exact ⟨[], first, rest, rfl, failed, by simp⟩
        · rcases bind_eq_error.1 later with failed | ⟨values, _, impossible⟩
          · obtain ⟨before, input, after, same, failed, succeeded⟩ := ih.1 failed
            refine ⟨first :: before, input, after, by rw [same]; rfl, failed, ?_⟩
            exact List.forall_mem_cons.2 ⟨⟨value, stepped⟩, succeeded⟩
          · simp [pure, Except.pure] at impossible
      · rintro ⟨before, input, after, same, failed, succeeded⟩
        cases before with
        | nil =>
            rw [(List.cons.inj same).1]
            exact Or.inl failed
        | cons earlier before =>
            obtain ⟨isFirst, others⟩ := List.cons.inj same
            obtain ⟨⟨value, stepped⟩, succeeded⟩ := List.forall_mem_cons.1 succeeded
            rw [isFirst]
            refine Or.inr ⟨value, stepped, bind_eq_error.2 (Or.inl ?_)⟩
            exact ih.2 ⟨before, input, after, others, failed, succeeded⟩

end LedgerWire
