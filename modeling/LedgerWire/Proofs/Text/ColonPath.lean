import Mathlib.Data.List.Infix

/-!
Parts with a pair of colons between them. A text is cut at the first pair from the left, then at the
first one behind it; runs of more than two colons leave some of them to the part that follows.
-/

namespace LedgerWire.ColonPath

def separator : List Char := [':', ':']

def Whole (text : List Char) : Prop := ¬ separator <:+: text

/-- A part that ends at the first pair of colons, if one stands behind it. -/
def Closed (part : List Char) : Prop := Whole (part ++ [':'])

/-- The parts of a text, one more than there are pairs of colons to cut at. -/
inductive Divides : List Char → List (List Char) → Prop
  | last {text : List Char} (whole : Whole text) : Divides text [text]
  | part {part rest : List Char} {parts : List (List Char)} (closed : Closed part)
      (others : Divides rest parts) : Divides (part ++ separator ++ rest) (part :: parts)

theorem whole_nil : Whole [] := by simp [Whole, separator]

theorem whole_cons {first : Char} {rest : List Char} :
    Whole (first :: rest) ↔ ¬ separator <+: first :: rest ∧ Whole rest := by
  rw [Whole, List.infix_cons_iff, not_or, Whole]

theorem closed_nil : Closed [] := by
  intro found
  have length := found.length_le
  simp [separator] at length

theorem closed_cons {first : Char} {rest : List Char} :
    Closed (first :: rest) ↔ ¬ separator <+: first :: (rest ++ [':']) ∧ Closed rest := whole_cons

theorem closed_iff {part : List Char} : Closed part ↔ Whole part ∧ ¬ [':'] <:+ part := by
  rw [Closed, Whole, List.infix_concat_iff, Whole, not_or, and_comm]
  refine and_congr_right fun _ => not_congr ?_
  rw [List.suffix_concat_iff]
  constructor
  · rintro (impossible | ⟨front, same, isEnd⟩)
    · simp [separator] at impossible
    · have sameEnd : [':'] ++ [':'] = front ++ [':'] := same
      rw [List.append_cancel_right sameEnd]
      exact isEnd
  · exact fun isEnd => Or.inr ⟨[':'], rfl, isEnd⟩

theorem closed_of_no_colon {part : List Char} (noColon : ':' ∉ part) : Closed part := by
  refine closed_iff.2 ⟨fun found => noColon ?_, fun found => noColon ?_⟩
  · exact found.subset (by simp [separator])
  · exact found.subset (by simp)

theorem begins_before_separator {first : Char} {part rest : List Char} :
    separator <+: first :: (part ++ separator ++ rest) ↔ separator <+: first :: (part ++ [':']) := by
  cases part with
  | nil => simp [separator]
  | cons second others => simp [separator]

theorem Closed.ends {part more rest behind : List Char} (closed : Closed (part ++ more))
    (same : separator ++ rest = more ++ separator ++ behind) : more = [] := by
  match more, closed, same with
  | [], _, _ => rfl
  | [only], closed, same =>
      have isColon : only = ':' := (List.cons.inj same).1.symm
      subst isColon
      exact absurd ⟨part, [], by simp [separator]⟩ closed
  | first :: second :: others, closed, same =>
      have isColon : first = ':' := (List.cons.inj same).1.symm
      have isColonToo : second = ':' := (List.cons.inj (List.cons.inj same).2).1.symm
      subst isColon isColonToo
      exact absurd ⟨part, others ++ [':'], by simp [separator]⟩ closed

theorem Closed.cut_unique {part other rest behind : List Char} (closed : Closed part)
    (closedToo : Closed other) (same : part ++ separator ++ rest = other ++ separator ++ behind) :
    part = other ∧ rest = behind := by
  have samePart : part = other := by
    rw [List.append_assoc, List.append_assoc, List.append_eq_append_iff] at same
    rcases same with ⟨more, isOther, shared⟩ | ⟨more, isPart, shared⟩
    · subst isOther
      rw [closedToo.ends (shared.trans (List.append_assoc _ _ _).symm), List.append_nil]
    · subst isPart
      rw [closed.ends (shared.trans (List.append_assoc _ _ _).symm), List.append_nil]
  subst samePart
  exact ⟨rfl, List.append_cancel_left same⟩

theorem divides_three {text package module name : List Char} :
    Divides text [package, module, name] ↔ Closed package ∧ Closed module ∧ Whole name ∧
      text = package ++ separator ++ (module ++ separator ++ name) := by
  constructor
  · rintro (_ | ⟨closed, _ | ⟨closedToo, whole | ⟨_, none⟩⟩⟩)
    · exact ⟨closed, closedToo, whole, rfl⟩
    · cases none
  · rintro ⟨closed, closedToo, whole, same⟩
    rw [same]
    exact .part closed (.part closedToo (.last whole))

end LedgerWire.ColonPath
