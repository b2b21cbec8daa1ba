import LedgerWire.Proofs.Json.Agreement

/-!
Reading in two passes: one codec takes a draft from the text, and what is done with the draft
afterwards makes the value. Where this is so for every part of a type, it is so for the type.
-/

namespace LedgerWire.Json

variable {α β γ δ : Type}

namespace Codec

/-- What `whole` takes from a text is what `draft` takes from it, once that is finished. -/
def Finishes (draft : Codec α) (whole : Codec β) (finished : α → β → Prop) : Prop :=
  ∀ depth text rest result, whole.ofText depth text = .ok (result, rest) ↔
    ∃ first, draft.ofText depth text = .ok (first, rest) ∧ finished first result

theorem Finishes.refl (codec : Codec α) : codec.Finishes codec Eq := by
  intro depth text rest result
  simp only [exists_eq_right]

theorem Finishes.takes_iff {draft : Codec α} {whole : Codec β} {finished : α → β → Prop}
    (finishes : draft.Finishes whole finished) {depth : Nat} {text : Bytes} {result : β} :
    Takes (whole.ofText depth) text result ↔
      ∃ first, Takes (draft.ofText depth) text first ∧ finished first result := by
  simp only [Takes, finishes depth text]
  constructor
  · rintro ⟨rest, first, read, isFinished⟩
    exact ⟨first, ⟨rest, read⟩, isFinished⟩
  · rintro ⟨first, ⟨rest, read⟩, isFinished⟩
    exact ⟨rest, first, read, isFinished⟩

theorem Finishes.decode_iff {draft : Codec α} {whole : Codec β} {finished : α → β → Prop}
    (finishes : draft.Finishes whole finished) {bytes : Bytes} {result : β} :
    whole.decode bytes = .ok result ↔
      ∃ first, draft.decode bytes = .ok first ∧ finished first result := by
  simp only [decode_eq_ok, finishes depthLimit bytes]
  constructor
  · rintro ⟨rest, ⟨first, read, isFinished⟩, ended⟩
    exact ⟨first, ⟨rest, read, ended⟩, isFinished⟩
  · rintro ⟨first, ⟨rest, read, ended⟩, isFinished⟩
    exact ⟨rest, ⟨first, read, isFinished⟩, ended⟩

theorem Finishes.string (expected : String) (print : α → String) (parse : String → Except String α) :
    Codec.string.Finishes (ofString expected print parse) fun text value => parse text = .ok value := by
  intro depth text rest result
  simp only [Codec.string, ofString, scalar_ofText_iff]
  constructor
  · rintro ⟨found, read, visited⟩
    cases found with
    | text content =>
        dsimp only at visited
        cases parsed : parse content with
        | ok value =>
            rw [parsed] at visited
            rw [← Except.ok.inj visited]
            exact ⟨content, ⟨.text content, read, rfl⟩, parsed⟩
        | error reason => simp [parsed, refuse] at visited
    | null | boolean | number | list | record => simp [wrongType] at visited
  · rintro ⟨content, ⟨found, read, visited⟩, parsed⟩
    cases found with
    | text other =>
        rw [Except.ok.inj visited] at read
        exact ⟨.text content, read, by simp only [parsed]⟩
    | null | boolean | number | list | record => simp [wrongType] at visited

theorem Finishes.refine (base : Codec α) (widen : β → α) (narrow : α → Except String β) :
    base.Finishes (base.refine widen narrow) fun wide value => narrow wide = .ok value :=
  fun _ _ _ _ => refine_ofText_iff

theorem Finishes.list {draft : Codec α} {whole : Codec β} {finished : α → β → Prop}
    (draftSkips : ∀ depth, Skips (draft.ofText depth))
    (wholeSkips : ∀ depth, Skips (whole.ofText depth)) (finishes : draft.Finishes whole finished) :
    draft.list.Finishes whole.list (List.Forall₂ finished) := by
  intro depth text rest values
  have each : ∀ inner, Takes (whole.ofText inner) =
      fun text value => ∃ first, Takes (draft.ofText inner) text first ∧ finished first value :=
    fun inner => funext fun text => funext fun value => propext finishes.takes_iff
  simp only [list_ofText_iff wholeSkips, list_ofText_iff draftSkips, each, forall₂_through]
  constructor
  · rintro ⟨inner, texts, same, outline, firsts, taken, allFinished⟩
    exact ⟨firsts, ⟨inner, texts, same, outline, taken⟩, allFinished⟩
  · rintro ⟨firsts, ⟨inner, texts, same, outline, taken⟩, allFinished⟩
    exact ⟨inner, texts, same, outline, firsts, taken, allFinished⟩

end Codec

namespace Fields

structure Finishes (draft : Fields α) (whole : Fields β) (finished : α → β → Prop) : Prop where
  sameKeys : draft.keys = whole.keys
  collects : ∀ depth outline result,
    whole.collect (whole.placeTaken depth) outline = .ok result ↔
      ∃ first, draft.collect (draft.placeTaken depth) outline = .ok first ∧ finished first result

theorem Finishes.required {draft : Codec α} {whole : Codec β} {finished : α → β → Prop}
    (key : String) (finishes : draft.Finishes whole finished) :
    (Fields.required key draft).Finishes (.required key whole) finished where
  sameKeys := rfl
  collects := by
    intro depth outline result
    simp only [Fields.required, placeTaken_single, collect_single]
    cases valuesAt key outline with
    | nil => simp [AtMostOne]
    | cons text others =>
        cases others with
        | nil => simp only [AtMostOne, taken_eq_ok, finishes.takes_iff]
        | cons second more => simp [AtMostOne]

theorem Finishes.optionalList {draft : Codec α} {whole : Codec β} {finished : α → β → Prop}
    (key : String) (draftSkips : ∀ depth, Skips (draft.ofText depth))
    (wholeSkips : ∀ depth, Skips (whole.ofText depth)) (finishes : draft.Finishes whole finished) :
    (Fields.optionalList key draft).Finishes (.optionalList key whole) (List.Forall₂ finished) where
  sameKeys := rfl
  collects := by
    intro depth outline result
    simp only [Fields.optionalList, placeTaken_single, collect_single]
    cases valuesAt key outline with
    | nil => simp [AtMostOne, eq_comm]
    | cons text others =>
        cases others with
        | nil =>
            simp only [AtMostOne, taken_eq_ok]
            exact (Codec.Finishes.list draftSkips wholeSkips finishes).takes_iff
        | cons second more => simp [AtMostOne]

theorem Finishes.both {left : Fields α} {right : Fields β} {left' : Fields γ} {right' : Fields δ}
    {leftFinished : α → γ → Prop} {rightFinished : β → δ → Prop} (apart : Apart left right)
    (apart' : Apart left' right') (leftFinishes : left.Finishes left' leftFinished)
    (rightFinishes : right.Finishes right' rightFinished) :
    (Fields.both left right).Finishes (.both left' right') fun first result =>
      leftFinished first.1 result.1 ∧ rightFinished first.2 result.2 where
  sameKeys := by
    simp only [Fields.both, leftFinishes.sameKeys, rightFinishes.sameKeys]
  collects := by
    intro depth outline result
    simp only [placeTaken_both, collect_both apart, collect_both apart',
      leftFinishes.collects depth outline, rightFinishes.collects depth outline]
    constructor
    · rintro ⟨⟨first, collected, isFinished⟩, second, secondCollected, secondFinished⟩
      exact ⟨(first, second), ⟨collected, secondCollected⟩, isFinished, secondFinished⟩
    · rintro ⟨⟨first, second⟩, ⟨collected, secondCollected⟩, isFinished, secondFinished⟩
      exact ⟨⟨first, collected, isFinished⟩, second, secondCollected, secondFinished⟩

theorem Finishes.as {draft : Fields α} {whole : Fields β} {finished : α → β → Prop} {make : α → γ}
    {parts : γ → α} {make' : β → δ} {parts' : δ → β} {finished' : γ → δ → Prop}
    (finishes : draft.Finishes whole finished)
    (made : ∀ first result, finished' (make first) result ↔
      ∃ inner, finished first inner ∧ make' inner = result) :
    (draft.as make parts).Finishes (whole.as make' parts') finished' where
  sameKeys := finishes.sameKeys
  collects := by
    intro depth outline result
    change (whole.as make' parts').collect (whole.placeTaken depth) outline = .ok result ↔
      ∃ first, (draft.as make parts).collect (draft.placeTaken depth) outline = .ok first ∧ _
    rw [collect_as whole make' parts']
    simp only [collect_as draft make parts, map_eq_ok, finishes.collects depth outline]
    constructor
    · rintro ⟨inner, ⟨first, collected, isFinished⟩, same⟩
      exact ⟨make first, ⟨first, collected, rfl⟩, (made first result).2 ⟨inner, isFinished, same⟩⟩
    · rintro ⟨_, ⟨first, collected, same⟩, isFinished⟩
      rw [← same] at isFinished
      obtain ⟨inner, innerFinished, sameResult⟩ := (made first result).1 isFinished
      exact ⟨inner, ⟨first, collected, innerFinished⟩, sameResult⟩

end Fields

theorem Codec.Finishes.record {draft : Fields α} {whole : Fields β} {finished : α → β → Prop}
    (draftSound : draft.Sound) (wholeSound : whole.Sound) {expected expected' : String}
    (finishes : draft.Finishes whole finished) :
    (Codec.record expected draft).Finishes (.record expected' whole) finished := by
  intro depth text rest result
  simp only [Codec.record_ofText_iff draftSound, Codec.record_ofText_iff wholeSound,
    finishes.collects, Fields.Offers, Fields.Ordered, finishes.sameKeys]
  constructor
  · rintro ⟨inner, entries, same, offers, first, collected, isFinished⟩
    exact ⟨first, ⟨inner, entries, same, offers, collected⟩, isFinished⟩
  · rintro ⟨first, ⟨inner, entries, same, offers, collected⟩, isFinished⟩
    exact ⟨inner, entries, same, offers, first, collected, isFinished⟩

end LedgerWire.Json
