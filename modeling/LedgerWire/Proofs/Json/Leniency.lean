import LedgerWire.Json.Record
import LedgerWire.Proofs.Outcome

/-!
Two codecs of a type of which one lets more values through. The strict one follows the lenient one up
to the first value that it does not take, and its fault there is its fault for the whole. This is kept
by lists, unions with null, narrower types and records, whatever else they hold.
-/

namespace LedgerWire.Json

variable {α β γ δ : Type} {fault : Fault}

/-- Where the lenient outcome is a result the strict one is a result like it, or the fault. -/
def Follows (fault : Fault) (alike : α → β → Prop) (strict : Except Fault α) (lenient : Except Fault β) :
    Prop :=
  ∀ result, lenient = .ok result →
    (∃ other, strict = .ok other ∧ alike other result) ∨ strict = .error fault

namespace Follows

variable {alike : α → β → Prop} {alikeToo : γ → δ → Prop}

theorem ok {strict : α} {lenient : β} (same : alike strict lenient) :
    Follows fault alike (.ok strict) (.ok lenient) := by
  intro result isResult
  rw [← Except.ok.inj isResult]
  exact Or.inl ⟨strict, rfl, same⟩

theorem refused {strict : Except Fault α} {other : Fault} :
    Follows fault alike strict (.error other) := by
  intro result impossible
  simp at impossible

theorem refl (outcome : Except Fault α) : Follows fault Eq outcome outcome :=
  fun result isResult => Or.inl ⟨result, isResult, rfl⟩

theorem bind {strict : Except Fault α} {lenient : Except Fault β} {next : α → Except Fault γ}
    {nextToo : β → Except Fault δ} (follows : Follows fault alike strict lenient)
    (followsToo : ∀ first second, alike first second →
      Follows fault alikeToo (next first) (nextToo second)) :
    Follows fault alikeToo (strict >>= next) (lenient >>= nextToo) := by
  intro result isResult
  obtain ⟨middle, isMiddle, rest⟩ := bind_eq_ok.1 isResult
  rcases follows middle isMiddle with ⟨other, isOther, same⟩ | blamed
  · rw [isOther]
    exact followsToo other middle same result rest
  · rw [blamed]
    exact Or.inr rfl

theorem map {strict : Except Fault α} {lenient : Except Fault β} {change : α → γ} {changeToo : β → δ}
    (follows : Follows fault alike strict lenient)
    (same : ∀ first second, alike first second → alikeToo (change first) (changeToo second)) :
    Follows fault alikeToo (strict.map change) (lenient.map changeToo) := by
  intro result isResult
  obtain ⟨middle, isMiddle, changed⟩ := map_eq_ok.1 isResult
  rw [← changed]
  rcases follows middle isMiddle with ⟨other, isOther, alikeThere⟩ | blamed
  · rw [isOther]
    exact Or.inl ⟨_, rfl, same other middle alikeThere⟩
  · rw [blamed]
    exact Or.inr rfl

theorem foldlM {τ : Type} {step : α → τ → Except Fault α} {stepToo : β → τ → Except Fault β}
    (follows : ∀ first second thing, alike first second →
      Follows fault alike (step first thing) (stepToo second thing)) (things : List τ) :
    ∀ first second, alike first second →
      Follows fault alike (things.foldlM step first) (things.foldlM stepToo second) := by
  induction things with
  | nil => exact fun first second same => ok same
  | cons thing rest ih =>
      intro first second same
      rw [List.foldlM_cons, List.foldlM_cons]
      exact (follows first second thing same).bind ih

end Follows

namespace Codec

def Follows (fault : Fault) (strict lenient : Codec α) : Prop :=
  ∀ value, Json.Follows fault Eq (strict.ofValue value) (lenient.ofValue value)

namespace Follows

variable {strict lenient : Codec α}

theorem refl (codec : Codec α) : codec.Follows fault codec := fun value => .refl (codec.ofValue value)

theorem ofString {expected reason : String} {print : α → String}
    {parse parseToo : String → Except String α}
    (follows : ∀ text result, parseToo text = .ok result →
      parse text = .ok result ∨ parse text = .error reason) :
    (ofString expected print parse).Follows (.mismatch (.refused reason))
      (Codec.ofString expected print parseToo) := by
  intro value
  cases value with
  | text text =>
      intro result isResult
      simp only [Codec.ofString, scalar, Value.found] at isResult ⊢
      cases parsed : parseToo text with
      | error other =>
          rw [parsed] at isResult
          simp [refuse] at isResult
      | ok held =>
          rw [parsed] at isResult
          rw [← Except.ok.inj isResult]
          rcases follows text held parsed with accepted | blamed
          · rw [accepted]
            exact Or.inl ⟨held, rfl, rfl⟩
          · rw [blamed]
            exact Or.inr rfl
  | null | boolean | number | list | record => exact .refl _

theorem nullable (follows : strict.Follows fault lenient) :
    strict.nullable.Follows fault lenient.nullable := by
  intro value
  have held : Json.Follows fault Eq ((strict.ofValue value).map some) ((lenient.ofValue value).map some) :=
    (follows value).map fun _ _ same => congrArg some same
  cases value with
  | null => exact .refl _
  | boolean | number | text | list | record => exact held

theorem list (follows : strict.Follows fault lenient) : strict.list.Follows fault lenient.list := by
  have items : ∀ values, Json.Follows fault Eq (strict.valuesOfItems values) (lenient.valuesOfItems values) := by
    intro values
    induction values with
    | nil => exact .refl _
    | cons value rest ih =>
        refine (follows value).bind ?_
        rintro first _ rfl
        refine ih.bind ?_
        rintro others _ rfl
        exact .refl _
  intro value
  cases value with
  | list values => exact items values
  | null | boolean | number | text | record => exact .refl _

end Follows

end Codec

namespace Fields

/-- Two tables of the same keys whose records go alike while they are read. -/
structure Lockstep (fault : Fault) (strict lenient : Fields α)
    (alike : strict.Slots → lenient.Slots → Prop) : Prop where
  sameKeys : strict.keys = lenient.keys
  blank : alike strict.blank lenient.blank
  isFilled : ∀ key first second, alike first second →
    strict.isFilled key first = lenient.isFilled key second
  place : ∀ key first second value, alike first second →
    Json.Follows fault alike (strict.placeValue key first value) (lenient.placeValue key second value)
  finish : ∀ first second, alike first second →
    Json.Follows fault Eq (strict.finish first) (lenient.finish second)

def Follows (fault : Fault) (strict lenient : Fields α) : Prop :=
  ∃ alike, Lockstep fault strict lenient alike

namespace Follows

theorem refl (fields : Fields α) : fields.Follows fault fields := by
  refine ⟨Eq, rfl, rfl, ?_, ?_, ?_⟩
  · rintro key slots _ rfl
    rfl
  · rintro key slots _ value rfl
    exact .refl _
  · rintro slots _ rfl
    exact .refl _

theorem single {key : String} {strict lenient : Codec α} {optional : Bool} {missing : Except Fault α}
    {members membersToo : α → Members} (follows : strict.Follows fault lenient) :
    (single key strict optional missing members).Follows fault
      (Fields.single key lenient optional missing membersToo) := by
  refine ⟨Eq, rfl, rfl, ?_, ?_, ?_⟩
  · rintro _ slot _ rfl
    rfl
  · intro _ _ _ value _
    exact (follows value).map fun _ _ same => congrArg some same
  · rintro slot _ rfl
    exact .refl _

theorem required (key : String) {strict lenient : Codec α} (follows : strict.Follows fault lenient) :
    (required key strict).Follows fault (Fields.required key lenient) := single follows

theorem optional (key : String) {strict lenient : Codec α} (follows : strict.Follows fault lenient) :
    (optional key strict).Follows fault (Fields.optional key lenient) := single follows.nullable

theorem isKey {strict lenient : Fields α} (sameKeys : strict.keys = lenient.keys) (key : String) :
    strict.isKey key = lenient.isKey key := by
  rw [Fields.isKey, Fields.isKey, sameKeys]

theorem both {strict lenient : Fields α} {strictToo lenientToo : Fields β}
    (follows : strict.Follows fault lenient) (followsToo : strictToo.Follows fault lenientToo) :
    (both strict strictToo).Follows fault (Fields.both lenient lenientToo) := by
  obtain ⟨alike, first⟩ := follows
  obtain ⟨alikeToo, second⟩ := followsToo
  have sameKey := isKey first.sameKeys
  refine ⟨fun left right => alike left.1 right.1 ∧ alikeToo left.2 right.2, ?_, ?_, ?_, ?_, ?_⟩
  · exact congrArg₂ (· ++ ·) first.sameKeys second.sameKeys
  · exact ⟨first.blank, second.blank⟩
  · rintro key left right ⟨same, sameToo⟩
    simp only [Fields.both, sameKey, first.isFilled key _ _ same, second.isFilled key _ _ sameToo]
  · rintro key left right value ⟨same, sameToo⟩
    simp only [Fields.both, sameKey]
    split
    · refine (first.place key _ _ value same).bind fun slot slotToo alikeThere => ?_
      exact .ok ⟨alikeThere, sameToo⟩
    · refine (second.place key _ _ value sameToo).bind fun slot slotToo alikeThere => ?_
      exact .ok ⟨same, alikeThere⟩
  · rintro left right ⟨same, sameToo⟩
    refine (first.finish _ _ same).bind ?_
    rintro value _ rfl
    refine (second.finish _ _ sameToo).bind ?_
    rintro other _ rfl
    exact .refl _

theorem as {strict lenient : Fields α} {make : α → β} {parts : β → α}
    (follows : strict.Follows fault lenient) :
    (strict.as make parts).Follows fault (lenient.as make parts) := by
  obtain ⟨alike, lockstep⟩ := follows
  refine ⟨alike, lockstep.sameKeys, lockstep.blank, lockstep.isFilled, lockstep.place, ?_⟩
  intro first second same
  exact (lockstep.finish first second same).map fun _ _ sameValue => congrArg make sameValue

end Follows

namespace Lockstep

variable {strict lenient : Fields α} {alike : strict.Slots → lenient.Slots → Prop}

theorem placeMember (lockstep : Lockstep fault strict lenient alike) (member : String × Value)
    (first : strict.Slots) (second : lenient.Slots) (same : alike first second) :
    Json.Follows fault alike (strict.placeMember first member) (lenient.placeMember second member) := by
  unfold Fields.placeMember
  rw [Follows.isKey lockstep.sameKeys, lockstep.isFilled member.1 first second same]
  split
  · split
    · exact .refused
    · exact lockstep.place member.1 first second member.2 same
  · exact .ok same

theorem ofMembers (lockstep : Lockstep fault strict lenient alike) (members : Members) :
    Json.Follows fault Eq (strict.ofMembers members) (lenient.ofMembers members) := by
  have placed := Follows.foldlM (fun first second member same =>
    lockstep.placeMember member first second same) members strict.blank lenient.blank lockstep.blank
  exact placed.bind lockstep.finish

theorem placeInOrder (lockstep : Lockstep fault strict lenient alike) (expected : String)
    (keys : List (String × Bool)) : ∀ (index : Nat) (items : List Value) (first : strict.Slots)
      (second : lenient.Slots), alike first second →
        Json.Follows fault (fun left right => alike left.1 right.1 ∧ left.2 = right.2)
          (strict.placeInOrder expected index keys first items)
          (lenient.placeInOrder expected index keys second items) := by
  induction keys with
  | nil =>
      intro index items first second same
      exact .ok ⟨same, rfl⟩
  | cons pair keys ih =>
      intro index items first second same
      cases items with
      | nil =>
          unfold Fields.placeInOrder
          split
          · exact .refused
          · exact .ok ⟨same, rfl⟩
      | cons item items =>
          exact (lockstep.place pair.1 first second item same).bind fun slots slotsToo alikeThere =>
            ih (index + 1) items slots slotsToo alikeThere

theorem ofItems (lockstep : Lockstep fault strict lenient alike) (expected : String)
    (items : List Value) :
    Json.Follows fault Eq (strict.ofItems expected items) (lenient.ofItems expected items) := by
  unfold Fields.ofItems
  rw [lockstep.sameKeys]
  refine (lockstep.placeInOrder expected _ 0 items _ _ lockstep.blank).bind ?_
  rintro ⟨slots, leftOver⟩ ⟨slotsToo, leftOverToo⟩ ⟨same, sameRest⟩
  dsimp only at same sameRest
  subst sameRest
  refine (lockstep.finish slots slotsToo same).bind ?_
  rintro value _ rfl
  exact .refl _

end Lockstep

end Fields

theorem Codec.Follows.record {expected : String} {strict lenient : Fields α}
    (follows : strict.Follows fault lenient) :
    (Codec.record expected strict).Follows fault (Codec.record expected lenient) := by
  obtain ⟨alike, lockstep⟩ := follows
  intro value
  cases value with
  | list items => exact lockstep.ofItems expected items
  | record members => exact lockstep.ofMembers members
  | null | boolean | number | text => exact .refl _

end LedgerWire.Json
