import LedgerWire.Json.Record
import LedgerWire.Proofs.Json.Outline

/-!
Records put together from entries under their keys. The entries are members in any order or items in
the order of the fields, and what stands under a key is a text or a value: in all four cases every
field of the record is decided by the entries under its own key alone.
-/

namespace LedgerWire.Json

variable {α β τ : Type}

def valuesAt (key : String) (entries : List (String × τ)) : List τ :=
  (entries.filter fun entry => entry.1 = key).map Prod.snd

@[simp] theorem valuesAt_nil (key : String) : valuesAt key ([] : List (String × τ)) = [] := rfl

theorem valuesAt_cons (key : String) (entry : String × τ) (entries : List (String × τ)) :
    valuesAt key (entry :: entries) =
      if entry.1 = key then entry.2 :: valuesAt key entries else valuesAt key entries := by
  unfold valuesAt
  rw [List.filter_cons]
  by_cases same : entry.1 = key
  · simp only [same, decide_true, if_true, List.map_cons]
  · simp only [same, decide_false, Bool.false_eq_true, if_false]

theorem valuesAt_append (key : String) (first second : List (String × τ)) :
    valuesAt key (first ++ second) = valuesAt key first ++ valuesAt key second := by
  simp [valuesAt]

theorem mem_valuesAt {key : String} {entries : List (String × τ)} {thing : τ} :
    thing ∈ valuesAt key entries ↔ (key, thing) ∈ entries := by
  simp [valuesAt]

theorem valuesAt_map {υ : Type} (make : τ → υ) (key : String) (entries : List (String × τ)) :
    valuesAt key (entries.map fun entry => (entry.1, make entry.2)) =
      (valuesAt key entries).map make := by
  rw [valuesAt, List.filter_map, List.map_map, valuesAt, List.map_map]
  rfl

theorem valuesAt_eq_nil {key : String} {entries : List (String × τ)} :
    valuesAt key entries = [] ↔ key ∉ entries.map Prod.fst := by
  simp only [List.eq_nil_iff_forall_not_mem, mem_valuesAt, List.mem_map, Prod.exists,
    exists_and_right, exists_eq_right, not_exists]

theorem valuesAt_related {υ : Type} {related : τ → υ → Prop} {entries : List (String × τ)}
    {others : List (String × υ)} (pairs : List.Forall₂ (UnderKey related) entries others)
    (key : String) : List.Forall₂ related (valuesAt key entries) (valuesAt key others) := by
  induction pairs with
  | nil => exact .nil
  | cons pair _ ih =>
      rename_i entry other entries others
      rcases pair with ⟨sameKey, here⟩
      rw [valuesAt_cons, valuesAt_cons, ← sameKey]
      split
      · exact .cons here ih
      · exact ih

/-- There is one thing under the key, and it is such a thing. -/
def Under (key : String) (entries : List (String × τ)) (holds : τ → Prop) : Prop :=
  ∃ thing, valuesAt key entries = [thing] ∧ holds thing

namespace Fields

def put (fields : Fields α) (place : String → fields.Slots → τ → Except Fault fields.Slots)
    (slots : fields.Slots) (entry : String × τ) : Except Fault fields.Slots :=
  if fields.isKey entry.1 then
    if fields.isFilled entry.1 slots then .error (.mismatch (.repeatedField entry.1))
    else place entry.1 slots entry.2
  else .ok slots

/-- The record that entries make, in any order. -/
def collect (fields : Fields α) (place : String → fields.Slots → τ → Except Fault fields.Slots)
    (entries : List (String × τ)) : Except Fault α := do
  let slots ← entries.foldlM (fields.put place) fields.blank
  fields.finish slots

def placeTaken (fields : Fields α) (depth : Nat) (key : String) (slots : fields.Slots)
    (text : Bytes) : Except Fault fields.Slots :=
  (fields.placeText key slots depth text).map Prod.fst

theorem ofMembers_eq (fields : Fields α) (members : Members) :
    fields.ofMembers members = fields.collect fields.placeValue members := rfl

theorem collect_eq_ok {fields : Fields α}
    {place : String → fields.Slots → τ → Except Fault fields.Slots} {entries : List (String × τ)}
    {record : α} : fields.collect place entries = .ok record ↔
      ∃ slots, entries.foldlM (fields.put place) fields.blank = .ok slots ∧
        fields.finish slots = .ok record := by
  rw [collect, bind_eq_ok]

/-! A record of one field. -/

theorem isKey_single (key other : String) (codec : Codec α) (optional : Bool)
    (missing : Except Fault α) (members : α → Members) :
    (single key codec optional missing members).isKey other = decide (key = other) := by
  simp [isKey, single]

def AtMostOne (take : τ → Except Fault α) (missing : Except Fault α) (record : α) :
    List τ → Prop
  | [] => missing = .ok record
  | [thing] => take thing = .ok record
  | _ => False

section

variable (key : String) (codec : Codec α) (optional : Bool) (missing : Except Fault α)
  (members : α → Members) (take : τ → Except Fault α)

def placeSingle : String → (single key codec optional missing members).Slots → τ →
    Except Fault (single key codec optional missing members).Slots :=
  fun _ (_ : Option α) thing => (take thing).map some

def putSingle (slot : Option α) (entry : String × τ) : Except Fault (Option α) :=
  if key = entry.1 then
    if slot.isSome then .error (.mismatch (.repeatedField entry.1))
    else (take entry.2).map some
  else .ok slot

theorem put_single (slot : (single key codec optional missing members).Slots)
    (entry : String × τ) :
    (single key codec optional missing members).put
      (placeSingle key codec optional missing members take) slot entry =
        putSingle key take slot entry := by
  unfold put
  rw [isKey_single]
  by_cases isKey : key = entry.1
  · simp only [putSingle, isKey, decide_true, if_true]
    rfl
  · simp only [putSingle, isKey, decide_false, Bool.false_eq_true, if_false]
    rfl

theorem foldlM_putSingle (entries : List (String × τ)) : ∀ slot final : Option α,
    entries.foldlM (putSingle key take) slot = .ok final ↔
      (valuesAt key entries = [] ∧ final = slot) ∨
        (slot = none ∧ ∃ thing value, valuesAt key entries = [thing] ∧ take thing = .ok value ∧
          final = some value) := by
  -- The first entry under the key fills the place, and a second one would be one too many.
  induction entries with
  | nil =>
      intro slot final
      simp [pure, Except.pure, eq_comm]
  | cons entry entries ih =>
      intro slot final
      rw [List.foldlM_cons, putSingle, valuesAt_cons]
      by_cases isKey : key = entry.1
      · simp only [← isKey, if_true]
        cases slot with
        | some held => simp
        | none =>
            simp only [Option.isSome_none, Bool.false_eq_true, if_false, bind_eq_ok, map_eq_ok, ih]
            constructor
            · rintro ⟨_, ⟨value, taken, same⟩, ⟨empty, sameFinal⟩ | ⟨impossible, _⟩⟩
              · exact Or.inr ⟨trivial, entry.2, value, by rw [empty], taken, by rw [sameFinal, same]⟩
              · simp [← same] at impossible
            · rintro (⟨impossible, _⟩ | ⟨_, thing, value, one, taken, sameFinal⟩)
              · simp at impossible
              · simp only [List.cons.injEq] at one
                rw [← one.1] at taken
                exact ⟨some value, ⟨value, taken, rfl⟩, Or.inl ⟨one.2, sameFinal⟩⟩
      · have other : ¬ entry.1 = key := fun same => isKey same.symm
        simp only [isKey, other, if_false, ok_bind]
        exact ih slot final

theorem collect_single (entries : List (String × τ)) (record : α) :
    (single key codec optional missing members).collect
        (placeSingle key codec optional missing members take) entries = .ok record ↔
      AtMostOne take missing record (valuesAt key entries) := by
  have put : (single key codec optional missing members).put
      (placeSingle key codec optional missing members take) = putSingle key take :=
    funext fun slot => funext fun entry => put_single key codec optional missing members take slot entry
  rw [collect_eq_ok, put]
  constructor
  · rintro ⟨slot, filled, finished⟩
    rcases (foldlM_putSingle key take entries none slot).1 filled with
      ⟨empty, same⟩ | ⟨_, thing, value, one, taken, same⟩
    · rw [same] at finished
      rw [empty]
      exact finished
    · rw [same] at finished
      have sameValue : value = record := Except.ok.inj finished
      rw [one, ← sameValue]
      exact taken
  · intro atMost
    cases shape : valuesAt key entries with
    | nil =>
        rw [shape] at atMost
        exact ⟨none, (foldlM_putSingle key take entries none none).2 (Or.inl ⟨shape, rfl⟩), atMost⟩
    | cons thing others =>
        cases others with
        | nil =>
            rw [shape] at atMost
            exact ⟨some record, (foldlM_putSingle key take entries none (some record)).2
              (Or.inr ⟨rfl, thing, record, shape, atMost, rfl⟩), rfl⟩
        | cons second more =>
            rw [shape] at atMost
            exact atMost.elim

theorem placeValue_single : (single key codec optional missing members).placeValue =
    placeSingle key codec optional missing members codec.ofValue := rfl

theorem placeTaken_single (depth : Nat) :
    (single key codec optional missing members).placeTaken depth =
      placeSingle key codec optional missing members
        (fun text => (codec.ofText depth text).map Prod.fst) := by
  funext _ slots text
  simp only [placeTaken, single, placeSingle]
  cases codec.ofText depth text <;> rfl

end

/-! The fields of two records, one after the other. -/

def Apart (left : Fields α) (right : Fields β) : Prop :=
  ∀ key, left.isKey key = true → right.isKey key = false

theorem isKey_both (left : Fields α) (right : Fields β) (key : String) :
    (both left right).isKey key = (left.isKey key || right.isKey key) := by
  simp [isKey, both]

section

variable (left : Fields α) (right : Fields β)
  (placeLeft : String → left.Slots → τ → Except Fault left.Slots)
  (placeRight : String → right.Slots → τ → Except Fault right.Slots)

def placeBoth : String → (both left right).Slots → τ → Except Fault (both left right).Slots :=
  fun key (slots : left.Slots × right.Slots) thing =>
    if left.isKey key then (placeLeft key slots.1 thing).map fun slot => (slot, slots.2)
    else (placeRight key slots.2 thing).map fun slot => (slots.1, slot)

def putBoth (slots : left.Slots × right.Slots) (entry : String × τ) :
    Except Fault (left.Slots × right.Slots) := do
  let first ← left.put placeLeft slots.1 entry
  let second ← right.put placeRight slots.2 entry
  .ok (first, second)

theorem put_both (apart : Apart left right) (slots : (both left right).Slots)
    (entry : String × τ) :
    (both left right).put (placeBoth left right placeLeft placeRight) slots entry =
      putBoth left right placeLeft placeRight slots entry := by
  rcases slots with ⟨first, second⟩
  unfold put putBoth put
  rw [isKey_both]
  by_cases isLeft : left.isKey entry.1 = true
  · have notRight := apart entry.1 isLeft
    by_cases filled : left.isFilled entry.1 first = true
    · simp [both, isLeft, notRight, filled]
    · simp only [isLeft, notRight, both, placeBoth, filled, Bool.true_or, if_true]
      cases placeLeft entry.1 first entry.2 <;> rfl
  · by_cases isRight : right.isKey entry.1 = true
    · by_cases filled : right.isFilled entry.1 second = true
      · simp [both, isLeft, isRight, filled]
      · simp only [isLeft, isRight, both, placeBoth, filled, Bool.or_true, if_true]
        cases placeRight entry.1 second entry.2 <;> rfl
    · simp only [isLeft, isRight, Bool.or_self, Bool.false_eq_true, if_false]
      rfl

variable {left right placeLeft placeRight}

theorem putBoth_eq_ok {slots final : left.Slots × right.Slots} {entry : String × τ} :
    putBoth left right placeLeft placeRight slots entry = .ok final ↔
      left.put placeLeft slots.1 entry = .ok final.1 ∧
        right.put placeRight slots.2 entry = .ok final.2 := by
  simp only [putBoth, bind_eq_ok]
  constructor
  · rintro ⟨first, firstPut, second, secondPut, same⟩
    simp only [Except.ok.injEq] at same
    rw [← same]
    exact ⟨firstPut, secondPut⟩
  · rintro ⟨firstPut, secondPut⟩
    exact ⟨final.1, firstPut, final.2, secondPut, rfl⟩

theorem foldlM_putBoth (entries : List (String × τ)) :
    ∀ slots final : left.Slots × right.Slots,
    entries.foldlM (putBoth left right placeLeft placeRight) slots = .ok final ↔
      entries.foldlM (left.put placeLeft) slots.1 = .ok final.1 ∧
        entries.foldlM (right.put placeRight) slots.2 = .ok final.2 := by
  induction entries with
  | nil =>
      intro slots final
      simp only [List.foldlM_nil, pure, Except.pure, Except.ok.injEq]
      exact Prod.ext_iff
  | cons entry entries ih =>
      intro slots final
      simp only [List.foldlM_cons, bind_eq_ok]
      constructor
      · rintro ⟨next, stepped, folded⟩
        obtain ⟨first, second⟩ := putBoth_eq_ok.1 stepped
        obtain ⟨firstFolded, secondFolded⟩ := (ih next final).1 folded
        exact ⟨⟨next.1, first, firstFolded⟩, ⟨next.2, second, secondFolded⟩⟩
      · rintro ⟨⟨firstNext, first, firstFolded⟩, ⟨secondNext, second, secondFolded⟩⟩
        exact ⟨(firstNext, secondNext), putBoth_eq_ok.2 ⟨first, second⟩,
          (ih (firstNext, secondNext) final).2 ⟨firstFolded, secondFolded⟩⟩

theorem collect_both (apart : Apart left right) (entries : List (String × τ)) (record : α × β) :
    (both left right).collect (placeBoth left right placeLeft placeRight) entries = .ok record ↔
      left.collect placeLeft entries = .ok record.1 ∧
        right.collect placeRight entries = .ok record.2 := by
  have put : (both left right).put (placeBoth left right placeLeft placeRight) =
      putBoth left right placeLeft placeRight :=
    funext fun slots => funext fun entry => put_both left right placeLeft placeRight apart slots entry
  rw [collect_eq_ok, put]
  simp only [collect_eq_ok]
  constructor
  · rintro ⟨slots, folded, finished⟩
    obtain ⟨firstFolded, secondFolded⟩ := (foldlM_putBoth entries _ slots).1 folded
    obtain ⟨first, firstFinished, later⟩ := bind_eq_ok.1 finished
    obtain ⟨second, secondFinished, same⟩ := bind_eq_ok.1 later
    simp only [Except.ok.injEq] at same
    rw [← same]
    exact ⟨⟨slots.1, firstFolded, firstFinished⟩, ⟨slots.2, secondFolded, secondFinished⟩⟩
  · rintro ⟨⟨firstSlots, firstFolded, firstFinished⟩, ⟨secondSlots, secondFolded, secondFinished⟩⟩
    refine ⟨(firstSlots, secondSlots),
      (foldlM_putBoth entries _ _).2 ⟨firstFolded, secondFolded⟩, ?_⟩
    simp only [both, firstFinished, secondFinished, ok_bind]

end

theorem placeValue_both (left : Fields α) (right : Fields β) :
    (both left right).placeValue =
      placeBoth left right left.placeValue right.placeValue := by
  funext key slots value
  simp only [both, placeBoth]
  split
  · cases left.placeValue key slots.1 value <;> rfl
  · cases right.placeValue key slots.2 value <;> rfl

theorem placeTaken_both (left : Fields α) (right : Fields β) (depth : Nat) :
    (both left right).placeTaken depth =
      placeBoth left right (left.placeTaken depth) (right.placeTaken depth) := by
  funext key slots text
  simp only [placeTaken, both, placeBoth]
  split
  · cases left.placeText key slots.1 depth text <;> rfl
  · cases right.placeText key slots.2 depth text <;> rfl

theorem collect_as (fields : Fields α) (make : α → β) (parts : β → α)
    (place : String → fields.Slots → τ → Except Fault fields.Slots)
    (entries : List (String × τ)) :
    (fields.as make parts).collect place entries = (fields.collect place entries).map make := by
  simp only [collect]
  change (entries.foldlM (fields.put place) fields.blank >>= fun slots =>
    (fields.finish slots).map make) = _
  cases entries.foldlM (fields.put place) fields.blank <;> rfl

end Fields
end LedgerWire.Json
