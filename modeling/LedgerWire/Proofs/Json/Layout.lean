import LedgerWire.Proofs.Json.Record

/-!
The two forms of a record: members of a JSON record, and items of a JSON list in the order of the
fields. Both come down to entries under keys.
-/

namespace LedgerWire.Json

variable {α β τ : Type}

namespace Fields

theorem isKey_iff {fields : Fields α} {key : String} :
    fields.isKey key = true ↔ key ∈ fields.keys.map Prod.fst := by
  simp [isKey]

def Fills (fields : Fields α) (place : String → fields.Slots → τ → Except Fault fields.Slots) :
    Prop :=
  ∀ key slots thing next, fields.isKey key = true → place key slots thing = .ok next →
    ∀ other, fields.isKey other = true →
      fields.isFilled other next = (decide (other = key) || fields.isFilled other slots)

structure Sound (fields : Fields α) : Prop where
  distinct : (fields.keys.map Prod.fst).Nodup
  unfilled : ∀ key, fields.isFilled key fields.blank = false
  demands : ∀ slots record, fields.finish slots = .ok record →
    ∀ key, (key, false) ∈ fields.keys → fields.isFilled key slots = true
  fillsValue : fields.Fills fields.placeValue
  fillsText : ∀ depth, fields.Fills (fields.placeTaken depth)
  skips : ∀ key slots depth, Skips (fields.placeText key slots depth)

theorem fills_single (key : String) (codec : Codec α) (optional : Bool) (missing : Except Fault α)
    (members : α → Members) (take : τ → Except Fault α) :
    (single key codec optional missing members).Fills
      (placeSingle key codec optional missing members take) := by
  intro known slots thing next isKnown placed other isOther
  rw [isKey_single, decide_eq_true_eq] at isKnown isOther
  obtain ⟨value, _, same⟩ := map_eq_ok.1 placed
  rw [← isOther, ← isKnown, ← same]
  simp [single]

theorem sound_single {key : String} {codec : Codec α} {optional : Bool} {missing : Except Fault α}
    {members : α → Members} (skips : ∀ depth, Skips (codec.ofText depth))
    (demands : optional = false → ∀ record, missing ≠ .ok record) :
    (single key codec optional missing members).Sound where
  distinct := by simp [single]
  unfilled _ := rfl
  demands := by
    intro slots record finished known isKnown
    simp only [single, List.mem_cons, Prod.mk.injEq, List.not_mem_nil, or_false] at isKnown
    cases slots with
    | none => exact absurd finished (demands isKnown.2.symm record)
    | some value => rfl
  fillsValue := fills_single key codec optional missing members codec.ofValue
  fillsText depth := by
    rw [placeTaken_single]
    exact fills_single key codec optional missing members _
  skips := by
    intro known slots depth bytes next rest placed
    obtain ⟨⟨value, after⟩, read, later⟩ := bind_eq_ok.1 placed
    rw [← (ok_pair_inj later).2]
    exact skips depth bytes value after read

theorem fills_both {left : Fields α} {right : Fields β}
    {placeLeft : String → left.Slots → τ → Except Fault left.Slots}
    {placeRight : String → right.Slots → τ → Except Fault right.Slots}
    (leftFills : left.Fills placeLeft) (rightFills : right.Fills placeRight) :
    (both left right).Fills (placeBoth left right placeLeft placeRight) := by
  intro key slots thing next isKey placed other isOther
  rcases slots with ⟨first, second⟩
  rw [isKey_both, Bool.or_eq_true] at isKey isOther
  by_cases isLeft : left.isKey key = true
  · simp only [placeBoth, isLeft, if_true] at placed
    obtain ⟨slot, placed, same⟩ := map_eq_ok.1 placed
    rw [← same]
    by_cases otherLeft : left.isKey other = true
    · simp only [both, otherLeft, if_true]
      exact leftFills key first thing slot isLeft placed other otherLeft
    · have differ : ¬ other = key := fun same => otherLeft (same ▸ isLeft)
      simp [both, otherLeft, differ]
  · have isRight : right.isKey key = true := isKey.resolve_left isLeft
    simp only [placeBoth, isLeft] at placed
    obtain ⟨slot, placed, same⟩ := map_eq_ok.1 placed
    rw [← same]
    by_cases otherLeft : left.isKey other = true
    · have differ : ¬ other = key := fun same => isLeft (same ▸ otherLeft)
      simp [both, otherLeft, differ]
    · have otherRight : right.isKey other = true := isOther.resolve_left otherLeft
      simp only [both, otherLeft]
      exact rightFills key second thing slot isRight placed other otherRight

theorem sound_both {left : Fields α} {right : Fields β} (apart : Apart left right)
    (leftSound : left.Sound) (rightSound : right.Sound) : (both left right).Sound where
  distinct := by
    simp only [both, List.map_append]
    refine List.nodup_append.2 ⟨leftSound.distinct, rightSound.distinct, ?_⟩
    intro key inLeft other inRight same
    subst same
    have notRight := apart key (isKey_iff.2 inLeft)
    rw [isKey_iff.2 inRight] at notRight
    exact Bool.noConfusion notRight
  unfilled key := by
    simp only [both, leftSound.unfilled, rightSound.unfilled, ite_self]
  demands := by
    intro slots record finished key isKey
    rcases slots with ⟨first, second⟩
    obtain ⟨leftRecord, leftFinished, later⟩ := bind_eq_ok.1 finished
    obtain ⟨rightRecord, rightFinished, _⟩ := bind_eq_ok.1 later
    simp only [both, List.mem_append] at isKey
    by_cases isLeft : left.isKey key = true
    · simp only [both, isLeft, if_true]
      rcases isKey with inLeft | inRight
      · exact leftSound.demands first leftRecord leftFinished key inLeft
      · have notRight := apart key isLeft
        rw [isKey_iff.2 (List.mem_map_of_mem inRight)] at notRight
        exact Bool.noConfusion notRight
    · simp only [both, isLeft]
      rcases isKey with inLeft | inRight
      · exact absurd (isKey_iff.2 (List.mem_map_of_mem inLeft)) isLeft
      · exact rightSound.demands second rightRecord rightFinished key inRight
  fillsValue := by
    rw [placeValue_both]
    exact fills_both leftSound.fillsValue rightSound.fillsValue
  fillsText depth := by
    rw [placeTaken_both]
    exact fills_both (leftSound.fillsText depth) (rightSound.fillsText depth)
  skips := by
    intro key slots depth bytes next rest placed
    simp only [both] at placed
    split at placed
    · obtain ⟨⟨slot, after⟩, placed, later⟩ := bind_eq_ok.1 placed
      rw [← (ok_pair_inj later).2]
      exact leftSound.skips key _ depth bytes slot after placed
    · obtain ⟨⟨slot, after⟩, placed, later⟩ := bind_eq_ok.1 placed
      rw [← (ok_pair_inj later).2]
      exact rightSound.skips key _ depth bytes slot after placed

theorem sound_as {fields : Fields α} (make : α → β) (parts : β → α) (sound : fields.Sound) :
    (fields.as make parts).Sound where
  distinct := sound.distinct
  unfilled := sound.unfilled
  demands := by
    intro slots record finished
    obtain ⟨inner, innerFinished, _⟩ := map_eq_ok.1 finished
    exact sound.demands slots inner innerFinished
  fillsValue := sound.fillsValue
  fillsText := sound.fillsText
  skips := sound.skips

/-! Members in any order. -/

theorem steps_readMember {fields : Fields α} (sound : fields.Sound) (depth : Nat) :
    Steps passMember (fields.readMember depth) (fields.put (fields.placeTaken depth)) := by
  intro slots bytes next rest
  simp only [readMember, bind_eq_ok, Prod.exists, passMember_eq_ok]
  constructor
  · rintro ⟨key, afterKey, keyRead, later⟩
    split at later
    · rename_i isKey
      split at later
      · simp at later
      · rename_i notFilled
        obtain ⟨text, colonRead, placed⟩ := bind_eq_ok.1 later
        have skipped := (sound.skips key slots depth).skipValue placed
        refine ⟨key, text, ⟨afterKey, keyRead, colonRead, skipped⟩, ?_⟩
        simp only [put, isKey, notFilled, if_true, placeTaken, placed, ok_map]
        rfl
    · rename_i notKey
      obtain ⟨text, colonRead, later⟩ := bind_eq_ok.1 later
      obtain ⟨⟨_, after⟩, skipped, later⟩ := bind_eq_ok.1 later
      simp only [Except.ok.injEq, Prod.mk.injEq] at later
      rw [← later.1, ← later.2]
      refine ⟨key, text, ⟨afterKey, keyRead, colonRead, skipped⟩, ?_⟩
      simp [put, notKey]
  · rintro ⟨key, text, ⟨afterKey, keyRead, colonRead, skipped⟩, placed⟩
    refine ⟨key, afterKey, keyRead, ?_⟩
    unfold put at placed
    split at placed
    · rename_i isKey
      split at placed
      · simp at placed
      · rename_i notFilled
        obtain ⟨⟨slot, after⟩, read, same⟩ := map_eq_ok.1 placed
        have whole := (sound.skips key slots depth).rest_eq ⟨after, read⟩ skipped
        simp only [isKey, notFilled, if_true, colonRead, ok_bind, whole]
        simp only [← same]
        rfl
    · rename_i notKey
      simp only [Except.ok.injEq] at placed
      simp [notKey, colonRead, skipped, placed]

theorem readMembers_iff {fields : Fields α} (sound : fields.Sound) {depth : Nat}
    {bytes rest : Bytes} {record : α} :
    fields.readMembers depth bytes = .ok (record, rest) ↔
      ∃ outline, Entries closeRecord passMember true bytes outline rest ∧
        fields.collect (fields.placeTaken depth) outline = .ok record := by
  simp only [readMembers, bind_eq_ok, Prod.exists,
    readAll_iff passMember_length (steps_readMember sound depth), collect_eq_ok]
  constructor
  · rintro ⟨slots, after, ⟨outline, entries, folded⟩, value, finished, same⟩
    simp only [Except.ok.injEq, Prod.mk.injEq] at same
    rw [← same.1, ← same.2]
    exact ⟨outline, entries, slots, folded, finished⟩
  · rintro ⟨outline, entries, slots, folded, finished⟩
    exact ⟨slots, rest, ⟨outline, entries, folded⟩, record, finished, rfl⟩

/-! Items in the order of the fields. -/

/-- Things put under the keys in their order, one for each until there are no more; the keys left
over may all be missing. -/
def InOrder (fields : Fields α) (place : String → fields.Slots → τ → Except Fault fields.Slots)
    (keys : List (String × Bool)) (slots : fields.Slots) (things : List τ)
    (final : fields.Slots) : Prop :=
  things.length ≤ keys.length ∧ (∀ spare ∈ keys.drop things.length, spare.2 = true) ∧
    ((keys.map Prod.fst).zip things).foldlM (fields.put place) slots = .ok final

section

variable {fields : Fields α} {place : String → fields.Slots → τ → Except Fault fields.Slots}

theorem inOrder_noKeys {slots final : fields.Slots} {things : List τ} :
    fields.InOrder place [] slots things final ↔ things = [] ∧ slots = final := by
  cases things with
  | nil => simp [InOrder, pure, Except.pure]
  | cons thing things => simp [InOrder]

theorem inOrder_nothing {keys : List (String × Bool)} {slots final : fields.Slots} :
    fields.InOrder place keys slots [] final ↔
      (∀ spare ∈ keys, spare.2 = true) ∧ slots = final := by
  simp [InOrder, pure, Except.pure]

theorem inOrder_cons {pair : String × Bool} {keys : List (String × Bool)}
    {slots final : fields.Slots} {thing : τ} {things : List τ} (known : fields.isKey pair.1 = true)
    (unfilled : fields.isFilled pair.1 slots = false) :
    fields.InOrder place (pair :: keys) slots (thing :: things) final ↔
      ∃ next, place pair.1 slots thing = .ok next ∧ fields.InOrder place keys next things final := by
  have first : fields.put place slots (pair.1, thing) = place pair.1 slots thing := by
    simp only [put, known, unfilled, if_true, Bool.false_eq_true, if_false]
  simp only [InOrder, List.length_cons, List.map_cons, List.zip_cons_cons, List.foldlM_cons, first,
    bind_eq_ok, Nat.add_le_add_iff_right, List.drop_succ_cons]
  constructor
  · rintro ⟨short, spare, next, placed, folded⟩
    exact ⟨next, placed, short, spare, folded⟩
  · rintro ⟨next, placed, short, spare, folded⟩
    exact ⟨short, spare, next, placed, folded⟩

theorem firstRequired_eq_none (keys : List (String × Bool)) : ∀ index,
    firstRequired index keys = none ↔ ∀ spare ∈ keys, spare.2 = true := by
  induction keys with
  | nil => simp [firstRequired]
  | cons pair keys ih =>
      intro index
      rcases pair with ⟨key, optional⟩
      cases optional with
      | true => simp [firstRequired, ih]
      | false => simp [firstRequired]

def Ahead (fields : Fields α) (keys : List (String × Bool)) (slots : fields.Slots) : Prop :=
  (keys.map Prod.fst).Nodup ∧
    ∀ pair ∈ keys, fields.isKey pair.1 = true ∧ fields.isFilled pair.1 slots = false

theorem ahead_blank (sound : fields.Sound) : fields.Ahead fields.keys fields.blank :=
  ⟨sound.distinct, fun pair member =>
    ⟨isKey_iff.2 (List.mem_map_of_mem member), sound.unfilled pair.1⟩⟩

theorem ahead_next {key : String} {optional : Bool} {keys : List (String × Bool)}
    {slots next : fields.Slots} {thing : τ} (fills : fields.Fills place)
    (ahead : fields.Ahead ((key, optional) :: keys) slots)
    (placed : place key slots thing = .ok next) : fields.Ahead keys next := by
  rcases ahead with ⟨distinct, each⟩
  rw [List.map_cons, List.nodup_cons] at distinct
  refine ⟨distinct.2, ?_⟩
  intro pair member
  have here := each (key, optional) List.mem_cons_self
  have later := each pair (List.mem_cons_of_mem _ member)
  have differ : ¬ pair.1 = key := by
    intro same
    have inKeys : pair.1 ∈ keys.map Prod.fst := List.mem_map_of_mem member
    rw [same] at inKeys
    exact distinct.1 inKeys
  refine ⟨later.1, ?_⟩
  rw [fills key slots thing next here.1 placed pair.1 later.1]
  simp [differ, later.2]

end

theorem placeInOrder_iff {fields : Fields α} (sound : fields.Sound) (expected : String)
    (keys : List (String × Bool)) : ∀ index slots items final,
    fields.Ahead keys slots →
      (fields.placeInOrder expected index keys slots items = .ok (final, false) ↔
        fields.InOrder fields.placeValue keys slots items final) := by
  induction keys with
  | nil =>
      intro index slots items final _
      rw [inOrder_noKeys]
      cases items with
      | nil => simp [placeInOrder]
      | cons item items => simp [placeInOrder]
  | cons pair keys ih =>
      intro index slots items final ahead
      rcases pair with ⟨key, optional⟩
      have here := ahead.2 (key, optional) List.mem_cons_self
      cases items with
      | nil =>
          rw [inOrder_nothing, ← firstRequired_eq_none _ index, placeInOrder]
          cases firstRequired index ((key, optional) :: keys) with
          | none => simp
          | some missing => simp
      | cons item items =>
          rw [inOrder_cons here.1 here.2, placeInOrder, bind_eq_ok]
          constructor
          · rintro ⟨next, placed, later⟩
            have aheadNext := ahead_next sound.fillsValue ahead placed
            exact ⟨next, placed, (ih _ next items final aheadNext).1 later⟩
          · rintro ⟨next, placed, later⟩
            have aheadNext := ahead_next sound.fillsValue ahead placed
            exact ⟨next, placed, (ih _ next items final aheadNext).2 later⟩

theorem endOfList_iff (isFirst : Bool) (bytes rest : Bytes) :
    endOfList bytes = .ok rest ↔ nextEntry closeList isFirst bytes = .ok (.finished rest) := by
  unfold endOfList nextEntry
  cases skipBlanks bytes with
  | nil => simp
  | cons byte tail =>
      dsimp only
      by_cases closes : byte = closeList
      · simp [closes]
      · simp only [closes, if_false]
        cases isFirst with
        | true => simp
        | false =>
            by_cases goesOn : byte = comma
            · simp only [goesOn, if_true, Bool.false_eq_true, if_false]
              cases skipBlanks tail with
              | nil => simp
              | cons second others =>
                  dsimp only
                  split <;> simp
            · simp [goesOn]

theorem readInOrder_cons {fields : Fields α} {expected : String} {depth index : Nat}
    {pair : String × Bool} {keys : List (String × Bool)} {slots final : fields.Slots}
    {bytes rest : Bytes} :
    fields.readInOrder expected depth index (pair :: keys) slots bytes = .ok (final, rest) ↔
      (nextEntry closeList (index = 0) bytes = .ok (.finished rest) ∧
        (∀ spare ∈ pair :: keys, spare.2 = true) ∧ slots = final) ∨
      ∃ start slot after, nextEntry closeList (index = 0) bytes = .ok (.entry start) ∧
        fields.placeText pair.1 slots depth start = .ok (slot, after) ∧
        fields.readInOrder expected depth (index + 1) keys slot after = .ok (final, rest) := by
  rw [readInOrder, ← firstRequired_eq_none _ index]
  cases nextEntry closeList (index = 0) bytes with
  | error fault => simp
  | ok next =>
      cases next with
      | finished stop =>
          cases firstRequired index (pair :: keys) with
          | none => simp [and_comm]
          | some missing => simp
      | entry start => simp [bind_eq_ok]

theorem readInOrder_iff {fields : Fields α} (sound : fields.Sound) (expected : String)
    (depth : Nat) (keys : List (String × Bool)) : ∀ index slots bytes final rest,
    fields.Ahead keys slots →
      (fields.readInOrder expected depth index keys slots bytes = .ok (final, rest) ↔
        ∃ texts, Entries closeList passOver (index = 0) bytes texts rest ∧
          fields.InOrder (fields.placeTaken depth) keys slots texts final) := by
  induction keys with
  | nil =>
      intro index slots bytes final rest _
      simp only [readInOrder, bind_eq_ok, endOfList_iff (index = 0)]
      constructor
      · rintro ⟨after, stop, same⟩
        obtain ⟨sameSlots, sameRest⟩ := ok_pair_inj same
        rw [sameRest] at stop
        exact ⟨[], .finished stop, inOrder_noKeys.2 ⟨rfl, sameSlots⟩⟩
      · rintro ⟨texts, entries, inOrder⟩
        obtain ⟨none, same⟩ := inOrder_noKeys.1 inOrder
        subst none
        cases entries with
        | finished stop => exact ⟨rest, stop, by rw [same]⟩
  | cons pair keys ih =>
      intro index slots bytes final rest ahead
      have here := ahead.2 pair List.mem_cons_self
      rw [readInOrder_cons]
      constructor
      · rintro (⟨stop, spare, same⟩ | ⟨start, slot, after, place, read, later⟩)
        · exact ⟨[], .finished stop, inOrder_nothing.2 ⟨spare, same⟩⟩
        · have placed : fields.placeTaken depth pair.1 slots start = .ok slot := by
            rw [placeTaken, read]
            rfl
          have aheadNext := ahead_next (sound.fillsText depth) ahead placed
          obtain ⟨texts, entries, inOrder⟩ := (ih (index + 1) slot after final rest aheadNext).1 later
          have skipped := (sound.skips pair.1 slots depth).skipValue read
          have located := passOver_eq_ok.2 ⟨skipped, rfl⟩
          have inOrderWhole := (inOrder_cons here.1 here.2).2 ⟨slot, placed, inOrder⟩
          exact ⟨start :: texts, .entry place located (by simpa using entries), inOrderWhole⟩
      · rintro ⟨texts, entries, inOrder⟩
        cases entries with
        | finished stop =>
            obtain ⟨spare, same⟩ := inOrder_nothing.1 inOrder
            exact Or.inl ⟨stop, spare, same⟩
        | entry place located later =>
            rename_i start after text texts
            obtain ⟨skipped, same⟩ := passOver_eq_ok.1 located
            subst same
            obtain ⟨slot, placed, inOrder⟩ := (inOrder_cons here.1 here.2).1 inOrder
            obtain ⟨⟨slot', after'⟩, read, same⟩ := map_eq_ok.1 placed
            have whole := (sound.skips pair.1 slots depth).rest_eq ⟨after', read⟩ skipped
            have sameSlot : slot' = slot := same
            rw [sameSlot] at whole
            have aheadNext := ahead_next (sound.fillsText depth) ahead placed
            have read := (ih (index + 1) slot after final rest aheadNext).2
              ⟨texts, by simpa using later, inOrder⟩
            exact Or.inr ⟨text, slot, after, place, whole, read⟩

theorem isFilled_put {fields : Fields α}
    {place : String → fields.Slots → τ → Except Fault fields.Slots} (fills : fields.Fills place)
    {key : String} (known : fields.isKey key = true) {slots next : fields.Slots}
    {entry : String × τ} (placed : fields.put place slots entry = .ok next) :
    fields.isFilled key next = (decide (entry.1 = key) || fields.isFilled key slots) ∧
      (entry.1 = key → fields.isFilled key slots = false) := by
  unfold put at placed
  split at placed
  · rename_i isKey
    split at placed
    · simp at placed
    · rename_i unfilled
      rw [fills entry.1 slots entry.2 next isKey placed key known]
      refine ⟨by simp only [eq_comm], ?_⟩
      intro same
      rw [← same]
      exact Bool.eq_false_iff.2 unfilled
  · rename_i notKey
    have differ : ¬ entry.1 = key := fun same => notKey (same ▸ known)
    simp only [Except.ok.injEq] at placed
    rw [placed]
    exact ⟨by simp [differ], fun same => absurd same differ⟩

theorem isFilled_foldlM {fields : Fields α}
    {place : String → fields.Slots → τ → Except Fault fields.Slots} (fills : fields.Fills place)
    {key : String} (known : fields.isKey key = true) (entries : List (String × τ)) :
    ∀ slots final, entries.foldlM (fields.put place) slots = .ok final →
      fields.isFilled key final = true →
        fields.isFilled key slots = true ∨ key ∈ entries.map Prod.fst := by
  induction entries with
  | nil =>
      intro slots final folded filled
      simp only [List.foldlM_nil, pure, Except.pure, Except.ok.injEq] at folded
      rw [folded]
      exact Or.inl filled
  | cons entry entries ih =>
      intro slots final folded filled
      rw [List.foldlM_cons] at folded
      obtain ⟨next, placed, folded⟩ := bind_eq_ok.1 folded
      rcases ih next final folded filled with before | later
      · rw [(isFilled_put fills known placed).1, Bool.or_eq_true, decide_eq_true_eq] at before
        rcases before with same | before
        · exact Or.inr (by simp [same])
        · exact Or.inl before
      · exact Or.inr (List.mem_cons_of_mem _ later)

theorem valuesAt_foldlM {fields : Fields α}
    {place : String → fields.Slots → τ → Except Fault fields.Slots} (fills : fields.Fills place)
    {key : String} (known : fields.isKey key = true) (entries : List (String × τ)) :
    ∀ slots final, entries.foldlM (fields.put place) slots = .ok final →
      (valuesAt key entries).length + (fields.isFilled key slots).toNat ≤ 1 := by
  induction entries with
  | nil =>
      intro slots final _
      rw [valuesAt_nil, List.length_nil, Nat.zero_add]
      exact Bool.toNat_le _
  | cons entry entries ih =>
      intro slots final folded
      rw [List.foldlM_cons] at folded
      obtain ⟨next, placed, folded⟩ := bind_eq_ok.1 folded
      have later := ih next final folded
      obtain ⟨filled, before⟩ := isFilled_put fills known placed
      rw [filled] at later
      rw [valuesAt_cons]
      by_cases same : entry.1 = key
      · simpa [same, before same] using later
      · simpa [same] using later

/-- No known key stands twice among the entries of a record. -/
theorem valuesAt_collect {fields : Fields α} (sound : fields.Sound)
    {place : String → fields.Slots → τ → Except Fault fields.Slots} (fills : fields.Fills place)
    {entries : List (String × τ)} {record : α} (collected : fields.collect place entries = .ok record)
    {key : String} (known : fields.isKey key = true) : (valuesAt key entries).length ≤ 1 := by
  obtain ⟨final, folded, _⟩ := collect_eq_ok.1 collected
  have bound := valuesAt_foldlM fills known entries fields.blank final folded
  rwa [sound.unfilled, Bool.toNat_false, Nat.add_zero] at bound

theorem map_fst_zip_eq_take (keys : List String) : ∀ things : List τ,
    (keys.zip things).map Prod.fst = keys.take things.length := by
  induction keys with
  | nil => simp
  | cons key keys ih =>
      intro things
      cases things with
      | nil => rfl
      | cons thing things => simp [ih]

theorem inOrder_collect {fields : Fields α} (sound : fields.Sound)
    {place : String → fields.Slots → τ → Except Fault fields.Slots} (fills : fields.Fills place)
    {things : List τ} {record : α} :
    (∃ final, fields.InOrder place fields.keys fields.blank things final ∧
        fields.finish final = .ok record) ↔
      things.length ≤ fields.keys.length ∧
        fields.collect place ((fields.keys.map Prod.fst).zip things) = .ok record := by
  rw [collect_eq_ok]
  constructor
  · rintro ⟨final, ⟨short, _, folded⟩, finished⟩
    exact ⟨short, final, folded, finished⟩
  · rintro ⟨short, final, folded, finished⟩
    refine ⟨final, ⟨short, ?_, folded⟩, finished⟩
    intro spare member
    cases required : spare.2 with
    | true => rfl
    | false =>
        have inKeys : (spare.1, false) ∈ fields.keys := by
          rw [← required]
          exact List.mem_of_mem_drop member
        have known : fields.isKey spare.1 = true :=
          isKey_iff.2 (List.mem_map_of_mem (List.mem_of_mem_drop member))
        have filled := sound.demands final record finished spare.1 inKeys
        rcases isFilled_foldlM fills known _ fields.blank final folded filled with before | inZip
        · rw [sound.unfilled] at before
          exact before
        · have inFront : spare.1 ∈ (fields.keys.take things.length).map Prod.fst := by
            rwa [map_fst_zip_eq_take, ← List.map_take] at inZip
          have distinct := sound.distinct
          rw [← List.take_append_drop things.length fields.keys, List.map_append,
            List.nodup_append] at distinct
          exact absurd rfl (distinct.2.2 spare.1 inFront spare.1 (List.mem_map_of_mem member))

/-! Either form. -/

def Ordered (fields : Fields α) (things : List τ) (entries : List (String × τ)) : Prop :=
  things.length ≤ fields.keys.length ∧ entries = (fields.keys.map Prod.fst).zip things

/-- The entries that a text offers to a record. -/
def Offers (fields : Fields α) (text : Bytes) (entries : List (String × Bytes)) (rest : Bytes) :
    Prop :=
  RecordOutline text entries rest ∨
    ∃ texts, ListOutline text texts rest ∧ fields.Ordered texts entries

def Holds (fields : Fields α) (value : Value) (entries : Members) : Prop :=
  value = .record entries ∨ ∃ items, value = .list items ∧ fields.Ordered items entries

theorem readList_iff {fields : Fields α} (sound : fields.Sound) {expected : String} {depth : Nat}
    {bytes rest : Bytes} {record : α} :
    fields.readList expected depth bytes = .ok (record, rest) ↔
      ∃ texts entries, Entries closeList passOver true bytes texts rest ∧
        fields.Ordered texts entries ∧
        fields.collect (fields.placeTaken depth) entries = .ok record := by
  have loop := fun final rest => readInOrder_iff sound expected depth fields.keys 0 fields.blank
    bytes final rest (ahead_blank sound)
  simp only [readList, bind_eq_ok, Prod.exists, loop, decide_true]
  constructor
  · rintro ⟨final, after, ⟨texts, entries, inOrder⟩, value, finished, same⟩
    simp only [Except.ok.injEq, Prod.mk.injEq] at same
    rw [← same.1, ← same.2]
    rcases (inOrder_collect sound (sound.fillsText depth)).1 ⟨final, inOrder, finished⟩ with
      ⟨short, collected⟩
    exact ⟨texts, _, entries, ⟨short, rfl⟩, collected⟩
  · rintro ⟨texts, _, entries, ⟨short, same⟩, collected⟩
    subst same
    rcases (inOrder_collect sound (sound.fillsText depth)).2 ⟨short, collected⟩ with
      ⟨final, inOrder, finished⟩
    exact ⟨final, rest, ⟨texts, entries, inOrder⟩, record, finished, rfl⟩

theorem ofItems_iff {fields : Fields α} (sound : fields.Sound) {expected : String}
    {items : List Value} {record : α} :
    fields.ofItems expected items = .ok record ↔
      ∃ entries, fields.Ordered items entries ∧
        fields.collect fields.placeValue entries = .ok record := by
  have placed := fun final => placeInOrder_iff sound expected fields.keys 0 fields.blank items final
    (ahead_blank sound)
  simp only [ofItems, bind_eq_ok, Prod.exists]
  constructor
  · rintro ⟨final, leftOver, inOrder, value, finished, same⟩
    cases leftOver with
    | true => simp at same
    | false =>
        simp only [Bool.false_eq_true, if_false, Except.ok.injEq] at same
        rw [← same]
        rcases (inOrder_collect sound sound.fillsValue).1 ⟨final, (placed final).1 inOrder, finished⟩
          with ⟨short, collected⟩
        exact ⟨_, ⟨short, rfl⟩, collected⟩
  · rintro ⟨_, ⟨short, same⟩, collected⟩
    subst same
    rcases (inOrder_collect sound sound.fillsValue).2 ⟨short, collected⟩ with
      ⟨final, inOrder, finished⟩
    exact ⟨final, false, (placed final).2 inOrder, record, finished, by simp⟩

end Fields

namespace Codec

theorem record_ofText_iff {fields : Fields α} (sound : fields.Sound) {expected : String}
    {depth : Nat} {text rest : Bytes} {record : α} :
    (Codec.record expected fields).ofText depth text = .ok (record, rest) ↔
      ∃ inner entries, depth = inner + 1 ∧ fields.Offers text entries rest ∧
        fields.collect (fields.placeTaken inner) entries = .ok record := by
  simp only [Codec.record, bind_eq_ok, Prod.exists, Fields.Offers, RecordOutline, ListOutline]
  constructor
  · rintro ⟨found, inside, read, later⟩
    split at later
    · simp at later
    · simp at later
    · rename_i inner
      obtain ⟨texts, entries, outline, ordered, collected⟩ := (Fields.readList_iff sound).1 later
      exact ⟨inner, entries, rfl, Or.inr ⟨texts, ⟨inside, read, outline⟩, ordered⟩, collected⟩
    · rename_i inner
      obtain ⟨entries, outline, collected⟩ := (Fields.readMembers_iff sound).1 later
      exact ⟨inner, entries, rfl, Or.inl ⟨inside, read, outline⟩, collected⟩
    · simp [wrongType] at later
  · rintro ⟨inner, entries, same, ⟨inside, read, outline⟩ | ⟨texts, ⟨inside, read, outline⟩, ordered⟩,
      collected⟩
    · subst same
      exact ⟨.record, inside, read, (Fields.readMembers_iff sound).2 ⟨entries, outline, collected⟩⟩
    · subst same
      exact ⟨.list, inside, read,
        (Fields.readList_iff sound).2 ⟨texts, entries, outline, ordered, collected⟩⟩

theorem record_ofValue_iff {fields : Fields α} (sound : fields.Sound) {expected : String}
    {value : Value} {record : α} :
    (Codec.record expected fields).ofValue value = .ok record ↔
      ∃ entries, fields.Holds value entries ∧
        fields.collect fields.placeValue entries = .ok record := by
  simp only [Fields.Holds]
  cases value with
  | record members =>
      change fields.ofMembers members = .ok record ↔ _
      simp [Fields.ofMembers_eq]
  | list items =>
      change fields.ofItems expected items = .ok record ↔ _
      rw [Fields.ofItems_iff sound]
      simp
  | null | boolean | number | text => simp [Codec.record, wrongType]

end Codec
end LedgerWire.Json
