import LedgerWire.Json.Union
import LedgerWire.Proofs.Json.Layout

/-!
What each kind of codec takes from a text, in terms of the outline of the text and of what the
codecs that it is made of take. All of them take exactly what is passed over.
-/

namespace LedgerWire.Json

variable {α β : Type}

/-! How a text begins, by what is found there. -/

theorem readFound_null_iff {text rest : Bytes} : readFound text = .ok (.null, rest) ↔
    ∃ tail, skipBlanks text = 0x6E :: tail ∧ readWord nullTail tail = .ok ((), rest) := by
  rw [readFound_eq_ok]
  constructor
  · rintro ⟨_, tail, shape, opens⟩
    cases opens with
    | null word => exact ⟨tail, shape, word⟩
  · rintro ⟨tail, shape, word⟩
    exact ⟨_, tail, shape, .null word⟩

theorem found_eq_null {text rest : Bytes} {found : Found} (read : readFound text = .ok (found, rest))
    (begins : (skipBlanks text).head? = some 0x6E) : found = .null := by
  obtain ⟨byte, tail, shape, opens⟩ := readFound_eq_ok.1 read
  simp only [shape, List.head?_cons, Option.some.injEq] at begins
  cases opens with
  | null => rfl
  | number numeric => exact absurd begins (numeric_apart numeric).2.1
  | yes | no | text | list | record => exact absurd begins (by decide)

theorem readFound_text_iff {text rest : Bytes} {content : String} :
    readFound text = .ok (.text content, rest) ↔
      ∃ tail, skipBlanks text = quote :: tail ∧ readString tail = .ok (content, rest) := by
  rw [readFound_eq_ok]
  constructor
  · rintro ⟨_, tail, shape, opens⟩
    cases opens with
    | text contentRead => exact ⟨tail, shape, contentRead⟩
  · rintro ⟨tail, shape, contentRead⟩
    exact ⟨_, tail, shape, .text contentRead⟩

theorem readFound_number_iff {text rest : Bytes} {number : Number} :
    readFound text = .ok (.number number, rest) ↔
      ∃ byte tail, skipBlanks text = byte :: tail ∧ (byte = 0x2D || isDigit byte) = true ∧
        readNumber (byte :: tail) = .ok (number, rest) := by
  rw [readFound_eq_ok]
  constructor
  · rintro ⟨byte, tail, shape, opens⟩
    cases opens with
    | number numeric numberRead => exact ⟨byte, tail, shape, numeric, numberRead⟩
  · rintro ⟨byte, tail, shape, numeric, numberRead⟩
    exact ⟨byte, tail, shape, .number numeric numberRead⟩

theorem readFound_record_iff {text rest : Bytes} :
    readFound text = .ok (.record, rest) ↔ skipBlanks text = openRecord :: rest := by
  rw [readFound_eq_ok]
  constructor
  · rintro ⟨_, _, shape, opens⟩
    cases opens with
    | record => exact shape
  · intro shape
    exact ⟨_, _, shape, .record⟩

/-! Values of any shape. -/

theorem skips_readValue (depth : Nat) : Skips (readValue depth) := by
  induction depth with
  | zero =>
      intro bytes value rest read
      rw [readValue_zero] at read
      obtain ⟨⟨found, after⟩, foundRead, later⟩ := bind_eq_ok.1 read
      cases found with
      | list | record => simp at later
      | null | boolean | number | text =>
          rw [← (ok_pair_inj later).2]
          exact skipped_scalar foundRead rfl
  | succ depth ih =>
      intro bytes value rest read
      rw [readValue_succ] at read
      obtain ⟨⟨found, inside⟩, foundRead, later⟩ := bind_eq_ok.1 read
      cases found with
      | list =>
          obtain ⟨⟨items, after⟩, loop, same⟩ := bind_eq_ok.1 later
          obtain ⟨texts, _, entries, _, _⟩ := (readItems_iff ih).1 loop
          rw [← (ok_pair_inj same).2]
          exact ListOutline.skipped ⟨inside, foundRead, entries⟩
      | record =>
          obtain ⟨⟨members, after⟩, loop, same⟩ := bind_eq_ok.1 later
          obtain ⟨outline, _, entries, _, _⟩ := (readPairs_iff ih).1 loop
          rw [← (ok_pair_inj same).2]
          exact RecordOutline.skipped ⟨inside, foundRead, entries⟩
      | null | boolean | number | text =>
          rw [← (ok_pair_inj later).2]
          exact skipped_scalar foundRead rfl

theorem readValue_skipBlanks (depth : Nat) (text : Bytes) :
    readValue depth (skipBlanks text) = readValue depth text := by
  cases depth with
  | zero => rw [readValue_zero, readValue_zero, readFound_skipBlanks]
  | succ depth => rw [readValue_succ, readValue_succ, readFound_skipBlanks]

theorem readFound_of_readValue {depth : Nat} {text rest : Bytes} {value : Value}
    (read : readValue depth text = .ok (value, rest)) : Takes readFound text value.found := by
  cases depth with
  | zero =>
      rw [readValue_zero] at read
      obtain ⟨⟨found, after⟩, foundRead, later⟩ := bind_eq_ok.1 read
      cases found with
      | list | record => simp at later
      | null | boolean | number | text =>
          rw [← (ok_pair_inj later).1]
          exact ⟨after, foundRead⟩
  | succ depth =>
      rw [readValue_succ] at read
      obtain ⟨⟨found, after⟩, foundRead, later⟩ := bind_eq_ok.1 read
      cases found with
      | list | record =>
          obtain ⟨_, _, same⟩ := bind_eq_ok.1 later
          rw [← (ok_pair_inj same).1]
          exact ⟨after, foundRead⟩
      | null | boolean | number | text =>
          rw [← (ok_pair_inj later).1]
          exact ⟨after, foundRead⟩

theorem readValue_list_iff {depth : Nat} {text rest : Bytes} {items : List Value} :
    readValue depth text = .ok (.list items, rest) ↔
      ∃ inner texts, depth = inner + 1 ∧ ListOutline text texts rest ∧
        List.Forall₂ (Takes (readValue inner)) texts items := by
  constructor
  · intro read
    cases depth with
    | zero =>
        rw [readValue_zero] at read
        obtain ⟨⟨found, after⟩, _, later⟩ := bind_eq_ok.1 read
        cases found <;> simp at later
    | succ depth =>
        rw [readValue_succ] at read
        obtain ⟨⟨found, inside⟩, foundRead, later⟩ := bind_eq_ok.1 read
        cases found with
        | list =>
            obtain ⟨⟨values, after⟩, loop, same⟩ := bind_eq_ok.1 later
            simp only [Except.ok.injEq, Prod.mk.injEq, Value.list.injEq] at same
            rcases (readItems_iff (skips_readValue depth)).1 loop with
              ⟨texts, values', entries, related, reversed⟩
            rw [reversed, List.reverse_reverse] at same
            rw [← same.1, ← same.2]
            exact ⟨depth, texts, rfl, ⟨inside, foundRead, entries⟩, related⟩
        | record =>
            obtain ⟨_, _, same⟩ := bind_eq_ok.1 later
            simp at same
        | null | boolean | number | text => simp at later
  · rintro ⟨inner, texts, same, ⟨inside, foundRead, entries⟩, related⟩
    subst same
    have loop := (readItems_iff (skips_readValue inner)).2 ⟨texts, items, entries, related, rfl⟩
    rw [readValue_succ, foundRead]
    simp only [ok_bind, loop, List.reverse_reverse]

theorem readValue_record_iff {depth : Nat} {text rest : Bytes} {members : Members} :
    readValue depth text = .ok (.record members, rest) ↔
      ∃ inner outline, depth = inner + 1 ∧ RecordOutline text outline rest ∧
        List.Forall₂ (UnderKey (Takes (readValue inner))) outline members := by
  constructor
  · intro read
    cases depth with
    | zero =>
        rw [readValue_zero] at read
        obtain ⟨⟨found, after⟩, _, later⟩ := bind_eq_ok.1 read
        cases found <;> simp at later
    | succ depth =>
        rw [readValue_succ] at read
        obtain ⟨⟨found, inside⟩, foundRead, later⟩ := bind_eq_ok.1 read
        cases found with
        | record =>
            obtain ⟨⟨pairs, after⟩, loop, same⟩ := bind_eq_ok.1 later
            simp only [Except.ok.injEq, Prod.mk.injEq, Value.record.injEq] at same
            rcases (readPairs_iff (skips_readValue depth)).1 loop with
              ⟨outline, pairs', entries, related, reversed⟩
            rw [reversed, List.reverse_reverse] at same
            rw [← same.1, ← same.2]
            exact ⟨depth, outline, rfl, ⟨inside, foundRead, entries⟩, related⟩
        | list =>
            obtain ⟨_, _, same⟩ := bind_eq_ok.1 later
            simp at same
        | null | boolean | number | text => simp at later
  · rintro ⟨inner, outline, same, ⟨inside, foundRead, entries⟩, related⟩
    subst same
    have loop := (readPairs_iff (skips_readValue inner)).2 ⟨outline, members, entries, related, rfl⟩
    rw [readValue_succ, foundRead]
    simp only [ok_bind, loop, List.reverse_reverse]

/-! Records of one member, and where a list or a record ends. -/

theorem readValue_oneItem_iff {depth : Nat} {text rest : Bytes} {item : Value} :
    readValue depth text = .ok (.list [item], rest) ↔
      ∃ inner place, depth = inner + 1 ∧ ListOutline text [place] rest ∧
        Takes (readValue inner) place item := by
  rw [readValue_list_iff]
  constructor
  · rintro ⟨inner, texts, sameDepth, outline, related⟩
    obtain ⟨place, _, taken, none, same⟩ := List.forall₂_cons_right_iff.1 related
    rw [same, List.forall₂_nil_right_iff.1 none] at outline
    exact ⟨inner, place, sameDepth, outline, taken⟩
  · rintro ⟨inner, place, sameDepth, outline, taken⟩
    exact ⟨inner, [place], sameDepth, outline, .cons taken .nil⟩

theorem readValue_oneMember_iff {depth : Nat} {text rest : Bytes} {name : String}
    {content : Value} :
    readValue depth text = .ok (.record [(name, content)], rest) ↔
      ∃ inner place, depth = inner + 1 ∧ RecordOutline text [(name, place)] rest ∧
        Takes (readValue inner) place content := by
  rw [readValue_record_iff]
  constructor
  · rintro ⟨inner, outline, sameDepth, found, related⟩
    obtain ⟨⟨name', place⟩, _, ⟨sameName, taken⟩, none, same⟩ :=
      List.forall₂_cons_right_iff.1 related
    dsimp only at sameName taken
    rw [same, List.forall₂_nil_right_iff.1 none, sameName] at found
    exact ⟨inner, place, sameDepth, found, taken⟩
  · rintro ⟨inner, place, sameDepth, found, taken⟩
    exact ⟨inner, [(name, place)], sameDepth, found, .cons ⟨rfl, taken⟩ .nil⟩

theorem RecordOutline.members {inner : Nat} {text rest after : Bytes}
    {outline : List (String × Bytes)} {value : Value} (found : RecordOutline text outline after)
    (read : readValue (inner + 1) text = .ok (value, rest)) :
    ∃ members, value = .record members ∧
      List.Forall₂ (UnderKey (Takes (readValue inner))) outline members := by
  have isRecord := (readFound_of_readValue read).unique (found.elim fun inside both => ⟨inside, both.1⟩)
  cases value with
  | record members =>
      obtain ⟨_, outline', same, found', related⟩ := readValue_record_iff.1 read
      rw [found'.unique found, ← Nat.succ.inj same] at related
      exact ⟨members, rfl, related⟩
  | null | boolean | number | text | list => simp [Value.found] at isRecord

theorem ListOutline.items {inner : Nat} {text rest after : Bytes} {texts : List Bytes} {value : Value}
    (found : ListOutline text texts after)
    (read : readValue (inner + 1) text = .ok (value, rest)) :
    ∃ items, value = .list items ∧ List.Forall₂ (Takes (readValue inner)) texts items := by
  have isList := (readFound_of_readValue read).unique (found.elim fun inside both => ⟨inside, both.1⟩)
  cases value with
  | list items =>
      obtain ⟨_, texts', same, found', related⟩ := readValue_list_iff.1 read
      rw [found'.unique found, ← Nat.succ.inj same] at related
      exact ⟨items, rfl, related⟩
  | null | boolean | number | text | record => simp [Value.found] at isList

theorem RecordOutline.oneMember {inner : Nat} {text rest after : Bytes} {name : String}
    {place : Bytes} {value : Value} (found : RecordOutline text [(name, place)] after)
    (read : readValue (inner + 1) text = .ok (value, rest)) :
    ∃ content, value = .record [(name, content)] ∧ Takes (readValue inner) place content := by
  obtain ⟨members, isRecord, related⟩ := found.members read
  obtain ⟨⟨name', content⟩, _, ⟨sameName, taken⟩, none, same⟩ := List.forall₂_cons_left_iff.1 related
  dsimp only at sameName taken
  exact ⟨content, by rw [isRecord, same, List.forall₂_nil_left_iff.1 none, sameName], taken⟩

theorem nextEntry_finished_iff {close : UInt8} {isFirst : Bool} {bytes rest : Bytes} :
    nextEntry close isFirst bytes = .ok (.finished rest) ↔ skipBlanks bytes = close :: rest := by
  unfold nextEntry
  cases skipBlanks bytes with
  | nil => simp
  | cons byte tail =>
      by_cases closes : byte = close
      · simp [closes]
      · simp only [closes, if_false, List.cons.injEq, false_and, iff_false]
        split
        · simp
        split
        · split
          · simp
          · split <;> simp
        · simp

theorem nextEntry_first_iff {close : UInt8} {bytes start : Bytes} :
    nextEntry close true bytes = .ok (.entry start) ↔
      skipBlanks bytes = start ∧ ∃ byte tail, start = byte :: tail ∧ byte ≠ close := by
  unfold nextEntry
  cases skipBlanks bytes with
  | nil =>
      simp only [reduceCtorEq, false_iff, not_and, not_exists]
      rintro same byte tail shape _
      rw [← same] at shape
      simp at shape
  | cons byte tail =>
      by_cases closes : byte = close
      · simp only [closes, if_true, Except.ok.injEq, reduceCtorEq, false_iff, not_and, not_exists]
        rintro same other rest shape
        rw [← same] at shape
        simp only [List.cons.injEq] at shape
        exact fun differ => differ shape.1.symm
      · simp only [closes, if_false, if_true, Except.ok.injEq, Next.entry.injEq]
        constructor
        · intro same
          exact ⟨same, byte, tail, same.symm, closes⟩
        · rintro ⟨same, _⟩
          exact same

theorem endOfRecord_iff {bytes rest : Bytes} :
    endOfRecord bytes = .ok rest ↔ skipBlanks bytes = closeRecord :: rest := by
  unfold endOfRecord
  cases skipBlanks bytes with
  | nil => simp
  | cons byte tail =>
      by_cases closes : byte = closeRecord
      · simp [closes]
      · simp [closes]

theorem readKey_cons {bytes rest : Bytes} {key : String} (read : readKey bytes = .ok (key, rest)) :
    ∃ tail, bytes = quote :: tail := by
  cases bytes with
  | nil => simp [readKey] at read
  | cons byte tail =>
      simp only [readKey] at read
      split at read
      · rename_i isQuote
        exact ⟨tail, by rw [isQuote]⟩
      · simp at read

theorem entries_one_iff {bytes text rest : Bytes} {key : String} :
    Entries closeRecord passMember true bytes [(key, text)] rest ↔
      ∃ afterKey after, readKey (skipBlanks bytes) = .ok (key, afterKey) ∧
        readColon afterKey = .ok text ∧ skipValue text = .ok ((), after) ∧
        endOfRecord after = .ok rest := by
  constructor
  · intro entries
    cases entries with
    | entry next located later =>
        cases later with
        | finished stop =>
            obtain ⟨afterKey, keyRead, colonRead, skipped⟩ := passMember_eq_ok.1 located
            rw [← (nextEntry_first_iff.1 next).1] at keyRead
            exact ⟨afterKey, _, keyRead, colonRead, skipped,
              endOfRecord_iff.2 (nextEntry_finished_iff.1 stop)⟩
  · rintro ⟨afterKey, after, keyRead, colonRead, skipped, ended⟩
    obtain ⟨tail, shape⟩ := readKey_cons keyRead
    refine .entry (nextEntry_first_iff.2 ⟨shape, quote, tail, rfl, by decide⟩) ?_
      (.finished (nextEntry_finished_iff.2 (endOfRecord_iff.1 ended)))
    rw [shape] at keyRead
    exact passMember_eq_ok.2 ⟨afterKey, keyRead, colonRead, skipped⟩

theorem Arm.mem_of_named {arms : List (Arm α)} {name : String} {arm : Arm α}
    (named : Arm.named arms name = .ok arm) : arm ∈ arms := by
  unfold Arm.named at named
  split at named
  · rename_i found
    rw [Except.ok.inj named] at found
    exact List.mem_of_find?_eq_some found
  · simp at named

theorem readDocument_eq_ok {reader : Reader α} {bytes : Bytes} {value : α} :
    readDocument reader bytes = .ok value ↔
      ∃ rest, reader bytes = .ok (value, rest) ∧ skipBlanks rest = [] := by
  simp only [readDocument, bind_eq_ok, Prod.exists]
  constructor
  · rintro ⟨other, rest, read, later⟩
    split at later
    · rename_i ended
      rw [← Except.ok.inj later]
      exact ⟨rest, read, List.isEmpty_iff.1 ended⟩
    · simp at later
  · rintro ⟨rest, read, ended⟩
    exact ⟨value, rest, read, by rw [ended]; rfl⟩

/-- A value whose lists and records are not too many reads back from its text. -/
theorem Value.ofBytes_bytes (value : Value) (exact : value.Exact) (fits : value.height ≤ depthLimit) :
    Value.ofBytes value.bytes = .ok value := by
  have read := readValue_bytes value exact depthLimit [] fits delimits_nil
  rw [List.append_nil] at read
  exact readDocument_eq_ok.2 ⟨[], read, rfl⟩

namespace Codec

theorem decode_eq_ok {codec : Codec α} {bytes : Bytes} {value : α} :
    codec.decode bytes = .ok value ↔
      ∃ rest, codec.ofText depthLimit bytes = .ok (value, rest) ∧ skipBlanks rest = [] :=
  readDocument_eq_ok

theorem scalar_ofText_iff {toValue : α → Value} {visit : Found → Except Fault α} {depth : Nat}
    {text rest : Bytes} {value : α} :
    (scalar toValue visit).ofText depth text = .ok (value, rest) ↔
      ∃ found, readFound text = .ok (found, rest) ∧ visit found = .ok value := by
  simp only [scalar, bind_eq_ok, Prod.exists]
  constructor
  · rintro ⟨found, after, read, visited, accepted, same⟩
    obtain ⟨sameValue, sameRest⟩ := ok_pair_inj same
    rw [← sameValue, ← sameRest]
    exact ⟨found, read, accepted⟩
  · rintro ⟨found, read, accepted⟩
    exact ⟨found, rest, read, value, accepted, rfl⟩

theorem nullable_ofText_iff {item : Codec α} {depth : Nat} {text rest : Bytes}
    {value : Option α} :
    item.nullable.ofText depth text = .ok (value, rest) ↔
      (value = none ∧ readFound text = .ok (.null, rest)) ∨
        ((skipBlanks text).head? ≠ some 0x6E ∧
          ∃ held, value = some held ∧ item.ofText depth (skipBlanks text) = .ok (held, rest)) := by
  simp only [nullable, readFound_null_iff]
  split
  · rename_i tail shape
    simp only [shape, List.head?_cons, ne_eq, not_true_eq_false, false_and, or_false,
      bind_eq_ok, Prod.exists, List.cons.injEq, true_and, exists_eq_left']
    constructor
    · rintro ⟨_, after, word, same⟩
      obtain ⟨sameValue, sameRest⟩ := ok_pair_inj same
      rw [← sameRest]
      exact ⟨sameValue.symm, word⟩
    · rintro ⟨sameValue, word⟩
      exact ⟨(), rest, word, by rw [sameValue]⟩
  · rename_i other notNull
    simp only [bind_eq_ok, Prod.exists]
    constructor
    · rintro ⟨held, after, read, same⟩
      obtain ⟨sameValue, sameRest⟩ := ok_pair_inj same
      refine Or.inr ⟨?_, held, sameValue.symm, by rw [← sameRest]; exact read⟩
      intro isNull
      cases shape : skipBlanks text with
      | nil => simp [shape] at isNull
      | cons byte tail =>
          simp only [shape, List.head?_cons, Option.some.injEq] at isNull
          exact notNull tail (by rw [shape, isNull])
    · rintro (⟨_, tail, shape, _⟩ | ⟨_, held, sameValue, read⟩)
      · exact absurd shape (notNull tail)
      · exact ⟨held, rest, read, by rw [sameValue]⟩

theorem list_ofText_iff {item : Codec α} (skips : ∀ depth, Skips (item.ofText depth)) {depth : Nat}
    {text rest : Bytes} {values : List α} :
    item.list.ofText depth text = .ok (values, rest) ↔
      ∃ inner texts, depth = inner + 1 ∧ ListOutline text texts rest ∧
        List.Forall₂ (Takes (item.ofText inner)) texts values := by
  simp only [list, bind_eq_ok, Prod.exists, ListOutline]
  constructor
  · rintro ⟨found, inside, read, later⟩
    split at later
    · simp at later
    · rename_i inner
      obtain ⟨⟨items, after⟩, loop, same⟩ := bind_eq_ok.1 later
      obtain ⟨texts, taken, entries, related, reversed⟩ := (readItems_iff (skips inner)).1 loop
      obtain ⟨sameValues, sameRest⟩ := ok_pair_inj same
      rw [reversed, List.reverse_reverse] at sameValues
      rw [← sameValues, ← sameRest]
      exact ⟨inner, texts, rfl, ⟨inside, read, entries⟩, related⟩
    · simp [wrongType] at later
  · rintro ⟨inner, texts, same, ⟨inside, read, entries⟩, related⟩
    subst same
    have loop := (readItems_iff (skips inner)).2 ⟨texts, values, entries, related, rfl⟩
    refine ⟨.list, inside, read, ?_⟩
    simp only [loop, ok_bind, List.reverse_reverse]

theorem refine_ofText_iff {base : Codec α} {widen : β → α} {narrow : α → Except String β}
    {depth : Nat} {text rest : Bytes} {value : β} :
    (base.refine widen narrow).ofText depth text = .ok (value, rest) ↔
      ∃ wide, base.ofText depth text = .ok (wide, rest) ∧ narrow wide = .ok value := by
  simp only [refine, bind_eq_ok, Prod.exists]
  constructor
  · rintro ⟨wide, after, read, later⟩
    split at later
    · rename_i narrowed
      obtain ⟨sameValue, sameRest⟩ := ok_pair_inj later
      rw [sameValue] at narrowed
      rw [← sameRest]
      exact ⟨wide, read, narrowed⟩
    · simp [refuse] at later
  · rintro ⟨wide, read, narrowed⟩
    exact ⟨wide, rest, read, by rw [narrowed]⟩

theorem refine_ofValue_iff {base : Codec α} {widen : β → α} {narrow : α → Except String β}
    {value : Value} {result : β} :
    (base.refine widen narrow).ofValue value = .ok result ↔
      ∃ wide, base.ofValue value = .ok wide ∧ narrow wide = .ok result := by
  simp only [refine, bind_eq_ok]
  constructor
  · rintro ⟨wide, read, later⟩
    split at later
    · rename_i narrowed
      rw [Except.ok.inj later] at narrowed
      exact ⟨wide, read, narrowed⟩
    · simp [refuse] at later
  · rintro ⟨wide, read, narrowed⟩
    exact ⟨wide, read, by rw [narrowed]⟩

theorem freeForm_ofText_iff {depth : Nat} {text rest : Bytes} {form : FreeForm} :
    freeForm.ofText depth text = .ok (form, rest) ↔
      ∃ value, readValue depth text = .ok (value, rest) ∧ FreeForm.ofValue value = form := by
  simp only [freeForm, bind_eq_ok, Prod.exists]
  constructor
  · rintro ⟨value, after, read, same⟩
    obtain ⟨sameForm, sameRest⟩ := ok_pair_inj same
    rw [← sameRest]
    exact ⟨value, read, sameForm⟩
  · rintro ⟨value, read, same⟩
    exact ⟨value, rest, read, by rw [same]⟩

theorem freeRecord_ofText_iff {depth : Nat} {text rest : Bytes} {form : FreeRecord} :
    freeRecord.ofText depth text = .ok (form, rest) ↔
      ∃ members, readValue depth text = .ok (.record members, rest) ∧
        FreeRecord.ofMembers members = form := by
  simp only [freeRecord, bind_eq_ok, Prod.exists, readValue_record_iff, RecordOutline]
  constructor
  · rintro ⟨found, inside, read, later⟩
    split at later
    · simp at later
    · rename_i inner
      obtain ⟨⟨pairs, after⟩, loop, same⟩ := bind_eq_ok.1 later
      rcases (readPairs_iff (skips_readValue inner)).1 loop with
        ⟨outline, members, entries, related, reversed⟩
      obtain ⟨sameForm, sameRest⟩ := ok_pair_inj same
      rw [reversed, List.reverse_reverse] at sameForm
      rw [← sameRest]
      exact ⟨members, ⟨inner, outline, rfl, ⟨inside, read, entries⟩, related⟩, sameForm⟩
    · simp [wrongType] at later
  · rintro ⟨members, ⟨inner, outline, same, ⟨inside, read, entries⟩, related⟩, sameForm⟩
    subst same
    have loop := (readPairs_iff (skips_readValue inner)).2 ⟨outline, members, entries, related, rfl⟩
    refine ⟨.record, inside, read, ?_⟩
    simp only [loop, ok_bind, List.reverse_reverse, sameForm]

theorem union_ofText_iff {toValue : α → Value} {arms : List (Arm α)}
    (skips : ∀ arm ∈ arms, ∀ depth, Skips (arm.contentOfText depth)) {depth : Nat}
    {text rest : Bytes} {value : α} :
    (Codec.union toValue arms).ofText depth text = .ok (value, rest) ↔
      (∃ name arm, readFound text = .ok (.text name, rest) ∧ Arm.named arms name = .ok arm ∧
        arm.alone = .ok value) ∨
      ∃ inner name content arm, depth = inner + 1 ∧ RecordOutline text [(name, content)] rest ∧
        Arm.named arms name = .ok arm ∧ Takes (arm.contentOfText inner) content value := by
  simp only [Codec.union, readFound_text_iff, RecordOutline, readFound_record_iff, entries_one_iff]
  cases shape : skipBlanks text with
  | nil => simp
  | cons byte tail =>
      simp only [List.cons.injEq]
      by_cases isText : byte = quote
      · simp only [isText, if_true, bind_eq_ok, Prod.exists]
        constructor
        · rintro ⟨name, after, read, arm, named, held, alone, same⟩
          obtain ⟨sameValue, sameRest⟩ := ok_pair_inj same
          rw [sameValue] at alone
          rw [sameRest] at read
          exact Or.inl ⟨name, arm, ⟨tail, ⟨trivial, rfl⟩, read⟩, named, alone⟩
        · rintro (⟨name, arm, ⟨_, ⟨_, same⟩, read⟩, named, alone⟩ |
            ⟨_, _, _, _, _, ⟨_, ⟨isRecord, _⟩, _⟩, _⟩)
          · rw [← same] at read
            exact ⟨name, rest, read, arm, named, value, alone, rfl⟩
          · exact absurd isRecord (by decide)
      · simp only [isText, if_false]
        by_cases isRecord : byte = openRecord
        · simp only [isRecord, if_true]
          constructor
          · intro read
            cases depth with
            | zero => simp at read
            | succ inner =>
                simp only [bind_eq_ok, Prod.exists] at read
                rcases read with ⟨name, afterKey, keyRead, arm, named, content, colonRead, held, after,
                  taken, behind, ended, same⟩
                obtain ⟨sameValue, sameRest⟩ := ok_pair_inj same
                subst sameValue
                subst sameRest
                have skipped := (skips arm (Arm.mem_of_named named) inner).skipValue taken
                exact Or.inr ⟨inner, name, content, arm, rfl,
                  ⟨tail, ⟨trivial, rfl⟩, afterKey, after, keyRead, colonRead, skipped, ended⟩, named,
                  after, taken⟩
          · rintro (⟨name, arm, ⟨_, ⟨impossible, _⟩, _⟩, _⟩ |
              ⟨inner, name, content, arm, same, ⟨inside, ⟨_, sameTail⟩, afterKey, after, keyRead,
                colonRead, skipped, ended⟩, named, taken⟩)
            · exact absurd impossible (by decide)
            · subst same
              subst sameTail
              have whole := (skips arm (Arm.mem_of_named named) inner).rest_eq taken skipped
              simp only [keyRead, named, colonRead, whole, ended, ok_bind]
        · simp only [isRecord, if_false, false_and, exists_false, and_false, false_or, reduceCtorEq]

end Codec
end LedgerWire.Json
