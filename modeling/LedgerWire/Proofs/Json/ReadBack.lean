import LedgerWire.Proofs.Json.Loop

/-!
JSON values read back from their own text, as far as the limit on open lists and records allows.
Floating-point numbers are left out: their text is not covered here.
-/

namespace LedgerWire.Json

mutual

/-- No number in the value is a floating-point number. -/
def Value.Exact : Value → Prop
  | .number (.float _) => False
  | .list items => exactItems items
  | .record members => exactMembers members
  | _ => True

def exactItems : List Value → Prop
  | [] => True
  | item :: rest => item.Exact ∧ exactItems rest

def exactMembers : Members → Prop
  | [] => True
  | (_, value) :: rest => value.Exact ∧ exactMembers rest

end

theorem exactItems_iff (items : List Value) : exactItems items ↔ ∀ item ∈ items, item.Exact := by
  induction items with
  | nil => simp [exactItems]
  | cons item rest ih => simp [exactItems, ih]

theorem exactMembers_iff (members : Members) :
    exactMembers members ↔ ∀ member ∈ members, member.2.Exact := by
  induction members with
  | nil => simp [exactMembers]
  | cons member rest ih =>
      rcases member with ⟨key, value⟩
      simp only [exactMembers, ih, List.mem_cons, forall_eq_or_imp]

theorem heightOfItems_le {items : List Value} {bound : Nat} :
    heightOfItems items ≤ bound ↔ ∀ item ∈ items, item.height ≤ bound := by
  induction items with
  | nil => simp [heightOfItems]
  | cons item rest ih => simp only [heightOfItems, Nat.max_le, ih, List.mem_cons, forall_eq_or_imp]

theorem heightOfMembers_le {members : Members} {bound : Nat} :
    heightOfMembers members ≤ bound ↔ ∀ member ∈ members, member.2.height ≤ bound := by
  induction members with
  | nil => simp [heightOfMembers]
  | cons member rest ih =>
      rcases member with ⟨key, value⟩
      simp only [heightOfMembers, Nat.max_le, ih, List.mem_cons, forall_eq_or_imp]

/-! How a value is read, by the scalar or bracket that is found first. -/

theorem readValue_zero (bytes : Bytes) : readValue 0 bytes =
    readFound bytes >>= fun (found, rest) =>
      match found with
      | .null => .ok (.null, rest)
      | .boolean value => .ok (.boolean value, rest)
      | .number value => .ok (.number value, rest)
      | .text value => .ok (.text value, rest)
      | .list | .record => .error .malformed := by
  delta readValue
  change (readFound bytes >>= _) = _
  congr 1
  funext ⟨found, rest⟩
  cases found <;> rfl

theorem readValue_succ (depth : Nat) (bytes : Bytes) : readValue (depth + 1) bytes =
    readFound bytes >>= fun (found, rest) =>
      match found with
      | .null => .ok (.null, rest)
      | .boolean value => .ok (.boolean value, rest)
      | .number value => .ok (.number value, rest)
      | .text value => .ok (.text value, rest)
      | .list =>
        readAll closeList (readItem (readValue depth)) [] rest >>= fun (items, rest) =>
          .ok (.list items.reverse, rest)
      | .record =>
        readAll closeRecord (readMember (readValue depth)) [] rest >>= fun (members, rest) =>
          .ok (.record members.reverse, rest) := by
  delta readValue
  change (readFound bytes >>= _) = _
  congr 1
  funext ⟨found, rest⟩
  cases found <;> rfl

theorem readValue_scalar {value : Value} (depth : Nat) {bytes rest : Bytes}
    (found : readFound bytes = .ok (value.found, rest)) (notList : value.found ≠ .list)
    (notRecord : value.found ≠ .record) : readValue depth bytes = .ok (value, rest) := by
  cases depth with
  | zero =>
      rw [readValue_zero, found, ok_bind]
      cases value with
      | list items => exact absurd rfl notList
      | record members => exact absurd rfl notRecord
      | null | boolean | number | text => rfl
  | succ depth =>
      rw [readValue_succ, found, ok_bind]
      cases value with
      | list items => exact absurd rfl notList
      | record members => exact absurd rfl notRecord
      | null | boolean | number | text => rfl

/-! What the text of a value begins with. -/

theorem readFound_quote (tail : Bytes) : readFound (quote :: tail) =
    (readString tail).map fun taken => (.text taken.1, taken.2) := by
  rw [readFound, skipBlanks_of_head quote tail (by decide)]
  simp only [quote, isDigit]
  cases readString tail <;> rfl

theorem readFound_text (text : String) (rest : Bytes) :
    readFound (stringText text ++ rest) = .ok (.text text, rest) := by
  obtain ⟨body, shape, read⟩ := readString_stringText text rest
  rw [shape, readFound_quote, read]
  rfl

theorem readFound_whole (value : Int) (fits : -0x8000000000000000 ≤ value ∧ value < 0x10000000000000000) (rest : Bytes)
    (stops : Delimits rest) :
    readFound ((Number.whole value fits).bytes ++ rest) = .ok (.number (.whole value fits), rest) := by
  obtain ⟨first, tail, shape, numeric⟩ := bytes_whole_head value fits
  have read := readNumber_whole value fits rest stops
  rw [shape, List.cons_append] at read ⊢
  rw [readFound_numeric numeric, read]
  rfl

theorem Value.begins (value : Value) (exact : value.Exact) (close : UInt8)
    (isClose : close = closeList ∨ close = closeRecord) : Begins close value.bytes := by
  have apart : ∀ byte : UInt8, byte ≠ closeList → byte ≠ closeRecord → byte ≠ close := by
    intro byte notList notRecord
    rcases isClose with same | same
    · rwa [same]
    · rwa [same]
  cases value with
  | null => exact ⟨0x6E, nullTail, rfl, by decide, apart _ (by decide) (by decide)⟩
  | boolean truth =>
      cases truth with
      | true => exact ⟨0x74, trueTail, rfl, by decide, apart _ (by decide) (by decide)⟩
      | false => exact ⟨0x66, falseTail, rfl, by decide, apart _ (by decide) (by decide)⟩
  | number number =>
      cases number with
      | float value => simp [Value.Exact] at exact
      | whole value fits =>
          obtain ⟨first, tail, shape, numeric⟩ := bytes_whole_head value fits
          obtain ⟨notBlank, _, _, _, notList, notRecord, _⟩ := numeric_apart numeric
          exact ⟨first, tail, by rw [Value.bytes, shape], notBlank, apart _ notList notRecord⟩
  | text text => exact ⟨quote, _, rfl, by decide, apart _ (by decide) (by decide)⟩
  | list items => exact ⟨openList, _, rfl, by decide, apart _ (by decide) (by decide)⟩
  | record members => exact ⟨openRecord, _, rfl, by decide, apart _ (by decide) (by decide)⟩

theorem itemsBytes_eq (items : List Value) : itemsBytes items = items.map Value.bytes := by
  induction items with
  | nil => rfl
  | cons item rest ih => rw [itemsBytes, ih, List.map_cons]

def memberBytes (member : String × Value) : Bytes := stringText member.1 ++ colon :: member.2.bytes

theorem membersBytes_eq (members : Members) : membersBytes members = members.map memberBytes := by
  induction members with
  | nil => rfl
  | cons member rest ih =>
      rcases member with ⟨key, value⟩
      rw [membersBytes, ih, List.map_cons, memberBytes]

theorem foldl_cons_reverse {α : Type} (items : List α) : ∀ start : List α,
    items.foldl (fun earlier item => item :: earlier) start = items.reverse ++ start := by
  induction items with
  | nil => intro start; rfl
  | cons item rest ih => intro start; simp [ih]

theorem delimits_after {close : UInt8} (isClose : close = closeList ∨ close = closeRecord)
    (after : UInt8) (rest : Bytes) (kind : after = comma ∨ after = close) :
    Delimits (after :: rest) := by
  rcases kind with isComma | closes
  · rw [isComma]
    exact delimits_cons _ _ (by decide)
  rcases isClose with list | record
  · rw [closes, list]
    exact delimits_cons _ _ (by decide)
  · rw [closes, record]
    exact delimits_cons _ _ (by decide)

theorem readKey_stringText (text : String) (rest : Bytes) :
    readKey (stringText text ++ rest) = .ok (text, rest) := by
  obtain ⟨body, shape, read⟩ := readString_stringText text rest
  rw [shape, readKey]
  simp only [if_true, read]

theorem readColon_cons (rest : Bytes) : readColon (colon :: rest) = .ok rest := by
  rw [readColon, skipBlanks_of_head colon rest (by decide)]
  simp only [if_true]

theorem readFound_openList (rest : Bytes) : readFound (openList :: rest) = .ok (.list, rest) := by
  rw [readFound, skipBlanks_of_head openList rest (by decide)]
  simp [openList, quote, isDigit]

theorem readFound_openRecord (rest : Bytes) : readFound (openRecord :: rest) = .ok (.record, rest) := by
  rw [readFound, skipBlanks_of_head openRecord rest (by decide)]
  simp [openRecord, openList, quote, isDigit]

theorem readsEntry_item {depth : Nat} {item : Value}
    (reads : ∀ rest, Delimits rest → readValue depth (item.bytes ++ rest) = .ok (item, rest)) :
    ReadsEntry closeList (readItem (readValue depth)) Value.bytes
      (fun earlier item => item :: earlier) item := by
  intro earlier after rest kind
  rw [readItem, reads _ (delimits_after (Or.inl rfl) after rest kind)]
  rfl

theorem readsEntry_member {depth : Nat} {member : String × Value}
    (reads : ∀ rest, Delimits rest →
      readValue depth (member.2.bytes ++ rest) = .ok (member.2, rest)) :
    ReadsEntry closeRecord (readMember (readValue depth)) memberBytes
      (fun earlier member => member :: earlier) member := by
  intro earlier after rest kind
  have content := reads _ (delimits_after (Or.inr rfl) after rest kind)
  have shape : memberBytes member ++ after :: rest =
      stringText member.1 ++ colon :: (member.2.bytes ++ after :: rest) := by simp [memberBytes]
  rw [shape, readMember, readKey_stringText]
  simp only [ok_bind, readColon_cons, content]

theorem readFound_bytes (value : Value) (exact : value.Exact) (notList : value.found ≠ .list)
    (notRecord : value.found ≠ .record) (rest : Bytes) (stops : Delimits rest) :
    readFound (value.bytes ++ rest) = .ok (value.found, rest) := by
  cases value with
  | null => rfl
  | boolean truth =>
      cases truth with
      | true => rfl
      | false => rfl
  | number number =>
      cases number with
      | float value => simp [Value.Exact] at exact
      | whole value fits => exact readFound_whole value fits rest stops
  | text text => exact readFound_text text rest
  | list items => exact absurd rfl notList
  | record members => exact absurd rfl notRecord

/-- A value reads back from its text at every depth that it fits. -/
theorem readValue_bytes (value : Value) (exact : value.Exact) (depth : Nat) (rest : Bytes)
    (fits : value.height ≤ depth) (stops : Delimits rest) :
    readValue depth (value.bytes ++ rest) = .ok (value, rest) := by
  -- The limit goes down with every list or record that is entered, as the height does.
  induction depth generalizing value rest with
  | zero =>
      have notList : value.found ≠ .list := by
        intro isList
        cases value <;> simp [Value.found, Value.height] at isList fits
      have notRecord : value.found ≠ .record := by
        intro isRecord
        cases value <;> simp [Value.found, Value.height] at isRecord fits
      exact readValue_scalar 0 (readFound_bytes value exact notList notRecord rest stops) notList
        notRecord
  | succ depth ih =>
      cases value with
      | list items =>
          rw [Value.Exact, exactItems_iff] at exact
          have fitsEach : ∀ item ∈ items, item.height ≤ depth :=
            heightOfItems_le.1 (by simpa [Value.height] using fits)
          have text : (Value.list items).bytes ++ rest =
              openList :: (between comma (items.map Value.bytes) ++ closeList :: rest) := by
            simp [Value.bytes, itemsBytes_eq]
          have loop := readAll_between (by decide) (by decide) items [] rest
            (fun item member => item.begins (exact item member) closeList (Or.inl rfl))
            (fun item member => readsEntry_item fun rest stops =>
              ih item (exact item member) rest (fitsEach item member) stops)
          rw [text, readValue_succ, readFound_openList]
          simp only [ok_bind, loop, foldl_cons_reverse, List.append_nil, List.reverse_reverse]
      | record members =>
          rw [Value.Exact, exactMembers_iff] at exact
          have fitsEach : ∀ member ∈ members, member.2.height ≤ depth :=
            heightOfMembers_le.1 (by simpa [Value.height] using fits)
          have text : (Value.record members).bytes ++ rest =
              openRecord :: (between comma (members.map memberBytes) ++ closeRecord :: rest) := by
            simp [Value.bytes, membersBytes_eq]
          have begins : ∀ member ∈ members, Begins closeRecord (memberBytes member) :=
            fun member _ => ⟨quote, _, rfl, by decide, by decide⟩
          have loop := readAll_between (by decide) (by decide) members [] rest begins
            (fun member inside => readsEntry_member fun rest stops =>
              ih member.2 (exact member inside) rest (fitsEach member inside) stops)
          rw [text, readValue_succ, readFound_openRecord]
          simp only [ok_bind, loop, foldl_cons_reverse, List.append_nil, List.reverse_reverse]
      | null | boolean | number | text =>
          exact readValue_scalar _
            (readFound_bytes _ exact (by simp [Value.found]) (by simp [Value.found]) rest stops)
            (by simp [Value.found]) (by simp [Value.found])

end LedgerWire.Json
