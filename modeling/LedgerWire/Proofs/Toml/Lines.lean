import LedgerWire.Proofs.Toml.Text
import LedgerWire.Toml.Document

/-!
Lines that give keys their values. Written one after another under keys of their own, they come back
as one table in the same order.
-/

namespace LedgerWire.Toml

def isBare (key : String) : Bool := !key.toList.isEmpty && key.toList.all isBareKey

def writeEntries (settings : List (String × String)) : String :=
  String.join (settings.map fun setting => writeEntry setting.1 setting.2)

theorem isBare_iff {key : String} :
    isBare key = true ↔ key.toList ≠ [] ∧ ∀ value ∈ key.toList, isBareKey value = true := by
  simp [isBare]

/-! Tables. -/

theorem find?_none_iff {key : String} {entries : Entries} :
    find? key entries = none ↔ key ∉ entries.map Prod.fst := by
  induction entries with
  | nil => simp [find?]
  | cons entry rest ih =>
      obtain ⟨other, node⟩ := entry
      by_cases same : key = other
      · simp [find?, same]
      · simp [find?, same, ih]

theorem put_new {key : String} {entries : Entries} (new : key ∉ entries.map Prod.fst) (node : Node) :
    put key node entries = entries ++ [(key, node)] := by
  induction entries with
  | nil => rfl
  | cons entry rest ih =>
      obtain ⟨other, held⟩ := entry
      rw [List.map_cons, List.mem_cons, not_or] at new
      rw [put, if_neg new.1, ih new.2]
      rfl

theorem addUnder_new {key : String} {entries : Entries} (new : key ∉ entries.map Prod.fst)
    (node : Node) : addUnder [] [] key node entries = some (entries ++ [(key, node)]) := by
  simp [addUnder, addValue, update, find?_none_iff.2 new, put_new new]

/-! One line. -/

theorem isBareKey_apart {value : Char} (bare : isBareKey value = true) :
    value ∉ [' ', '\t', '\n', '\r', '[', '#', '"', '\'', '\uFEFF'] := by
  intro member
  simp only [List.mem_cons, List.not_mem_nil, or_false] at member
  rcases member with rfl | rfl | rfl | rfl | rfl | rfl | rfl | rfl | rfl
  all_goals exact absurd bare (by decide)

theorem skipBlanks_bare {value : Char} (bare : isBareKey value = true) (rest : List Char) :
    skipBlanks (value :: rest) = value :: rest := by
  have apart := isBareKey_apart bare
  simp only [List.mem_cons, not_or] at apart
  simp [skipBlanks, isBlank, apart.1, apart.2.1]

theorem scanKeyPart_bare {name : List Char} (filled : name ≠ [])
    (bare : ∀ value ∈ name, isBareKey value = true) (rest : List Char) :
    scanKeyPart (name ++ ' ' :: rest) = some (String.ofList name, ' ' :: rest) := by
  have taken : (name ++ ' ' :: rest).takeWhile isBareKey = name := by
    rw [List.takeWhile_append_of_pos bare]
    simp [isBareKey]
  have left : (name ++ ' ' :: rest).dropWhile isBareKey = ' ' :: rest := by
    rw [List.dropWhile_append_of_pos bare]
    simp [isBareKey]
  cases name with
  | nil => exact absurd rfl filled
  | cons first others =>
      have apart := isBareKey_apart (bare first List.mem_cons_self)
      rw [scanKeyPart.eq_3 _ (by simp_all) (by simp_all), taken, left]

theorem scanKey_bare {name : List Char} (filled : name ≠ [])
    (bare : ∀ value ∈ name, isBareKey value = true) (rest : List Char) :
    scanKey (name ++ ' ' :: '=' :: rest) = some ([], String.ofList name, '=' :: rest) := by
  have start : skipBlanks (name ++ ' ' :: '=' :: rest) = name ++ ' ' :: '=' :: rest := by
    cases name with
    | nil => exact absurd rfl filled
    | cons first others => exact skipBlanks_bare (bare first List.mem_cons_self) _
  have gap : skipBlanks (' ' :: '=' :: rest) = '=' :: rest := by simp [skipBlanks, isBlank]
  have parts (bound : Nat) : scanKeyParts (bound + 1) (name ++ ' ' :: '=' :: rest) =
      some ([String.ofList name], '=' :: rest) := by
    rw [scanKeyParts, start, scanKeyPart_bare filled bare]
    simp [gap]
  rw [scanKey, parts]
  simp [nestingLimit]

theorem writeChars_begins (text : List Char) :
    ∃ rest, writeChars text = '"' :: rest ∨ writeChars text = '\'' :: rest := by
  unfold writeChars
  split
  · exact ⟨_, .inl rfl⟩
  · exact ⟨_, .inr rfl⟩
  · exact ⟨_, .inl rfl⟩
  · exact ⟨_, .inr rfl⟩

theorem scanNode_written (depth : Nat) (text rest : List Char) :
    scanNode depth (skipBlanks (' ' :: (writeChars text ++ '\n' :: rest))) =
      some (.text (String.ofList text), '\n' :: rest) := by
  have read := scanString_written text rest
  obtain ⟨others, begins | begins⟩ := writeChars_begins text
  all_goals
    rw [begins, List.cons_append] at read
    simp [begins, skipBlanks, isBlank, scanNode, read]

theorem writeEntry_toList (key text : String) :
    (writeEntry key text).toList =
      key.toList ++ ' ' :: '=' :: ' ' :: (writeChars text.toList ++ ['\n']) := by
  simp [writeEntry, writeString]

theorem scanLine_written {key : String} (bare : isBare key = true) {entries : Entries}
    (new : key ∉ entries.map Prod.fst) (text : String) (rest : List Char) :
    scanLine [] entries ((writeEntry key text).toList ++ rest) =
      some ([], entries ++ [(key, .text text)], rest) := by
  obtain ⟨filled, bare⟩ := isBare_iff.1 bare
  have named := scanKey_bare filled bare (' ' :: (writeChars text.toList ++ '\n' :: rest))
  rw [String.ofList_toList] at named
  have valued := scanNode_written nestingLimit text.toList rest
  rw [String.ofList_toList] at valued
  have line : (writeEntry key text).toList ++ rest =
      key.toList ++ ' ' :: '=' :: ' ' :: (writeChars text.toList ++ '\n' :: rest) := by
    rw [writeEntry_toList]
    simp
  rw [line]
  cases name : key.toList with
  | nil => exact absurd name filled
  | cons first others =>
      rw [name] at named bare
      have apart := isBareKey_apart (bare first List.mem_cons_self)
      simp only [List.mem_cons, not_or] at apart
      have start := skipBlanks_bare (bare first List.mem_cons_self)
      have further (tail : List Char) : finishLine (first :: tail) = none := by
        simp_all [finishLine, skipComment, endOfLine, newline?]
      rw [List.cons_append] at named ⊢
      rw [scanLine, start]
      split
      · simp_all
      · simp_all
      · simp only [further, named, Option.bind_eq_bind, Option.bind_some, expect, if_true, valued,
          addUnder_new new]
        rfl

/-! All lines. -/

theorem writeEntry_filled (key text : String) : (writeEntry key text).toList ≠ [] := by
  simp [writeEntry_toList]

theorem scanLines_written (settings : List (String × String))
    (bare : ∀ setting ∈ settings, isBare setting.1 = true) (entries : Entries)
    (apart : (entries.map Prod.fst ++ settings.map Prod.fst).Nodup) (bound : Nat)
    (enough : settings.length ≤ bound) :
    scanLines bound [] entries
        (settings.flatMap fun setting => (writeEntry setting.1 setting.2).toList) =
      some (entries ++ settings.map fun setting => (setting.1, .text setting.2)) := by
  induction settings generalizing entries bound with
  | nil => simp [scanLines]
  | cons setting rest ih =>
      obtain ⟨key, text⟩ := setting
      obtain _ | bound := bound
      · simp at enough
      have new : key ∉ entries.map Prod.fst := by
        intro member
        exact (List.nodup_append.1 apart).2.2 key member key (by simp) rfl
      have line := scanLine_written (bare (key, text) List.mem_cons_self) new text
        (rest.flatMap fun setting => (writeEntry setting.1 setting.2).toList)
      have others := ih (fun setting member => bare setting (List.mem_cons_of_mem _ member))
        (entries ++ [(key, .text text)]) (by simpa using apart) bound (by simpa using enough)
      have filled := List.append_ne_nil_of_left_ne_nil (writeEntry_filled key text)
        (rest.flatMap fun setting => (writeEntry setting.1 setting.2).toList)
      rw [List.flatMap_cons, scanLines.eq_3 _ _ _ _ filled, line]
      simp only [Option.bind_eq_bind, Option.bind_some, others, List.append_assoc, List.map_cons,
        List.singleton_append]

theorem writeEntries_toList (settings : List (String × String)) :
    (writeEntries settings).toList =
      settings.flatMap fun setting => (writeEntry setting.1 setting.2).toList := by
  rw [writeEntries, String.toList_join, List.flatMap_map]

theorem length_le_writeEntries (settings : List (String × String)) :
    settings.length ≤ (writeEntries settings).toList.length := by
  rw [writeEntries_toList]
  induction settings with
  | nil => exact Nat.le_refl 0
  | cons setting rest ih =>
      have filled := List.length_pos_iff.2 (writeEntry_filled setting.1 setting.2)
      rw [List.flatMap_cons, List.length_append, List.length_cons]
      omega

theorem read_writeEntries {settings : List (String × String)}
    (bare : ∀ setting ∈ settings, isBare setting.1 = true) (apart : (settings.map Prod.fst).Nodup) :
    read (writeEntries settings) = some (settings.map fun setting => (setting.1, .text setting.2)) := by
  have lines := scanLines_written settings bare [] (by simpa using apart) _
    (length_le_writeEntries settings)
  rw [← writeEntries_toList, List.nil_append] at lines
  have noMark (rest : List Char) : (writeEntries settings).toList ≠ '\uFEFF' :: rest := by
    rw [writeEntries_toList]
    cases settings with
    | nil => simp
    | cons setting others =>
        obtain ⟨filled, bareName⟩ := isBare_iff.1 (bare setting List.mem_cons_self)
        rw [List.flatMap_cons, writeEntry_toList]
        cases name : setting.1.toList with
        | nil => exact absurd name filled
        | cons first tail =>
            rw [name] at bareName
            have apart := isBareKey_apart (bareName first List.mem_cons_self)
            simp only [List.mem_cons, not_or] at apart
            simp [apart]
  unfold read
  split
  · simp_all
  · exact lines

end LedgerWire.Toml
