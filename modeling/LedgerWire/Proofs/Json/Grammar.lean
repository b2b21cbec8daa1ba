import LedgerWire.Proofs.Json.FloatLiteral
import LedgerWire.Proofs.Json.Outline
import LedgerWire.Proofs.Json.StringLiteral

/-!
The grammar of complete values, with blanks wherever they may stand and lists and records nested to
any depth. It is wide in its strings: an escape need not stand for a character, nor bytes for a
text. Whatever is complete is passed over to its end.
-/

namespace LedgerWire.Json

variable {τ : Type}

def Blank (bytes : Bytes) : Prop := ∀ byte ∈ bytes, isBlank byte = true

inductive LooseBody : Bytes → Prop
  | nil : LooseBody []
  | plain {byte : UInt8} {rest : Bytes} (notQuote : byte ≠ quote) (notBackslash : byte ≠ backslash)
      (shown : ¬ byte < 0x20) (later : LooseBody rest) : LooseBody (byte :: rest)
  | letter {letter : UInt8} {value : Char} {rest : Bytes} (known : (letter, value) ∈ escapes)
      (later : LooseBody rest) : LooseBody (backslash :: letter :: rest)
  | unit {text rest : Bytes} {unit : Nat} (written : UnitText text unit) (later : LooseBody rest) :
      LooseBody (text ++ rest)

def Quoted (literal : Bytes) : Prop := ∃ body, literal = quote :: (body ++ [quote]) ∧ LooseBody body

/-- Entries with commas between them, up to the closing bracket. -/
inductive Sequence (close : UInt8) : Bool → List Bytes → Bytes → Prop
  | finished {isFirst : Bool} {gap : Bytes} (blank : Blank gap) :
      Sequence close isFirst [] (gap ++ [close])
  | first {gap entry text : Bytes} {entries : List Bytes} (blank : Blank gap)
      (later : Sequence close false entries text) :
      Sequence close true (entry :: entries) (gap ++ (entry ++ text))
  | later {gap space entry text : Bytes} {entries : List Bytes} (blank : Blank gap)
      (blankToo : Blank space) (later : Sequence close false entries text) :
      Sequence close false (entry :: entries) (gap ++ comma :: (space ++ (entry ++ text)))

structure MemberText where
  key : Bytes
  gap : Bytes
  space : Bytes
  value : Bytes
  blankGap : Blank gap
  blankSpace : Blank space

def MemberText.bytes (member : MemberText) : Bytes :=
  member.key ++ (member.gap ++ colon :: (member.space ++ member.value))

def nullText : Bytes := 0x6E :: nullTail
def trueText : Bytes := 0x74 :: trueTail
def falseText : Bytes := 0x66 :: falseTail

/-- The text of one complete value. -/
inductive ValueText : Bytes → Prop
  | word {text : Bytes} (known : text ∈ [nullText, trueText, falseText]) : ValueText text
  | number {text : Bytes} {literal : Literal} (written : LiteralText text literal) : ValueText text
  | string {text : Bytes} (quoted : Quoted text) : ValueText text
  | list {items : List Bytes} {text : Bytes} (each : ∀ item ∈ items, ValueText item)
      (sequence : Sequence closeList true items text) : ValueText (openList :: text)
  | record {members : List MemberText} {text : Bytes} (keys : ∀ member ∈ members, Quoted member.key)
      (values : ∀ member ∈ members, ValueText member.value)
      (sequence : Sequence closeRecord true (members.map MemberText.bytes) text) :
      ValueText (openRecord :: text)

/-! Blanks. -/

theorem skipBlanks_blank {gap : Bytes} (blank : Blank gap) (rest : Bytes) :
    skipBlanks (gap ++ rest) = skipBlanks rest :=
  List.dropWhile_append_of_pos blank

theorem skipBlanks_split (bytes : Bytes) : ∃ gap, Blank gap ∧ bytes = gap ++ skipBlanks bytes :=
  ⟨bytes.takeWhile isBlank, fun _ member => List.mem_takeWhile_imp member,
    (List.takeWhile_append_dropWhile).symm⟩

theorem skipBlanks_eq_nil {bytes : Bytes} : skipBlanks bytes = [] ↔ Blank bytes :=
  List.dropWhile_eq_nil_iff

theorem nextEntry_blank {gap : Bytes} (blank : Blank gap) (close : UInt8) (isFirst : Bool)
    (rest : Bytes) : nextEntry close isFirst (gap ++ rest) = nextEntry close isFirst rest := by
  rw [nextEntry, nextEntry, skipBlanks_blank blank]

theorem readColon_blank {gap : Bytes} (blank : Blank gap) (rest : Bytes) :
    readColon (gap ++ rest) = readColon rest := by
  rw [readColon, readColon, skipBlanks_blank blank]

theorem delimits_blank {gap : Bytes} (blank : Blank gap) {rest : Bytes} (stops : Delimits rest) :
    Delimits (gap ++ rest) := by
  cases gap with
  | nil => exact stops
  | cons byte gap =>
      have isBlankByte := blank byte List.mem_cons_self
      simp only [isBlank, Bool.or_eq_true, decide_eq_true_eq] at isBlankByte
      refine delimits_cons _ _ ?_
      rcases isBlankByte with ((rfl | rfl) | rfl) | rfl
      all_goals decide

theorem blank_nil : Blank [] := by
  intro byte member
  simp at member

/-! Strings. -/

theorem looseBody_plains {front rest : Bytes} (later : LooseBody rest)
    (plain : ∀ byte ∈ front, byte ≠ quote ∧ byte ≠ backslash ∧ ¬ byte < 0x20) :
    LooseBody (front ++ rest) := by
  induction front with
  | nil => exact later
  | cons byte front ih =>
      rw [List.forall_mem_cons] at plain
      obtain ⟨⟨notQuote, notBackslash, shown⟩, others⟩ := plain
      exact .plain notQuote notBackslash shown (ih others)

theorem looseBody_of_spells {body : Bytes} {text : List Char} (spells : Spells body text) :
    LooseBody body := by
  induction spells with
  | nil => exact .nil
  | cons piece _ ih =>
      cases piece with
      | plain shown notQuote notBackslash =>
          exact looseBody_plains ih (encodeChar_plain shown notQuote notBackslash)
      | letter known => exact .letter known ih
      | unit written _ => exact .unit written ih
      | units first second _ _ =>
          rw [List.append_assoc]
          exact .unit first (.unit second ih)

theorem Denotes.quoted {literal : Bytes} {text : String} (denotes : Denotes literal text) :
    Quoted literal := by
  obtain ⟨body, shape, spells⟩ := denotes
  exact ⟨body, shape, looseBody_of_spells spells⟩

theorem denotes_stringText (text : String) : Denotes (stringText text) text := by
  obtain ⟨body, shape, read⟩ := readString_stringText text []
  rw [List.append_nil] at shape
  obtain ⟨spelled, same, spells⟩ := readString_iff.1 read
  exact ⟨spelled, by rw [shape, same], spells⟩

theorem skipString_body {body : Bytes} (loose : LooseBody body) (rest : Bytes) :
    skipString (body ++ quote :: rest) = .ok rest := by
  induction loose with
  | nil => exact skipString_quote rest
  | plain notQuote notBackslash shown _ ih =>
      rw [List.cons_append, skipString_plain _ _ notQuote notBackslash shown, ih]
  | letter known _ ih =>
      obtain ⟨notUnit, byte, escape, _⟩ := escapeValue?_of_mem known
      rw [List.cons_append, List.cons_append, skipString_escape _ _ _ notUnit escape, ih]
  | unit written _ ih =>
      cases written with
      | digits areDigits =>
          have value := unitValue?_eq_some.2 (.digits areDigits)
          exact (skipString_unit _ _ _ _ _ _ value).trans ih

theorem readString_moved {body rest after : Bytes} {text : String} (loose : LooseBody body)
    (read : readString (body ++ quote :: rest) = .ok (text, after)) :
    after = rest ∧ ∀ other, readString (body ++ quote :: other) = .ok (text, other) := by
  have skipped := skipString_of_readString read
  rw [skipString_body loose] at skipped
  have sameRest := Except.ok.inj skipped
  obtain ⟨spelled, sameBytes, spells⟩ := readString_iff.1 read
  rw [← sameRest] at sameBytes
  have sameBody := List.append_cancel_right sameBytes
  refine ⟨sameRest.symm, fun other => readString_iff.2 ⟨body, rfl, ?_⟩⟩
  rw [sameBody]
  exact spells

theorem readKey_moved {key rest after : Bytes} {name : String} (quoted : Quoted key)
    (read : readKey (key ++ rest) = .ok (name, after)) :
    after = rest ∧ ∀ other, readKey (key ++ other) = .ok (name, other) := by
  obtain ⟨body, rfl, loose⟩ := quoted
  have key_eq : ∀ behind : Bytes, readKey (quote :: (body ++ [quote]) ++ behind) =
      readString (body ++ quote :: behind) := by
    intro behind
    simp [readKey]
  rw [key_eq] at read
  obtain ⟨sameRest, moved⟩ := readString_moved loose read
  exact ⟨sameRest, fun other => by rw [key_eq, moved]⟩

theorem readKey_denotes {key : Bytes} {name : String} (denotes : Denotes key name) (rest : Bytes) :
    readKey (key ++ rest) = .ok (name, rest) := by
  obtain ⟨body, rfl, spells⟩ := denotes
  have read := readString_iff.2 ⟨body, @rfl _ (body ++ quote :: rest), spells⟩
  simp [readKey, read]

/-! Entries. -/

theorem Sequence.delimits {close : UInt8} (isClose : close = closeList ∨ close = closeRecord)
    {entries : List Bytes} {text : Bytes} (sequence : Sequence close false entries text)
    (rest : Bytes) : Delimits (text ++ rest) := by
  cases sequence with
  | finished blank =>
      rw [List.append_assoc]
      exact delimits_blank blank (delimits_after isClose close rest (Or.inr rfl))
  | later blank _ _ =>
      rw [List.append_assoc]
      exact delimits_blank blank (delimits_after isClose comma _ (Or.inl rfl))

section

variable {close : UInt8} {locate : Reader τ} {isFirst : Bool} {entries : List Bytes}
  {gap space entry text : Bytes}

theorem not_blank_close (isClose : close = closeList ∨ close = closeRecord) :
    isBlank close = false ∧ comma ≠ close := by
  rcases isClose with rfl | rfl
  all_goals decide

theorem nextEntry_at_close (isClose : close = closeList ∨ close = closeRecord) (blank : Blank gap)
    (isFirst : Bool) (rest : Bytes) :
    nextEntry close isFirst (gap ++ [close] ++ rest) = .ok (.finished rest) := by
  rw [List.append_assoc, nextEntry_blank blank]
  exact nextEntry_finished close isFirst rest (not_blank_close isClose).1

theorem nextEntry_at_first (begins : Begins close entry) (blank : Blank gap) (rest : Bytes) :
    nextEntry close true (gap ++ (entry ++ text) ++ rest) = .ok (.entry (entry ++ (text ++ rest))) := by
  rw [List.append_assoc, List.append_assoc, nextEntry_blank blank]
  exact nextEntry_first close entry (text ++ rest) begins

theorem nextEntry_at_later (isClose : close = closeList ∨ close = closeRecord)
    (begins : Begins close entry) (blank : Blank gap) (blankToo : Blank space) (rest : Bytes) :
    nextEntry close false (gap ++ comma :: (space ++ (entry ++ text)) ++ rest) =
      .ok (.entry (entry ++ (text ++ rest))) := by
  have spaced : nextEntry close false (comma :: (space ++ (entry ++ (text ++ rest)))) =
      nextEntry close false (comma :: (entry ++ (text ++ rest))) := by
    rw [nextEntry, nextEntry, skipBlanks_of_head comma _ (by decide),
      skipBlanks_of_head comma _ (by decide)]
    dsimp only
    rw [skipBlanks_blank blankToo]
    simp only [(not_blank_close isClose).2, Bool.false_eq_true, if_false]
  rw [List.append_assoc, List.cons_append, List.append_assoc, List.append_assoc,
    nextEntry_blank blank, spaced]
  exact nextEntry_later close entry (text ++ rest) begins (not_blank_close isClose).2

def LocatedAt (locate : Reader τ) (entry : Bytes) (place : τ) : Prop :=
  ∃ behind, Delimits behind ∧ locate (entry ++ behind) = .ok (place, behind)

theorem Sequence.located (isClose : close = closeList ∨ close = closeRecord)
    (sequence : Sequence close isFirst entries text)
    (begins : ∀ entry ∈ entries, Begins close entry)
    (each : ∀ entry ∈ entries, ∀ behind, Delimits behind →
      ∃ place, locate (entry ++ behind) = .ok (place, behind)) (rest : Bytes) :
    ∃ places, Entries close locate isFirst (text ++ rest) places rest ∧
      List.Forall₂ (LocatedAt locate) entries places := by
  induction sequence with
  | finished blank =>
      exact ⟨[], .finished (nextEntry_at_close isClose blank _ rest), .nil⟩
  | @first gap entry text entries blank later ih =>
      rw [List.forall_mem_cons] at begins each
      obtain ⟨places, found, located⟩ := ih begins.2 each.2
      have stops := later.delimits isClose rest
      obtain ⟨place, here⟩ := each.1 (text ++ rest) stops
      exact ⟨place :: places, .entry (nextEntry_at_first begins.1 blank rest) here found,
        .cons ⟨_, stops, here⟩ located⟩
  | @later gap space entry text entries blank blankToo later ih =>
      rw [List.forall_mem_cons] at begins each
      obtain ⟨places, found, located⟩ := ih begins.2 each.2
      have stops := later.delimits isClose rest
      obtain ⟨place, here⟩ := each.1 (text ++ rest) stops
      exact ⟨place :: places, .entry (nextEntry_at_later isClose begins.1 blank blankToo rest) here found,
        .cons ⟨_, stops, here⟩ located⟩

/-- A reader that takes `entry` alike before any two texts that do not go on with it. -/
def Moves (locate : Reader τ) (alike : τ → τ → Prop) (entry : Bytes) : Prop :=
  ∀ behind other place after, Delimits behind → Delimits other →
    locate (entry ++ behind) = .ok (place, after) →
      after = behind ∧ ∃ moved, locate (entry ++ other) = .ok (moved, other) ∧ alike place moved

theorem Moves.goesOn {alike : τ → τ → Prop} (moves : Moves locate alike entry)
    {here there rest other after : Bytes} {places : List τ}
    (stops : Delimits (text ++ rest)) (stopsToo : Delimits (text ++ other))
    (hereNext : nextEntry close isFirst here = .ok (.entry (entry ++ (text ++ rest))))
    (thereNext : nextEntry close isFirst there = .ok (.entry (entry ++ (text ++ other))))
    (others : ∀ {behind : List τ}, Entries close locate false (text ++ rest) behind after →
      after = rest ∧ ∃ moved, Entries close locate false (text ++ other) moved other ∧
        List.Forall₂ alike behind moved)
    (found : Entries close locate isFirst here places after) :
    after = rest ∧ ∃ moved, Entries close locate isFirst there moved other ∧
      List.Forall₂ alike places moved := by
  cases found with
  | finished stop => simp [hereNext] at stop
  | entry next located behind =>
      rw [hereNext] at next
      obtain rfl := Next.entry.inj (Except.ok.inj next)
      obtain ⟨rfl, place, thereLocated, alikePlace⟩ := moves _ _ _ _ stops stopsToo located
      obtain ⟨sameRest, moved, movedEntries, alikePlaces⟩ := others behind
      exact ⟨sameRest, place :: moved, .entry thereNext thereLocated movedEntries,
        .cons alikePlace alikePlaces⟩

theorem Sequence.moved {alike : τ → τ → Prop} (isClose : close = closeList ∨ close = closeRecord)
    (sequence : Sequence close isFirst entries text)
    (begins : ∀ entry ∈ entries, Begins close entry)
    (moves : ∀ entry ∈ entries, Moves locate alike entry) {rest after : Bytes} (other : Bytes)
    {places : List τ} (found : Entries close locate isFirst (text ++ rest) places after) :
    after = rest ∧ ∃ moved, Entries close locate isFirst (text ++ other) moved other ∧
      List.Forall₂ alike places moved := by
  induction sequence generalizing places with
  | finished blank =>
      cases found with
      | finished stop =>
          rw [nextEntry_at_close isClose blank] at stop
          exact ⟨(Next.finished.inj (Except.ok.inj stop)).symm, [],
            .finished (nextEntry_at_close isClose blank _ other), .nil⟩
      | entry next _ _ =>
          rw [nextEntry_at_close isClose blank] at next
          simp at next
  | first blank later ih =>
      rw [List.forall_mem_cons] at begins moves
      exact moves.1.goesOn (later.delimits isClose rest) (later.delimits isClose other)
        (nextEntry_at_first begins.1 blank rest) (nextEntry_at_first begins.1 blank other)
        (ih begins.2 moves.2) found
  | later blank blankToo later ih =>
      rw [List.forall_mem_cons] at begins moves
      exact moves.1.goesOn (later.delimits isClose rest) (later.delimits isClose other)
        (nextEntry_at_later isClose begins.1 blank blankToo rest)
        (nextEntry_at_later isClose begins.1 blank blankToo other) (ih begins.2 moves.2) found

end

theorem sequence_later (close : UInt8) (entries : List Bytes) :
    Sequence close false entries ((entries.flatMap fun entry => comma :: entry) ++ [close]) := by
  induction entries with
  | nil => exact .finished blank_nil
  | cons entry entries ih =>
      have whole := @Sequence.later close [] [] entry _ _ blank_nil blank_nil ih
      simpa using whole

theorem sequence_between (close : UInt8) (entries : List Bytes) :
    Sequence close true entries (between comma entries ++ [close]) := by
  cases entries with
  | nil => exact .finished blank_nil
  | cons entry entries =>
      rw [between_cons, List.append_assoc]
      exact .first blank_nil (sequence_later close entries)

/-! Complete values are passed over. -/

theorem ValueText.begins {text : Bytes} (value : ValueText text) {close : UInt8}
    (isClose : close = closeList ∨ close = closeRecord) : Begins close text := by
  have apart : ∀ {byte : UInt8}, byte ≠ closeList → byte ≠ closeRecord → byte ≠ close := by
    intro byte notList notRecord
    rcases isClose with rfl | rfl
    · exact notList
    · exact notRecord
  cases value with
  | word known =>
      simp only [List.mem_cons, List.not_mem_nil, or_false] at known
      rcases known with rfl | rfl | rfl
      all_goals exact ⟨_, _, rfl, by decide, apart (by decide) (by decide)⟩
  | number written =>
      obtain ⟨byte, tail, shape, numeric⟩ := written.begins
      obtain ⟨notBlank, _, _, _, notList, notRecord, _⟩ := numeric_apart numeric
      exact ⟨byte, tail, shape, notBlank, apart notList notRecord⟩
  | string quoted =>
      obtain ⟨body, rfl, _⟩ := quoted
      exact ⟨quote, _, rfl, by decide, apart (by decide) (by decide)⟩
  | list | record => exact ⟨_, _, rfl, by decide, apart (by decide) (by decide)⟩

theorem MemberText.begins {member : MemberText} (quoted : Quoted member.key) {close : UInt8}
    (isClose : close = closeList ∨ close = closeRecord) : Begins close member.bytes := by
  obtain ⟨body, shape, _⟩ := quoted
  refine ⟨quote, _, by rw [bytes, shape]; rfl, by decide, ?_⟩
  rcases isClose with rfl | rfl
  all_goals decide

theorem skipped_blank {gap bytes rest : Bytes} (blank : Blank gap) (skipped : Skipped bytes rest) :
    Skipped (gap ++ bytes) rest := by
  intro bound enough
  rw [← skipWithin_skipBlanks, skipBlanks_blank blank, skipWithin_skipBlanks]
  exact skipped bound (by rw [List.length_append] at enough; omega)

theorem skipScalar_number {text rest : Bytes} {literal : Literal} (written : LiteralText text literal)
    (stops : Delimits rest) : skipScalar (text ++ rest) = .ok (none, rest) := by
  obtain ⟨byte, tail, shape, numeric⟩ := written.begins
  obtain ⟨notBlank, notNull, notTrue, notFalse, _⟩ := numeric_apart numeric
  have read := readLiteral_text written stops
  rw [shape, List.cons_append] at read ⊢
  rw [skipScalar, skipBlanks_of_head _ _ notBlank]
  simp only [notNull, notTrue, notFalse, if_false, numeric, if_true, read]

theorem skipScalar_quoted {literal : Bytes} (quoted : Quoted literal) (rest : Bytes) :
    skipScalar (literal ++ rest) = .ok (none, rest) := by
  obtain ⟨body, rfl, loose⟩ := quoted
  have skipped := skipString_body loose rest
  rw [List.cons_append, List.append_assoc, skipScalar, skipBlanks_of_head quote _ (by decide)]
  simp only [quote] at skipped ⊢
  simp [isDigit, skipped]

def passEntry (close : UInt8) : Reader Bytes := fun bytes => do
  let (_, rest) ← skipEntry close bytes.length () bytes
  .ok (bytes, rest)

theorem passEntry_eq_ok {close : UInt8} {bytes text rest : Bytes} :
    passEntry close bytes = .ok (text, rest) ↔ SkippedEntry close bytes rest ∧ text = bytes := by
  simp only [passEntry, bind_eq_ok]
  constructor
  · rintro ⟨⟨_, after⟩, skipped, later⟩
    obtain ⟨sameText, sameRest⟩ := ok_pair_inj later
    rw [← sameRest]
    refine ⟨?_, sameText.symm⟩
    intro bound enough
    exact skipEntry_mono (fun bytes result => skipWithin_mono _ _ bytes result enough) close ()
      bytes ((), after) skipped
  · rintro ⟨skipped, rfl⟩
    exact ⟨((), rest), skipped _ (Nat.le_refl _), rfl⟩

theorem passEntry_length (close : UInt8) : Consumes (passEntry close) := by
  intro bytes text rest passed
  exact skipEntry_length (skipWithin_length _) close () bytes () rest
    ((passEntry_eq_ok.1 passed).1 bytes.length (Nat.le_refl _))

theorem Sequence.skipped {close : UInt8} {entries : List Bytes} {text bytes rest : Bytes}
    {found : Found} (isClose : close = closeList ∨ close = closeRecord)
    (sequence : Sequence close true entries text) (read : readFound bytes = .ok (found, text ++ rest))
    (bracket : found.closing = some close) (begins : ∀ entry ∈ entries, Begins close entry)
    (each : ∀ entry ∈ entries, ∀ behind, Delimits behind →
      SkippedEntry close (entry ++ behind) behind) : Skipped bytes rest := by
  have located : ∀ entry ∈ entries, ∀ behind, Delimits behind →
      ∃ place, passEntry close (entry ++ behind) = .ok (place, behind) :=
    fun entry member behind stops => ⟨_, passEntry_eq_ok.2 ⟨each entry member behind stops, rfl⟩⟩
  obtain ⟨places, found, _⟩ := sequence.located isClose begins located rest
  exact skipped_outline (passEntry_length close)
    (fun start place after located => (passEntry_eq_ok.1 located).1) read bracket found

theorem MemberText.skipped {member : MemberText} (quoted : Quoted member.key) {behind : Bytes}
    (skipped : Skipped (member.value ++ behind) behind) :
    SkippedEntry closeRecord (member.bytes ++ behind) behind := by
  obtain ⟨body, shape, loose⟩ := quoted
  have written : member.bytes ++ behind = quote :: (body ++ quote ::
      (member.gap ++ colon :: (member.space ++ (member.value ++ behind)))) := by
    simp [bytes, shape]
  have colonRead : readColon (member.gap ++ colon :: (member.space ++ (member.value ++ behind))) =
      .ok (member.space ++ (member.value ++ behind)) := by
    rw [readColon_blank member.blankGap, readColon_cons]
  have content := skipped_blank member.blankSpace skipped
  intro bound enough
  rw [written] at enough ⊢
  simp only [List.length_cons, List.length_append] at enough
  have whole := content bound (by simp only [List.length_append]; omega)
  have notList : ¬ closeRecord = closeList := by decide
  simp only [skipEntry, notList, if_false, if_true, skipString_body loose, ok_bind, colonRead, whole]

theorem ValueText.skipped {text : Bytes} (value : ValueText text) : ∀ {rest : Bytes}, Delimits rest →
    Skipped (text ++ rest) rest := by
  -- By induction on the value: its entries are passed over, and then the brackets around them.
  induction value with
  | word known =>
      intro rest _
      simp only [List.mem_cons, List.not_mem_nil, or_false] at known
      rcases known with rfl | rfl | rfl
      all_goals exact skipped_of_skipScalar rfl
  | number written =>
      intro rest stops
      exact skipped_of_skipScalar (skipScalar_number written stops)
  | string quoted =>
      intro rest _
      exact skipped_of_skipScalar (skipScalar_quoted quoted rest)
  | list each sequence ih =>
      intro rest _
      refine sequence.skipped (Or.inl rfl) (readFound_openList _) rfl ?_ ?_
      · intro item member
        exact (each item member).begins (Or.inl rfl)
      · intro item member behind stops
        exact skippedEntry_item (ih item member stops)
  | record keys values sequence ih =>
      intro rest _
      refine sequence.skipped (Or.inr rfl) (readFound_openRecord _) rfl ?_ ?_
      · intro entry inside
        obtain ⟨member, inMembers, rfl⟩ := List.mem_map.1 inside
        exact MemberText.begins (keys member inMembers) (Or.inr rfl)
      · intro entry inside behind stops
        obtain ⟨member, inMembers, rfl⟩ := List.mem_map.1 inside
        exact MemberText.skipped (keys member inMembers) (ih member inMembers stops)

/-! Values are written as complete values. -/

def plainMember (member : String × Value) : MemberText :=
  ⟨stringText member.1, [], [], member.2.bytes, blank_nil, blank_nil⟩

theorem valueText_number : (number : Number) → ValueText number.bytes
  | .whole value fits => by
    rw [bytes_whole]
    exact .number (literalText_whole _ _)
  | .float value => by
    rw [Number.bytes]
    split
    · obtain ⟨_, written⟩ := literalText_float value
      exact .number written
    · exact .word List.mem_cons_self

mutual

theorem valueText_bytes : (value : Value) → ValueText value.bytes
  | .null => .word (by simp [Value.bytes, nullText])
  | .boolean true => .word (by simp [Value.bytes, trueText])
  | .boolean false => .word (by simp [Value.bytes, falseText])
  | .number number => valueText_number number
  | .text text => .string (denotes_stringText text).quoted
  | .list items => .list (valueText_items items) (sequence_between _ _)
  | .record members => by
    have keys : ∀ member ∈ members.map plainMember, Quoted member.key := by
      intro member inside
      obtain ⟨written, _, rfl⟩ := List.mem_map.1 inside
      exact (denotes_stringText written.1).quoted
    have values : ∀ member ∈ members.map plainMember, ValueText member.value := by
      intro member inside
      obtain ⟨written, inMembers, rfl⟩ := List.mem_map.1 inside
      exact valueText_members members written inMembers
    refine .record keys values ?_
    have same : (members.map plainMember).map MemberText.bytes = membersBytes members := by
      rw [membersBytes_eq, List.map_map]
      rfl
    rw [same]
    exact sequence_between _ _

theorem valueText_items : (items : List Value) → ∀ text ∈ itemsBytes items, ValueText text
  | [] => by simp [itemsBytes]
  | item :: rest => by
    rw [itemsBytes, List.forall_mem_cons]
    exact ⟨valueText_bytes item, valueText_items rest⟩

theorem valueText_members : (members : Members) → ∀ member ∈ members, ValueText member.2.bytes
  | [] => by simp
  | (key, value) :: rest => by
    rw [List.forall_mem_cons]
    exact ⟨valueText_bytes value, valueText_members rest⟩

end

end LedgerWire.Json
