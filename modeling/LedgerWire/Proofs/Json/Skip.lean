import LedgerWire.Proofs.Json.Loop

/-!
Passing over a value: it takes at least one byte, and the same bytes as reading the value does.
-/

namespace LedgerWire.Json

variable {σ α : Type}

def Consumes (reader : Reader α) : Prop :=
  ∀ bytes value rest, reader bytes = .ok (value, rest) → rest.length < bytes.length

theorem skipBlanks_length (bytes : Bytes) : (skipBlanks bytes).length ≤ bytes.length :=
  (List.dropWhile_suffix _).length_le

theorem readWord_length {word : Bytes} : ∀ {bytes rest : Bytes},
    readWord word bytes = .ok ((), rest) → rest.length ≤ bytes.length := by
  induction word with
  | nil =>
      intro bytes rest read
      simp only [readWord, Except.ok.injEq, Prod.mk.injEq, true_and] at read
      exact Nat.le_of_eq (congrArg List.length read.symm)
  | cons letter letters ih =>
      intro bytes rest read
      cases bytes with
      | nil => simp [readWord] at read
      | cons byte tail =>
          simp only [readWord] at read
          split at read
          · have shorter := ih read
            simp only [List.length_cons]
            omega
          · simp at read

theorem readDigits_length {bytes digits rest : Bytes} (read : readDigits bytes = .ok (digits, rest)) :
    rest.length < bytes.length := by
  cases bytes with
  | nil => simp [readDigits] at read
  | cons byte tail =>
      simp only [readDigits] at read
      split at read
      · rename_i isFirst
        simp only [List.dropWhile_cons, isFirst, if_true, Except.ok.injEq, Prod.mk.injEq] at read
        rw [← read.2]
        have shorter := (List.dropWhile_suffix (l := tail) isDigit).length_le
        simp only [List.length_cons]
        omega
      · simp at read

theorem readWhole_length {bytes digits rest : Bytes} (read : readWhole bytes = .ok (digits, rest)) :
    rest.length < bytes.length := by
  simp only [readWhole, bind_eq_ok] at read
  rcases read with ⟨⟨found, after⟩, digitsRead, later⟩
  dsimp only at later
  split at later
  · simp at later
  · simp only [Except.ok.injEq, Prod.mk.injEq] at later
    rw [← later.2]
    exact readDigits_length digitsRead

theorem readFraction_length {bytes rest : Bytes} {fraction : Option Bytes}
    (read : readFraction bytes = .ok (fraction, rest)) : rest.length ≤ bytes.length := by
  unfold readFraction at read
  split at read
  · simp only [bind_eq_ok] at read
    rcases read with ⟨⟨digits, after⟩, digitsRead, later⟩
    simp only [Except.ok.injEq, Prod.mk.injEq] at later
    rw [← later.2]
    have shorter := readDigits_length digitsRead
    simp only [List.length_cons]
    omega
  · simp only [Except.ok.injEq, Prod.mk.injEq] at read
    exact Nat.le_of_eq (congrArg List.length read.2.symm)

theorem readSign_length (bytes : Bytes) : (readSign bytes).2.length ≤ bytes.length := by
  unfold readSign
  split
  · simp
  · simp
  · exact Nat.le_refl _

theorem readMinus_length (bytes : Bytes) : (readMinus bytes).2.length ≤ bytes.length := by
  unfold readMinus
  split
  · simp
  · exact Nat.le_refl _

theorem readExponent_length {bytes rest : Bytes} {exponent : Option (Bool × Bytes)}
    (read : readExponent bytes = .ok (exponent, rest)) : rest.length ≤ bytes.length := by
  unfold readExponent at read
  split at read
  · rename_i byte tail
    split at read
    · simp only [bind_eq_ok] at read
      rcases read with ⟨⟨digits, after⟩, digitsRead, later⟩
      simp only [Except.ok.injEq, Prod.mk.injEq] at later
      rw [← later.2]
      have shorter := readDigits_length digitsRead
      have sign := readSign_length tail
      simp only [List.length_cons]
      omega
    · simp only [Except.ok.injEq, Prod.mk.injEq] at read
      exact Nat.le_of_eq (congrArg List.length read.2.symm)
  · simp only [Except.ok.injEq, Prod.mk.injEq] at read
    exact Nat.le_of_eq (congrArg List.length read.2.symm)

theorem readLiteral_length {bytes rest : Bytes} {literal : Literal}
    (read : readLiteral bytes = .ok (literal, rest)) : rest.length < bytes.length := by
  simp only [readLiteral, bind_eq_ok] at read
  rcases read with ⟨⟨whole, afterWhole⟩, wholeRead, ⟨fraction, afterFraction⟩, fractionRead,
    ⟨exponent, afterExponent⟩, exponentRead, later⟩
  simp only [Except.ok.injEq, Prod.mk.injEq] at later
  rw [← later.2]
  have first := readMinus_length bytes
  have second := readWhole_length wholeRead
  have third := readFraction_length fractionRead
  have fourth := readExponent_length exponentRead
  dsimp only at third fourth
  omega

theorem readNumber_literal {bytes rest : Bytes} {number : Number}
    (read : readNumber bytes = .ok (number, rest)) :
    ∃ literal, readLiteral bytes = .ok (literal, rest) := by
  simp only [readNumber, bind_eq_ok] at read
  rcases read with ⟨⟨literal, after⟩, literalRead, later⟩
  dsimp only at later
  split at later
  · simp only [Except.ok.injEq, Prod.mk.injEq] at later
    rw [← later.2]
    exact ⟨literal, literalRead⟩
  · simp at later

theorem withFront_eq_ok {front content rest : Bytes} {result : Except Fault (Bytes × Bytes)}
    (read : withFront front result = .ok (content, rest)) :
    ∃ behind, result = .ok (behind, rest) ∧ content = front ++ behind := by
  obtain ⟨⟨behind, after⟩, found, later⟩ := bind_eq_ok.1 read
  obtain ⟨sameContent, sameRest⟩ := ok_pair_inj later
  exact ⟨behind, by rw [found, sameRest], sameContent.symm⟩

theorem skipString_unit (a b c d : UInt8) (unit : Nat) (rest : Bytes)
    (value : unitValue? a b c d = some unit) :
    skipString (backslash :: 0x75 :: a :: b :: c :: d :: rest) = skipString rest := by
  rw [skipString.eq_def]
  simp only [if_true, value, Option.isSome_some]

theorem skipString_escape (letter value : UInt8) (rest : Bytes) (notUnit : letter ≠ 0x75)
    (escape : escapeValue? letter = some value) :
    skipString (backslash :: letter :: rest) = skipString rest := by
  rw [skipString.eq_def]
  simp only [if_true, notUnit, if_false, escape, Option.isSome_some]

theorem skipString_quote (rest : Bytes) : skipString (quote :: rest) = .ok rest := by
  rw [skipString.eq_def]
  simp [quote, backslash]

theorem skipString_plain (byte : UInt8) (rest : Bytes) (notQuote : byte ≠ quote)
    (notBackslash : byte ≠ backslash) (shown : ¬ byte < 0x20) :
    skipString (byte :: rest) = skipString rest := by
  rw [skipString.eq_def]
  simp only [notBackslash, if_false, notQuote, shown]

theorem skipString_of_readContent (high : Option Nat) (bytes : Bytes) : ∀ content rest,
    readContent high bytes = .ok (content, rest) → skipString bytes = .ok rest := by
  fun_induction readContent high bytes with
  | case5 a b c d tail unit value _ _ ih =>
      intro content rest read
      rw [skipString_unit a b c d unit tail value]
      exact ih content rest read
  | case6 a b c d tail unit value _ _ ih | case7 a b c d tail unit _ value _ ih =>
      intro content rest read
      obtain ⟨behind, found, _⟩ := withFront_eq_ok read
      rw [skipString_unit a b c d unit tail value]
      exact ih behind rest found
  | case10 letter tail notUnit value escape ih =>
      intro content rest read
      obtain ⟨behind, found, _⟩ := withFront_eq_ok read
      rw [skipString_escape letter value tail notUnit escape]
      exact ih behind rest found
  | case13 high tail _ _ =>
      intro content rest read
      simp only [Except.ok.injEq, Prod.mk.injEq] at read
      rw [skipString_quote, read.2]
  | case15 high byte tail notBackslash _ notQuote shown ih =>
      intro content rest read
      obtain ⟨behind, found, _⟩ := withFront_eq_ok read
      rw [skipString_plain byte tail notQuote notBackslash shown]
      exact ih behind rest found
  | case1 | case2 | case3 | case4 | case8 | case9 | case11 | case12 | case14 =>
      intro content rest read
      simp at read

theorem skipString_of_readString {bytes rest : Bytes} {text : String}
    (read : readString bytes = .ok (text, rest)) : skipString bytes = .ok rest := by
  simp only [readString, bind_eq_ok] at read
  rcases read with ⟨⟨content, after⟩, found, later⟩
  dsimp only at later
  split at later
  · simp only [Except.ok.injEq, Prod.mk.injEq] at later
    rw [← later.2]
    exact skipString_of_readContent none bytes content after found
  · simp at later

theorem skipString_length (bytes : Bytes) : ∀ rest,
    skipString bytes = .ok rest → rest.length < bytes.length := by
  fun_induction skipString bytes with
  | case3 | case6 | case10 =>
      rename_i ih
      intro rest skipped
      have shorter := ih rest skipped
      simp only [List.length_cons]
      omega
  | case8 =>
      intro rest skipped
      simp only [Except.ok.injEq] at skipped
      simp [skipped]
  | case1 | case2 | case4 | case5 | case7 | case9 =>
      intro rest skipped
      simp at skipped

def Found.closing : Found → Option UInt8
  | .list => some closeList
  | .record => some closeRecord
  | _ => none

theorem skipScalar_of_readFound {bytes rest : Bytes} {found : Found}
    (read : readFound bytes = .ok (found, rest)) :
    skipScalar bytes = .ok (found.closing, rest) := by
  obtain ⟨byte, tail, shape, opens⟩ := readFound_eq_ok.1 read
  unfold skipScalar
  rw [shape]
  cases opens with
  | null word | yes word | no word => simp [word, Found.closing]
  | number numeric numberRead =>
      obtain ⟨_, notNull, notTrue, notFalse, _⟩ := numeric_apart numeric
      obtain ⟨literal, literalRead⟩ := readNumber_literal numberRead
      simp only [notNull, notTrue, notFalse, if_false, numeric, if_true, literalRead, Found.closing]
  | text textRead => simp [quote, isDigit, skipString_of_readString textRead, Found.closing]
  | list | record => simp [openList, openRecord, quote, isDigit, Found.closing]

theorem skipScalar_length : Consumes skipScalar := by
  intro bytes close rest skipped
  have blanks := skipBlanks_length bytes
  unfold skipScalar at skipped
  cases shape : skipBlanks bytes with
  | nil => simp [shape] at skipped
  | cons byte tail =>
      rw [shape] at skipped blanks
      simp only [List.length_cons] at blanks
      dsimp only at skipped
      have afterWord : ∀ word : Bytes,
          (readWord word tail >>= fun read => Except.ok (none, read.2)) = .ok (close, rest) →
            rest.length < bytes.length := by
        intro word found
        obtain ⟨⟨_, after⟩, wordRead, later⟩ := bind_eq_ok.1 found
        simp only [Except.ok.injEq, Prod.mk.injEq] at later
        have shorter := readWord_length wordRead
        rw [← later.2]
        omega
      by_cases isNull : byte = 0x6E
      · rw [if_pos isNull] at skipped
        exact afterWord nullTail skipped
      rw [if_neg isNull] at skipped
      by_cases isTrue : byte = 0x74
      · rw [if_pos isTrue] at skipped
        exact afterWord trueTail skipped
      rw [if_neg isTrue] at skipped
      by_cases isFalse : byte = 0x66
      · rw [if_pos isFalse] at skipped
        exact afterWord falseTail skipped
      rw [if_neg isFalse] at skipped
      by_cases numeric : (byte = 0x2D || isDigit byte) = true
      · rw [if_pos numeric] at skipped
        split at skipped
        · rename_i literal after literalRead
          simp only [Except.ok.injEq, Prod.mk.injEq] at skipped
          have shorter := readLiteral_length literalRead
          simp only [List.length_cons] at shorter
          rw [← skipped.2]
          omega
        · simp at skipped
      rw [if_neg numeric] at skipped
      by_cases isText : byte = quote
      · rw [if_pos isText] at skipped
        obtain ⟨after, textSkipped, later⟩ := bind_eq_ok.1 skipped
        simp only [Except.ok.injEq, Prod.mk.injEq] at later
        have shorter := skipString_length tail after textSkipped
        rw [← later.2]
        omega
      rw [if_neg isText] at skipped
      split at skipped
      · simp only [Except.ok.injEq, Prod.mk.injEq] at skipped
        rw [← skipped.2]
        omega
      split at skipped
      · simp only [Except.ok.injEq, Prod.mk.injEq] at skipped
        rw [← skipped.2]
        omega
      · simp at skipped

theorem readFound_length : Consumes readFound := by
  intro bytes found rest read
  exact skipScalar_length bytes found.closing rest (skipScalar_of_readFound read)

theorem readColon_length {bytes rest : Bytes} (read : readColon bytes = .ok rest) :
    rest.length < bytes.length := by
  have blanks := skipBlanks_length bytes
  unfold readColon at read
  cases shape : skipBlanks bytes with
  | nil => simp [shape] at read
  | cons byte tail =>
      rw [shape] at read blanks
      simp only [List.length_cons] at blanks
      dsimp only at read
      split at read
      · simp only [Except.ok.injEq] at read
        rw [← read]
        omega
      · simp at read

theorem readKey_length : Consumes readKey := by
  intro bytes key rest read
  unfold readKey at read
  cases bytes with
  | nil => simp at read
  | cons byte tail =>
      dsimp only at read
      split at read
      · have shorter := skipString_length tail rest (skipString_of_readString read)
        simp only [List.length_cons]
        omega
      · simp at read

def Next.least : Next → Nat
  | .finished rest => rest.length + 1
  | .entry rest => rest.length

theorem nextEntry_length {close : UInt8} {isFirst : Bool} {bytes : Bytes} {next : Next}
    (place : nextEntry close isFirst bytes = .ok next) : next.least ≤ bytes.length := by
  have blanks := skipBlanks_length bytes
  unfold nextEntry at place
  cases shape : skipBlanks bytes with
  | nil => simp [shape] at place
  | cons byte tail =>
      rw [shape] at place blanks
      simp only [List.length_cons] at blanks
      dsimp only at place
      split at place
      · simp only [Except.ok.injEq] at place
        rw [← place]
        exact blanks
      split at place
      · simp only [Except.ok.injEq] at place
        rw [← place]
        exact blanks
      split at place
      · have innerBlanks := skipBlanks_length tail
        cases inner : skipBlanks tail with
        | nil => simp [inner] at place
        | cons second others =>
            rw [inner] at place innerBlanks
            dsimp only at place
            split at place
            · simp at place
            · simp only [Except.ok.injEq] at place
              rw [← place]
              simp only [Next.least, List.length_cons] at innerBlanks ⊢
              omega
      · simp at place

theorem readEntries_length {close : UInt8} {entry : σ → Reader σ}
    (consumes : ∀ state, Consumes (entry state)) : ∀ fuel isFirst state,
    Consumes (readEntries close entry fuel isFirst state) := by
  intro fuel
  induction fuel with
  | zero =>
      intro isFirst state bytes final rest read
      simp [readEntries] at read
  | succ fuel ih =>
      intro isFirst state bytes final rest read
      rcases readEntries_eq_ok read with ⟨place, _⟩ | ⟨start, next, after, place, taken, looped⟩
      · have shorter := nextEntry_length place
        simp only [Next.least] at shorter
        omega
      · have startShorter := nextEntry_length place
        simp only [Next.least] at startShorter
        have entryShorter := consumes state start next after taken
        have restShorter := ih false next after final rest looped
        omega

/-! Whole values. -/

def skipEntry (close : UInt8) (bound : Nat) : Unit → Reader Unit := fun () bytes =>
  if close = closeList then skipWithin bound bytes
  else
    match bytes with
    | [] => .error .endOfInput
    | byte :: rest =>
      if byte = quote then do
        let rest ← skipString rest
        let rest ← readColon rest
        skipWithin bound rest
      else .error .malformed

theorem skipWithin_zero (bytes : Bytes) : skipWithin 0 bytes =
    skipScalar bytes >>= fun (close, rest) =>
      match close with
      | none => .ok ((), rest)
      | some _ => .error .endOfInput := by
  delta skipWithin
  change (skipScalar bytes >>= _) = _
  congr 1
  funext ⟨close, rest⟩
  cases close <;> rfl

theorem skipWithin_succ (bound : Nat) (bytes : Bytes) : skipWithin (bound + 1) bytes =
    skipScalar bytes >>= fun (close, rest) =>
      match close with
      | none => .ok ((), rest)
      | some close => readAll close (skipEntry close bound) () rest := by
  delta skipWithin
  change (skipScalar bytes >>= _) = _
  congr 1
  funext ⟨close, rest⟩
  cases close with
  | none => rfl
  | some close =>
      change readAll close _ () rest = readAll close _ () rest
      congr 1
      funext _ bytes
      unfold skipEntry
      delta skipWithin
      cases bytes <;> rfl

theorem skipEntry_length {bound : Nat} (consumes : Consumes (skipWithin bound)) (close : UInt8) :
    ∀ state, Consumes (skipEntry close bound state) := by
  intro state bytes value rest skipped
  unfold skipEntry at skipped
  split at skipped
  · exact consumes bytes value rest skipped
  · cases bytes with
    | nil => simp at skipped
    | cons byte tail =>
        dsimp only at skipped
        split at skipped
        · obtain ⟨afterKey, keySkipped, later⟩ := bind_eq_ok.1 skipped
          obtain ⟨content, colonRead, contentSkipped⟩ := bind_eq_ok.1 later
          have keyShorter := skipString_length tail afterKey keySkipped
          have colonShorter := readColon_length colonRead
          have contentShorter := consumes content value rest contentSkipped
          simp only [List.length_cons]
          omega
        · simp at skipped

theorem skipWithin_length (bound : Nat) : Consumes (skipWithin bound) := by
  induction bound with
  | zero =>
      intro bytes value rest skipped
      rw [skipWithin_zero] at skipped
      obtain ⟨⟨close, after⟩, scalar, later⟩ := bind_eq_ok.1 skipped
      have shorter := skipScalar_length bytes close after scalar
      cases close with
      | none =>
          simp only [Except.ok.injEq, Prod.mk.injEq, true_and] at later
          rwa [← later]
      | some close => simp at later
  | succ bound ih =>
      intro bytes value rest skipped
      rw [skipWithin_succ] at skipped
      obtain ⟨⟨close, after⟩, scalar, later⟩ := bind_eq_ok.1 skipped
      have shorter := skipScalar_length bytes close after scalar
      cases close with
      | none =>
          simp only [Except.ok.injEq, Prod.mk.injEq, true_and] at later
          rwa [← later]
      | some close =>
          have loopShorter := readEntries_length (skipEntry_length ih close) _ true () after value rest
            later
          omega

/-- The text up to `rest` is passed over as one value, at every bound that its length allows. -/
def Skipped (bytes rest : Bytes) : Prop :=
  ∀ bound, bytes.length ≤ bound → skipWithin bound bytes = .ok ((), rest)

theorem Skipped.unique {bytes rest other : Bytes} (first : Skipped bytes rest)
    (second : Skipped bytes other) : rest = other := by
  have same := (first _ (Nat.le_refl _)).symm.trans (second _ (Nat.le_refl _))
  simpa using same

theorem readEntries_mono {close : UInt8} {entry other : σ → Reader σ}
    (keeps : ∀ state bytes result, entry state bytes = .ok result →
      other state bytes = .ok result) : ∀ fuel isFirst state bytes result,
    readEntries close entry fuel isFirst state bytes = .ok result →
      readEntries close other fuel isFirst state bytes = .ok result := by
  intro fuel
  induction fuel with
  | zero =>
      intro isFirst state bytes result read
      simp [readEntries] at read
  | succ fuel ih =>
      rintro isFirst state bytes ⟨final, rest⟩ read
      rw [readEntries_succ]
      rcases readEntries_eq_ok read with ⟨place, same⟩ | ⟨start, next, after, place, taken, looped⟩
      · rw [place, same]
        rfl
      · have continued := ih false next after (final, rest) looped
        rw [place]
        simp only [ok_bind, keeps state start (next, after) taken, continued]

theorem skipEntry_mono {bound larger : Nat}
    (keeps : ∀ bytes result, skipWithin bound bytes = .ok result →
      skipWithin larger bytes = .ok result) (close : UInt8) (state : Unit) (bytes : Bytes)
    (result : Unit × Bytes) (skipped : skipEntry close bound state bytes = .ok result) :
    skipEntry close larger state bytes = .ok result := by
  unfold skipEntry at skipped ⊢
  split
  · rename_i isList
    rw [if_pos isList] at skipped
    exact keeps bytes result skipped
  · rename_i notList
    rw [if_neg notList] at skipped
    cases bytes with
    | nil => simp at skipped
    | cons byte tail =>
        dsimp only at skipped ⊢
        split
        · rename_i isQuote
          rw [if_pos isQuote] at skipped
          obtain ⟨afterKey, keySkipped, later⟩ := bind_eq_ok.1 skipped
          obtain ⟨content, colonRead, contentSkipped⟩ := bind_eq_ok.1 later
          simp only [keySkipped, colonRead, ok_bind, keeps content result contentSkipped]
        · rename_i notQuote
          rw [if_neg notQuote] at skipped
          simp at skipped

theorem skipWithin_mono (bound : Nat) : ∀ larger bytes result, bound ≤ larger →
    skipWithin bound bytes = .ok result → skipWithin larger bytes = .ok result := by
  induction bound with
  | zero =>
      intro larger bytes result _ skipped
      rw [skipWithin_zero] at skipped
      obtain ⟨⟨close, after⟩, scalar, later⟩ := bind_eq_ok.1 skipped
      cases close with
      | some close => simp at later
      | none =>
          cases larger with
          | zero => rw [skipWithin_zero, scalar]; exact later
          | succ larger => rw [skipWithin_succ, scalar]; exact later
  | succ bound ih =>
      intro larger bytes result below skipped
      obtain ⟨larger, same⟩ : ∃ inner, larger = inner + 1 := ⟨larger - 1, by omega⟩
      subst same
      rw [skipWithin_succ] at skipped ⊢
      obtain ⟨⟨close, after⟩, scalar, later⟩ := bind_eq_ok.1 skipped
      rw [scalar]
      cases close with
      | none => exact later
      | some close =>
          exact readEntries_mono
            (skipEntry_mono (fun bytes result => ih larger bytes result (by omega)) close)
            _ true () after result later

theorem skipped_iff {bytes rest : Bytes} : Skipped bytes rest ↔ skipValue bytes = .ok ((), rest) := by
  constructor
  · intro skipped
    exact skipped bytes.length (Nat.le_refl _)
  · intro skipped bound enough
    exact skipWithin_mono bytes.length bound bytes ((), rest) enough skipped

def Skips (reader : Reader α) : Prop :=
  ∀ bytes value rest, reader bytes = .ok (value, rest) → Skipped bytes rest

def SkippedEntry (close : UInt8) (bytes rest : Bytes) : Prop :=
  ∀ bound, bytes.length ≤ bound → skipEntry close bound () bytes = .ok ((), rest)

theorem skippedEntry_item {bytes rest : Bytes} (skipped : Skipped bytes rest) :
    SkippedEntry closeList bytes rest := by
  intro bound enough
  simp only [skipEntry, if_true]
  exact skipped bound enough

theorem skippedEntry_member {bytes afterKey content rest : Bytes} {key : String}
    (keyRead : readKey bytes = .ok (key, afterKey)) (colonRead : readColon afterKey = .ok content)
    (skipped : Skipped content rest) : SkippedEntry closeRecord bytes rest := by
  have keyShorter := readKey_length bytes key afterKey keyRead
  have colonShorter := readColon_length colonRead
  intro bound enough
  unfold readKey at keyRead
  cases bytes with
  | nil => simp at keyRead
  | cons byte tail =>
      dsimp only at keyRead
      split at keyRead
      · rename_i isQuote
        have keySkipped := skipString_of_readString keyRead
        have whole := skipped bound (by omega)
        have notList : ¬ closeRecord = closeList := by decide
        simp only [skipEntry, notList, if_false, isQuote, if_true, keySkipped, ok_bind, colonRead,
          whole]
      · simp at keyRead

theorem skipped_of_skipScalar {bytes rest : Bytes} (skipped : skipScalar bytes = .ok (none, rest)) :
    Skipped bytes rest := by
  intro bound _
  cases bound with
  | zero => rw [skipWithin_zero, skipped]; rfl
  | succ bound => rw [skipWithin_succ, skipped]; rfl

theorem skipped_scalar {bytes rest : Bytes} {found : Found}
    (read : readFound bytes = .ok (found, rest)) (notBracket : found.closing = none) :
    Skipped bytes rest := by
  have skipped := skipScalar_of_readFound read
  rw [notBracket] at skipped
  exact skipped_of_skipScalar skipped

theorem skipWithin_skipBlanks (bound : Nat) (bytes : Bytes) :
    skipWithin bound (skipBlanks bytes) = skipWithin bound bytes := by
  have sameScalar : skipScalar (skipBlanks bytes) = skipScalar bytes := by
    unfold skipScalar
    rw [skipBlanks_skipBlanks]
  cases bound with
  | zero => rw [skipWithin_zero, sameScalar, ← skipWithin_zero]
  | succ bound => rw [skipWithin_succ, sameScalar, ← skipWithin_succ]

theorem skipped_skipBlanks {bytes rest : Bytes} (skipped : Skipped (skipBlanks bytes) rest) :
    Skipped bytes rest := by
  have blanks := skipBlanks_length bytes
  intro bound enough
  rw [← skipWithin_skipBlanks]
  exact skipped bound (by omega)

end LedgerWire.Json
