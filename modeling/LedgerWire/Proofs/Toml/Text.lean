import LedgerWire.Toml.Text
import LedgerWire.Toml.Writer
import Mathlib.Tactic.SplitIfs

/-!
Strings in TOML come back from their text. The writer has four styles to choose from, and the reader
of each undoes it: escapes in the basic ones, and the marks that close a string of several lines,
which up to two marks of the content may stand before.
-/

namespace LedgerWire.Toml

/-! One character in a basic string. -/

inductive Stands : Char → List Char → Prop
  | plain {value : Char} (shown : isPlain value = true) (notMark : value ≠ '"')
      (notBackslash : value ≠ '\\') : Stands value [value]
  | letter {letter value : Char} (escapes : escape? letter = some value) : Stands value ['\\', letter]
  | code {value : Char} (control : needsEscape value = true) : Stands value (codeEscape value)

theorem charValue?_hexDigit : ∀ value < 16, Hex.charValue? (hexDigit value) = some value := by
  decide

theorem character?_code {value : Char} (control : needsEscape value = true) :
    character? ['0', '0', hexDigit (value.toNat / 16), hexDigit (value.toNat % 16)] = some value := by
  have small : value.toNat < 256 := by
    simp only [needsEscape, Bool.or_eq_true, Bool.and_eq_true, decide_eq_true_eq] at control
    omega
  have zero : Hex.charValue? '0' = some 0 := by decide
  have high := charValue?_hexDigit (value.toNat / 16) (by omega)
  have low := charValue?_hexDigit (value.toNat % 16) (by omega)
  have number : hexNumber? ['0', '0', hexDigit (value.toNat / 16), hexDigit (value.toNat % 16)] =
      some value.toNat := by
    simp [hexNumber?, zero, high, low]
    omega
  have valid : value.toNat.isValidChar := value.valid
  simp only [character?, number, Option.bind_eq_bind, Option.bind_some, valid, if_true,
    Char.ofNat_toNat]

theorem escape?_apart {letter value : Char} (escapes : escape? letter = some value) :
    letter ∉ ['u', 'U', ' ', '\t', '\n', '\r'] := by
  intro member
  simp only [List.mem_cons, List.not_mem_nil, or_false] at member
  rcases member with rfl | rfl | rfl | rfl | rfl | rfl
  all_goals simp [escape?] at escapes

theorem basicContent_stands {value : Char} {piece : List Char} (stands : Stands value piece)
    (rest : List Char) : basicContent (piece ++ rest) = withFirst value (basicContent rest) := by
  cases stands with
  | plain shown notMark notBackslash =>
      rw [List.singleton_append, basicContent.eq_def]
      split
      all_goals simp_all
  | letter escapes =>
      have apart := escape?_apart escapes
      simp only [List.mem_cons, not_or] at apart
      simp [basicContent, escapes, apart]
  | code control =>
      simp only [codeEscape, List.cons_append, List.nil_append, basicContent, character?_code control,
        Option.bind_eq_bind, Option.bind_some]

/-- How a basic string holds a character where `run` marks come right before, and how many do after
it. -/
inductive Holds (allowed : Nat) (lines : Bool) (run : Nat) : Char → List Char → Nat → Prop
  | stands {value : Char} {piece : List Char} (stands : Stands value piece) :
      Holds allowed lines run value piece 0
  | mark (room : run < allowed) : Holds allowed lines run '"' ['"'] (run + 1)
  | lineBreak (spread : lines = true) : Holds allowed lines run '\n' ['\n'] 0

theorem isPlain_of_not_control {value : Char} (notControl : needsEscape value = false)
    (notBreak : value ≠ '\n') : isPlain value = true := by
  simp only [needsEscape, Bool.or_eq_false_iff, Bool.and_eq_false_iff, decide_eq_false_iff_not] at notControl
  simp only [isPlain, Bool.or_eq_true, Bool.and_eq_true, decide_eq_true_eq]
  by_cases tab : value = '\t'
  · exact .inl tab
  · have large : ¬ value.toNat < 0x20 := by
      rcases notControl.1 with (small | isTab) | isBreak
      · exact small
      · exact absurd tab (by simpa using isTab)
      · exact absurd notBreak (by simpa using isBreak)
    exact .inr ⟨by omega, notControl.2⟩

theorem no_break_of_isPlain {value : Char} (shown : isPlain value = true) :
    value ≠ '\n' ∧ value ≠ '\r' := by
  constructor
  · rintro rfl
    exact absurd shown (by decide)
  · rintro rfl
    exact absurd shown (by decide)

theorem escapeBasic_cons (allowed : Nat) (lines : Bool) (run : Nat) (value : Char) (rest : List Char) :
    ∃ piece next, Holds allowed lines run value piece next ∧
      escapeBasic allowed lines run (value :: rest) = piece ++ escapeBasic allowed lines next rest := by
  simp only [escapeBasic]
  split_ifs with isMark room isBackspace isTab isBroken isFeed isReturn isBackslash control
  · subst isMark
    exact ⟨_, _, .mark room, rfl⟩
  · subst isMark
    exact ⟨_, _, .stands (.letter rfl), rfl⟩
  · exact ⟨_, _, .stands (.letter (by rw [isBackspace]; rfl)), rfl⟩
  · exact ⟨_, _, .stands (.letter (by rw [isTab]; rfl)), rfl⟩
  · simp only [Bool.and_eq_true, decide_eq_true_eq] at isBroken
    exact ⟨_, _, .stands (.letter (by rw [isBroken.1]; rfl)), rfl⟩
  · exact ⟨_, _, .stands (.letter (by rw [isFeed]; rfl)), rfl⟩
  · exact ⟨_, _, .stands (.letter (by rw [isReturn]; rfl)), rfl⟩
  · exact ⟨_, _, .stands (.letter (by rw [isBackslash]; rfl)), rfl⟩
  · exact ⟨_, _, .stands (.code control), rfl⟩
  · by_cases isBreak : value = '\n'
    · subst isBreak
      exact ⟨['\n'], 0, .lineBreak (by simpa using isBroken), rfl⟩
    · have shown := isPlain_of_not_control (by simpa using control) isBreak
      exact ⟨[value], 0, .stands (.plain shown isMark isBackslash), rfl⟩

theorem Stands.first {value : Char} {piece : List Char} (stands : Stands value piece) :
    ∃ first rest, piece = first :: rest ∧ isPlain first = true ∧ first ≠ '"' := by
  cases stands with
  | plain shown notMark _ => exact ⟨value, [], rfl, shown, notMark⟩
  | letter _ => exact ⟨'\\', _, rfl, by decide, by decide⟩
  | code _ => exact ⟨'\\', _, rfl, by decide, by decide⟩

theorem escapeBasic_mark {allowed : Nat} {lines : Bool} {run : Nat} {text tail : List Char}
    (written : escapeBasic allowed lines run text = '"' :: tail) :
    ∃ rest, text = '"' :: rest ∧ run < allowed ∧ tail = escapeBasic allowed lines (run + 1) rest := by
  cases text with
  | nil => simp [escapeBasic] at written
  | cons value rest =>
      obtain ⟨piece, next, holds, split⟩ := escapeBasic_cons allowed lines run value rest
      rw [split] at written
      cases holds with
      | stands stands =>
          obtain ⟨first, others, same, _, notMark⟩ := stands.first
          rw [same, List.cons_append, List.cons.injEq] at written
          exact absurd written.1 notMark
      | mark room =>
          rw [List.singleton_append, List.cons.injEq] at written
          exact ⟨rest, rfl, room, written.2.symm⟩
      | lineBreak _ => simp at written

/-! Strings on one line. -/

theorem basicContent_written (text rest : List Char) :
    basicContent (escapeBasic 0 false 0 text ++ '"' :: rest) = some (text, rest) := by
  induction text with
  | nil => simp [escapeBasic, basicContent]
  | cons value text ih =>
      obtain ⟨piece, next, holds, written⟩ := escapeBasic_cons 0 false 0 value text
      rw [written, List.append_assoc]
      cases holds with
      | stands stands =>
          rw [basicContent_stands stands, ih]
          rfl
      | mark room => omega
      | lineBreak spread => contradiction

theorem literalContent_written {text : List Char}
    (fits : ∀ value ∈ text, isPlain value = true ∧ value ≠ '\'') (rest : List Char) :
    literalContent (text ++ '\'' :: rest) = some (text, rest) := by
  induction text with
  | nil => simp [literalContent]
  | cons value text ih =>
      obtain ⟨shown, notMark⟩ := fits value List.mem_cons_self
      have read := ih (fun other member => fits other (List.mem_cons_of_mem value member))
      rw [List.cons_append, literalContent.eq_def]
      split
      · simp_all
      · simp_all
      · simp_all [withFirst]

/-! Strings of several lines. -/

theorem closing_of_other {mark first : Char} (other : first ≠ mark) (rest : List Char) :
    closing mark (first :: rest) = none := by
  unfold closing
  split
  · simp_all
  · rfl

theorem closing_marks {mark : Char} (notBreak : mark ≠ '\n') {content : List Char}
    (few : ¬ [mark, mark, mark] <+: content) (rest : List Char) :
    closing mark (content ++ mark :: mark :: mark :: '\n' :: rest) =
      if content.all (· = mark) then some (content, '\n' :: rest) else none := by
  have notMark : '\n' ≠ mark := Ne.symm notBreak
  match content with
  | [] => cases rest <;> simp [closing, notMark]
  | [first] =>
      by_cases same : first = mark
      · simp [closing, same, notMark]
      · simp [closing, same]
  | [first, second] =>
      by_cases same : first = mark ∧ second = mark
      · simp [closing, same]
      · simp_all [closing]
  | first :: second :: third :: others =>
      have mixed : ¬ (first = mark ∧ second = mark ∧ third = mark) := by
        intro same
        apply few
        rw [same.1, same.2.1, same.2.2]
        exact List.prefix_append [mark, mark, mark] others
      have notAll : ¬ (first = mark ∧ second = mark ∧ third = mark ∧ ∀ value ∈ others, value = mark) :=
        fun all => mixed ⟨all.1, all.2.1, all.2.2.1⟩
      simp [closing, and_assoc, mixed, notAll]

theorem basicLines_closed {text : List Char} {found : List Char × List Char}
    (closed : closing '"' text = some found) : basicLines .within text = some found := by
  cases text with
  | nil => simp [closing] at closed
  | cons value rest =>
      rw [basicLines.eq_def]
      simp [closed]

theorem basicLines_plain {value : Char} {rest : List Char} (shown : isPlain value = true)
    (notBackslash : value ≠ '\\') (further : closing '"' (value :: rest) = none) :
    basicLines .within (value :: rest) = withFirst value (basicLines .within rest) := by
  obtain ⟨notBreak, notReturn⟩ := no_break_of_isPlain shown
  rw [basicLines.eq_def]
  simp [further, notBackslash, notBreak, notReturn, shown]

theorem basicLines_break (rest : List Char) :
    basicLines .within ('\n' :: rest) = withFirst '\n' (basicLines .within rest) := by
  have further : closing '"' ('\n' :: rest) = none := closing_of_other (by decide) rest
  rw [basicLines.eq_def]
  simp [further]

theorem basicLines_stands {value : Char} {piece : List Char} (stands : Stands value piece)
    (rest : List Char) :
    basicLines .within (piece ++ rest) = withFirst value (basicLines .within rest) := by
  have further (others : List Char) : closing '"' ('\\' :: others) = none :=
    closing_of_other (by decide) others
  cases stands with
  | plain shown notMark notBackslash =>
      exact basicLines_plain shown notBackslash (closing_of_other notMark rest)
  | letter escapes =>
      have apart := escape?_apart escapes
      simp only [List.mem_cons, not_or] at apart
      rw [basicLines.eq_def]
      simp [further, isBlank, escapes, apart]
  | code control =>
      simp [basicLines, further, codeEscape, character?_code control]

theorem escapeBasic_few (lines : Bool) (run : Nat) (text : List Char) :
    ¬ ['"', '"', '"'] <+: escapeBasic 2 lines run text := by
  rintro ⟨tail, written⟩
  obtain ⟨_, _, _, afterFirst⟩ := escapeBasic_mark written.symm
  obtain ⟨_, _, _, afterSecond⟩ := escapeBasic_mark afterFirst.symm
  obtain ⟨_, _, room, _⟩ := escapeBasic_mark afterSecond.symm
  omega

theorem escapeBasic_of_all_marks (allowed : Nat) (lines : Bool) (run : Nat) (text : List Char)
    (all : (escapeBasic allowed lines run text).all (· = '"') = true) :
    escapeBasic allowed lines run text = text := by
  induction text generalizing run with
  | nil => rfl
  | cons value text ih =>
      obtain ⟨piece, next, holds, written⟩ := escapeBasic_cons allowed lines run value text
      rw [written, List.all_append, Bool.and_eq_true] at all
      rw [written]
      cases holds with
      | stands stands =>
          obtain ⟨first, others, same, _, notMark⟩ := stands.first
          simp [same, notMark] at all
      | mark room => rw [ih _ all.2, List.singleton_append]
      | lineBreak spread => simp at all

/-- Marks at the end of the content run into the ones that close it, and are told apart there. All
other marks are read one by one. -/
theorem basicLines_written (run : Nat) (text rest : List Char) :
    basicLines .within (escapeBasic 2 true run text ++ '"' :: '"' :: '"' :: '\n' :: rest) =
      some (text, '\n' :: rest) := by
  induction text generalizing run with
  | nil => exact basicLines_closed (closing_marks (by decide) (escapeBasic_few true run []) rest)
  | cons value text ih =>
      have closes := closing_marks (by decide) (escapeBasic_few true run (value :: text)) rest
      by_cases all : (escapeBasic 2 true run (value :: text)).all (· = '"') = true
      · rw [if_pos all] at closes
        rw [basicLines_closed closes, escapeBasic_of_all_marks _ _ _ _ all]
      · rw [if_neg all] at closes
        obtain ⟨piece, next, holds, written⟩ := escapeBasic_cons 2 true run value text
        rw [written, List.append_assoc] at closes ⊢
        cases holds with
        | stands stands =>
            rw [basicLines_stands stands, ih]
            rfl
        | mark room =>
            rw [List.singleton_append] at closes ⊢
            rw [basicLines_plain (by decide) (by decide) closes, ih]
            rfl
        | lineBreak spread =>
            rw [List.singleton_append, basicLines_break, ih]
            rfl

theorem run_le_longestRun (wanted : Char) (run : Nat) (text : List Char) :
    run ≤ longestRun wanted run text := by
  induction text generalizing run with
  | nil => exact Nat.le_refl run
  | cons value rest ih =>
      by_cases same : value = wanted
      · have further := ih (run + 1)
        simp only [longestRun, same, if_true]
        omega
      · simp only [longestRun, same, if_false]
        omega

theorem longestRun_rest {wanted value : Char} {run bound : Nat} {rest : List Char}
    (few : longestRun wanted run (value :: rest) ≤ bound) :
    ∃ next, longestRun wanted next rest ≤ bound := by
  by_cases same : value = wanted
  · simp only [longestRun, same, if_true] at few
    exact ⟨run + 1, few⟩
  · simp only [longestRun, same, if_false] at few
    exact ⟨0, by omega⟩

theorem longestRun_few {wanted : Char} {run : Nat} {text : List Char}
    (few : longestRun wanted run text ≤ 2) : ¬ [wanted, wanted, wanted] <+: text := by
  rintro ⟨tail, rfl⟩
  simp only [List.cons_append, List.nil_append, longestRun, if_true] at few
  have least := run_le_longestRun wanted (run + 1 + 1 + 1) tail
  omega

theorem literalLines_closed {text : List Char} {found : List Char × List Char}
    (closed : closing '\'' text = some found) : literalLines text = some found := by
  cases text with
  | nil => simp [closing] at closed
  | cons value rest =>
      rw [literalLines.eq_def]
      simp [closed]

theorem literalLines_content {value : Char} {rest : List Char}
    (shown : isPlain value = true ∨ value = '\n') (further : closing '\'' (value :: rest) = none) :
    literalLines (value :: rest) = withFirst value (literalLines rest) := by
  rw [literalLines.eq_def]
  rcases shown with plain | rfl
  · obtain ⟨notBreak, notReturn⟩ := no_break_of_isPlain plain
    simp [further, notBreak, notReturn, plain]
  · simp [further]

theorem literalLines_written (run : Nat) {text : List Char} (few : longestRun '\'' run text ≤ 2)
    (shown : ∀ value ∈ text, isPlain value = true ∨ value = '\n') (rest : List Char) :
    literalLines (text ++ '\'' :: '\'' :: '\'' :: '\n' :: rest) = some (text, '\n' :: rest) := by
  induction text generalizing run with
  | nil => exact literalLines_closed (closing_marks (by decide) (longestRun_few few) rest)
  | cons value text ih =>
      have closes := closing_marks (by decide) (longestRun_few few) rest
      by_cases all : (value :: text).all (· = '\'') = true
      · rw [if_pos all] at closes
        exact literalLines_closed closes
      · rw [if_neg all] at closes
        obtain ⟨next, fewer⟩ := longestRun_rest few
        have read := ih next fewer (fun other member => shown other (List.mem_cons_of_mem value member))
        rw [List.cons_append] at closes ⊢
        rw [literalLines_content (shown value List.mem_cons_self) closes, read]
        rfl

/-! Each style holds what it is chosen for. -/

theorem shown_of_no_control {text : List Char} (noControl : text.any needsEscape = false) :
    ∀ value ∈ text, isPlain value = true ∨ value = '\n' := by
  intro value member
  have notControl : needsEscape value = false := by
    simpa using List.any_eq_false.1 noControl value member
  by_cases isBreak : value = '\n'
  · exact .inr isBreak
  · exact .inl (isPlain_of_not_control notControl isBreak)

theorem not_mem_of_longestRun {wanted : Char} {text : List Char} (none : longestRun wanted 0 text = 0) :
    wanted ∉ text := by
  induction text with
  | nil => exact List.not_mem_nil
  | cons value rest ih =>
      by_cases same : value = wanted
      · simp only [longestRun, same, if_true] at none
        have least := run_le_longestRun wanted (0 + 1) rest
        omega
      · simp only [longestRun, same, if_false] at none
        rw [List.mem_cons, not_or]
        exact ⟨Ne.symm same, ih (by omega)⟩

theorem styleOf_literal {text : List Char} (chosen : styleOf text = .literal) :
    ∀ value ∈ text, isPlain value = true ∧ value ≠ '\'' := by
  simp only [styleOf] at chosen
  split_ifs at chosen with _ fits
  simp only [Bool.and_eq_true, Bool.not_eq_true', decide_eq_true_eq] at fits
  obtain ⟨⟨noControl, noBreak⟩, noMark⟩ := fits
  intro value member
  constructor
  · apply (shown_of_no_control noControl value member).resolve_right
    simpa using List.any_eq_false.1 noBreak value member
  · rintro rfl
    exact not_mem_of_longestRun noMark member

theorem styleOf_literalLines {text : List Char} (chosen : styleOf text = .literalLines) :
    longestRun '\'' 0 text ≤ 2 ∧ ∀ value ∈ text, isPlain value = true ∨ value = '\n' := by
  simp only [styleOf] at chosen
  split_ifs at chosen with _ _ _ fits
  simp only [Bool.and_eq_true, Bool.not_eq_true', decide_eq_true_eq] at fits
  exact ⟨fits.2, shown_of_no_control fits.1⟩

theorem skipFirstBreak_written (text : List Char) {content : List Char}
    (clear : text.any (· = '\n') = false → ∃ first rest, content = first :: rest ∧ isPlain first = true) :
    skipFirstBreak (firstBreak text ++ content) = content := by
  by_cases broken : text.any (· = '\n') = true
  · simp [firstBreak, broken, skipFirstBreak, newline?]
  · have noBreak : text.any (· = '\n') = false := eq_false_of_ne_true broken
    obtain ⟨first, rest, rfl, shown⟩ := clear noBreak
    obtain ⟨notBreak, notReturn⟩ := no_break_of_isPlain shown
    have none : newline? (first :: rest) = none := by
      unfold newline?
      split
      all_goals simp_all
    rw [firstBreak, noBreak, skipFirstBreak, if_neg Bool.false_ne_true, List.nil_append, none,
      Option.getD_none]

theorem escapeBasic_first {text : List Char} (allowed : Nat) (lines : Bool) (run : Nat)
    (noBreak : text.any (· = '\n') = false) (rest : List Char) :
    ∃ first others, escapeBasic allowed lines run text ++ '"' :: rest = first :: others ∧
      isPlain first = true := by
  cases text with
  | nil => exact ⟨'"', rest, rfl, by decide⟩
  | cons value text =>
      obtain ⟨piece, next, holds, written⟩ := escapeBasic_cons allowed lines run value text
      rw [written]
      cases holds with
      | stands stands =>
          obtain ⟨first, others, rfl, shown, _⟩ := stands.first
          exact ⟨first, _, rfl, shown⟩
      | mark room => exact ⟨'"', _, rfl, by decide⟩
      | lineBreak spread => simp at noBreak

theorem scanString_short {mark : Char} {text : List Char} (few : ¬ [mark, mark] <+: text) :
    scanString (mark :: text) = scanShortString (mark :: text) := by
  unfold scanString
  split
  · simp_all
  · simp_all
  · rfl

theorem one_mark_in_front {mark : Char} (notBreak : mark ≠ '\n') {content : List Char}
    (other : ∀ rest, content ≠ mark :: rest) (rest : List Char) :
    ¬ [mark, mark] <+: content ++ mark :: '\n' :: rest := by
  cases content with
  | nil => simp [notBreak]
  | cons first others =>
      rw [List.cons_append, List.cons_prefix_cons]
      rintro ⟨rfl, _⟩
      exact other others rfl

/-- Every string is read back from its text. -/
theorem scanString_written (text rest : List Char) :
    scanString (writeChars text ++ '\n' :: rest) = some (String.ofList text, '\n' :: rest) := by
  unfold writeChars
  split
  all_goals simp only [List.append_assoc, List.cons_append, List.nil_append]
  case h_1 =>
    have other : ∀ tail, escapeBasic 0 false 0 text ≠ '"' :: tail := by
      intro tail written
      obtain ⟨_, _, room, _⟩ := escapeBasic_mark written
      omega
    rw [scanString_short (one_mark_in_front (by decide) other rest), scanShortString,
      basicContent_written]
    rfl
  case h_2 chosen =>
    have fits := styleOf_literal chosen
    have other : ∀ tail, text ≠ '\'' :: tail := by
      rintro tail rfl
      exact (fits '\'' List.mem_cons_self).2 rfl
    rw [scanString_short (one_mark_in_front (by decide) other rest), scanShortString,
      literalContent_written fits]
    rfl
  case h_3 =>
    have clear := skipFirstBreak_written text
      (fun noBreak => escapeBasic_first 2 true 0 noBreak ('"' :: '"' :: '\n' :: rest))
    rw [scanString, clear, basicLines_written]
    rfl
  case h_4 chosen =>
    obtain ⟨few, shown⟩ := styleOf_literalLines chosen
    have clear : skipFirstBreak (firstBreak text ++ (text ++ '\'' :: '\'' :: '\'' :: '\n' :: rest)) =
        text ++ '\'' :: '\'' :: '\'' :: '\n' :: rest := by
      apply skipFirstBreak_written
      intro noBreak
      cases text with
      | nil => exact ⟨'\'', _, rfl, by decide⟩
      | cons first others =>
          have notBreak : first ≠ '\n' := by
            simpa using List.any_eq_false.1 noBreak first List.mem_cons_self
          exact ⟨first, _, rfl, (shown first List.mem_cons_self).resolve_right notBreak⟩
    rw [scanString, clear, literalLines_written 0 few shown]
    rfl

end LedgerWire.Toml
