import LedgerWire.Proofs.Identifier

/-!
Identifiers in their order. Compared byte by byte from the left they compare as the numbers that they
stand for, so that sorting them and dropping repeats puts numbers in strictly ascending order.
-/

namespace LedgerWire

theorem bigEndian_lt (bytes : Bytes) : bigEndian bytes < 256 ^ bytes.length := by
  have small : ∀ value ∈ (bytes.map UInt8.toNat).reverse, value < 256 := by
    intro value member
    obtain ⟨byte, _, isByte⟩ := List.mem_map.1 (List.mem_reverse.1 member)
    rw [← isByte]
    exact byte.toNat_lt
  have bound := Nat.ofDigits_lt_base_pow_length (by decide) small
  rwa [List.length_reverse, List.length_map] at bound

theorem places_le_iff {base high low other rest : Nat} (small : low < base) (smallToo : rest < base) :
    high * base + low ≤ other * base + rest ↔ high < other ∨ high = other ∧ low ≤ rest := by
  rcases Nat.lt_trichotomy high other with less | same | greater
  · have step : (high + 1) * base ≤ other * base := Nat.mul_le_mul_right base less
    rw [Nat.add_mul, Nat.one_mul] at step
    omega
  · subst same
    omega
  · have step : (other + 1) * base ≤ high * base := Nat.mul_le_mul_right base greater
    rw [Nat.add_mul, Nat.one_mul] at step
    omega

namespace Identifier

variable {width : Nat}

theorem bytesLe_iff {left : Bytes} : ∀ {right : Bytes}, left.length = right.length →
    (bytesLe left right = true ↔ bigEndian left ≤ bigEndian right) := by
  induction left with
  | nil =>
      intro right sameLength
      rw [List.eq_nil_of_length_eq_zero sameLength.symm]
      simp [bytesLe]
  | cons first lefts ih =>
      intro right sameLength
      cases right with
      | nil => simp at sameLength
      | cons second rights =>
          have sameRest : lefts.length = rights.length := Nat.succ.inj sameLength
          have below := bigEndian_lt lefts
          rw [sameRest] at below
          rw [bigEndian_cons, bigEndian_cons, sameRest, places_le_iff below (bigEndian_lt rights),
            ← UInt8.lt_iff_toNat_lt, UInt8.toNat_inj, ← ih sameRest]
          simp [bytesLe]

theorem le_iff {left right : Identifier width} :
    left.le right = true ↔ left.number ≤ right.number :=
  bytesLe_iff (left.length_eq.trans right.length_eq.symm)

def order (left right : Identifier width) : Ordering :=
  if left.le right then if right.le left then .eq else .lt else .gt

theorem order_eq (left right : Identifier width) :
    order left right = compare left.number right.number := by
  rcases Nat.lt_trichotomy left.number right.number with less | same | greater
  · rw [compare_lt_iff_lt.2 less, order, if_pos (le_iff.2 less.le),
      if_neg (le_iff.not.2 (Nat.not_le.2 less))]
  · rw [compare_eq_iff_eq.2 same, order, if_pos (le_iff.2 same.le), if_pos (le_iff.2 same.ge)]
  · rw [compare_gt_iff_gt.2 greater, order, if_neg (le_iff.not.2 (Nat.not_le.2 greater))]

theorem mem_dropRepeats {identifier : Identifier width} {identifiers : List (Identifier width)} :
    identifier ∈ dropRepeats identifiers ↔ identifier ∈ identifiers := by
  induction identifiers using dropRepeats.induct with
  | case1 => rfl
  | case2 only => rfl
  | case3 second rest ih =>
      rw [dropRepeats, if_pos rfl, ih]
      simp
  | case4 first second rest differ ih =>
      rw [dropRepeats, if_neg differ, List.mem_cons, ih, List.mem_cons (a := identifier) (b := first)]

theorem dropRepeats_ascending {identifiers : List (Identifier width)}
    (ascending : identifiers.Pairwise fun left right => left.number ≤ right.number) :
    (dropRepeats identifiers).Pairwise fun left right => left.number < right.number := by
  induction identifiers using dropRepeats.induct with
  | case1 => exact .nil
  | case2 only => exact List.pairwise_singleton _ _
  | case3 second rest ih =>
      rw [dropRepeats, if_pos rfl]
      exact ih (List.pairwise_cons.1 ascending).2
  | case4 first second rest differ ih =>
      obtain ⟨firstLeast, others⟩ := List.pairwise_cons.1 ascending
      have secondLeast := (List.pairwise_cons.1 others).1
      have less : first.number < second.number :=
        lt_of_le_of_ne (firstLeast second List.mem_cons_self) (number_inj.not.2 differ)
      rw [dropRepeats, if_neg differ]
      refine List.pairwise_cons.2 ⟨?_, ih others⟩
      intro other member
      rcases List.mem_cons.1 (mem_dropRepeats.1 member) with isSecond | isLater
      · rw [isSecond]
        exact less
      · exact lt_of_lt_of_le less (secondLeast other isLater)

theorem mem_sortDistinct {identifier : Identifier width} {identifiers : List (Identifier width)} :
    identifier ∈ sortDistinct identifiers ↔ identifier ∈ identifiers := by
  rw [sortDistinct, mem_dropRepeats, List.mem_mergeSort]

theorem sortDistinct_ascending (identifiers : List (Identifier width)) :
    (sortDistinct identifiers).Pairwise fun left right => left.number < right.number := by
  have transitive : ∀ first second third : Identifier width,
      first.le second = true → second.le third = true → first.le third = true := by
    intro first second third below above
    exact le_iff.2 ((le_iff.1 below).trans (le_iff.1 above))
  have total : ∀ first second : Identifier width, (first.le second || second.le first) = true := by
    intro first second
    rw [Bool.or_eq_true, le_iff, le_iff]
    exact Nat.le_total _ _
  have sorted := List.pairwise_mergeSort transitive total identifiers
  exact dropRepeats_ascending (sorted.imp fun below => le_iff.1 below)

/-- The number that the digits of a text write. -/
def denoted (text : String) : Nat := Hex.number (Utf8.encode (bareText text))

theorem number_of_ofHex {text : String} {identifier : Identifier width}
    (read : ofHex text = .ok identifier) : identifier.number = denoted text :=
  (ofHex_iff_number.1 read).2.2

theorem numbers_of_texts {texts : List String} {identifiers : List (Identifier width)}
    (read : List.Forall₂ (fun text identifier => ofHex text = .ok identifier) texts identifiers) :
    identifiers.map number = texts.map denoted := by
  induction read with
  | nil => rfl
  | cons first _ ih => rw [List.map_cons, List.map_cons, number_of_ofHex first, ih]

/-- Identifiers compare as the numbers that their texts denote. Sorted and with repeats dropped they
are in strictly ascending order, hold just the numbers that were given, and are shown by short texts
of which no two are the same. -/
theorem order_is_numeric (width : Nat) :
    (∀ (left right : String) (first second : Identifier width), ofHex left = .ok first →
      ofHex right = .ok second → order first second = compare (denoted left) (denoted right)) ∧
    ∀ (texts : List String) (identifiers : List (Identifier width)),
      List.Forall₂ (fun text identifier => ofHex text = .ok identifier) texts identifiers →
        ((sortDistinct identifiers).map number).Pairwise (· < ·) ∧
        (∀ value, value ∈ (sortDistinct identifiers).map number ↔ value ∈ texts.map denoted) ∧
        ((sortDistinct identifiers).map shortText).Nodup := by
  constructor
  · intro left right first second readLeft readRight
    rw [order_eq, number_of_ofHex readLeft, number_of_ofHex readRight]
  · intro texts identifiers read
    have ascending := sortDistinct_ascending identifiers
    refine ⟨List.pairwise_map.2 ascending, ?_, ?_⟩
    · intro value
      simp only [← numbers_of_texts read, List.mem_map, mem_sortDistinct]
    · refine List.pairwise_map.2 (ascending.imp ?_)
      intro left right less same
      rw [shortText_inj.1 same] at less
      exact lt_irrefl _ less

theorem order_of_ten_and_nine :
    let ten : Identifier 2 := ⟨[0x00, 0x0A], rfl⟩
    let nine : Identifier 2 := ⟨[0x00, 0x09], rfl⟩
    List.Forall₂ (fun text identifier => ofHex text = .ok identifier) ["0X00a", "9", "0xA"]
        [ten, nine, ten] ∧
      order ten nine = .gt ∧
      ((sortDistinct [ten, nine, ten]).map number).Pairwise (· < ·) ∧
      ∀ value, value ∈ (sortDistinct [ten, nine, ten]).map number ↔ value = 9 ∨ value = 10 := by
  intro ten nine
  obtain ⟨compared, sorted⟩ := order_is_numeric 2
  have readTen : ofHex "0X00a" = .ok ten := rfl
  have readNine : ofHex "9" = .ok nine := rfl
  have read : List.Forall₂ (fun text identifier => ofHex text = .ok identifier)
      ["0X00a", "9", "0xA"] [ten, nine, ten] := .cons readTen (.cons readNine (.cons rfl .nil))
  have given : ["0X00a", "9", "0xA"].map denoted = [10, 9, 10] := rfl
  obtain ⟨ascending, same, _⟩ := sorted _ _ read
  refine ⟨read, ?_, ascending, ?_⟩
  · rw [compared _ _ _ _ readTen readNine]
    decide
  · intro value
    rw [same, given]
    simp only [List.mem_cons, List.not_mem_nil, or_false]
    constructor
    · rintro (isTen | isNine | isTen)
      · exact .inr isTen
      · exact .inl isNine
      · exact .inr isTen
    · rintro (isNine | isTen)
      · exact .inr (.inl isNine)
      · exact .inl isTen

end Identifier

end LedgerWire
