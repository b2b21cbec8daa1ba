import Mathlib.Data.List.Forall2
import LedgerWire.Proofs.Json.ReadBack
import LedgerWire.Proofs.Json.Skip

/-!
The outline of a text: where the items of a list and the members of a record begin, whatever they
are read as. A reader of entries takes what the outline says, entry by entry.
-/

namespace LedgerWire.Json

variable {σ τ α : Type}

/-- From `bytes` on, `places` are found one after the other up to a closing bracket, and the text
goes on with `rest`. -/
inductive Entries (close : UInt8) (locate : Reader τ) : Bool → Bytes → List τ → Bytes → Prop
  | finished {isFirst : Bool} {bytes rest : Bytes}
      (stop : nextEntry close isFirst bytes = .ok (.finished rest)) :
      Entries close locate isFirst bytes [] rest
  | entry {isFirst : Bool} {bytes start after rest : Bytes} {place : τ} {places : List τ}
      (next : nextEntry close isFirst bytes = .ok (.entry start))
      (located : locate start = .ok (place, after))
      (later : Entries close locate false after places rest) :
      Entries close locate isFirst bytes (place :: places) rest

theorem Entries.unique {close : UInt8} {locate : Reader τ} {isFirst : Bool} {bytes rest : Bytes}
    {places : List τ} (first : Entries close locate isFirst bytes places rest) :
    ∀ {others : List τ} {behind : Bytes}, Entries close locate isFirst bytes others behind →
      places = others ∧ rest = behind := by
  induction first with
  | finished stop =>
      intro others behind second
      cases second with
      | finished stop' =>
          have same := stop.symm.trans stop'
          simp only [Except.ok.injEq, Next.finished.injEq] at same
          exact ⟨rfl, same⟩
      | entry next _ _ =>
          have same := stop.symm.trans next
          simp at same
  | entry next located _ ih =>
      intro others behind second
      cases second with
      | finished stop =>
          have same := next.symm.trans stop
          simp at same
      | entry next' located' later' =>
          have sameStart := next.symm.trans next'
          simp only [Except.ok.injEq, Next.entry.injEq] at sameStart
          subst sameStart
          have samePlace := located.symm.trans located'
          simp only [Except.ok.injEq, Prod.mk.injEq] at samePlace
          rcases samePlace with ⟨samePlace, sameAfter⟩
          subst samePlace
          subst sameAfter
          obtain ⟨samePlaces, sameRest⟩ := ih later'
          exact ⟨by rw [samePlaces], sameRest⟩

/-- A reader of entries that takes what `locate` finds and makes `step` of it. -/
def Steps (locate : Reader τ) (entry : σ → Reader σ) (step : σ → τ → Except Fault σ) : Prop :=
  ∀ state bytes next rest, entry state bytes = .ok (next, rest) ↔
    ∃ place, locate bytes = .ok (place, rest) ∧ step state place = .ok next

theorem readEntries_iff {close : UInt8} {locate : Reader τ} {entry : σ → Reader σ}
    {step : σ → τ → Except Fault σ} (consumes : Consumes locate) (steps : Steps locate entry step) :
    ∀ fuel isFirst state bytes final rest, bytes.length < fuel →
      (readEntries close entry fuel isFirst state bytes = .ok (final, rest) ↔
        ∃ places, Entries close locate isFirst bytes places rest ∧
          places.foldlM step state = .ok final) := by
  -- There is fuel for every byte, and an entry takes one at least.
  intro fuel
  induction fuel with
  | zero =>
      intro isFirst state bytes final rest enough
      omega
  | succ fuel ih =>
      intro isFirst state bytes final rest enough
      constructor
      · intro read
        rcases readEntries_eq_ok read with ⟨stop, same⟩ | ⟨start, next, after, place, taken, looped⟩
        · exact ⟨[], .finished stop, by rw [same]; rfl⟩
        · obtain ⟨found, located, stepped⟩ := (steps state start next after).1 taken
          have startShorter := nextEntry_length place
          have foundShorter := consumes start found after located
          simp only [Next.least] at startShorter
          obtain ⟨places, entries, folded⟩ := (ih false next after final rest (by omega)).1 looped
          refine ⟨found :: places, .entry place located entries, ?_⟩
          rw [List.foldlM_cons, stepped, ok_bind, folded]
      · rintro ⟨places, entries, folded⟩
        rw [readEntries_succ]
        cases entries with
        | finished stop =>
            simp only [List.foldlM_nil, pure, Except.pure, Except.ok.injEq] at folded
            rw [stop, ok_bind, folded]
        | entry place located later =>
            rename_i start after found places
            rw [List.foldlM_cons] at folded
            obtain ⟨next, stepped, folded⟩ := bind_eq_ok.1 folded
            have startShorter := nextEntry_length place
            have foundShorter := consumes start found after located
            simp only [Next.least] at startShorter
            have taken := (steps state start next after).2 ⟨found, located, stepped⟩
            have looped := (ih false next after final rest (by omega)).2 ⟨places, later, folded⟩
            rw [place]
            simp only [ok_bind, taken, looped]

theorem readAll_iff {close : UInt8} {locate : Reader τ} {entry : σ → Reader σ}
    {step : σ → τ → Except Fault σ} (consumes : Consumes locate) (steps : Steps locate entry step)
    {start final : σ} {bytes rest : Bytes} :
    readAll close entry start bytes = .ok (final, rest) ↔
      ∃ places, Entries close locate true bytes places rest ∧ places.foldlM step start = .ok final :=
  readEntries_iff consumes steps _ true start bytes final rest (Nat.lt_succ_self _)

/-! Items are located by the text from them on, members by their key and the text of their value. -/

def passOver : Reader Bytes := fun bytes => do
  let (_, rest) ← skipValue bytes
  .ok (bytes, rest)

def passMember : Reader (String × Bytes) := fun bytes => do
  let (key, rest) ← readKey bytes
  let text ← readColon rest
  let (_, rest) ← skipValue text
  .ok ((key, text), rest)

theorem passOver_eq_ok {bytes text rest : Bytes} :
    passOver bytes = .ok (text, rest) ↔ skipValue bytes = .ok ((), rest) ∧ text = bytes := by
  simp only [passOver, bind_eq_ok]
  constructor
  · rintro ⟨⟨_, after⟩, skipped, later⟩
    simp only [Except.ok.injEq, Prod.mk.injEq] at later
    rw [← later.2]
    exact ⟨skipped, later.1.symm⟩
  · rintro ⟨skipped, same⟩
    exact ⟨((), rest), skipped, by rw [same]⟩

theorem passMember_eq_ok {bytes text rest : Bytes} {key : String} :
    passMember bytes = .ok ((key, text), rest) ↔ ∃ afterKey, readKey bytes = .ok (key, afterKey) ∧
      readColon afterKey = .ok text ∧ skipValue text = .ok ((), rest) := by
  simp only [passMember, bind_eq_ok]
  constructor
  · rintro ⟨⟨found, afterKey⟩, keyRead, content, colonRead, ⟨_, after⟩, skipped, later⟩
    simp only [Except.ok.injEq, Prod.mk.injEq] at later
    rcases later with ⟨⟨sameKey, sameText⟩, sameRest⟩
    subst sameKey
    subst sameText
    subst sameRest
    exact ⟨afterKey, keyRead, colonRead, skipped⟩
  · rintro ⟨afterKey, keyRead, colonRead, skipped⟩
    exact ⟨(key, afterKey), keyRead, text, colonRead, ((), rest), skipped, rfl⟩

theorem skipValue_length : Consumes skipValue :=
  fun bytes value rest skipped => skipWithin_length bytes.length bytes value rest skipped

theorem passOver_length : Consumes passOver := by
  intro bytes text rest passed
  exact skipValue_length bytes () rest (passOver_eq_ok.1 passed).1

theorem passMember_length : Consumes passMember := by
  rintro bytes ⟨key, text⟩ rest passed
  obtain ⟨afterKey, keyRead, colonRead, skipped⟩ := passMember_eq_ok.1 passed
  have keyShorter := readKey_length bytes key afterKey keyRead
  have colonShorter := readColon_length colonRead
  have textShorter := skipValue_length text () rest skipped
  omega

/-- A text that begins with something that the reader takes for `value`. -/
def Takes (reader : Reader α) (text : Bytes) (value : α) : Prop :=
  ∃ rest, reader text = .ok (value, rest)

theorem Takes.unique {reader : Reader α} {text : Bytes} {first second : α}
    (one : Takes reader text first) (other : Takes reader text second) : first = second := by
  rcases one with ⟨rest, one⟩
  rcases other with ⟨rest', other⟩
  have same := one.symm.trans other
  simp only [Except.ok.injEq, Prod.mk.injEq] at same
  exact same.1

theorem Skips.rest_eq {reader : Reader α} (skips : Skips reader) {text rest : Bytes} {value : α}
    (takes : Takes reader text value) (skipped : skipValue text = .ok ((), rest)) :
    reader text = .ok (value, rest) := by
  rcases takes with ⟨after, read⟩
  have passed := skips text value after read text.length (Nat.le_refl _)
  have same := passed.symm.trans skipped
  simp only [Except.ok.injEq, Prod.mk.injEq, true_and] at same
  rw [read, same]

theorem Skips.skipValue {reader : Reader α} (skips : Skips reader) {text rest : Bytes} {value : α}
    (read : reader text = .ok (value, rest)) : skipValue text = .ok ((), rest) :=
  skips text value rest read text.length (Nat.le_refl _)

theorem Skips.rest_unique {β : Type} {reader : Reader α} {other : Reader β} (skips : Skips reader)
    (skips' : Skips other) {text rest rest' : Bytes} {value : α} {value' : β}
    (read : reader text = .ok (value, rest)) (read' : other text = .ok (value', rest')) :
    rest = rest' :=
  (skips text value rest read).unique (skips' text value' rest' read')

theorem skip_entries {close : UInt8} {locate : Reader τ} (consumes : Consumes locate)
    (skips : ∀ start place after, locate start = .ok (place, after) → SkippedEntry close start after)
    {isFirst : Bool} {bytes rest : Bytes} {places : List τ}
    (entries : Entries close locate isFirst bytes places rest) : ∀ fuel bound,
    bytes.length < fuel → bytes.length ≤ bound →
      readEntries close (skipEntry close bound) fuel isFirst () bytes = .ok ((), rest) := by
  induction entries with
  | finished stop =>
      intro fuel bound fuelEnough _
      obtain ⟨fuel, same⟩ : ∃ inner, fuel = inner + 1 := ⟨fuel - 1, by omega⟩
      rw [same, readEntries_succ, stop]
      rfl
  | @entry isFirst bytes start after rest place places next located _ ih =>
      intro fuel bound fuelEnough boundEnough
      obtain ⟨fuel, same⟩ : ∃ inner, fuel = inner + 1 := ⟨fuel - 1, by omega⟩
      have startShorter := nextEntry_length next
      have placeShorter := consumes start place after located
      simp only [Next.least] at startShorter
      rw [same, readEntries_succ, next]
      simp only [ok_bind, skips start place after located bound (by omega)]
      exact ih fuel bound (by omega) (by omega)

theorem skipped_outline {close : UInt8} {locate : Reader τ} (consumes : Consumes locate)
    (skips : ∀ start place after, locate start = .ok (place, after) → SkippedEntry close start after)
    {bytes inside rest : Bytes} {found : Found} {places : List τ}
    (read : readFound bytes = .ok (found, inside)) (bracket : found.closing = some close)
    (entries : Entries close locate true inside places rest) : Skipped bytes rest := by
  have skipped := skipScalar_of_readFound read
  have shorter := readFound_length bytes found inside read
  intro bound enough
  obtain ⟨inner, same⟩ : ∃ inner, bound = inner + 1 := ⟨bound - 1, by omega⟩
  subst same
  rw [bracket] at skipped
  rw [skipWithin_succ, skipped]
  exact skip_entries consumes skips entries _ inner (Nat.lt_succ_self _) (by omega)

/-- The items that a list in the text has, each by the text from it on. -/
def ListOutline (bytes : Bytes) (texts : List Bytes) (rest : Bytes) : Prop :=
  ∃ inside, readFound bytes = .ok (.list, inside) ∧
    Entries closeList passOver true inside texts rest

/-- The members that a record in the text has, each by its key and the text of its value. -/
def RecordOutline (bytes : Bytes) (outline : List (String × Bytes)) (rest : Bytes) : Prop :=
  ∃ inside, readFound bytes = .ok (.record, inside) ∧
    Entries closeRecord passMember true inside outline rest

theorem ListOutline.skipped {bytes rest : Bytes} {texts : List Bytes}
    (outline : ListOutline bytes texts rest) : Skipped bytes rest := by
  rcases outline with ⟨inside, read, entries⟩
  refine skipped_outline passOver_length ?_ read rfl entries
  intro start text after located
  exact skippedEntry_item (skipped_iff.2 (passOver_eq_ok.1 located).1)

theorem RecordOutline.skipped {bytes rest : Bytes} {members : List (String × Bytes)}
    (outline : RecordOutline bytes members rest) : Skipped bytes rest := by
  rcases outline with ⟨inside, read, entries⟩
  refine skipped_outline passMember_length ?_ read rfl entries
  rintro start ⟨key, text⟩ after located
  obtain ⟨afterKey, keyRead, colonRead, skipped⟩ := passMember_eq_ok.1 located
  exact skippedEntry_member keyRead colonRead (skipped_iff.2 skipped)

theorem ListOutline.unique {bytes rest behind : Bytes} {texts others : List Bytes}
    (first : ListOutline bytes texts rest) (second : ListOutline bytes others behind) :
    texts = others := by
  rcases first with ⟨inside, read, entries⟩
  rcases second with ⟨inside', read', entries'⟩
  have same := ok_pair_inj (read.symm.trans read')
  rw [← same.2] at entries'
  exact (entries.unique entries').1

theorem RecordOutline.unique {bytes rest behind : Bytes} {members others : List (String × Bytes)}
    (first : RecordOutline bytes members rest) (second : RecordOutline bytes others behind) :
    members = others := by
  rcases first with ⟨inside, read, entries⟩
  rcases second with ⟨inside', read', entries'⟩
  have same := ok_pair_inj (read.symm.trans read')
  rw [← same.2] at entries'
  exact (entries.unique entries').1

theorem ListOutline.notRecord {bytes rest behind : Bytes} {texts : List Bytes}
    {members : List (String × Bytes)} (list : ListOutline bytes texts rest) :
    ¬ RecordOutline bytes members behind := by
  rintro ⟨inside, read, _⟩
  rcases list with ⟨inside', read', _⟩
  have same := ok_pair_inj (read.symm.trans read')
  exact Found.noConfusion same.1

def itemStep (reader : Reader α) (values : List α) (text : Bytes) : Except Fault (List α) :=
  (reader text).map fun taken => taken.1 :: values

def memberStep (content : Reader Value) (members : Members) (place : String × Bytes) :
    Except Fault Members :=
  (content place.2).map fun taken => (place.1, taken.1) :: members

theorem steps_item {reader : Reader α} (skips : Skips reader) :
    Steps passOver (readItem reader) (itemStep reader) := by
  intro values bytes next rest
  simp only [readItem, itemStep, bind_eq_ok, passOver_eq_ok, map_eq_ok]
  constructor
  · rintro ⟨⟨value, after⟩, read, later⟩
    simp only [Except.ok.injEq, Prod.mk.injEq] at later
    rcases later with ⟨sameNext, sameRest⟩
    subst sameRest
    exact ⟨bytes, ⟨skips.skipValue read, rfl⟩, (value, after), read, sameNext⟩
  · rintro ⟨text, ⟨skipped, same⟩, ⟨value, after⟩, read, sameNext⟩
    subst same
    exact ⟨(value, rest), skips.rest_eq ⟨after, read⟩ skipped, by rw [← sameNext]⟩

theorem steps_member {content : Reader Value} (skips : Skips content) :
    Steps passMember (readMember content) (memberStep content) := by
  intro members bytes next rest
  simp only [readMember, memberStep, bind_eq_ok, map_eq_ok, Prod.exists, passMember_eq_ok]
  constructor
  · rintro ⟨key, afterKey, keyRead, text, colonRead, value, after, read, later⟩
    simp only [Except.ok.injEq, Prod.mk.injEq] at later
    rcases later with ⟨sameNext, sameRest⟩
    subst sameRest
    exact ⟨key, text, ⟨afterKey, keyRead, colonRead, skips.skipValue read⟩, value, after, read,
      sameNext⟩
  · rintro ⟨key, text, ⟨afterKey, keyRead, colonRead, skipped⟩, value, after, read, sameNext⟩
    exact ⟨key, afterKey, keyRead, text, colonRead, value, rest, skips.rest_eq ⟨after, read⟩ skipped,
      by rw [← sameNext]⟩

theorem forall₂_left {υ : Type} {related : τ → υ → Prop} {lefts : List τ} {rights : List υ}
    (pairs : List.Forall₂ related lefts rights) {right : υ} (member : right ∈ rights) :
    ∃ left ∈ lefts, related left right := by
  induction pairs with
  | nil => exact absurd member List.not_mem_nil
  | @cons left other lefts rights pair _ ih =>
      rcases List.mem_cons.1 member with isHead | inRest
      · rw [isHead]
        exact ⟨left, List.mem_cons_self, pair⟩
      · obtain ⟨found, inside, here⟩ := ih inRest
        exact ⟨found, List.mem_cons_of_mem _ inside, here⟩

def UnderKey {β : Type} (related : τ → β → Prop) (left : String × τ) (right : String × β) : Prop :=
  left.1 = right.1 ∧ related left.2 right.2

theorem foldlM_items_iff (reader : Reader α) (texts : List Bytes) : ∀ start final : List α,
    texts.foldlM (itemStep reader) start = .ok final ↔
      ∃ values, List.Forall₂ (Takes reader) texts values ∧ final = values.reverse ++ start := by
  induction texts with
  | nil =>
      intro start final
      simp only [List.foldlM_nil, pure, Except.pure, Except.ok.injEq, List.forall₂_nil_left_iff]
      simp [eq_comm]
  | cons text texts ih =>
      intro start final
      simp only [List.foldlM_cons, bind_eq_ok, ih, itemStep, map_eq_ok]
      constructor
      · rintro ⟨_, ⟨⟨value, rest⟩, read, same⟩, values, related, sameFinal⟩
        subst same
        exact ⟨value :: values, .cons ⟨rest, read⟩ related, by simp [sameFinal]⟩
      · rintro ⟨_, related, sameFinal⟩
        cases related with
        | cons taken related =>
            rename_i value values
            rcases taken with ⟨rest, read⟩
            exact ⟨value :: start, ⟨(value, rest), read, rfl⟩, values, related, by simp [sameFinal]⟩

theorem foldlM_members_iff (content : Reader Value) (outline : List (String × Bytes)) :
    ∀ start final : Members,
    outline.foldlM (memberStep content) start = .ok final ↔
      ∃ members, List.Forall₂ (UnderKey (Takes content)) outline members ∧
        final = members.reverse ++ start := by
  induction outline with
  | nil =>
      intro start final
      simp only [List.foldlM_nil, pure, Except.pure, Except.ok.injEq, List.forall₂_nil_left_iff]
      simp [eq_comm]
  | cons place outline ih =>
      intro start final
      rcases place with ⟨key, text⟩
      simp only [List.foldlM_cons, bind_eq_ok, ih, memberStep, map_eq_ok]
      constructor
      · rintro ⟨_, ⟨⟨value, rest⟩, read, same⟩, members, related, sameFinal⟩
        subst same
        exact ⟨(key, value) :: members, .cons ⟨rfl, rest, read⟩ related, by simp [sameFinal]⟩
      · rintro ⟨_, related, sameFinal⟩
        cases related with
        | cons taken related =>
            rename_i member members
            rcases member with ⟨key', value⟩
            rcases taken with ⟨sameKey, rest, read⟩
            dsimp only at sameKey read
            subst sameKey
            exact ⟨(key, value) :: start, ⟨(value, rest), read, rfl⟩, members, related,
              by simp [sameFinal]⟩

theorem readItems_iff {reader : Reader α} (skips : Skips reader) {bytes rest : Bytes}
    {final : List α} :
    readAll closeList (readItem reader) [] bytes = .ok (final, rest) ↔
      ∃ texts values, Entries closeList passOver true bytes texts rest ∧
        List.Forall₂ (Takes reader) texts values ∧ final = values.reverse := by
  rw [readAll_iff passOver_length (steps_item skips)]
  simp only [foldlM_items_iff, List.append_nil]
  constructor
  · rintro ⟨texts, entries, values, related, same⟩
    exact ⟨texts, values, entries, related, same⟩
  · rintro ⟨texts, values, entries, related, same⟩
    exact ⟨texts, entries, values, related, same⟩

theorem readPairs_iff {content : Reader Value} (skips : Skips content) {bytes rest : Bytes}
    {final : Members} :
    readAll closeRecord (readMember content) [] bytes = .ok (final, rest) ↔
      ∃ outline members, Entries closeRecord passMember true bytes outline rest ∧
        List.Forall₂ (UnderKey (Takes content)) outline members ∧ final = members.reverse := by
  rw [readAll_iff passMember_length (steps_member skips)]
  simp only [foldlM_members_iff, List.append_nil]
  constructor
  · rintro ⟨outline, entries, members, related, same⟩
    exact ⟨outline, members, entries, related, same⟩
  · rintro ⟨outline, members, entries, related, same⟩
    exact ⟨outline, entries, members, related, same⟩

end LedgerWire.Json
