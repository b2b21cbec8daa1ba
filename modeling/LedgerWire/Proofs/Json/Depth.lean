import LedgerWire.Proofs.Json.Inverse

/-!
The limit on lists and records that are open at once. A lower limit changes nothing but that some
texts become malformed, and what a limit lets through can be written again within it, apart from
values that stand for missing fields.
-/

namespace LedgerWire.Json

variable {ε α β σ τ : Type}

def Lowers (low high : Except Fault α) : Prop := low = high ∨ low = .error .malformed

theorem lowers_refl (outcome : Except Fault α) : Lowers outcome outcome := Or.inl rfl

theorem lowers_bind {low high : Except Fault α} {next other : α → Except Fault β}
    (first : Lowers low high) (later : ∀ value, Lowers (next value) (other value)) :
    Lowers (low >>= next) (high >>= other) := by
  rcases first with same | malformed
  · rw [same]
    cases high with
    | error fault => exact lowers_refl _
    | ok value => exact later value
  · rw [malformed]
    exact Or.inr rfl

/-- A reader whose outcomes a lower limit can only make malformed. -/
def Lowering (reader : Nat → Reader α) : Prop :=
  ∀ low high, low ≤ high → ∀ bytes, Lowers (reader low bytes) (reader high bytes)

theorem lowers_inside {low high : Nat} {outcome : Nat → Except Fault α} (below : low ≤ high)
    (refuses : outcome 0 = .error .malformed)
    (inside : ∀ low high, low ≤ high → Lowers (outcome (low + 1)) (outcome (high + 1))) :
    Lowers (outcome low) (outcome high) := by
  cases low with
  | zero => exact Or.inr refuses
  | succ low =>
      cases high with
      | zero => exact absurd below (Nat.not_succ_le_zero low)
      | succ high => exact inside low high (Nat.le_of_succ_le_succ below)

theorem lowers_readEntries {close : UInt8} {entry other : σ → Reader σ}
    (lowers : ∀ state bytes, Lowers (entry state bytes) (other state bytes)) :
    ∀ fuel isFirst state bytes, Lowers (readEntries close entry fuel isFirst state bytes)
      (readEntries close other fuel isFirst state bytes) := by
  intro fuel
  induction fuel with
  | zero => exact fun isFirst state bytes => lowers_refl _
  | succ fuel ih =>
      intro isFirst state bytes
      rw [readEntries_succ, readEntries_succ]
      refine lowers_bind (lowers_refl _) ?_
      intro next
      cases next with
      | finished rest => exact lowers_refl _
      | entry start => exact lowers_bind (lowers state start) fun after => ih false after.1 after.2

theorem lowers_readAll {close : UInt8} {entry other : σ → Reader σ}
    (lowers : ∀ state bytes, Lowers (entry state bytes) (other state bytes)) (start : σ)
    (bytes : Bytes) : Lowers (readAll close entry start bytes) (readAll close other start bytes) :=
  lowers_readEntries lowers _ true start bytes

theorem lowers_readItem {item other : Reader α} (lowers : ∀ bytes, Lowers (item bytes) (other bytes))
    (items : List α) (bytes : Bytes) :
    Lowers (readItem item items bytes) (readItem other items bytes) :=
  lowers_bind (lowers bytes) fun _ => lowers_refl _

theorem lowers_readMember {content other : Reader Value}
    (lowers : ∀ bytes, Lowers (content bytes) (other bytes)) (members : Members) (bytes : Bytes) :
    Lowers (readMember content members bytes) (readMember other members bytes) := by
  refine lowers_bind (lowers_refl _) fun key => ?_
  refine lowers_bind (lowers_refl _) fun text => ?_
  exact lowers_bind (lowers text) fun _ => lowers_refl _

theorem lowering_readValue : Lowering readValue := by
  intro low
  induction low with
  | zero =>
      intro high _ bytes
      cases high with
      | zero => exact lowers_refl _
      | succ high =>
          rw [readValue_zero, readValue_succ]
          refine lowers_bind (lowers_refl _) ?_
          rintro ⟨found, rest⟩
          cases found with
          | list | record => exact Or.inr rfl
          | null | boolean | number | text => exact lowers_refl _
  | succ low ih =>
      intro high below bytes
      obtain ⟨high, same⟩ : ∃ inner, high = inner + 1 := ⟨high - 1, by omega⟩
      subst same
      rw [readValue_succ, readValue_succ]
      refine lowers_bind (lowers_refl _) ?_
      rintro ⟨found, rest⟩
      have inner := fun bytes => ih high (Nat.le_of_succ_le_succ below) bytes
      cases found with
      | list => exact lowers_bind (lowers_readAll (lowers_readItem inner) [] rest) fun _ => lowers_refl _
      | record =>
          exact lowers_bind (lowers_readAll (lowers_readMember inner) [] rest) fun _ => lowers_refl _
      | null | boolean | number | text => exact lowers_refl _

namespace Codec

theorem lowering_scalar (toValue : α → Value) (visit : Found → Except Fault α) :
    Lowering (scalar toValue visit).ofText :=
  fun _ _ _ _ => lowers_refl _

theorem lowering_nullable {item : Codec α} (lowering : Lowering item.ofText) :
    Lowering item.nullable.ofText := by
  intro low high below bytes
  simp only [nullable]
  split
  · exact lowers_refl _
  · exact lowers_bind (lowering low high below _) fun _ => lowers_refl _

theorem lowering_list {item : Codec α} (lowering : Lowering item.ofText) :
    Lowering item.list.ofText := by
  intro low high below bytes
  refine lowers_bind (lowers_refl _) ?_
  rintro ⟨found, rest⟩
  cases found with
  | list =>
      apply lowers_inside below
      · rfl
      · intro low high below
        exact lowers_bind (lowers_readAll (lowers_readItem (lowering low high below)) [] rest) fun _ =>
          lowers_refl _
  | null | boolean | number | text | record => exact lowers_refl _

theorem lowering_refine {base : Codec α} (widen : β → α) (narrow : α → Except String β)
    (lowering : Lowering base.ofText) : Lowering (base.refine widen narrow).ofText :=
  fun low high below bytes => lowers_bind (lowering low high below bytes) fun _ => lowers_refl _

theorem lowering_freeForm : Lowering freeForm.ofText :=
  fun low high below bytes =>
    lowers_bind (lowering_readValue low high below bytes) fun _ => lowers_refl _

theorem lowering_freeRecord : Lowering freeRecord.ofText := by
  intro low high below bytes
  refine lowers_bind (lowers_refl _) ?_
  rintro ⟨found, rest⟩
  cases found with
  | record =>
      apply lowers_inside below
      · rfl
      · intro low high below
        have inner := lowering_readValue low high below
        exact lowers_bind (lowers_readAll (lowers_readMember inner) [] rest) fun _ => lowers_refl _
  | null | boolean | number | text | list => exact lowers_refl _

end Codec

namespace Fields

def Lowering (fields : Fields α) : Prop :=
  ∀ key slots, Json.Lowering (fields.placeText key slots)

theorem lowering_single {key : String} {codec : Codec α} {optional : Bool}
    {missing : Except Fault α} {members : α → Members} (lowering : Json.Lowering codec.ofText) :
    (single key codec optional missing members).Lowering :=
  fun _ _ low high below bytes => lowers_bind (lowering low high below bytes) fun _ => lowers_refl _

theorem lowering_both {left : Fields α} {right : Fields β} (leftLowering : left.Lowering)
    (rightLowering : right.Lowering) : (both left right).Lowering := by
  intro key slots low high below bytes
  simp only [both]
  split
  · exact lowers_bind (leftLowering key _ low high below bytes) fun _ => lowers_refl _
  · exact lowers_bind (rightLowering key _ low high below bytes) fun _ => lowers_refl _

theorem lowers_readMembers {fields : Fields α} (lowering : fields.Lowering) :
    Json.Lowering fields.readMembers := by
  intro low high below bytes
  refine lowers_bind (lowers_readAll ?_ _ bytes) fun _ => lowers_refl _
  intro slots start
  refine lowers_bind (lowers_refl _) ?_
  rintro ⟨key, rest⟩
  dsimp only
  split
  · split
    · exact lowers_refl _
    · exact lowers_bind (lowers_refl _) fun text => lowering key slots low high below text
  · exact lowers_refl _

theorem lowers_readInOrder {fields : Fields α} (lowering : fields.Lowering) (expected : String)
    {low high : Nat} (below : low ≤ high) (keys : List (String × Bool)) : ∀ index slots bytes,
    Lowers (fields.readInOrder expected low index keys slots bytes)
      (fields.readInOrder expected high index keys slots bytes) := by
  induction keys with
  | nil => exact fun index slots bytes => lowers_refl _
  | cons pair keys ih =>
      intro index slots bytes
      rcases pair with ⟨key, optional⟩
      rw [readInOrder, readInOrder]
      refine lowers_bind (lowers_refl _) ?_
      intro next
      cases next with
      | finished rest => exact lowers_refl _
      | entry start =>
          exact lowers_bind (lowering key slots low high below start) fun after =>
            ih (index + 1) after.1 after.2

theorem lowers_readList {fields : Fields α} (lowering : fields.Lowering) (expected : String) :
    Json.Lowering (fields.readList expected) :=
  fun _ _ below bytes =>
    lowers_bind (lowers_readInOrder lowering expected below fields.keys 0 fields.blank bytes)
      fun _ => lowers_refl _

end Fields

theorem Codec.lowering_record {expected : String} {fields : Fields α} (lowering : fields.Lowering) :
    Lowering (Codec.record expected fields).ofText := by
  intro low high below bytes
  refine lowers_bind (lowers_refl _) ?_
  rintro ⟨found, rest⟩
  cases found with
  | list =>
      apply lowers_inside below
      · rfl
      · intro low high below
        exact Fields.lowers_readList lowering expected low high below rest
  | record =>
      apply lowers_inside below
      · rfl
      · intro low high below
        exact Fields.lowers_readMembers lowering low high below rest
  | null | boolean | number | text => exact lowers_refl _

theorem Arm.lowering_plain (name : String) (value : α) : Lowering (Arm.plain name value).contentOfText :=
  fun _ _ _ _ => lowers_refl _

theorem Arm.lowering_holding (name : String) {codec : Codec β} (make : β → α)
    (lowering : Lowering codec.ofText) : Lowering (Arm.holding name codec make).contentOfText :=
  fun low high below bytes => lowers_bind (lowering low high below bytes) fun _ => lowers_refl _

theorem Arm.lowering_withMembers (name expected : String) {fields : Fields β} (make : β → α)
    (lowering : fields.Lowering) :
    Lowering (Arm.withMembers name expected fields make).contentOfText := by
  intro low high below bytes
  refine lowers_bind (lowers_refl _) ?_
  rintro ⟨found, rest⟩
  cases found with
  | record =>
      apply lowers_inside below
      · rfl
      · intro low high below
        exact lowers_bind (Fields.lowers_readMembers lowering low high below rest) fun _ =>
          lowers_refl _
  | null | boolean | number | text | list => exact lowers_refl _

theorem Arm.lowers_named {arms : List (Arm α)} (lowering : ∀ arm ∈ arms, Lowering arm.contentOfText)
    (name : String) {next other : Arm α → Except Fault β}
    (later : ∀ arm, Lowering arm.contentOfText → Lowers (next arm) (other arm)) :
    Lowers (Arm.named arms name >>= next) (Arm.named arms name >>= other) := by
  cases named : Arm.named arms name with
  | error fault => exact lowers_refl _
  | ok arm => exact later arm (lowering arm (Arm.mem_of_named named))

theorem Codec.lowering_union {toValue : α → Value} {arms : List (Arm α)}
    (lowering : ∀ arm ∈ arms, Lowering arm.contentOfText) :
    Lowering (Codec.union toValue arms).ofText := by
  intro low high below bytes
  simp only [Codec.union]
  split
  · exact lowers_refl _
  split
  · exact lowers_refl _
  split
  · apply lowers_inside below
    · rfl
    · intro low high below
      refine lowers_bind (lowers_refl _) fun key => ?_
      refine Arm.lowers_named lowering key.1 fun arm armLowering => ?_
      refine lowers_bind (lowers_refl _) fun text => ?_
      exact lowers_bind (armLowering low high below text) fun _ => lowers_refl _
  · exact lowers_refl _

theorem Codec.lowering_names (name : α → String) (values : List α) :
    Lowering (Codec.names name values).ofText := by
  refine Codec.lowering_union ?_
  intro arm member
  obtain ⟨value, _, same⟩ := List.mem_map.1 member
  rw [← same]
  exact Arm.lowering_plain (name value) value

end LedgerWire.Json
