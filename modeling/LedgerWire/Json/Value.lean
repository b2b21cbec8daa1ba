import LedgerWire.Json.Number

/-!
JSON values. `Value` keeps the members of a record in the order of the text, repeated keys
included. A settled value has its members sorted by key, and of a repeated key only the last one;
free-form parts of the wire types are kept settled.
-/

namespace LedgerWire.Json

inductive Value
  | null
  | boolean (value : Bool)
  | number (value : Number)
  | text (value : String)
  | list (items : List Value)
  | record (members : List (String × Value))

abbrev Members := List (String × Value)

/-- Puts a member into sorted members that come later in the text, so that a member of the same key
among them stays. -/
def Members.settleIn (key : String) (value : Value) : Members → Members
  | [] => [(key, value)]
  | (other, held) :: rest =>
    if key < other then (key, value) :: (other, held) :: rest
    else if key = other then (other, held) :: rest
    else (other, held) :: Members.settleIn key value rest

mutual

def Value.settle : Value → Value
  | .null => .null
  | .boolean value => .boolean value
  | .number value => .number value
  | .text value => .text value
  | .list items => .list (settleItems items)
  | .record members => .record (settleMembers members)

def settleItems : List Value → List Value
  | [] => []
  | item :: rest => item.settle :: settleItems rest

def settleMembers : Members → Members
  | [] => []
  | (key, value) :: rest => Members.settleIn key value.settle (settleMembers rest)

end

mutual

def Value.height : Value → Nat
  | .list items => heightOfItems items + 1
  | .record members => heightOfMembers members + 1
  | _ => 0

def heightOfItems : List Value → Nat
  | [] => 0
  | item :: rest => max item.height (heightOfItems rest)

def heightOfMembers : Members → Nat
  | [] => 0
  | (_, value) :: rest => max value.height (heightOfMembers rest)

end

def Members.Ascending (members : Members) : Prop := members.Pairwise fun left right => left.1 < right.1

theorem Members.mem_settleIn {key : String} {value : Value} {members : Members}
    {member : String × Value} (found : member ∈ Members.settleIn key value members) :
    member = (key, value) ∨ member ∈ members := by
  induction members with
  | nil => simpa [Members.settleIn] using found
  | cons head rest ih =>
    obtain ⟨other, held⟩ := head
    simp only [Members.settleIn] at found
    split at found
    · simpa using found
    · split at found
      · exact Or.inr found
      · rcases List.mem_cons.1 found with isHead | inRest
        · exact Or.inr (by simp [isHead])
        · rcases ih inRest with isNew | old
          · exact Or.inl isNew
          · exact Or.inr (List.mem_cons_of_mem _ old)

theorem Members.ascending_settleIn {key : String} {value : Value} {members : Members}
    (ascending : members.Ascending) : (Members.settleIn key value members).Ascending := by
  induction members with
  | nil => simp [Members.settleIn, Members.Ascending]
  | cons head rest ih =>
    obtain ⟨other, held⟩ := head
    have ⟨below, tail⟩ := List.pairwise_cons.1 ascending
    simp only [Members.settleIn]
    split
    · rename_i less
      refine List.pairwise_cons.2 ⟨?_, ascending⟩
      intro member found
      rcases List.mem_cons.1 found with isHead | inRest
      · simpa [isHead] using less
      · exact String.lt_trans less (below member inRest)
    · split
      · exact ascending
      · rename_i notLess notSame
        refine List.pairwise_cons.2 ⟨?_, ih tail⟩
        intro member found
        rcases Members.mem_settleIn found with isNew | old
        · subst isNew
          by_cases less : other < key
          · exact less
          · exact absurd (String.le_antisymm (String.not_lt.1 less) (String.not_lt.1 notLess)) notSame
        · exact below member old

theorem Members.settleIn_of_below {key : String} {value : Value} {members : Members}
    (below : ∀ member ∈ members, key < member.1) :
    Members.settleIn key value members = (key, value) :: members := by
  cases members with
  | nil => rfl
  | cons head rest =>
    obtain ⟨other, held⟩ := head
    have less : key < other := below (other, held) List.mem_cons_self
    simp [Members.settleIn, less]

theorem settleMembers_eq_self {members : Members} (ascending : members.Ascending)
    (settled : ∀ member ∈ members, member.2.settle = member.2) :
    settleMembers members = members := by
  induction members with
  | nil => rfl
  | cons head rest ih =>
    obtain ⟨key, value⟩ := head
    have ⟨below, tail⟩ := List.pairwise_cons.1 ascending
    have valueSettled : value.settle = value := settled (key, value) List.mem_cons_self
    simp only [settleMembers, valueSettled,
      ih tail fun member found => settled member (List.mem_cons_of_mem _ found)]
    exact Members.settleIn_of_below below

theorem settleMembers_ascending (members : Members) : (settleMembers members).Ascending := by
  induction members with
  | nil => exact List.Pairwise.nil
  | cons head rest ih => exact Members.ascending_settleIn ih

mutual

theorem Value.settle_settle : (value : Value) → value.settle.settle = value.settle
  | .null | .boolean _ | .number _ | .text _ => by simp [Value.settle]
  | .list items => by simp [Value.settle, settleItems_settleItems items]
  | .record members => by
    simp only [Value.settle]
    rw [settleMembers_eq_self (settleMembers_ascending members) (settled_of_mem_settleMembers members)]

theorem settleItems_settleItems : (items : List Value) →
    settleItems (settleItems items) = settleItems items
  | [] => rfl
  | item :: rest => by
    simp [settleItems, Value.settle_settle item, settleItems_settleItems rest]

theorem settled_of_mem_settleMembers : (members : Members) →
    ∀ member ∈ settleMembers members, member.2.settle = member.2
  | [], _, found => by simp [settleMembers] at found
  | (_, value) :: rest, _, found => by
    rcases Members.mem_settleIn found with isNew | old
    · rw [isNew]
      exact Value.settle_settle value
    · exact settled_of_mem_settleMembers rest _ old

end

/-- A value of no fixed shape, with its members in order and no key repeated. -/
structure FreeForm where
  value : Value
  settled : value.settle = value

def FreeForm.ofValue (value : Value) : FreeForm := ⟨value.settle, value.settle_settle⟩

structure FreeRecord where
  members : Members
  settled : settleMembers members = members

theorem settleMembers_settleMembers (members : Members) :
    settleMembers (settleMembers members) = settleMembers members :=
  settleMembers_eq_self (settleMembers_ascending members) (settled_of_mem_settleMembers members)

def FreeRecord.ofMembers (members : Members) : FreeRecord :=
  ⟨settleMembers members, settleMembers_settleMembers members⟩

end LedgerWire.Json
