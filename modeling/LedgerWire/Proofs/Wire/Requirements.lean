import LedgerWire.Proofs.Wire.Reencoding
import Mathlib.Algebra.GroupWithZero.Nat

/-!
What is asked of a transaction before it is passed on. The requirements stand in a fixed order, with
what is said where one is broken; signed data is accepted where all of them hold, and otherwise it is
refused for the first that is broken.
-/

namespace LedgerWire

structure Requirement where
  holds : Prop
  defect : Defect

/-- The defect of the first requirement that does not hold. -/
inductive FirstBroken : List Requirement → Defect → Prop
  | here {requirement : Requirement} {later : List Requirement} (broken : ¬ requirement.holds) :
      FirstBroken (requirement :: later) requirement.defect
  | later {requirement : Requirement} {others : List Requirement} {defect : Defect}
      (met : requirement.holds) (broken : FirstBroken others defect) :
      FirstBroken (requirement :: others) defect

def Enforces (outcome : Except Defect Unit) (requirements : List Requirement) : Prop :=
  (outcome = .ok () ∧ ∀ requirement ∈ requirements, requirement.holds) ∨
    ∃ defect, outcome = .error defect ∧ FirstBroken requirements defect

theorem FirstBroken.not_met {requirements : List Requirement} {defect : Defect}
    (broken : FirstBroken requirements defect) :
    ¬ ∀ requirement ∈ requirements, requirement.holds := by
  induction broken with
  | here broken => exact fun all => broken (all _ List.mem_cons_self)
  | later met broken ih => exact fun all => ih fun other member => all other (List.mem_cons_of_mem _ member)

theorem FirstBroken.unique {requirements : List Requirement} {defect other : Defect}
    (broken : FirstBroken requirements defect) (brokenToo : FirstBroken requirements other) :
    defect = other := by
  induction broken with
  | here broken =>
      cases brokenToo with
      | here _ => rfl
      | later met _ => exact absurd met broken
  | later met broken ih =>
      cases brokenToo with
      | here broken => exact absurd met broken
      | later _ brokenToo => exact ih brokenToo

theorem FirstBroken.append {requirements others : List Requirement} {defect : Defect}
    (broken : FirstBroken requirements defect) : FirstBroken (requirements ++ others) defect := by
  induction broken with
  | here broken => exact .here broken
  | later met broken ih => exact .later met ih

theorem FirstBroken.after {requirements others : List Requirement} {defect : Defect}
    (met : ∀ requirement ∈ requirements, requirement.holds) (broken : FirstBroken others defect) :
    FirstBroken (requirements ++ others) defect := by
  induction requirements with
  | nil => exact broken
  | cons requirement rest ih =>
      exact .later (met requirement List.mem_cons_self)
        (ih fun other member => met other (List.mem_cons_of_mem _ member))

namespace Enforces

variable {outcome : Except Defect Unit} {requirements : List Requirement}

theorem eq_ok_iff (enforces : Enforces outcome requirements) :
    outcome = .ok () ↔ ∀ requirement ∈ requirements, requirement.holds := by
  rcases enforces with ⟨accepted, met⟩ | ⟨defect, refused, broken⟩
  · exact ⟨fun _ => met, fun _ => accepted⟩
  · rw [refused]
    exact ⟨fun impossible => by simp at impossible, fun met => absurd met broken.not_met⟩

theorem eq_error_iff (enforces : Enforces outcome requirements) {defect : Defect} :
    outcome = .error defect ↔ FirstBroken requirements defect := by
  rcases enforces with ⟨accepted, met⟩ | ⟨other, refused, broken⟩
  · rw [accepted]
    exact ⟨fun impossible => by simp at impossible, fun broken => absurd met broken.not_met⟩
  · rw [refused, Except.error.injEq]
    constructor
    · intro same
      rw [← same]
      exact broken
    · exact broken.unique

theorem nothing : Enforces (.ok ()) [] := Or.inl ⟨rfl, by simp⟩

theorem step {broken holds : Prop} [Decidable broken] {defect : Defect} (isBroken : broken ↔ ¬ holds)
    (enforces : Enforces outcome requirements) :
    Enforces (if broken then .error defect else outcome) (⟨holds, defect⟩ :: requirements) := by
  split
  · rename_i found
    exact Or.inr ⟨_, rfl, .here (isBroken.1 found)⟩
  · rename_i notFound
    have met : holds := by
      by_contra notMet
      exact notFound (isBroken.2 notMet)
    rcases enforces with ⟨accepted, others⟩ | ⟨defect, refused, later⟩
    · exact Or.inl ⟨accepted, by simpa using ⟨met, others⟩⟩
    · exact Or.inr ⟨defect, refused, .later met later⟩

theorem append {second : Except Defect Unit} {others : List Requirement}
    (enforces : Enforces outcome requirements) (behind : Enforces second others) :
    Enforces (outcome >>= fun _ => second) (requirements ++ others) := by
  rcases enforces with ⟨accepted, met⟩ | ⟨defect, refused, broken⟩
  · rw [accepted, ok_bind]
    rcases behind with ⟨acceptedToo, metToo⟩ | ⟨defect, refused, broken⟩
    · refine Or.inl ⟨acceptedToo, fun requirement member => ?_⟩
      rcases List.mem_append.1 member with before | after
      · exact met requirement before
      · exact metToo requirement after
    · exact Or.inr ⟨defect, refused, broken.after met⟩
  · rw [refused, error_bind]
    exact Or.inr ⟨defect, rfl, broken.append⟩

theorem forM {α : Type} {check : α → Except Defect Unit} {requirements : α → List Requirement}
    (enforces : ∀ item, Enforces (check item) (requirements item)) (items : List α) :
    Enforces (items.forM check) (items.flatMap requirements) := by
  induction items with
  | nil => exact nothing
  | cons item rest ih =>
      rw [List.flatMap_cons]
      exact (enforces item).append ih

end Enforces

namespace Payment

/-- The sum of the amounts, whatever its size. -/
def exactTotal (payment : Payment) : Nat := (payment.amounts.map UInt64.toNat).sum

theorem foldlM_amounts (amounts : List UInt64) : ∀ start : UInt64,
    amounts.foldlM (fun sum amount =>
        if sum.toNat + amount.toNat < 0x10000000000000000 then some (sum + amount) else none) start =
      if start.toNat + (amounts.map UInt64.toNat).sum < 0x10000000000000000 then
        some (UInt64.ofNat (start.toNat + (amounts.map UInt64.toNat).sum))
      else none := by
  induction amounts with
  | nil =>
      intro start
      have bound := start.toNat_lt
      simp [bound]
  | cons amount rest ih =>
      intro start
      rw [List.foldlM_cons, List.map_cons, List.sum_cons]
      by_cases fits : start.toNat + amount.toNat < 0x10000000000000000
      · have added : (start + amount).toNat = start.toNat + amount.toNat := by
          rw [UInt64.toNat_add]
          omega
        rw [if_pos fits, Option.bind_eq_bind, Option.bind_some, ih, added, Nat.add_assoc]
      · -- what is left to add cannot bring the sum back below the limit
        rw [if_neg fits, if_neg (by omega)]
        rfl

theorem total?_eq (payment : Payment) :
    payment.total? =
      if payment.exactTotal < 0x10000000000000000 then some (UInt64.ofNat payment.exactTotal)
      else none := by
  have folded := foldlM_amounts payment.amounts 0
  rw [UInt64.toNat_zero, Nat.zero_add] at folded
  exact folded

theorem total?_eq_some {payment : Payment} {sum : UInt64} :
    payment.total? = some sum ↔ payment.exactTotal = sum.toNat := by
  have bound := sum.toNat_lt
  rw [total?_eq]
  split
  · rename_i fits
    rw [Option.some.injEq, ← UInt64.toNat_inj, UInt64.toNat_ofNat_of_lt' fits]
  · simp only [reduceCtorEq, false_iff]
    omega

theorem total?_perm {payment other : Payment} (same : payment.amounts.Perm other.amounts) :
    payment.total? = other.total? := by
  have sums : payment.exactTotal = other.exactTotal := (same.map UInt64.toNat).sum_nat
  rw [total?_eq, total?_eq, sums]

def requirements (kind : String) (payment : Payment) : List Requirement :=
  [⟨payment.coins ≠ [], .noCoins kind⟩,
    ⟨payment.recipients ≠ [], .noRecipients kind⟩,
    ⟨payment.amounts.length = payment.recipients.length,
      .amountMismatch kind payment.recipients.length payment.amounts.length⟩,
    ⟨payment.exactTotal < 0x10000000000000000, .amountOverflow kind⟩]

theorem check_enforces (kind : String) (payment : Payment) :
    Enforces (payment.check kind) (payment.requirements kind) := by
  have overflow : payment.total?.isNone ↔ ¬ payment.exactTotal < 0x10000000000000000 := by
    rw [total?_eq]
    split <;> simp_all
  refine .step ?_ (.step ?_ (.step ?_ (.step overflow .nothing)))
  · simp
  · simp
  · exact ne_comm

structure WellFormed (payment : Payment) : Prop where
  hasCoins : payment.coins ≠ []
  hasRecipients : payment.recipients ≠ []
  amountForEach : payment.amounts.length = payment.recipients.length
  totalFits : payment.exactTotal < 0x10000000000000000

theorem wellFormed_iff {kind : String} {payment : Payment} :
    payment.WellFormed ↔ ∀ requirement ∈ payment.requirements kind, requirement.holds := by
  simp only [requirements, List.forall_mem_cons, List.not_mem_nil, false_implies, implies_true,
    and_true]
  constructor
  · rintro ⟨coins, recipients, amounts, total⟩
    exact ⟨coins, recipients, amounts, total⟩
  · rintro ⟨coins, recipients, amounts, total⟩
    exact ⟨coins, recipients, amounts, total⟩

end Payment

namespace Operation

def requirements (operation : Operation) : List Requirement :=
  match operation with
  | .pay payment | .payNative payment => payment.requirements operation.name
  | .payAllNative sweep => [⟨sweep.coins ≠ [], .noCoins operation.name⟩]
  | .publish publication => [⟨publication.modules ≠ [], .noModules⟩]
  | .call calling =>
    [⟨calling.module ≠ "", .emptyName "module"⟩, ⟨calling.function ≠ "", .emptyName "function"⟩]
  | .transferObject _ | .transferNative _ | .changeEpoch _ => []

theorem check_enforces (operation : Operation) : Enforces operation.check operation.requirements := by
  cases operation with
  | transferObject | transferNative | changeEpoch => exact .nothing
  | pay payment | payNative payment => exact payment.check_enforces _
  | payAllNative sweep =>
      refine .step ?_ .nothing
      simp
  | publish publication =>
      refine .step ?_ .nothing
      simp
  | call calling =>
      refine .step ?_ (.step ?_ .nothing)
      · simp
      · simp

def WellFormed : Operation → Prop
  | .pay payment | .payNative payment => payment.WellFormed
  | .payAllNative sweep => sweep.coins ≠ []
  | .publish publication => publication.modules ≠ []
  | .call calling => calling.module ≠ "" ∧ calling.function ≠ ""
  | .transferObject _ | .transferNative _ | .changeEpoch _ => True

theorem wellFormed_iff {operation : Operation} :
    operation.WellFormed ↔ ∀ requirement ∈ operation.requirements, requirement.holds := by
  cases operation with
  | pay | payNative => exact Payment.wellFormed_iff
  | _ => simp [WellFormed, requirements]

end Operation

namespace SignedData

/-- There is an operation, then there is something to pay for gas, then the operations in their order. -/
def requirements (data : SignedData) : List Requirement :=
  ⟨data.operations ≠ [], .noOperations⟩ :: ⟨0 < data.budget.toNat, .zeroBudget⟩ ::
    data.operations.flatMap Operation.requirements

theorem check_enforces (data : SignedData) : Enforces data.check data.requirements := by
  have noBudget : data.budget = 0 ↔ ¬ 0 < data.budget.toNat := by
    rw [← UInt64.toNat_inj, UInt64.toNat_zero]
    omega
  refine .step ?_ (.step noBudget (.forM Operation.check_enforces data.operations))
  simp

structure WellFormed (data : SignedData) : Prop where
  hasOperation : data.operations ≠ []
  hasBudget : 0 < data.budget.toNat
  operations : ∀ operation ∈ data.operations, operation.WellFormed

theorem wellFormed_iff {data : SignedData} :
    data.WellFormed ↔ ∀ requirement ∈ data.requirements, requirement.holds := by
  simp only [requirements, List.forall_mem_cons, List.forall_mem_flatMap]
  constructor
  · rintro ⟨notNone, budget, all⟩
    exact ⟨notNone, budget, fun operation member => Operation.wellFormed_iff.1 (all operation member)⟩
  · rintro ⟨notNone, budget, all⟩
    exact ⟨notNone, budget, fun operation member => Operation.wellFormed_iff.2 (all operation member)⟩

theorem check_eq_ok_iff {data : SignedData} : data.check = .ok () ↔ data.WellFormed := by
  rw [data.check_enforces.eq_ok_iff, wellFormed_iff]

theorem decodeSignedData_of_defect {bytes : Bytes} {data : SignedData} {defect : Defect}
    (read : ofBytes bytes = .ok data) (refused : data.check = .error defect) :
    (Boundary.decodeSignedData bytes).outcome = .error (.transaction defect) := by
  simp only [Boundary.decodeSignedData, Boundary.logged, read, refused]

/-- Signed data passes the boundary exactly where it is well formed; data that is read but not well
formed is refused for the first requirement that it breaks. The total of a payment is the exact sum of
its amounts, in whatever order they stand, or there is none where a word does not hold the sum. -/
theorem well_formed_passes (bytes : Bytes) :
    (∀ data, (Boundary.decodeSignedData bytes).outcome = .ok data ↔
      ofBytes bytes = .ok data ∧ data.WellFormed) ∧
    (∀ data, ofBytes bytes = .ok data → ¬ data.WellFormed →
      ∃ defect, (Boundary.decodeSignedData bytes).outcome = .error (.transaction defect) ∧
        ∀ other, FirstBroken data.requirements other ↔ other = defect) ∧
    ∀ payment : Payment,
      (∀ sum, payment.total? = some sum ↔ (payment.amounts.map UInt64.toNat).sum = sum.toNat) ∧
      ∀ other : Payment, payment.amounts.Perm other.amounts → payment.total? = other.total? := by
  refine ⟨?_, ?_, ?_⟩
  · intro data
    rw [Boundary.decodeSignedData_eq_ok, check_eq_ok_iff]
  · intro data read notWellFormed
    cases outcome : data.check with
    | ok _ => exact absurd (check_eq_ok_iff.1 outcome) notWellFormed
    | error defect =>
        refine ⟨defect, decodeSignedData_of_defect read outcome, fun other => ?_⟩
        rw [← data.check_enforces.eq_error_iff, outcome, Except.error.injEq, eq_comm]
  · exact fun payment => ⟨fun _ => Payment.total?_eq_some, fun _ => Payment.total?_perm⟩

def twoDefects : SignedData :=
  { oneTransfer 5 with
    operations :=
      [.pay ⟨[(oneTransfer 5).gas], [.zero addressWidth, .zero addressWidth], [0xFFFFFFFFFFFFFFFF, 1]⟩,
        .publish ⟨[]⟩] }

theorem first_of_two_defects :
    ofBytes twoDefects.toBytes = .ok twoDefects ∧ ¬ twoDefects.WellFormed ∧
      (Boundary.decodeSignedData twoDefects.toBytes).outcome =
        .error (.transaction (.amountOverflow "Pay")) := by
  have free : twoDefects.FloatFree := by
    intro operation member
    simp only [twoDefects, List.mem_cons, List.not_mem_nil, or_false] at member
    rcases member with same | same
    · rw [same]
      trivial
    · rw [same]
      trivial
  have read := ofBytes_toBytes free (by decide)
  have notWellFormed : ¬ twoDefects.WellFormed := by
    intro wellFormed
    have payment := wellFormed.operations _ List.mem_cons_self
    exact absurd payment.totalFits (by decide)
  have first : FirstBroken twoDefects.requirements (.amountOverflow "Pay") :=
    .later (by simp [twoDefects]) (.later (by decide) (.later (by simp) (.later (by simp)
      (.later rfl (.here (by decide))))))
  obtain ⟨defect, refused, only⟩ := (well_formed_passes twoDefects.toBytes).2.1 _ read notWellFormed
  rw [(only _).1 first]
  exact ⟨read, notWellFormed, refused⟩

end SignedData

end LedgerWire
