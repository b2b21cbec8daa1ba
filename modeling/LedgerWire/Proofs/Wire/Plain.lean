import LedgerWire.Config
import LedgerWire.ModuleName
import LedgerWire.ObjectRef
import LedgerWire.Proofs.Json.Lawful
import LedgerWire.Proofs.Payload
import LedgerWire.TimeRange

/-!
The laws of the codecs of identifiers, payloads, counters, references, names and settings. None of
these types writes a floating-point number.
-/

namespace LedgerWire

open Json

namespace Identifier

theorem lawful (width : Nat) : (codec width).Lawful 0 := by
  refine .ofString ?_
  intro identifier
  rw [ofHex_fullText]
  rfl

theorem writesExact (width : Nat) : (codec width).WritesExact fun _ => True := .ofString

end Identifier

namespace Address

theorem lawful : codec.Lawful 0 := Identifier.lawful addressWidth

theorem writesExact : codec.WritesExact fun _ => True := Identifier.writesExact addressWidth

end Address

namespace Payload

theorem lawful : codec.Lawful 0 := by
  refine .ofString ?_
  intro payload
  rw [ofText_text]
  rfl

theorem writesExact : codec.WritesExact fun _ => True := .ofString

end Payload

theorem writesExact_string : Codec.string.WritesExact fun _ => True := .ofString

theorem writesExact_natural : Codec.natural.WritesExact fun _ => True := .natural

namespace Counter

theorem visit_ofNatural (value : UInt64) : visit (.number (ofNatural value)) = .ok value := by
  have notNegative : ¬ (value.toNat : Int) < 0 := by omega
  simp [visit, ofNatural, notNegative]

theorem lawful : codec.Lawful 0 where
  coherent := by
    refine Codec.coherent_scalar ?_
    intro found value accepted
    cases found with
    | list | record => simp [visit, wrongType] at accepted
    | null | boolean | number | text => rfl
  inverts := visit_ofNatural
  distinct _ := trivial
  settles := Codec.settles_scalar _ _
  lowering := Codec.lowering_scalar _ _
  nests := Codec.nests_of_height fun _ => Nat.le_refl _
  shrinks := Codec.shrinks_of_height fun _ => Nat.le_refl _
  portable := Codec.portable_scalar _ _

theorem writesExact : codec.WritesExact fun _ => True := by
  intro value _
  simp [codec, Codec.scalar, ofNatural, Value.Exact]

end Counter

namespace Version

theorem lawful : codec.Lawful 0 := by
  refine .refine Counter.lawful ?_
  intro number version
  constructor
  · intro same
    rw [← Except.ok.inj same]
  · intro same
    rw [same]

theorem writesExact : codec.WritesExact fun _ => True := .refine Counter.writesExact

end Version

namespace ObjectRef

theorem lawful_fields : fields.Lawful 0 :=
  .as
    (.both (by decide) (.required _ Address.lawful)
      (.both (by decide) (.required _ Version.lawful) (.required _ Payload.lawful)))
    (fun _ => rfl) (fun _ => rfl)

theorem lawful : codec.Lawful 1 := .record lawful_fields

theorem writesExact : codec.WritesExact fun _ => True :=
  .mono
    (.record (.as (.both (.required Address.writesExact)
      (.both (.required Version.writesExact) (.required Payload.writesExact)))))
    fun _ _ => ⟨trivial, trivial, trivial⟩

end ObjectRef

namespace TimeRange

theorem lawful_fields : fields.Lawful 0 :=
  .as (.both (by decide) (.required _ .natural) (.required _ .natural)) (fun _ => rfl) (fun _ => rfl)

theorem lawful : codec.Lawful 1 := .record lawful_fields

theorem writesExact : codec.WritesExact fun _ => True :=
  .mono (.record (.as (.both (.required writesExact_natural) (.required writesExact_natural))))
    fun _ _ => ⟨trivial, trivial⟩

end TimeRange

namespace ModuleName

theorem lawful_fields : fields.Lawful 0 :=
  .as (.both (by decide) (.required _ Address.lawful) (.required _ .string))
    (fun _ => rfl) (fun _ => rfl)

theorem lawful : codec.Lawful 1 := .record lawful_fields

theorem writesExact : codec.WritesExact fun _ => True :=
  .mono (.record (.as (.both (.required Address.writesExact) (.required writesExact_string))))
    fun _ _ => ⟨trivial, trivial⟩

end ModuleName

theorem Network.lawful : codec.Lawful 0 := .names fun network => by cases network <;> rfl

theorem Network.writesExact : codec.WritesExact fun _ => True := fun _ _ => trivial

theorem LogFormat.lawful : codec.Lawful 0 := .names fun format => by cases format <;> rfl

theorem LogFormat.writesExact : codec.WritesExact fun _ => True := fun _ _ => trivial

namespace ClientConfig

theorem lawful_fields : fields.Lawful 0 :=
  .as
    (.both (by decide) (.withDefault _ (Nat.le_refl _) Network.lawful)
      (.both (by decide) (.optional _ .string fun _ impossible => Value.noConfusion impossible)
        (.both (by decide) (.withDefault _ (Nat.le_refl _) .string)
          (.both (by decide) (.withDefault _ (Nat.le_refl _) LogFormat.lawful)
            (.withDefault _ (Nat.le_refl _) .string)))))
    (fun _ => rfl) (fun _ => rfl)

theorem lawful : codec.Lawful 1 := .record lawful_fields

theorem writesExact : codec.WritesExact fun _ => True :=
  .mono
    (.record (.as (.both (.withDefault Network.writesExact)
      (.both (.optional writesExact_string) (.both (.withDefault writesExact_string)
        (.both (.withDefault LogFormat.writesExact) (.withDefault writesExact_string)))))))
    fun _ _ => ⟨trivial, fun _ _ => trivial, trivial, trivial, trivial⟩

end ClientConfig

end LedgerWire
