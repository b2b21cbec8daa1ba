import LedgerWire.Proofs.Wire.Requirements

/-!
What is told to the log at the boundary. Outcome, layer of the failure and events always go together,
so that the levels of the events alone tell how a payload fared.
-/

namespace LedgerWire

open Json

/-! No check of signed data speaks of decoding. -/

theorem FirstBroken.mem {requirements : List Requirement} {defect : Defect}
    (broken : FirstBroken requirements defect) :
    ∃ requirement ∈ requirements, requirement.defect = defect := by
  induction broken with
  | here _ => exact ⟨_, List.mem_cons_self, rfl⟩
  | later _ _ ih =>
      obtain ⟨requirement, member, same⟩ := ih
      exact ⟨requirement, List.mem_cons_of_mem _ member, same⟩

def Requirement.OfData (requirement : Requirement) : Prop :=
  (BoundaryFault.transaction requirement.defect).decodeFault? = none

theorem Payment.requirements_ofData (kind : String) (payment : Payment) :
    ∀ requirement ∈ payment.requirements kind, requirement.OfData := by
  simp [requirements, Requirement.OfData, BoundaryFault.decodeFault?]

theorem Operation.requirements_ofData (operation : Operation) :
    ∀ requirement ∈ operation.requirements, requirement.OfData := by
  cases operation with
  | pay payment | payNative payment => exact payment.requirements_ofData _
  | _ => simp [requirements, Requirement.OfData, BoundaryFault.decodeFault?]

theorem SignedData.requirements_ofData (data : SignedData) :
    ∀ requirement ∈ data.requirements, requirement.OfData := by
  intro requirement member
  rcases List.mem_cons.1 member with rfl | later
  · rfl
  · rcases List.mem_cons.1 later with rfl | inOperations
    · rfl
    · obtain ⟨operation, _, inside⟩ := List.mem_flatMap.1 inOperations
      exact operation.requirements_ofData requirement inside

theorem SignedData.decodeFault?_of_broken {data : SignedData} {defect : Defect}
    (broken : FirstBroken data.requirements defect) :
    (BoundaryFault.transaction defect).decodeFault? = none := by
  obtain ⟨requirement, member, same⟩ := broken.mem
  rw [← same]
  exact data.requirements_ofData requirement member

variable {ε α : Type}

/-- The event has the size of the payload and the very fault, if there is one; its level tells
success and failure apart. -/
structure LogEvent.TellsOf (event : LogEvent) (bytes : Bytes) (outcome : Except BoundaryFault α) :
    Prop where
  size : event.size = some bytes.length
  trace : event.level = .trace ↔ ∃ value, outcome = .ok value
  debug : event.level = .debug ↔ ∃ fault, outcome = .error fault
  fault : ∀ fault, event.fault = some fault ↔ outcome = .error fault

def Logged.levels (logged : Logged α) : List LogLevel := logged.events.map LogEvent.level

namespace Boundary

/-- What was read from the payload is passed on with one event; a fault goes to its layer as it is. -/
structure Relays (layer : ε → BoundaryFault) (bytes : Bytes) (read : Except ε α) (logged : Logged α) :
    Prop where
  told : ∃ event, logged.events = [event] ∧ event.TellsOf bytes logged.outcome
  value : ∀ value, logged.outcome = .ok value ↔ read = .ok value
  fault : ∀ fault, logged.outcome = .error fault ↔ ∃ cause, read = .error cause ∧ fault = layer cause

variable {layer : ε → BoundaryFault} {bytes : Bytes}

theorem relays_ok {value : α} {event : LogEvent} (size : event.size = some bytes.length)
    (level : event.level = .trace) (fault : event.fault = none) :
    Relays layer bytes (.ok value) ⟨.ok value, [event]⟩ where
  told := ⟨event, rfl, size, by simp [level], by simp [level], by simp [fault]⟩
  value := fun _ => by simp
  fault := fun _ => by simp

theorem relays_error {cause : ε} {event : LogEvent} (size : event.size = some bytes.length)
    (level : event.level = .debug) (fault : event.fault = some (layer cause)) :
    Relays (α := α) layer bytes (.error cause) ⟨.error (layer cause), [event]⟩ where
  told := ⟨event, rfl, size, by simp [level], by simp [level], by simp [fault]⟩
  value := fun _ => by simp
  fault := fun _ => by simp [eq_comm]

theorem relays_decode (codec : Codec α) (bytes : Bytes) :
    Relays .json bytes (codec.decode bytes) (decode codec bytes) := by
  unfold decode
  cases codec.decode bytes with
  | ok value => exact relays_ok rfl rfl rfl
  | error cause => exact relays_error rfl rfl rfl

/-- A failure of a typed decoder is traced back to the very fault that the decoder had. -/
structure RelaysDecoder (bytes : Bytes) (read : Except DecodeFault α) (logged : Logged α) : Prop
    extends Relays .decode bytes read logged where
  cause : ∀ cause, read = .error cause ↔
    ∃ fault, logged.outcome = .error fault ∧ fault.decodeFault? = some cause

theorem relays_logged (target : String) (bytes : Bytes) (read : Except DecodeFault α) :
    RelaysDecoder bytes read (logged target bytes read) := by
  unfold logged
  cases read with
  | ok value => exact ⟨relays_ok rfl rfl rfl, fun _ => by simp⟩
  | error cause => exact ⟨relays_error rfl rfl rfl, fun _ => by simp [BoundaryFault.decodeFault?]⟩

/-! Addresses have no decoder of their own. -/

/-- Between quotes a payload fails as a literal or in what the literal holds, and otherwise as a text
or in what the text says. -/
inductive AddressFault (trimmed : Bytes) : DecodeFault → Prop
  | literal {fault : Json.Fault} (quoted : trimmed.head? = some quote)
      (refused : Codec.string.decode trimmed = .error fault) : AddressFault trimmed (.json fault)
  | inLiteral {text : String} {fault : Identifier.Fault} (quoted : trimmed.head? = some quote)
      (read : Codec.string.decode trimmed = .ok text)
      (refused : (Identifier.ofHex text : Except Identifier.Fault Address) = .error fault) :
      AddressFault trimmed (.identifier fault)
  | notText {fault : Utf8.Fault} (bare : trimmed.head? ≠ some quote)
      (refused : Utf8.decode trimmed = .error fault) :
      AddressFault trimmed (.identifier (.notText fault))
  | inText {text : String} {fault : Identifier.Fault} (bare : trimmed.head? ≠ some quote)
      (read : Utf8.decode trimmed = .ok text)
      (refused : (Identifier.ofHex text : Except Identifier.Fault Address) = .error fault) :
      AddressFault trimmed (.identifier fault)

theorem addressOfBytes_eq_error {bytes : Bytes} {fault : DecodeFault} :
    addressOfBytes bytes = .error fault ↔ AddressFault (Ascii.trim bytes) fault := by
  unfold addressOfBytes
  generalize Ascii.trim bytes = trimmed
  by_cases quoted : trimmed.head? = some quote
  · simp only [quoted, if_true, asDecoded, bind_eq_error, mapError_eq_error, mapError_eq_ok]
    constructor
    · rintro (⟨cause, refused, rfl⟩ | ⟨text, read, cause, refused, rfl⟩)
      · exact .literal quoted refused
      · exact .inLiteral quoted read refused
    · intro fails
      cases fails with
      | literal _ refused => exact Or.inl ⟨_, refused, rfl⟩
      | inLiteral _ read refused => exact Or.inr ⟨_, read, _, refused, rfl⟩
      | notText bare | inText bare => exact absurd quoted bare
  · simp only [quoted, if_false]
    constructor
    · intro failed
      split at failed
      · rename_i text read
        obtain ⟨cause, refused, rfl⟩ := mapError_eq_error.1 failed
        exact .inText quoted read refused
      · rename_i cause refused
        rw [← Except.error.inj failed]
        exact .notText quoted refused
    · intro fails
      cases fails with
      | literal isQuoted | inLiteral isQuoted => exact absurd isQuoted quoted
      | notText _ refused => simp [refused]
      | inText _ read refused => simp [read, refused, Except.mapError]

/-- Signed data that is not decoded is told of once and fails at the layer of decoding. What is decoded
is told of as such, and where it is not well formed it fails at the layer of transactions and its
sender is told of too. -/
inductive CheckedReport (bytes : Bytes) : Logged SignedData → Prop
  | undecoded {cause : DecodeFault} {event : LogEvent}
      (refused : SignedData.ofBytes bytes = .error cause) (size : event.size = some bytes.length)
      (level : event.level = .debug) (fault : event.fault = some (.decode cause)) :
      CheckedReport bytes ⟨.error (.decode cause), [event]⟩
  | accepted {data : SignedData} {event : LogEvent} (read : SignedData.ofBytes bytes = .ok data)
      (wellFormed : data.WellFormed) (size : event.size = some bytes.length)
      (level : event.level = .trace) (fault : event.fault = none) :
      CheckedReport bytes ⟨.ok data, [event]⟩
  | rejected {data : SignedData} {defect : Defect} {event rejection : LogEvent}
      (read : SignedData.ofBytes bytes = .ok data) (broken : FirstBroken data.requirements defect)
      (noCause : (BoundaryFault.transaction defect).decodeFault? = none)
      (size : event.size = some bytes.length) (level : event.level = .trace)
      (fault : event.fault = none) (message : rejection.message = "rejected transaction data")
      (sender : rejection.sender = some data.sender.shortText)
      (levelToo : rejection.level = .debug) (cause : rejection.fault = some (.transaction defect)) :
      CheckedReport bytes ⟨.error (.transaction defect), [event, rejection]⟩

theorem checkedReport (bytes : Bytes) : CheckedReport bytes (decodeSignedData bytes) := by
  unfold decodeSignedData logged
  cases read : SignedData.ofBytes bytes with
  | error cause => exact .undecoded read rfl rfl rfl
  | ok data =>
      cases outcome : data.check with
      | ok _ =>
          simp only [outcome]
          exact .accepted read (SignedData.check_eq_ok_iff.1 outcome) rfl rfl rfl
      | error defect =>
          simp only [outcome]
          have broken := data.check_enforces.eq_error_iff.1 outcome
          exact .rejected read broken (SignedData.decodeFault?_of_broken broken) rfl rfl rfl rfl rfl
            rfl rfl

structure LevelsTell (logged : Logged SignedData) : Prop where
  debug : logged.levels = [.debug] ↔ ∃ cause, logged.outcome = .error (.decode cause)
  trace : logged.levels = [.trace] ↔ ∃ data, logged.outcome = .ok data
  both : logged.levels = [.trace, .debug] ↔ ∃ defect, logged.outcome = .error (.transaction defect)

theorem CheckedReport.levelsTell {logged : Logged SignedData} (report : CheckedReport bytes logged) :
    LevelsTell logged := by
  cases report with
  | undecoded _ _ level _ => constructor <;> simp [Logged.levels, level]
  | accepted _ _ _ level _ => constructor <;> simp [Logged.levels, level]
  | rejected _ _ _ _ level _ _ _ levelToo _ =>
      constructor <;> simp [Logged.levels, level, levelToo]

theorem CheckedReport.not_json {logged : Logged SignedData} (report : CheckedReport bytes logged)
    (fault : Json.Fault) : logged.outcome ≠ .error (.json fault) := by
  cases report with
  | undecoded | accepted | rejected => simp

/-- Nothing is told of what is written, and one event with the fault of what is not. -/
structure QuietlyWritten (logged : Logged Bytes) : Prop where
  quiet : logged.events = [] ↔ ∃ bytes, logged.outcome = .ok bytes
  told : ∀ fault, logged.outcome = .error fault → (∃ cause, fault = .json cause) ∧
    ∃ event, logged.events = [event] ∧ event.level = .debug ∧ event.fault = some fault

theorem quietlyWritten_encode (codec : Codec α) (value : α) : QuietlyWritten (encode codec value) where
  quiet := by simp [encode]
  told := by simp [encode]

theorem quietlyWritten_encodeKeyedByBytes (entries : List (Bytes × Value)) :
    QuietlyWritten (encodeKeyedByBytes entries) := by
  unfold encodeKeyedByBytes
  split
  · exact ⟨by simp, by simp⟩
  · refine ⟨by simp, ?_⟩
    rintro fault same
    rw [← Except.error.inj same]
    exact ⟨⟨_, rfl⟩, _, rfl, rfl, rfl⟩

/-- Owners, operations and addresses are told of once, and fail with the fault of their own decoder.
Signed data is told of once, or twice where it is decoded and then rejected, and never fails at the
layer of JSON. What a codec reads on its own is told of once and fails at that layer only, and what is
written is told of only where that fails. -/
theorem log_tells_outcome (bytes : Bytes) :
    (RelaysDecoder bytes (Owner.ofBytes bytes) (decodeOwner bytes) ∧
      RelaysDecoder bytes (Operation.ofBytes bytes) (decodeOperation bytes) ∧
      RelaysDecoder bytes (addressOfBytes bytes) (decodeAddress bytes) ∧
      ∀ fault, addressOfBytes bytes = .error fault ↔ AddressFault (Ascii.trim bytes) fault) ∧
    (CheckedReport bytes (decodeSignedData bytes) ∧ LevelsTell (decodeSignedData bytes) ∧
      ∀ fault, (decodeSignedData bytes).outcome ≠ .error (.json fault)) ∧
    (∀ {α : Type} (codec : Codec α), Relays .json bytes (codec.decode bytes) (decode codec bytes) ∧
      ∀ value, QuietlyWritten (encode codec value)) ∧
    ∀ entries, QuietlyWritten (encodeKeyedByBytes entries) := by
  have report := checkedReport bytes
  refine ⟨⟨relays_logged _ _ _, relays_logged _ _ _, relays_logged _ _ _, ?_⟩,
    ⟨report, report.levelsTell, report.not_json⟩, ?_, quietlyWritten_encodeKeyedByBytes⟩
  · exact fun _ => addressOfBytes_eq_error
  · exact fun codec => ⟨relays_decode codec bytes, quietlyWritten_encode codec⟩

def unpaidTransfer : SignedData := { SignedData.oneTransfer 5 with budget := 0 }

theorem three_payloads_told :
    (decodeSignedData []).levels = [.debug] ∧
      (decodeSignedData (SignedData.oneTransfer 5).toBytes).levels = [.trace] ∧
      (decodeSignedData unpaidTransfer.toBytes).levels = [.trace, .debug] ∧
      ∃ event rejection, (decodeSignedData unpaidTransfer.toBytes).events = [event, rejection] ∧
        rejection.sender = some "0x0" := by
  have free := SignedData.floatFree_oneTransfer 5
  have read : SignedData.ofBytes (SignedData.oneTransfer 5).toBytes = .ok (SignedData.oneTransfer 5) :=
    SignedData.ofBytes_toBytes free (by decide)
  have readToo : SignedData.ofBytes unpaidTransfer.toBytes = .ok unpaidTransfer :=
    SignedData.ofBytes_toBytes free (by decide)
  have rejected : (decodeSignedData unpaidTransfer.toBytes).outcome =
      .error (.transaction .zeroBudget) := SignedData.decodeSignedData_of_defect readToo rfl
  have tell : ∀ bytes, LevelsTell (decodeSignedData bytes) :=
    fun bytes => (log_tells_outcome bytes).2.1.2.1
  refine ⟨?_, ?_, ?_, ?_⟩
  · exact (tell []).debug.2 ⟨.json .endOfInput, rfl⟩
  · exact (tell _).trace.2 ⟨_, decodeSignedData_eq_ok.2 ⟨read, rfl⟩⟩
  · exact (tell _).both.2 ⟨_, rejected⟩
  · have report := (log_tells_outcome unpaidTransfer.toBytes).2.1.1
    generalize decodeSignedData unpaidTransfer.toBytes = logged at report rejected
    cases report with
    | undecoded | accepted => simp at rejected
    | rejected reread _ _ _ _ _ _ sender _ _ =>
        refine ⟨_, _, rfl, ?_⟩
        rw [sender, ← Except.ok.inj (readToo.symm.trans reread)]
        decide

end Boundary

end LedgerWire
