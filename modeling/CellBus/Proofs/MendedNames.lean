import CellBus.Memory.Segment
import CellBus.Proofs.DecodedTexts
import CellBus.Proofs.Registrations

/-!
# Mended names

The names and signatures in requests of the script machine are always mended, also
where texts that are not UTF-8 are refused as arguments.  A mended signature has a
character that is no tag, so it registers nothing.  A mended name is a name like any
other: it is registered and called, and it is also the name that some well-formed
bytes spell.
-/

namespace CellBus

variable {σ : Type}

/-- A signature that had to be mended is no text of tags. -/
theorem Signature.isText_decodeLossy_iff {bytes : List UInt8} :
    IsText (Text.decodeLossy bytes) ↔
      ∃ signature, Text.decodeStrict bytes = some signature ∧ IsText signature := by
  cases strict : Text.decodeStrict bytes with
  | some text => simp [Text.decodeLossy_of_strict strict]
  | none =>
      have mark := Text.replacement_mem_decodeLossy strict
      have foreign : ¬IsText (Text.decodeLossy bytes) := by
        intro known
        exact absurd (known '\ufffd' mark) (by decide)
      simp [foreign]

namespace Running

variable {memory : Memory} {world : World σ}

theorem readName_ok {asked : Nat} {address : Cell} {bytes : List UInt8}
    (read : memory.readText asked address world.bus.limits.textLength = .ok bytes) :
    (readName memory asked address).run world =
      some (some (Text.decodeLossy bytes), world) := by
  simp [readName, read]

theorem readName_error {asked : Nat} {address : Cell} {error : MarshalError}
    (unread : memory.readText asked address world.bus.limits.textLength =
      .error error) :
    (readName memory asked address).run world =
      some (none, world.noted (.nameUnreadable error)) := by
  simp [readName, unread, note_run]

variable {nameAddress : Cell} {nameBytes : List UInt8}

theorem machineRegister_run {signatureAddress : Cell} {signatureBytes : List UInt8}
    (nameRead : memory.readText 0 nameAddress world.bus.limits.textLength =
      .ok nameBytes)
    (signatureRead : memory.readText 1 signatureAddress world.bus.limits.textLength =
      .ok signatureBytes)
    (rest : List Cell) :
    (machineRegister memory (nameAddress :: signatureAddress :: rest)).run world =
      (register (Text.decodeLossy nameBytes) (Text.decodeLossy signatureBytes)).run
        world := by
  simp [machineRegister, readName_ok nameRead, readName_ok signatureRead]

theorem machineCall_run (caller : Caller σ)
    (nameRead : memory.readText 0 nameAddress world.bus.limits.textLength =
      .ok nameBytes)
    (cells : List Cell) :
    (machineCall caller memory (nameAddress :: cells)).run world =
      ((dispatchCells caller (Text.decodeLossy nameBytes) memory .byReference cells
          1).run world).map fun result =>
        ((result.1.map Report.result).getD 0, result.2) := by
  simp only [machineCall, StateT.run_bind, readName_ok nameRead, Option.bind_eq_bind,
    Option.bind_some]
  cases (dispatchCells caller (Text.decodeLossy nameBytes) memory .byReference cells
    1).run world <;> rfl

end Running

open Running

/-- A name that is read from memory is mended, whatever the limits say of texts that
are not UTF-8.  Well-formed bytes are a name as they are, and no others are the same
name; ill-formed ones are a name with a replacement character, which other bytes
spell as well.  A registration succeeds exactly when the mended name is free and the
signature is well formed and made of tags, and a call goes to the event with the
mended name. -/
theorem names_from_memory_are_mended (caller : Caller σ) {memory : Memory}
    {world : World σ} {nameAddress : Cell} {nameBytes : List UInt8}
    (nameRead : memory.readText 0 nameAddress world.bus.limits.textLength =
      .ok nameBytes) :
    (∀ name, Text.decodeStrict nameBytes = some name →
      Text.decodeLossy nameBytes = name ∧
        ∀ otherBytes, Text.decodeStrict otherBytes = some name →
          otherBytes = nameBytes) ∧
    (Text.decodeStrict nameBytes = none →
      '\ufffd' ∈ (Text.decodeLossy nameBytes).toList ∧
        ∃ otherBytes, otherBytes ≠ nameBytes ∧
          Text.decodeStrict otherBytes = some (Text.decodeLossy nameBytes)) ∧
    (∀ signatureAddress signatureBytes rest,
      memory.readText 1 signatureAddress world.bus.limits.textLength =
          .ok signatureBytes →
        ∃ answer final,
          (machineRegister memory (nameAddress :: signatureAddress :: rest)).run
              world = some (answer, final) ∧
            (answer = true ↔
              world.bus.registry.contains (Text.decodeLossy nameBytes) = false ∧
                ∃ signature, Text.decodeStrict signatureBytes = some signature ∧
                  Signature.IsText signature) ∧
            (answer = true → ∃ text signature,
              Text.decodeStrict signatureBytes = some text ∧
                Signature.parse text = .ok signature ∧
                world.Gains (Event.new (Text.decodeLossy nameBytes) signature)
                  final) ∧
            (answer = false → final.hub = world.hub)) ∧
    (∀ signatureAddress error rest,
      memory.readText 1 signatureAddress world.bus.limits.textLength = .error error →
        (machineRegister memory (nameAddress :: signatureAddress :: rest)).run world =
          some (false, world.noted (.nameUnreadable error))) ∧
    ∀ cells,
      (machineCall caller memory (nameAddress :: cells)).run world =
        ((dispatchCells caller (Text.decodeLossy nameBytes) memory .byReference
            cells 1).run world).map fun result =>
          ((result.1.map Report.result).getD 0, result.2) := by
  refine ⟨?_, ?_, ?_, ?_, machineCall_run caller nameRead⟩
  · intro name strict
    refine ⟨Text.decodeLossy_of_strict strict, ?_⟩
    intro otherBytes otherStrict
    rw [Text.decodeStrict_eq_some_iff.mp strict,
      Text.decodeStrict_eq_some_iff.mp otherStrict]
  · intro refused
    exact ⟨Text.replacement_mem_decodeLossy refused, _,
      Text.encode_decodeLossy_ne refused, Text.decodeStrict_encode _⟩
  · intro signatureAddress signatureBytes rest signatureRead
    obtain ⟨answer, final, ran, succeeds, accepted, refused⟩ :=
      register_answers world (Text.decodeLossy nameBytes)
        (Text.decodeLossy signatureBytes)
    rw [Signature.exists_parse_iff, Signature.isText_decodeLossy_iff] at succeeds
    refine ⟨answer, final, ?_, succeeds, ?_, fun failed => (refused failed).1⟩
    · rw [machineRegister_run nameRead signatureRead, ran]
    · intro success
      obtain ⟨_, text, strict, known⟩ := succeeds.mp success
      obtain ⟨signature, parsed⟩ := Signature.exists_parse_iff.mpr known
      refine ⟨text, signature, strict, parsed, accepted signature success ?_⟩
      rw [Text.decodeLossy_of_strict strict, parsed]
  · intro signatureAddress error rest unread
    simp [machineRegister, readName_ok nameRead, readName_error unread]

/-- A name that is no UTF-8 is registered; a signature that is none is refused. -/
theorem mended_name_is_registered :
    let memory := (Segment.mk [255, 0, 254, 0]).memory
    let world : World Unit := World.new { strictUtf8 := true } ()
    let caller : Caller Unit := fun _ _ => pure (.ok .null)
    memory.readText 0 0 world.bus.limits.textLength = .ok [255] ∧
      Text.decodeStrict [255] = none ∧
      '\ufffd' ∈ (Text.decodeLossy [255]).toList ∧
      (∃ final, (machineRegister memory [0, 4]).run world = some (true, final)) ∧
      (∃ final, (machineRegister memory [0, 8]).run world = some (false, final) ∧
        final.hub = world.hub) ∧
      (machineCall caller memory [0]).run world = some (0, world) := by
  intro memory world caller
  have nameRead : memory.readText 0 0 world.bus.limits.textLength = .ok [255] := rfl
  have refused : Text.decodeStrict [255] = none := rfl
  obtain ⟨_, mended, registers, _, calls⟩ :=
    names_from_memory_are_mended caller nameRead
  refine ⟨nameRead, refused, (mended refused).1, ?_, ?_, ?_⟩
  · obtain ⟨answer, final, ran, succeeds, -⟩ := registers 4 [] [] rfl
    have success : answer = true :=
      succeeds.mpr ⟨rfl, "", rfl, fun _ member => by cases member⟩
    exact ⟨final, by rw [ran, success]⟩
  · obtain ⟨answer, final, ran, succeeds, _, unchanged⟩ := registers 8 [254] [] rfl
    have failed : answer = false := by
      rw [← Bool.not_eq_true, succeeds]
      rintro ⟨_, signature, strict, _⟩
      cases strict
    exact ⟨final, by rw [ran, failed], unchanged failed⟩
  · rw [calls]
    rfl

/-- Where texts that are not UTF-8 are to be refused, two of them name one event:
it is registered by the first and called by the second. -/
theorem strict_limits_let_mended_names_pass :
    let memory := (Segment.mk [255, 0, 254, 0]).memory
    let world : World Unit := World.new { strictUtf8 := true } ()
    let listener : Listener := ⟨⟨1⟩, ⟨1⟩, ⟨0⟩⟩
    let caller : Caller Unit := fun _ _ => pure (.ok (.int 7))
    world.bus.limits.strictUtf8 = true ∧
      memory.readText 0 0 world.bus.limits.textLength = .ok [255] ∧
      memory.readText 0 8 world.bus.limits.textLength = .ok [254] ∧
      Text.decodeStrict [255] = none ∧ Text.decodeStrict [254] = none ∧
      ∃ registered subscribed final report,
        (machineRegister memory [0, 4]).run world = some (true, registered) ∧
        (subscribe "\ufffd" listener).run registered = some (true, subscribed) ∧
        (machineCall caller memory [8]).run subscribed = some (7, final) ∧
        final.journal.newestFirst =
          .dispatchFinished "\ufffd" report :: .listenerCalled "\ufffd" listener ::
            subscribed.journal.newestFirst :=
  ⟨rfl, rfl, rfl, rfl, rfl, _, _, _, _, rfl, rfl, rfl, rfl⟩

end CellBus
