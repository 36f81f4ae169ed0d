import CellBus.Proofs.AgreeingSides
import CellBus.Proofs.RemovedListeners

/-!
# Well-formed requests

Requests come with arguments of any number and shape.  One that is well formed is
just one operation on the bus.  Any other is ignored, and so is one that names an
event that is not there: nothing changes but the log, no listener is called, and the
answer is the one for nothing done.
-/

namespace CellBus

variable {σ α : Type}

theorem Argument.text?_eq_some_iff {argument : Argument} {text : String} :
    argument.text? = some text ↔ argument = .plain (.text text) := by
  cases argument with
  | plain value => cases value <;> simp [text?, plain?, Value.text?]
  | function callable => simp [text?, plain?]
  | list items => simp [text?, plain?]

theorem Argument.function?_eq_some_iff {argument : Argument} {callable : Callable} :
    argument.function? = some callable ↔ argument = .function callable := by
  cases argument <;> simp [function?]

namespace Running

/-- The step answers without doing anything, except that it may enter a remark in
the journal. -/
def Ignored (step : Running σ α) (answer : α) (world : World σ) : Prop :=
  step.run world = some (answer, world) ∨
    ∃ remark : Happening, remark.IsRemark ∧
      step.run world = some (answer, world.noted remark)

/-- The argument at a place is a plain text. -/
def TextAt (arguments : List Argument) (place : Nat) (text : String) : Prop :=
  arguments[place]? = some (.plain (.text text))

theorem requestName?_eq_some_iff {arguments : List Argument} {name : String} :
    requestName? arguments = some name ↔ TextAt arguments 0 name := by
  rw [requestName?, List.head?_eq_getElem?, Option.bind_eq_some_iff]
  simp [TextAt, Argument.text?_eq_some_iff]

section Script

variable {arguments : List Argument} {name signature : String} {scope : Scope}
variable {caller : Caller σ} {world : World σ}

theorem scriptRegister_named (first : TextAt arguments 0 name)
    (second : TextAt arguments 1 signature) :
    (scriptRegister arguments : Running σ Bool) = register name signature := by
  rcases arguments with _ | ⟨_, _ | ⟨_, rest⟩⟩
  case nil => cases first
  case cons.nil => cases second
  case cons.cons =>
    cases first
    cases second
    rfl

theorem scriptRegister_ignored
    (malformed : ¬∃ name signature,
      TextAt arguments 0 name ∧ TextAt arguments 1 signature) :
    Ignored (scriptRegister arguments) false world := by
  left
  rcases arguments with _ | ⟨first, _ | ⟨second, rest⟩⟩
  case nil => rfl
  case cons.nil => rfl
  case cons.cons =>
    cases named : first.text? with
    | none => simp [scriptRegister, named]
    | some name =>
        cases written : second.text? with
        | none => simp [scriptRegister, named, written]
        | some signature =>
            rw [Argument.text?_eq_some_iff] at named written
            subst named written
            exact absurd ⟨name, signature, rfl, rfl⟩ malformed

theorem scriptOn_named {callable : Callable} (first : TextAt arguments 0 name)
    (last : arguments.getLast? = some (Argument.function callable)) :
    (scriptOn scope arguments).run world =
      ((subscribe name ⟨scope.engine, scope.context, callable⟩).run world).map
        fun result => ((), result.2) := by
  rw [← requestName?_eq_some_iff] at first
  simp [scriptOn, first, last, Argument.function?, subscribe_run]

theorem scriptOn_ignored
    (malformed : ¬∃ name callable, TextAt arguments 0 name ∧
      arguments.getLast? = some (Argument.function callable)) :
    Ignored (scriptOn scope arguments) () world := by
  cases named : requestName? arguments with
  | none => exact .inl (by simp [scriptOn, named])
  | some name =>
      cases called : arguments.getLast?.bind Argument.function? with
      | none =>
          exact .inr ⟨.callbackMissing name, trivial,
            by simp [scriptOn, named, called, note_run]⟩
      | some callable =>
          obtain ⟨last, isLast, found⟩ := Option.bind_eq_some_iff.mp called
          rw [Argument.function?_eq_some_iff.mp found] at isLast
          exact absurd ⟨name, callable, requestName?_eq_some_iff.mp named, isLast⟩
            malformed

/-- What is to be removed is decided by the second argument. -/
theorem removalTarget?_second (first : TextAt arguments 0 name) :
    (arguments[1]? = none → removalTarget? arguments = some .all) ∧
      (∀ callable, arguments[1]? = some (Argument.function callable) →
        removalTarget? arguments = some (.one callable)) ∧
      (∀ items, arguments[1]? = some (Argument.list items) →
        removalTarget? arguments =
          some (.each (items.filterMap Argument.function?))) ∧
      ∀ value, arguments[1]? = some (Argument.plain value) →
        removalTarget? arguments = none := by
  rcases arguments with _ | ⟨_, _ | ⟨second, rest⟩⟩
  case nil => cases first
  case cons.nil => simp [removalTarget?]
  case cons.cons => cases second <;> simp [removalTarget?]

theorem scriptRemoveListener_target {target : Target} (first : TextAt arguments 0 name)
    (aimed : removalTarget? arguments = some target) :
    (scriptRemoveListener scope arguments).run world =
      ((unsubscribe name scope.context target).run world).map
        fun result => ((), result.2) := by
  rw [← requestName?_eq_some_iff] at first
  simp [scriptRemoveListener, first, aimed, unsubscribe_run]

theorem scriptRemoveListener_untargeted (first : TextAt arguments 0 name)
    (unaimed : removalTarget? arguments = none) :
    Ignored (scriptRemoveListener scope arguments) () world := by
  rw [← requestName?_eq_some_iff] at first
  exact .inr ⟨.targetRefused name, trivial,
    by simp [scriptRemoveListener, first, unaimed, note_run]⟩

theorem scriptFire_named (first : TextAt arguments 0 name) :
    (scriptFire caller arguments).run world =
      ((fire caller name arguments.tail).run world).map
        fun result => ((), result.2) := by
  rw [← requestName?_eq_some_iff] at first
  simp only [scriptFire, first, StateT.run_bind, Option.bind_eq_bind]
  cases (fire caller name arguments.tail).run world <;> rfl

section Unnamed

variable (unnamed : ∀ name, ¬TextAt arguments 0 name)

include unnamed

theorem requestName?_eq_none : requestName? arguments = none := by
  rw [Option.eq_none_iff_forall_ne_some]
  exact fun name named => unnamed name (requestName?_eq_some_iff.mp named)

theorem scriptRemoveListener_unnamed :
    Ignored (scriptRemoveListener scope arguments) () world :=
  .inl (by simp [scriptRemoveListener, requestName?_eq_none unnamed])

theorem scriptFire_unnamed : Ignored (scriptFire caller arguments) () world :=
  .inl (by simp [scriptFire, requestName?_eq_none unnamed])

end Unnamed

theorem subscribe_absent (absent : world.bus.event? name = none)
    (listener : Listener) :
    (subscribe name listener).run world =
      some (false, world.noted (.eventUnknown name)) := by
  have unknown : world.bus.registry.contains name = false := by
    rw [Registry.contains]
    exact Option.isSome_eq_false_iff.mpr (Option.isNone_iff_eq_none.mpr absent)
  rw [subscribe_run, Bus.subscribe_unknown unknown, unknown]
  rfl

/-- A request for an event that is not there is ignored. -/
theorem absent_ignored (first : TextAt arguments 0 name)
    (absent : world.bus.event? name = none) :
    Ignored (scriptOn scope arguments) () world ∧
      Ignored (scriptRemoveListener scope arguments) () world ∧
      Ignored (scriptFire caller arguments) () world := by
  refine ⟨?_, ?_, ?_⟩
  · by_cases wellFormed : ∃ name callable, TextAt arguments 0 name ∧
        arguments.getLast? = some (Argument.function callable)
    · obtain ⟨other, callable, named, last⟩ := wellFormed
      cases first.symm.trans named
      refine .inr ⟨.eventUnknown name, trivial, ?_⟩
      rw [scriptOn_named first last, subscribe_absent absent]
      rfl
    · exact scriptOn_ignored wellFormed
  · cases aimed : removalTarget? arguments with
    | none => exact scriptRemoveListener_untargeted first aimed
    | some target =>
        left
        rw [scriptRemoveListener_target first aimed,
          unsubscribe_unknown absent target]
        rfl
  · left
    rw [scriptFire_named first, fire, dispatchNamed_absent caller _ absent]
    rfl

end Script

section Machine

variable {memory : Memory} {world : World σ} {parameters : List Cell}
variable {caller : Caller σ} {name : String}

/-- The parameter at a place is the address of a text that can be read within the
limits, by the question that comes after one for each parameter before it. -/
def ReadsAt (memory : Memory) (world : World σ) (parameters : List Cell) (place : Nat)
    (bytes : List UInt8) : Prop :=
  ∃ address, parameters[place]? = some address ∧
    memory.readText place address world.bus.limits.textLength = .ok bytes

theorem machineRegister_read {nameBytes signatureBytes : List UInt8}
    (nameRead : ReadsAt memory world parameters 0 nameBytes)
    (signatureRead : ReadsAt memory world parameters 1 signatureBytes) :
    (machineRegister memory parameters).run world =
      (register (Text.decodeLossy nameBytes) (Text.decodeLossy signatureBytes)).run
        world := by
  obtain ⟨nameAddress, first, nameRead⟩ := nameRead
  obtain ⟨signatureAddress, second, signatureRead⟩ := signatureRead
  rcases parameters with _ | ⟨_, _ | ⟨_, rest⟩⟩
  case nil => cases first
  case cons.nil => cases second
  case cons.cons =>
    cases first
    cases second
    exact machineRegister_run nameRead signatureRead rest

theorem machineRegister_ignored
    (malformed : ¬∃ nameBytes signatureBytes,
      ReadsAt memory world parameters 0 nameBytes ∧
        ReadsAt memory world parameters 1 signatureBytes) :
    Ignored (machineRegister memory parameters) false world := by
  rcases parameters with _ | ⟨nameAddress, _ | ⟨signatureAddress, rest⟩⟩
  case nil => exact .inl rfl
  case cons.nil => exact .inl rfl
  case cons.cons =>
    right
    cases nameRead :
        memory.readText 0 nameAddress world.bus.limits.textLength with
    | error error =>
        exact ⟨.nameUnreadable error, trivial,
          by simp [machineRegister, readName_error nameRead]⟩
    | ok nameBytes =>
        cases signatureRead :
            memory.readText 1 signatureAddress world.bus.limits.textLength with
        | error error =>
            exact ⟨.nameUnreadable error, trivial,
              by simp [machineRegister, readName_ok nameRead,
                readName_error signatureRead]⟩
        | ok signatureBytes =>
            exact absurd ⟨nameBytes, signatureBytes, ⟨nameAddress, rfl, nameRead⟩,
              ⟨signatureAddress, rfl, signatureRead⟩⟩ malformed

theorem machineCall_read {bytes : List UInt8}
    (nameRead : ReadsAt memory world parameters 0 bytes) :
    (machineCall caller memory parameters).run world =
      ((dispatchCells caller (Text.decodeLossy bytes) memory .byReference
          parameters.tail 1).run world).map fun result =>
        ((result.1.map Report.result).getD 0, result.2) := by
  obtain ⟨address, first, nameRead⟩ := nameRead
  rcases parameters with _ | ⟨_, cells⟩
  case nil => cases first
  case cons =>
    cases first
    exact machineCall_run caller nameRead cells

theorem machineCall_ignored
    (malformed : ∀ bytes, ¬ReadsAt memory world parameters 0 bytes) :
    Ignored (machineCall caller memory parameters) 0 world := by
  rcases parameters with _ | ⟨address, cells⟩
  case nil => exact .inl rfl
  case cons =>
    right
    cases read : memory.readText 0 address world.bus.limits.textLength with
    | error error =>
        exact ⟨.nameUnreadable error, trivial,
          by simp [machineCall, readName_error read]⟩
    | ok bytes => exact absurd ⟨address, rfl, read⟩ (malformed bytes)

/-- A call of an event that is not there is ignored, whichever way it comes. -/
theorem machineCall_absent {bytes : List UInt8}
    (nameRead : ReadsAt memory world parameters 0 bytes)
    (absent : world.bus.event? (Text.decodeLossy bytes) = none) :
    Ignored (machineCall caller memory parameters) 0 world := by
  left
  rw [machineCall_read nameRead, dispatchCells, dispatchNamed_absent caller _ absent]
  rfl

theorem machineDispatch_absent (absent : world.bus.event? name = none)
    (cells : List Cell) :
    Ignored (machineDispatch caller name memory cells) 0 world := by
  left
  rw [machineDispatch_run, dispatchCells, dispatchNamed_absent caller _ absent]
  rfl

end Machine

end Running

open Running

/-- A request of the script or of its machine is one operation on the bus if it is
well formed: if there is a text where a name or a signature belongs, a function or
nothing but functions where a listener belongs, and if the texts in memory can be read
within the limits.  Otherwise, and whenever there is no event of that name to listen
to, to forget, to fire or to call, it is ignored. -/
theorem requests_are_one_operation_or_ignored (world : World σ) (scope : Scope)
    (arguments : List Argument) (caller : Caller σ) (memory : Memory)
    (parameters : List Cell) :
    ((∀ name signature, TextAt arguments 0 name → TextAt arguments 1 signature →
        (scriptRegister arguments).run world = (register name signature).run world) ∧
      ((¬∃ name signature, TextAt arguments 0 name ∧ TextAt arguments 1 signature) →
        Ignored (scriptRegister arguments) false world)) ∧
    ((∀ name callable, TextAt arguments 0 name →
        arguments.getLast? = some (Argument.function callable) →
        (scriptOn scope arguments).run world =
          ((subscribe name ⟨scope.engine, scope.context, callable⟩).run world).map
            fun result => ((), result.2)) ∧
      ((¬∃ name callable, TextAt arguments 0 name ∧
          arguments.getLast? = some (Argument.function callable)) →
        Ignored (scriptOn scope arguments) () world)) ∧
    ((∀ name target, TextAt arguments 0 name →
        (arguments[1]? = none ∧ target = .all ∨
          (∃ callable, arguments[1]? = some (Argument.function callable) ∧
            target = .one callable) ∨
          ∃ items, arguments[1]? = some (Argument.list items) ∧
            target = .each (items.filterMap Argument.function?)) →
        (scriptRemoveListener scope arguments).run world =
          ((unsubscribe name scope.context target).run world).map
            fun result => ((), result.2)) ∧
      ((∃ value, arguments[1]? = some (Argument.plain value)) ∨
          (∀ name, ¬TextAt arguments 0 name) →
        Ignored (scriptRemoveListener scope arguments) () world)) ∧
    ((∀ name, TextAt arguments 0 name →
        (scriptFire caller arguments).run world =
          ((fire caller name arguments.tail).run world).map
            fun result => ((), result.2)) ∧
      ((∀ name, ¬TextAt arguments 0 name) →
        Ignored (scriptFire caller arguments) () world)) ∧
    ((∀ nameBytes signatureBytes, ReadsAt memory world parameters 0 nameBytes →
        ReadsAt memory world parameters 1 signatureBytes →
        (machineRegister memory parameters).run world =
          (register (Text.decodeLossy nameBytes)
            (Text.decodeLossy signatureBytes)).run world) ∧
      ((¬∃ nameBytes signatureBytes, ReadsAt memory world parameters 0 nameBytes ∧
          ReadsAt memory world parameters 1 signatureBytes) →
        Ignored (machineRegister memory parameters) false world)) ∧
    ((∀ bytes, ReadsAt memory world parameters 0 bytes →
        (machineCall caller memory parameters).run world =
          ((dispatchCells caller (Text.decodeLossy bytes) memory .byReference
              parameters.tail 1).run world).map fun result =>
            ((result.1.map Report.result).getD 0, result.2)) ∧
      ((∀ bytes, ¬ReadsAt memory world parameters 0 bytes) →
        Ignored (machineCall caller memory parameters) 0 world)) ∧
    (∀ name, (machineDispatch caller name memory parameters).run world =
      ((dispatchCells caller name memory .byValue parameters 0).run world).map
        fun result => ((result.1.map Report.result).getD 0, result.2)) ∧
    (∀ name, world.bus.event? name = none →
      (TextAt arguments 0 name →
        Ignored (scriptOn scope arguments) () world ∧
          Ignored (scriptRemoveListener scope arguments) () world ∧
          Ignored (scriptFire caller arguments) () world) ∧
      (∀ bytes, ReadsAt memory world parameters 0 bytes →
        Text.decodeLossy bytes = name →
        Ignored (machineCall caller memory parameters) 0 world) ∧
      Ignored (machineDispatch caller name memory parameters) 0 world) := by
  refine ⟨⟨?_, scriptRegister_ignored⟩, ⟨fun _ _ => scriptOn_named, scriptOn_ignored⟩,
    ⟨?_, ?_⟩, ⟨fun _ => scriptFire_named, scriptFire_unnamed⟩,
    ⟨fun _ _ => machineRegister_read, machineRegister_ignored⟩,
    ⟨fun _ => machineCall_read, machineCall_ignored⟩, ?_, ?_⟩
  · intro name signature first second
    rw [scriptRegister_named first second]
  · intro name target first aimed
    obtain ⟨all, one, each, -⟩ := removalTarget?_second first
    apply scriptRemoveListener_target first
    rcases aimed with ⟨missing, rfl⟩ | ⟨callable, second, rfl⟩ | ⟨items, second, rfl⟩
    · exact all missing
    · exact one callable second
    · exact each items second
  · rintro (⟨value, second⟩ | unnamed)
    · by_cases named : ∃ name, TextAt arguments 0 name
      · obtain ⟨name, first⟩ := named
        obtain ⟨-, -, -, none⟩ := removalTarget?_second first
        exact scriptRemoveListener_untargeted first (none value second)
      · exact scriptRemoveListener_unnamed (not_exists.mp named)
    · exact scriptRemoveListener_unnamed unnamed
  · exact fun name => machineDispatch_run parameters
  · intro name absent
    refine ⟨fun first => absent_ignored first absent, ?_,
      machineDispatch_absent absent parameters⟩
    rintro bytes nameRead rfl
    exact machineCall_absent nameRead absent

/-- A list names the functions in it, a lone name is no callback, an unknown event has
no listeners, and a registration needs two texts that can be read. -/
theorem requests_of_several_shapes :
    let event := Event.assemble "e" (.ofTags [.int]) [⟨⟨1⟩, ⟨1⟩, ⟨0⟩⟩]
    let world : World Unit := World.holding { textLength := 1 } () event
    let memory := (Segment.mk [102, 0, 105, 0, 105, 105, 0]).memory
    let scope : Scope := ⟨⟨1⟩, ⟨1⟩⟩
    let caller : Caller Unit := fun _ _ => pure (.ok .null)
    (scriptRemoveListener scope
        [.plain (.text "e"), .list [.plain .null, .function ⟨0⟩]]).run world =
        ((unsubscribe "e" ⟨1⟩ (.each [⟨0⟩])).run world).map
          (fun result => ((), result.2)) ∧
      Ignored (scriptOn scope [.plain (.text "e")]) () world ∧
      (scriptFire caller [.plain (.text "e")]).run world =
        ((fire caller "e" []).run world).map (fun result => ((), result.2)) ∧
      Ignored (scriptOn scope [.plain (.text "f"), .function ⟨0⟩]) () world ∧
      (machineRegister memory [0, 8]).run world = (register "f" "i").run world ∧
      Ignored (machineRegister memory [0, 16]) false world ∧
      Ignored (machineCall caller memory [0, 8]) 0 world := by
  intro event world memory scope caller
  have readName : ReadsAt memory world [0, 8] 0 [102] := ⟨0, rfl, rfl⟩
  have readSignature : ReadsAt memory world [0, 8] 1 [105] := ⟨8, rfl, rfl⟩
  obtain ⟨-, -, ⟨removes, -⟩, -, ⟨registers, -⟩, -, -, absent⟩ :=
    requests_are_one_operation_or_ignored world scope
      [.plain (.text "e"), .list [.plain .null, .function ⟨0⟩]] caller memory [0, 8]
  obtain ⟨-, ⟨-, ignoresOn⟩, -, ⟨fires, -⟩, ⟨-, ignoresRegister⟩, -⟩ :=
    requests_are_one_operation_or_ignored world scope [.plain (.text "e")] caller
      memory [0, 16]
  obtain ⟨-, -, -, -, -, -, -, unknown⟩ :=
    requests_are_one_operation_or_ignored world scope
      [.plain (.text "f"), .function ⟨0⟩] caller memory []
  have spelled : Text.decodeLossy [102] = "f" := rfl
  have written : Text.decodeLossy [105] = "i" := rfl
  have absentEvent : world.bus.event? "f" = none := rfl
  have tooLong : memory.readText 1 16 world.bus.limits.textLength =
      .error (.textTooLong 2 1) := rfl
  refine ⟨removes "e" _ rfl (.inr (.inr ⟨_, rfl, rfl⟩)), ignoresOn ?_, fires "e" rfl,
    ((unknown "f" absentEvent).1 rfl).1, ?_, ignoresRegister ?_,
    (absent "f" absentEvent).2.1 _ readName spelled⟩
  · rintro ⟨name, callable, -, last⟩
    cases last
  · rw [registers _ _ readName readSignature, spelled, written]
  · rintro ⟨nameBytes, signatureBytes, -, address, second, read⟩
    cases second
    rw [tooLong] at read
    cases read

end CellBus
