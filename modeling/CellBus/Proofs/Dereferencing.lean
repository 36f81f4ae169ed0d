import CellBus.Memory.Segment
import CellBus.Proofs.SignatureParts

/-!
# Passing by reference and passing by value

Scalars and array lengths that are passed by reference are addresses of cells.
Decoding by reference is decoding those cells by value, as long as all of the
addresses can be followed.  Of the ones that cannot, the leftmost ends decoding,
unless an argument before it fails: an array's length is looked up before its base
address.
-/

namespace CellBus

/-- Which cells of an argument are addresses when it is passed by reference, but
values when it is passed by value. -/
def Tag.references : Tag → List Bool
  | text => [false]
  | int | uint | float => [true]
  | intArray | floatArray => [false, true]

/-- The same for every cell of a full argument list. -/
def Signature.references (signature : Signature) : List Bool :=
  signature.tags.flatMap Tag.references

namespace Memory

/-- The cell stored at an address, or the address itself if nothing is there. -/
def follow (memory : Memory) (address : Cell) : Cell :=
  match memory.deref 0 address with
  | .ok found => found
  | .error _ => address

/-- Cells with every reference among them followed. -/
def dereferenced (memory : Memory) : List Bool → List Cell → List Cell
  | true :: marks, cell :: cells => memory.follow cell :: memory.dereferenced marks cells
  | false :: marks, cell :: cells => cell :: memory.dereferenced marks cells
  | _, cells => cells

/-- Every reference among the cells can be followed. -/
def Follows (memory : Memory) (marks : List Bool) (cells : List Cell) : Prop :=
  ∀ (position : Nat) (raw : Cell), marks[position]? = some true →
    cells[position]? = some raw → ∃ found, memory.deref 0 raw = .ok found

variable {memory : Memory}

theorem follow_eq {address found : Cell} (stored : memory.deref 0 address = .ok found) :
    memory.follow address = found := by
  rw [follow, stored]

theorem dereferenced_nil (marks : List Bool) : memory.dereferenced marks [] = [] := by
  cases marks with
  | nil => rfl
  | cons mark _ => cases mark <;> rfl

theorem length_dereferenced (marks : List Bool) (cells : List Cell) :
    (memory.dereferenced marks cells).length = cells.length := by
  fun_induction dereferenced memory marks cells with
  | case1 _ _ _ ih => simp [ih]
  | case2 _ _ _ ih => simp [ih]
  | case3 => rfl

theorem dereferenced_take (memory : Memory) (first later : List Bool) (cells : List Cell) :
    (memory.dereferenced (first ++ later) cells).take first.length =
      memory.dereferenced first (cells.take first.length) := by
  induction first generalizing cells with
  | nil => rfl
  | cons mark rest ih =>
      cases cells with
      | nil => simp [dereferenced_nil]
      | cons cell cells => cases mark <;> simp [dereferenced, ih]

theorem dereferenced_drop (memory : Memory) (first later : List Bool) (cells : List Cell) :
    (memory.dereferenced (first ++ later) cells).drop first.length =
      memory.dereferenced later (cells.drop first.length) := by
  induction first generalizing cells with
  | nil => rfl
  | cons mark rest ih =>
      cases cells with
      | nil => simp [dereferenced_nil]
      | cons cell cells => cases mark <;> simp [dereferenced, ih]

theorem Follows.left {first later : List Bool} {cells : List Cell}
    (follows : memory.Follows (first ++ later) cells) :
    memory.Follows first (cells.take first.length) := by
  intro position raw marked found
  have inside : position < first.length := (List.getElem?_eq_some_iff.mp marked).1
  apply follows position raw
  · rw [List.getElem?_append_left inside, marked]
  · rw [← found, List.getElem?_take_of_lt inside]

theorem Follows.right {first later : List Bool} {cells : List Cell}
    (follows : memory.Follows (first ++ later) cells) :
    memory.Follows later (cells.drop first.length) := by
  intro position raw marked found
  apply follows (first.length + position) raw
  · rw [List.getElem?_append_right (Nat.le_add_right _ _), Nat.add_sub_cancel_left,
      marked]
  · rw [← found, List.getElem?_drop]

end Memory

theorem Tag.length_references (tag : Tag) : tag.references.length = tag.cells := by
  cases tag <;> rfl

/-- The cursor with every reference among its cells followed. -/
def Cursor.followed (memory : Memory) (marks : List Bool) (cursor : Cursor) : Cursor :=
  { cursor with remaining := memory.dereferenced marks cursor.remaining }

namespace Cursor

variable {memory : Memory} (cursor : Cursor) (tag : Tag) (later : List Bool)

theorem own_followed :
    (cursor.followed memory (tag.references ++ later)).own tag =
      memory.dereferenced tag.references (cursor.own tag) := by
  have taken := memory.dereferenced_take tag.references later cursor.remaining
  rw [tag.length_references] at taken
  exact taken

theorem past_followed :
    (cursor.followed memory (tag.references ++ later)).past tag =
      (cursor.past tag).followed memory later := by
  have dropped := memory.dereferenced_drop tag.references later cursor.remaining
  rw [tag.length_references] at dropped
  rw [past, own_followed, Memory.length_dereferenced]
  simp only [followed, past, dropped]

theorem shortage_followed :
    (cursor.followed memory (tag.references ++ later)).shortage tag =
      cursor.shortage tag := by
  rw [shortage, past_followed]
  rfl

theorem length_own_le : (cursor.own tag).length ≤ tag.cells :=
  List.length_take_le _ _

variable {cursor tag later}

theorem follows_own
    (follows : memory.Follows (tag.references ++ later) cursor.remaining) :
    memory.Follows tag.references (cursor.own tag) := by
  have ownFollows := follows.left
  rw [tag.length_references] at ownFollows
  exact ownFollows

theorem follows_past
    (follows : memory.Follows (tag.references ++ later) cursor.remaining) :
    memory.Follows later (cursor.past tag).advanceSlot.remaining := by
  have laterFollows := follows.right
  rw [tag.length_references] at laterFollows
  exact laterFollows

end Cursor

namespace Decoder

variable {memory : Memory} {limits : Limits}

/-- The decoder to which scalars and lengths are passed by reference. -/
abbrev byReference (memory : Memory) (limits : Limits) : Decoder :=
  ⟨memory, .byReference, limits⟩

/-- The decoder to which scalars and lengths are passed by value. -/
abbrev byValue (memory : Memory) (limits : Limits) : Decoder :=
  ⟨memory, .byValue, limits⟩

/-- An argument whose references can be followed is the same in either mode. -/
theorem valueOf_dereferenced (shortage : MarshalError) {tag : Tag} {own : List Cell}
    (follows : memory.Follows tag.references own) :
    (byReference memory limits).valueOf shortage tag own =
      (byValue memory limits).valueOf shortage tag
        (memory.dereferenced tag.references own) := by
  cases tag with
  | text => rcases own with _ | ⟨_, _ | _⟩ <;> rfl
  | int | uint | float =>
      rcases own with _ | ⟨raw, _ | _⟩
      case nil => rfl
      case cons.nil =>
        obtain ⟨found, stored⟩ := follows 0 raw rfl rfl
        simp [valueOf, scalarOf, Tag.references, Memory.dereferenced, stored,
          Memory.follow_eq stored]
      case cons.cons => rfl
  | intArray | floatArray =>
      rcases own with _ | ⟨base, _ | ⟨raw, _ | _⟩⟩
      case nil => rfl
      case cons.nil => rfl
      case cons.cons.nil =>
        obtain ⟨found, stored⟩ := follows 1 raw rfl rfl
        simp [valueOf, arrayOf, scalarOf, elementsOf, Tag.references,
          Memory.dereferenced, stored, Memory.follow_eq stored]
      case cons.cons.cons => rfl

/-- A reference that cannot be followed fails its argument, an array's before the
base address is looked at. -/
theorem valueOf_dangling (shortage : MarshalError) {tag : Tag} {own : List Cell}
    {position : Nat} {raw : Cell} {error : MarshalError}
    (ownLength : own.length ≤ tag.cells)
    (marked : tag.references[position]? = some true)
    (found : own[position]? = some raw)
    (dangling : memory.deref 0 raw = .error error) :
    (byReference memory limits).valueOf shortage tag own = .error error := by
  have inside := (List.getElem?_eq_some_iff.mp marked).1
  cases tag with
  | text =>
      obtain rfl : position = 0 := Nat.lt_one_iff.mp inside
      cases marked
  | int | uint | float =>
      obtain rfl : position = 0 := Nat.lt_one_iff.mp inside
      rcases own with _ | ⟨_, _ | _⟩
      case nil => cases found
      case cons.nil =>
        cases found
        simp [valueOf, scalarOf, dangling, bind, Except.bind]
      case cons.cons => exact absurd ownLength (by simp [Tag.cells])
  | intArray | floatArray =>
      rcases position with _ | position
      case zero => cases marked
      case succ =>
        obtain rfl : position = 0 := Nat.lt_one_iff.mp (Nat.lt_of_succ_lt_succ inside)
        rcases own with _ | ⟨_, _ | ⟨_, _ | _⟩⟩
        case nil => cases found
        case cons.nil => cases found
        case cons.cons.nil =>
          cases found
          simp [valueOf, arrayOf, scalarOf, dangling, bind, Except.bind]
        case cons.cons.cons => exact absurd ownLength (by simp [Tag.cells])

theorem valuesFrom_dereferenced {tags : List Tag} (cursor : Cursor)
    (follows : memory.Follows (tags.flatMap Tag.references) cursor.remaining) :
    (byReference memory limits).valuesFrom cursor tags =
      (byValue memory limits).valuesFrom
        (cursor.followed memory (tags.flatMap Tag.references)) tags := by
  induction tags generalizing cursor with
  | nil => rfl
  | cons tag rest ih =>
      rw [List.flatMap_cons] at follows ⊢
      have later := ih _ (Cursor.follows_past follows)
      rw [valuesFrom, valuesFrom, Cursor.shortage_followed, Cursor.own_followed,
        Cursor.past_followed, valueOf_dereferenced _ (Cursor.follows_own follows),
        later]
      rfl

/-- The leftmost reference that cannot be followed belongs to some slot, and ends
decoding unless an argument before that slot does. -/
theorem valuesFrom_dangling (limits : Limits) {tags : List Tag} (cursor : Cursor)
    {position : Nat} {raw : Cell} {error : MarshalError}
    (marked : (tags.flatMap Tag.references)[position]? = some true)
    (found : cursor.remaining[position]? = some raw)
    (dangling : memory.deref 0 raw = .error error)
    (leftmost : memory.Follows ((tags.flatMap Tag.references).take position)
      cursor.remaining) :
    ∃ slot, Signature.cellCount (.ofTags (tags.take slot)) ≤ position ∧
      position < Signature.cellCount (.ofTags (tags.take (slot + 1))) ∧
      (byReference memory limits).valuesFrom cursor tags =
        (byValue memory limits).valuesFrom
            (cursor.followed memory (tags.flatMap Tag.references))
            (tags.take slot) >>= fun _ => .error error := by
  induction tags generalizing cursor position with
  | nil => cases marked
  | cons tag rest ih =>
      rw [List.flatMap_cons] at marked leftmost ⊢
      by_cases inOwn : position < tag.cells
      · refine ⟨0, Nat.zero_le _, ?_, ?_⟩
        · rw [List.take_succ_cons, Signature.cellCount_cons]
          exact Nat.lt_add_right _ inOwn
        · have ownMarked : tag.references[position]? = some true := by
            rw [← marked, List.getElem?_append_left]
            rw [tag.length_references]
            exact inOwn
          have ownFound : (cursor.own tag)[position]? = some raw := by
            rw [Cursor.own, List.getElem?_take_of_lt inOwn, found]
          rw [valuesFrom, valueOf_dangling _ (cursor.length_own_le tag) ownMarked
            ownFound dangling]
          rfl
      · -- The first argument is the same in either mode, and the rest has the place.
        obtain ⟨later, rfl⟩ := Nat.exists_eq_add_of_le (Nat.not_lt.mp inOwn)
        have behind : (tag.references ++ rest.flatMap Tag.references).take
            (tag.cells + later) =
              tag.references ++ (rest.flatMap Tag.references).take later := by
          rw [← tag.length_references, List.take_length_add_append]
        rw [behind] at leftmost
        rw [← tag.length_references, List.getElem?_append_right
          (Nat.le_add_right _ _), Nat.add_sub_cancel_left] at marked
        have laterFound :
            (cursor.past tag).advanceSlot.remaining[later]? = some raw := by
          rw [← found]
          exact List.getElem?_drop
        obtain ⟨slot, notBefore, inSlot, decoded⟩ :=
          ih _ marked laterFound (Cursor.follows_past leftmost)
        refine ⟨slot + 1, ?_, ?_, ?_⟩
        · rw [List.take_succ_cons, Signature.cellCount_cons]
          exact Nat.add_le_add_left notBefore _
        · rw [List.take_succ_cons, Signature.cellCount_cons]
          exact Nat.add_lt_add_left inSlot _
        · rw [List.take_succ_cons, valuesFrom, valuesFrom, Cursor.shortage_followed,
            Cursor.own_followed, Cursor.past_followed,
            valueOf_dereferenced _ (Cursor.follows_own leftmost), decoded]
          simp only [bind_assoc, pure_bind]
          rfl

end Decoder

/-- Decoding by reference is decoding by value of the cells that the references
lead to, where all of them lead somewhere.  Else the slot of the leftmost one that
does not ends decoding, with what is wrong with that reference, unless an argument
before that slot cannot be decoded already. -/
theorem decodeAll_byReference_eq_byValue
    (resolve : Cell → Except MarshalError (List Cell)) (limits : Limits)
    (signature : Signature) (cells : List Cell) :
    let memory := Memory.fixed resolve
    let byReference : Decoder := ⟨memory, .byReference, limits⟩
    let byValue : Decoder := ⟨memory, .byValue, limits⟩
    let followed := memory.dereferenced signature.references cells
    (memory.Follows signature.references cells →
      byReference.decodeAll signature cells =
        byValue.decodeAll signature followed) ∧
    ∀ position raw error, signature.references[position]? = some true →
      cells[position]? = some raw → memory.deref 0 raw = .error error →
      memory.Follows (signature.references.take position) cells →
      ∃ slot, Signature.cellCount (.ofTags (signature.tags.take slot)) ≤ position ∧
        position < Signature.cellCount (.ofTags (signature.tags.take (slot + 1))) ∧
        byReference.decodeAll signature cells =
          match byValue.decodeAll (.ofTags (signature.tags.take slot)) followed with
          | .error earlier => .error earlier
          | .ok _ => .error error := by
  intro memory byReference byValue followed
  have steady : memory.SteadyFrom 0 := Memory.steadyFrom_fixed resolve 0
  have referring : byReference.decodeAll signature cells =
      byReference.valuesFrom (Cursor.start cells) signature.tags :=
    Decoder.decodeAll_eq_valuesFrom steady signature cells
  have direct : ∀ other : Signature, byValue.decodeAll other followed =
      byValue.valuesFrom (Cursor.start followed) other.tags :=
    fun other => Decoder.decodeAll_eq_valuesFrom steady other followed
  constructor
  · intro follows
    rw [referring, direct]
    exact Decoder.valuesFrom_dereferenced (Cursor.start cells) follows
  · intro position raw error marked found dangling leftmost
    obtain ⟨slot, notBefore, inSlot, decoded⟩ := Decoder.valuesFrom_dangling limits
      (Cursor.start cells) marked found dangling leftmost
    refine ⟨slot, notBefore, inSlot, ?_⟩
    rw [referring, direct, Signature.tags_ofTags]
    refine Eq.trans decoded ?_
    change (byValue.valuesFrom (Cursor.start followed) (signature.tags.take slot) >>=
      fun _ => _) = _
    cases byValue.valuesFrom (Cursor.start followed) (signature.tags.take slot) <;> rfl

/-- A number and an array by reference.  A length that cannot be looked up is
reported even if the base address is no better. -/
theorem decodeAll_byReference_looks_length_up_first :
    let segment : Segment := ⟨[7, 2, 50, 60]⟩
    let signature : Signature := .ofTags [.int, .intArray]
    let byReference : Decoder := ⟨segment.memory, .byReference, {}⟩
    let byValue : Decoder := ⟨segment.memory, .byValue, {}⟩
    segment.memory.Follows signature.references [0, 8, 4] ∧
      byReference.decodeAll signature [0, 8, 4] =
        byValue.decodeAll signature [7, 8, 2] ∧
      byValue.decodeAll signature [7, 8, 2] =
        .ok [.int 7, .list [.int 50, .int 60]] ∧
      segment.resolve 3 = .error (.invalidAddress 3) ∧
      byReference.decodeAll signature [0, 3, 400] =
        .error (.invalidAddress 400) := by
  intro segment signature byReference byValue
  have same := fun cells =>
    decodeAll_byReference_eq_byValue segment.resolve {} signature cells
  have follows : segment.memory.Follows signature.references [0, 8, 4] := by
    intro position raw marked found
    match position with
    | 0 =>
        cases found
        exact ⟨7, rfl⟩
    | 1 => cases marked
    | 2 =>
        cases found
        exact ⟨2, rfl⟩
  refine ⟨follows, (same [0, 8, 4]).1 follows, rfl, rfl, ?_⟩
  have leftmost : segment.memory.Follows (signature.references.take 2)
      [0, 3, 400] := by
    intro position raw marked found
    match position with
    | 0 =>
        cases found
        exact ⟨7, rfl⟩
    | 1 => cases marked
  obtain ⟨slot, notBefore, inSlot, decoded⟩ :=
    (same [0, 3, 400]).2 2 400 (.invalidAddress 400) rfl rfl rfl leftmost
  match slot, notBefore, inSlot with
  | 1, _, _ => exact decoded

end CellBus
