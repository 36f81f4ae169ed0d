import CellBus.Signature

/-!
# Signatures and their texts

Parsing undoes printing: a text is parsed exactly when it is the print of tags, and
the signature then has both, the text and the tags.  So parsing succeeds exactly on
the texts all of whose characters are tags.
-/

namespace CellBus

/-- Every character of the text is a tag. -/
def Signature.IsText (text : String) : Prop :=
  ∀ character ∈ text.toList, character ∈ "sdifav".toList

theorem Tag.ofChar?_eq_some_iff {character : Char} {tag : Tag} :
    Tag.ofChar? character = some tag ↔ character = tag.toChar := by
  constructor
  · intro read
    unfold ofChar? at read
    split at read <;> cases read <;> rfl
  · rintro rfl
    cases tag <;> rfl

theorem Tag.exists_toChar_iff {character : Char} :
    (∃ tag : Tag, character = tag.toChar) ↔ character ∈ "sdifav".toList := by
  constructor
  · rintro ⟨tag, rfl⟩
    cases tag <;> decide
  · intro known
    have letters : "sdifav".toList = ['s', 'd', 'i', 'f', 'a', 'v'] := rfl
    simp only [letters, List.mem_cons, List.not_mem_nil, or_false] at known
    rcases known with rfl | rfl | rfl | rfl | rfl | rfl
    · exact ⟨.text, rfl⟩
    · exact ⟨.int, rfl⟩
    · exact ⟨.uint, rfl⟩
    · exact ⟨.float, rfl⟩
    · exact ⟨.intArray, rfl⟩
    · exact ⟨.floatArray, rfl⟩

namespace Signature

/-- Behind printed tags reading goes on as it would there. -/
theorem readTags_printed (position : Nat) (tags : List Tag) (rest : List Char) :
    readTags position (tags.map Tag.toChar ++ rest) =
      (readTags (position + tags.length) rest).map (tags ++ ·) := by
  induction tags generalizing position with
  | nil => cases later : readTags position rest <;> simp [later, Except.map]
  | cons tag tags ih =>
      rw [List.map_cons, List.cons_append, readTags, Tag.ofChar?_eq_some_iff.mpr rfl]
      dsimp only
      rw [ih, List.length_cons, Nat.add_assoc, Nat.add_comm 1]
      cases readTags (position + (tags.length + 1)) rest <;> rfl

theorem readTags_eq_ok_iff {position : Nat} {characters : List Char}
    {tags : List Tag} :
    readTags position characters = .ok tags ↔ characters = tags.map Tag.toChar := by
  constructor
  · intro parsed
    induction characters generalizing position tags with
    | nil =>
        cases parsed
        rfl
    | cons character rest ih =>
        rw [readTags] at parsed
        cases read : Tag.ofChar? character with
        | none =>
            rw [read] at parsed
            cases parsed
        | some first =>
            rw [read] at parsed
            cases later : readTags (position + 1) rest with
            | error error =>
                rw [later] at parsed
                cases parsed
            | ok found =>
                rw [later] at parsed
                cases parsed
                rw [List.map_cons, Tag.ofChar?_eq_some_iff.mp read, ih later]
  · rintro rfl
    have printed := readTags_printed position tags []
    rw [List.append_nil] at printed
    rw [printed, readTags, Except.map, List.append_nil]

/-- Characters that all are tags are those of a list of tags. -/
theorem exists_tags {characters : List Char}
    (known : ∀ character ∈ characters, ∃ tag : Tag, character = tag.toChar) :
    ∃ tags : List Tag, characters = tags.map Tag.toChar := by
  induction characters with
  | nil => exact ⟨[], rfl⟩
  | cons character rest ih =>
      obtain ⟨tag, same⟩ := known character List.mem_cons_self
      obtain ⟨tags, later⟩ :=
        ih fun other member => known other (List.mem_cons_of_mem _ member)
      exact ⟨tag :: tags, by rw [List.map_cons, ← same, ← later]⟩

theorem toList_print (tags : List Tag) : (print tags).toList = tags.map Tag.toChar :=
  String.toList_ofList

/-- A text is parsed as a signature that keeps it just if the tags print as it. -/
theorem parse_eq_ok_iff {text : String} {signature : Signature} :
    parse text = .ok signature ↔ signature.text = text ∧ print signature.tags = text := by
  have printed (tags : List Tag) : readTags 0 text.toList = .ok tags ↔ print tags = text := by
    rw [readTags_eq_ok_iff, ← toList_print, String.toList_inj, eq_comm]
  obtain ⟨kept, tags⟩ := signature
  rw [parse, ← printed]
  cases readTags 0 text.toList <;> simp [Except.map, eq_comm]

theorem parse_print (tags : List Tag) : parse (print tags) = .ok (ofTags tags) :=
  parse_eq_ok_iff.mpr ⟨rfl, rfl⟩

/-- What is parsed has the text and the tags that belong together. -/
theorem eq_ofTags {text : String} {signature : Signature}
    (parsed : parse text = .ok signature) : signature = ofTags signature.tags := by
  obtain ⟨kept, printed⟩ := parse_eq_ok_iff.mp parsed
  obtain ⟨_, tags⟩ := signature
  rw [ofTags, printed, ← kept]

/-- A text is parsed exactly when all its characters are tags. -/
theorem exists_parse_iff {text : String} :
    (∃ signature, parse text = .ok signature) ↔ IsText text := by
  simp only [IsText, ← Tag.exists_toChar_iff]
  constructor
  · rintro ⟨signature, parsed⟩ character member
    rw [← (parse_eq_ok_iff.mp parsed).2, toList_print] at member
    obtain ⟨tag, _, same⟩ := List.mem_map.mp member
    exact ⟨tag, same.symm⟩
  · intro known
    obtain ⟨tags, same⟩ := exists_tags known
    refine ⟨⟨text, tags⟩, parse_eq_ok_iff.mpr ⟨rfl, ?_⟩⟩
    rw [print, ← same, String.ofList_toList]

end Signature

end CellBus
