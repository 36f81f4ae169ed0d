import CellBus.Proofs.SignatureParts
import CellBus.Proofs.SignatureTexts
import Mathlib.Data.List.Basic
import Mathlib.Data.List.Count

/-!
# Signatures read and printed

The text that a signature keeps and the tags that were read from it determine each
other, character by character, so texts that are put together are read as the tags put
together.  A text with a character that is no tag has a first one, and reading ends there,
whatever stands behind it.
-/

namespace CellBus

theorem Tag.toChar_injective : Function.Injective Tag.toChar := by
  intro tag other same
  have read : Tag.ofChar? tag.toChar = some other := Tag.ofChar?_eq_some_iff.mpr same
  rw [Tag.ofChar?_eq_some_iff.mpr rfl] at read
  exact Option.some.inj read

namespace Signature

variable {text : String} {signature : Signature}

theorem print_injective : Function.Injective print := by
  intro tags others same
  have characters := congrArg String.toList same
  rw [toList_print, toList_print] at characters
  exact List.map_injective_iff.mpr Tag.toChar_injective characters

theorem print_append (tags others : List Tag) :
    print (tags ++ others) = print tags ++ print others := by
  rw [← String.toList_inj, String.toList_append, toList_print, toList_print, toList_print,
    List.map_append]

theorem toList_of_parse (parsed : parse text = .ok signature) :
    text.toList = signature.tags.map Tag.toChar := by
  rw [← (parse_eq_ok_iff.mp parsed).2, toList_print]

/-- Equal tags come from equal texts. -/
theorem eq_iff_tags_eq {other : String} {second : Signature}
    (parsed : parse text = .ok signature) (otherParsed : parse other = .ok second) :
    signature = second ↔ signature.tags = second.tags := by
  constructor
  · exact congrArg tags
  · intro same
    rw [eq_ofTags parsed, eq_ofTags otherParsed, same]

theorem length_of_parse (parsed : parse text = .ok signature) :
    signature.length = text.length := by
  rw [← String.length_toList, toList_of_parse parsed, List.length_map, length]

/-- Every array letter counts twice. -/
theorem cellCount_of_parse (parsed : parse text = .ok signature) :
    signature.cellCount =
      text.length + (text.toList.count 'a' + text.toList.count 'v') := by
  have integers : text.toList.count 'a' = signature.tags.count .intArray := by
    rw [toList_of_parse parsed]
    exact List.count_map_of_injective _ _ Tag.toChar_injective .intArray
  have floats : text.toList.count 'v' = signature.tags.count .floatArray := by
    rw [toList_of_parse parsed]
    exact List.count_map_of_injective _ _ Tag.toChar_injective .floatArray
  rw [integers, floats, ← length_of_parse parsed, ← Nat.add_assoc]
  exact cellCount_eq signature.tags

theorem parse_append {later : String} {second : Signature}
    (parsed : parse text = .ok signature) (laterParsed : parse later = .ok second) :
    parse (text ++ later) = .ok ⟨text ++ later, signature.tags ++ second.tags⟩ := by
  refine parse_eq_ok_iff.mpr ⟨rfl, ?_⟩
  rw [print_append, (parse_eq_ok_iff.mp parsed).2, (parse_eq_ok_iff.mp laterParsed).2]

/-- Reading ends at the first character that is no tag. -/
theorem parse_unknown {known : List Char} {character : Char}
    (tags : ∀ earlier ∈ known, earlier ∈ "sdifav".toList)
    (foreign : character ∉ "sdifav".toList) (others : List Char) :
    parse (String.ofList (known ++ character :: others)) =
      .error (.unknownTag character known.length) := by
  simp only [← Tag.exists_toChar_iff] at tags foreign
  obtain ⟨printed, rfl⟩ := exists_tags tags
  have unread : Tag.ofChar? character = none := by
    rw [Option.eq_none_iff_forall_ne_some]
    exact fun tag read => foreign ⟨tag, Tag.ofChar?_eq_some_iff.mp read⟩
  rw [parse, String.toList_ofList, readTags_printed, readTags, unread, List.length_map,
    Nat.zero_add]
  rfl

/-- A text that is no signature's has a first character that is no tag. -/
theorem exists_first_foreign (other : ¬IsText text) :
    ∃ known character rest, text.toList = known ++ character :: rest ∧
      (∀ earlier ∈ known, earlier ∈ "sdifav".toList) ∧
      character ∉ "sdifav".toList := by
  cases found : text.toList.find? (· ∉ "sdifav".toList) with
  | none =>
      refine absurd (fun character member => ?_) other
      by_contra foreign
      exact List.find?_eq_none.mp found character member (decide_eq_true foreign)
  | some character =>
      obtain ⟨foreign, known, rest, split, before⟩ := List.find?_eq_some_iff_append.mp found
      refine ⟨known, character, rest, split, fun earlier member => ?_,
        of_decide_eq_true foreign⟩
      by_contra unknown
      have refused := before earlier member
      rw [decide_eq_true unknown] at refused
      cases refused

end Signature

open Signature

/-- A text is parsed just if all its characters are tags.  Its signature then is displayed
as the text that it keeps, and its tags print as that text, one character each.  It has an
argument for each character and a further cell for each array.  Signatures are equal just
if their tags are, and just if their texts are.  Two texts together have the tags of the
one and then of the other, and printing any tags and parsing gives them back.  A text that
is not parsed is refused for its first character that is no tag, with the number of
characters before it, whatever stands behind. -/
theorem signatures_and_texts_determine_each_other (text : String) :
    ((∃ signature, parse text = .ok signature) ↔ IsText text) ∧
    ofString text = parse text ∧
    (∀ signature, parse text = .ok signature →
      signature.text = text ∧ toString signature = text ∧ print signature.tags = text ∧
      signature.tags.map Tag.toChar = text.toList ∧
      signature.length = text.length ∧
      signature.cellCount =
        text.length + (text.toList.count 'a' + text.toList.count 'v') ∧
      ∀ other second, parse other = .ok second →
        (signature = second ↔ signature.tags = second.tags) ∧
        (text = other ↔ signature.tags = second.tags) ∧
        parse (text ++ other) = .ok ⟨text ++ other, signature.tags ++ second.tags⟩) ∧
    (∀ tags : List Tag, ∃ signature, parse (print tags) = .ok signature ∧
      signature.text = print tags ∧ signature.tags = tags) ∧
    (¬IsText text →
      ∃ known character rest, text.toList = known ++ character :: rest ∧
        (∀ earlier ∈ known, earlier ∈ "sdifav".toList) ∧
        character ∉ "sdifav".toList ∧
        parse text = .error (.unknownTag character known.length) ∧
        ∀ others, parse (String.ofList (known ++ character :: others)) =
          .error (.unknownTag character known.length)) := by
  refine ⟨exists_parse_iff, rfl, ?_, ?_, ?_⟩
  · intro signature parsed
    obtain ⟨kept, printed⟩ := parse_eq_ok_iff.mp parsed
    refine ⟨kept, kept, printed, (toList_of_parse parsed).symm, length_of_parse parsed,
      cellCount_of_parse parsed, ?_⟩
    intro other second otherParsed
    refine ⟨eq_iff_tags_eq parsed otherParsed, ?_, parse_append parsed otherParsed⟩
    rw [← printed, ← (parse_eq_ok_iff.mp otherParsed).2]
    exact print_injective.eq_iff
  · intro tags
    exact ⟨ofTags tags, parse_print tags, rfl, rfl⟩
  · intro foreignText
    obtain ⟨known, character, rest, split, tags, foreign⟩ :=
      exists_first_foreign foreignText
    have refused := parse_unknown tags foreign
    refine ⟨known, character, rest, split, tags, foreign, ?_, refused⟩
    rw [← refused rest, ← split, String.ofList_toList]

/-- A text and an array before another array, and a text refused for a character of two
bytes behind its first. -/
theorem array_signature_and_its_text :
    let signature : Signature := ⟨"sa", [.text, .intArray]⟩
    parse "sa" = .ok signature ∧ toString signature = "sa" ∧
      print [.text, .intArray] = "sa" ∧ signature.length = 2 ∧ signature.cellCount = 3 ∧
      parse "v" = .ok ⟨"v", [.floatArray]⟩ ∧ "sa" ≠ "v" ∧
      parse ("sa" ++ "v") = .ok ⟨"sa" ++ "v", [.text, .intArray, .floatArray]⟩ ∧
      ¬IsText "dé" ∧ parse "dé" = .error (.unknownTag 'é' 1) ∧
      parse (String.ofList ['d', 'é', 'x']) = .error (.unknownTag 'é' 1) := by
  intro signature
  have parsed : parse "sa" = .ok signature := rfl
  have second : parse "v" = .ok ⟨"v", [.floatArray]⟩ := rfl
  have foreign : ¬IsText "dé" := by
    intro tags
    exact absurd (tags 'é' (by decide)) (by decide)
  obtain ⟨-, shown, prints, -, length, cells, others⟩ :=
    (signatures_and_texts_determine_each_other "sa").2.2.1 signature parsed
  obtain ⟨-, told, together⟩ := others "v" _ second
  have different : "sa" ≠ "v" := fun same => absurd (told.mp same) (by decide)
  obtain ⟨known, character, rest, split, -, -, refused, whatever⟩ :=
    (signatures_and_texts_determine_each_other "dé").2.2.2.2 foreign
  have read : parse "dé" = .error (.unknownTag 'é' 1) := rfl
  obtain ⟨rfl, one⟩ : character = 'é' ∧ known.length = 1 := by
    rw [refused, Except.error.injEq, SignatureError.unknownTag.injEq] at read
    exact read
  obtain ⟨first, rfl⟩ := List.length_eq_one_iff.mp one
  obtain rfl : first = 'd' := (List.cons.inj split).1.symm
  exact ⟨parsed, shown, prints, length, cells, second, different, together, foreign, read,
    whatever ['x']⟩

end CellBus
