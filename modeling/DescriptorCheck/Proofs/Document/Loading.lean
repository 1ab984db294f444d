import DescriptorCheck.Document.Load
import DescriptorCheck.Proofs.Files.Names
import Mathlib.Data.List.Basic
import Mathlib.Data.Option.Basic

set_option autoImplicit false

namespace DescriptorCheck

/-- The ending of the names of packed files, in any letter case. -/
def EndsPacked (path : String) : Prop := ['.', 'g', 'z'] <:+ path.toList.map Char.toLower

namespace Text

theorem toUtf8_eq_flatMap (s : String) : toUtf8 s = s.toList.flatMap String.utf8EncodeChar := by
  conv_lhs => rw [toUtf8, ← String.ofList_toList (s := s)]
  rw [String.toUTF8_eq_toByteArray, String.toByteArray_ofList, List.utf8Encode,
    List.data_toByteArray]

theorem exists_utf8EncodeChar (c : Char) : ∃ b rest, String.utf8EncodeChar c = b :: rest ∧
    (b.toNat < 0x80 ∧ rest = [] ∨ 0xC0 ≤ b.toNat) := by
  unfold String.utf8EncodeChar
  simp only
  split
  · rename_i small
    refine ⟨_, _, rfl, .inl ⟨?_, rfl⟩⟩
    rw [UInt8.toNat_ofNat']
    omega
  · split
    · exact ⟨_, _, rfl, .inr (by simp; omega)⟩
    · split
      · exact ⟨_, _, rfl, .inr (by simp; omega)⟩
      · exact ⟨_, _, rfl, .inr (by simp; omega)⟩

end Text

namespace Gzip

theorem isMember_toUtf8 (s : String) : isMember (Text.toUtf8 s) = false := by
  rw [Text.toUtf8_eq_flatMap]
  cases s.toList with
  | nil => rfl
  | cons c cs =>
    obtain ⟨b, rest, bytes, first⟩ := Text.exists_utf8EncodeChar c
    rw [List.flatMap_cons, bytes]
    apply Bool.eq_false_iff.2
    intro member
    simp only [isMember, magic, List.cons_append, List.isPrefixOf_cons_cons, Bool.and_eq_true,
      beq_iff_eq] at member
    obtain ⟨rfl, member⟩ := member
    obtain ⟨-, rfl⟩ : _ ∧ rest = [] := first.resolve_right (by decide)
    cases cs with
    | nil => simp at member
    | cons d ds =>
      obtain ⟨b, rest, bytes, first⟩ := Text.exists_utf8EncodeChar d
      rw [List.flatMap_cons, bytes] at member
      simp only [List.nil_append, List.cons_append, List.isPrefixOf_cons_cons, Bool.and_eq_true,
        beq_iff_eq] at member
      obtain ⟨rfl, -⟩ := member
      revert first
      simp

theorem isMember_of_unpack? {bytes data : List UInt8} (unpacks : unpack? bytes = some data) :
    isMember bytes = true := by
  unfold unpack? skipHeader? at unpacks
  split at unpacks
  · simp [isMember, magic]
  · cases unpacks

end Gzip

namespace Format

theorem ofPath?_append_gz {path : String} (unpacked : ¬EndsPacked path) :
    ofPath? (path ++ ".gz") = ofPath? path := by
  have cut : Text.stripEnding? ".gz" (String.ofList ((path ++ ".gz").toList.map Char.toLower)) =
      some (String.ofList (path.toList.map Char.toLower)) := by
    simp [Text.stripEnding?, List.isSuffixOf?_eq_some_iff_append_eq.2]
  have kept : Text.stripEnding? ".gz" (String.ofList (path.toList.map Char.toLower)) = none := by
    rw [Text.stripEnding?, Option.map_eq_none_iff, Option.eq_none_iff_forall_ne_some]
    intro front found
    rw [List.isSuffixOf?_eq_some_iff_append_eq] at found
    exact unpacked ⟨front, by simpa using found⟩
  simp only [ofPath?, kept, cut, Option.getD_none, Option.getD_some]

end Format

namespace Document

theorem isPackedName_eq_false {files : FileTree} {path : String} {content : List UInt8}
    (found : files.read path = .ok content) (unpacked : ¬EndsPacked path) :
    isPackedName path = false := by
  obtain ⟨above, name, ending, pieces⟩ := PathName.exists_pieces_append path
  have last : PathName.pieces path = above ++ [name] := by simpa using pieces "" (by decide)
  have named := PathName.fileName?_of_pieces last (FileTree.not_isIdle_of_read found last)
  unfold isPackedName
  split
  · rename_i extension behind
    apply Bool.eq_false_iff.2
    intro packed
    have up : name ≠ ".." := by
      rintro rfl
      simp [PathName.extension?, named] at behind
    rw [if_neg up] at named
    apply unpacked
    have inside := ((PathName.suffix_of_extension? named behind).trans ending).map Char.toLower
    rwa [List.map_cons, eq_of_beq packed] at inside
  · rfl

theorem isPackedName_append_gz {files : FileTree} {path : String} {content : List UInt8}
    (found : files.read path = .ok content) : isPackedName (path ++ ".gz") = true := by
  obtain ⟨above, name, ending, pieces⟩ := PathName.exists_pieces_append path
  have last : PathName.pieces path = above ++ [name] := by simpa using pieces "" (by decide)
  have named := FileTree.not_isIdle_of_read found last
  have filled : name ≠ "" := by
    rintro rfl
    cases named
  simp [isPackedName, PathName.extension?_append_gz (pieces ".gz" (by decide)) filled]

theorem ofFile_of_text {path text : String} {content : Except FileFault (List UInt8)}
    (read : fileText path content = .ok text) :
    ofFile path content =
      (parse ((Format.ofPath? path).getD (Format.sniff text)) text).mapError (.unparsed path) := by
  simp only [ofFile, read, bind, Except.bind]

theorem ofInput_of_member {bytes : List UInt8} {text : String}
    (packed : Gzip.isMember bytes = true) (read : unpackText bytes = .ok text) :
    ofInput bytes = (parse (Format.sniff text) text).mapError .inputUnparsed := by
  simp only [ofInput, packed, if_true, read, bind, Except.bind]

theorem ofInput_toUtf8 (text : String) :
    ofInput (Text.toUtf8 text) =
      (parse (Format.sniff text) text).mapError .inputUnparsed := by
  simp only [ofInput, Gzip.isMember_toUtf8, Bool.false_eq_true, if_false, Text.ofUtf8?_toUtf8,
    bind, Except.bind]

/-- A text is loaded alike from a file, from the packed file beside it and, where the
name of the file tells no format, from standard input; the causes of failure agree too. -/
theorem loading_paths_agree {files : FileTree} {path text : String} {packed : List UInt8}
    (unpacked : ¬EndsPacked path) (plain : files.read path = .ok (Text.toUtf8 text))
    (zipped : files.read (path ++ ".gz") = .ok packed)
    (unpacks : Gzip.unpack? packed = some (Text.toUtf8 text)) :
    Gzip.isMember (Text.toUtf8 text) = false ∧
    ((∃ d, d.source = some text ∧
        load files path = .ok d ∧ load files (path ++ ".gz") = .ok d ∧
        (Format.ofPath? path = none →
          ofInput (Text.toUtf8 text) = .ok d ∧ ofInput packed = .ok d)) ∨
      ∃ e, load files path = .error (.unparsed path e) ∧
        load files (path ++ ".gz") = .error (.unparsed (path ++ ".gz") e) ∧
        (Format.ofPath? path = none →
          ofInput (Text.toUtf8 text) = .error (.inputUnparsed e) ∧
          ofInput packed = .error (.inputUnparsed e))) := by
  have inflated : unpackText packed = .ok text := by
    simp [unpackText, unpacks, Text.ofUtf8?_toUtf8]
  have plain_text : fileText path (files.read path) = .ok text := by
    simp [fileText, plain, isPackedName_eq_false plain unpacked, Text.ofUtf8?_toUtf8]
  have zipped_text : fileText (path ++ ".gz") (files.read (path ++ ".gz")) = .ok text := by
    simp [fileText, zipped, isPackedName_append_gz plain, inflated]
  have input := ofInput_toUtf8 text
  have packed_input := ofInput_of_member (Gzip.isMember_of_unpack? unpacks) inflated
  refine ⟨Gzip.isMember_toUtf8 text, ?_⟩
  rw [load, load, ofFile_of_text plain_text, ofFile_of_text zipped_text,
    Format.ofPath?_append_gz unpacked, input, packed_input]
  -- The four ways come to one call of `parse`, but for how each wraps an error.
  cases parsed : parse ((Format.ofPath? path).getD (Format.sniff text)) text with
  | ok d =>
    refine .inl ⟨d, parse_source parsed, rfl, rfl, ?_⟩
    intro unknown
    rw [unknown, Option.getD_none] at parsed
    rw [parsed]
    exact ⟨rfl, rfl⟩
  | error e =>
    refine .inr ⟨e, rfl, rfl, ?_⟩
    intro unknown
    rw [unknown, Option.getD_none] at parsed
    rw [parsed]
    exact ⟨rfl, rfl⟩

/-- A stored member, and a name with a point but no known ending. -/
theorem loading_paths_agree_on_stored_member :
    let packed : List UInt8 := [0x1F, 0x8B, 0x08, 0x00, 0x00, 0x00, 0x00, 0x00, 0x00, 0x03,
      0x01, 0x08, 0x00, 0xF7, 0xFF, 0x3C, 0x61, 0x3E, 0x31, 0x3C, 0x2F, 0x61, 0x3E, 0x68, 0x28,
      0xDB, 0x0C, 0x08, 0x00, 0x00, 0x00]
    let files := (FileTree.empty.add "dir/pom.GZ.d" (.file (Text.toUtf8 "<a>1</a>"))).add
      "dir/pom.GZ.d.gz" (.file packed)
    ¬EndsPacked "dir/pom.GZ.d" ∧
    files.read "dir/pom.GZ.d" = .ok (Text.toUtf8 "<a>1</a>") ∧
    files.read "dir/pom.GZ.d.gz" = .ok packed ∧
    Gzip.unpack? packed = some (Text.toUtf8 "<a>1</a>") ∧
    ∃ d, load files "dir/pom.GZ.d" = .ok d ∧ load files "dir/pom.GZ.d.gz" = .ok d ∧
      ofInput packed = .ok d := by
  intro packed files
  have unpacked : ¬EndsPacked "dir/pom.GZ.d" := by
    unfold EndsPacked
    decide
  have plain : files.read "dir/pom.GZ.d" = .ok (Text.toUtf8 "<a>1</a>") := by
    decide +kernel
  have zipped : files.read ("dir/pom.GZ.d" ++ ".gz") = .ok packed := by
    decide +kernel
  have unpacks : Gzip.unpack? packed = some (Text.toUtf8 "<a>1</a>") := by
    decide +kernel
  have unknown : Format.ofPath? "dir/pom.GZ.d" = none := by
    decide +kernel
  have parsed : parse (Format.sniff "<a>1</a>") "<a>1</a>" =
      .ok ⟨.text "1", some "<a>1</a>"⟩ := by
    rfl
  refine ⟨unpacked, plain, zipped, unpacks, ?_⟩
  obtain ⟨-, ⟨d, -, straight, through, input⟩ | ⟨e, -, -, input⟩⟩ :=
    loading_paths_agree unpacked plain zipped unpacks
  · exact ⟨d, straight, through, (input unknown).2⟩
  · have failed := (input unknown).1
    rw [ofInput_toUtf8, parsed] at failed
    cases failed

end Document

end DescriptorCheck
