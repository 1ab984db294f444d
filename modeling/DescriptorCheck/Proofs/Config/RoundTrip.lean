import DescriptorCheck.Config
import DescriptorCheck.Proofs.Files.Writing
import DescriptorCheck.Proofs.Toml.Entries
import Mathlib.Data.List.Nodup

set_option autoImplicit false

namespace DescriptorCheck

namespace FileTree

def withParent (t : FileTree) (path : String) : Except FileFault FileTree :=
  match PathName.parent? path with
  | some directory => t.makeDirectories directory
  | none => .ok t

/-- The directories above the path can be made, and then a file can be put there. -/
def IsWritable (t : FileTree) (path : String) : Prop :=
  ∃ made, t.withParent path = .ok made ∧ ∃ names, made.Takes path names

end FileTree

namespace Config

inductive Field where
  | defaultDocument
  | pathMatching
  | moduleRoot
  | moduleDescriptor
deriving DecidableEq

namespace Field

def all : List Field := [defaultDocument, pathMatching, moduleRoot, moduleDescriptor]

def key : Field → String
  | defaultDocument => "default_document"
  | pathMatching => "path_matching"
  | moduleRoot => "module_root"
  | moduleDescriptor => "module_descriptor"

def text (c : Config) : Field → String
  | defaultDocument => c.defaultDocument
  | pathMatching => c.pathMatching.name
  | moduleRoot => c.moduleRoot
  | moduleDescriptor => c.moduleDescriptor

theorem isBare_key (f : Field) : Toml.IsBare f.key := by
  cases f <;> decide

theorem key_injective : Function.Injective key := by
  intro f g same
  cases f <;> cases g <;> first | rfl | simp [key] at same

end Field

def linesOf (c : Config) (fields : List Field) : String :=
  String.join (fields.map fun f => fieldLine f.key (f.text c))

/-- The configuration with default values in all but these fields. -/
def only (c : Config) (fields : List Field) : Config where
  defaultDocument :=
    if .defaultDocument ∈ fields then c.defaultDocument else usual.defaultDocument
  pathMatching := if .pathMatching ∈ fields then c.pathMatching else usual.pathMatching
  moduleRoot := if .moduleRoot ∈ fields then c.moduleRoot else usual.moduleRoot
  moduleDescriptor :=
    if .moduleDescriptor ∈ fields then c.moduleDescriptor else usual.moduleDescriptor

def pairs (c : Config) (fields : List Field) : List (String × String) :=
  fields.map fun f => (f.key, f.text c)

theorem linesOf_all (c : Config) : c.linesOf Field.all = c.toText := by
  simp only [linesOf, toText, Field.all, Field.key, Field.text, List.map_cons, List.map_nil,
    String.join_cons, String.join_nil, String.append_empty, String.append_assoc]

theorem only_all (c : Config) : c.only Field.all = c := rfl

theorem toList_fieldLine (key value : String) :
    (fieldLine key value).toList = Toml.stringLine (key, value) := by
  simp [fieldLine, Toml.stringLine]

theorem linesOf_eq_ofList (c : Config) (fields : List Field) :
    c.linesOf fields = String.ofList ((c.pairs fields).flatMap Toml.stringLine) := by
  induction fields with
  | nil => rfl
  | cons f rest ih =>
    unfold linesOf at ih ⊢
    change _ = String.ofList (Toml.stringLine (f.key, f.text c) ++
      (c.pairs rest).flatMap Toml.stringLine)
    rw [List.map_cons, String.join_cons, ih, String.ofList_append, ← toList_fieldLine,
      String.ofList_toList]

theorem lookup_pairs (c : Config) (fields : List Field) (f : Field) :
    ((c.pairs fields).map fun pair => (pair.1, Toml.Node.string pair.2)).lookup f.key =
      if f ∈ fields then some (.string (f.text c)) else none := by
  induction fields with
  | nil => rfl
  | cons g rest ih =>
    by_cases same : f = g
    · subst same
      simp [pairs]
    · have apart : (f.key == g.key) = false := by
        simpa using fun equal => same (Field.key_injective equal)
      simpa [pairs, List.lookup_cons, apart, same] using ih

theorem read?_linesOf (c : Config) {fields : List Field} (distinct : fields.Nodup) :
    Toml.read? (c.linesOf fields) =
      some ((c.pairs fields).map fun pair => (pair.1, .string pair.2)) := by
  have bare : ∀ pair ∈ c.pairs fields, Toml.IsBare pair.1 := by
    intro pair mem
    obtain ⟨f, -, rfl⟩ := List.mem_map.1 mem
    exact f.isBare_key
  have keys : ((c.pairs fields).map Prod.fst).Nodup := by
    rw [pairs, List.map_map]
    exact distinct.map Field.key_injective
  rw [linesOf_eq_ofList]
  exact Toml.read?_stringLines bare keys

theorem textField_of_mem (c : Config) (fields : List Field) (f : Field) (usual : String) :
    textField usual (if f ∈ fields then some (.string (f.text c)) else none) =
      some (if f ∈ fields then f.text c else usual) := by
  split <;> rfl

theorem matchingField_of_mem (c : Config) (fields : List Field) :
    matchingField (if .pathMatching ∈ fields then some (.string c.pathMatching.name) else none) =
      some (if .pathMatching ∈ fields then c.pathMatching else .usual) := by
  split
  · exact Matching.ofName?_name c.pathMatching
  · rfl

theorem ofText_linesOf (c : Config) {fields : List Field} (distinct : fields.Nodup) :
    ofText (c.linesOf fields) = c.only fields := by
  rw [ofText, read?_linesOf c distinct, Option.bind_some, ofEntries?]
  have found := c.lookup_pairs fields
  rw [show "default_document" = Field.key .defaultDocument from rfl, found,
    show "path_matching" = Field.key .pathMatching from rfl, found,
    show "module_root" = Field.key .moduleRoot from rfl, found,
    show "module_descriptor" = Field.key .moduleDescriptor from rfl, found,
    textField_of_mem, textField_of_mem, textField_of_mem]
  change (matchingField (if .pathMatching ∈ fields then some (.string c.pathMatching.name)
    else none) >>= fun _ => _).getD usual = _
  rw [matchingField_of_mem]
  rfl

theorem load_of_read (c : Config) {fields : List Field} (distinct : fields.Nodup)
    {files : FileTree} {path : String}
    (holds : files.read path = .ok (Text.toUtf8 (c.linesOf fields))) :
    load files path = c.only fields := by
  rw [load, holds]
  simp only [ofFile, Text.ofUtf8?_toUtf8]
  exact ofText_linesOf c distinct

theorem save_eq_ok_iff (c : Config) (files : FileTree) (path : String) (saved : FileTree) :
    c.save files path = .ok saved ↔ ∃ made, files.withParent path = .ok made ∧
      made.write path (Text.toUtf8 c.toText) = .ok saved := by
  unfold save FileTree.withParent
  cases PathName.parent? path with
  | none =>
    change Except.mapError _ (files.write path _) = _ ↔ ∃ made, Except.ok files = .ok made ∧ _
    cases written : files.write path (Text.toUtf8 c.toText) with
    | error fault => simp [Except.mapError, written]
    | ok t => simp [Except.mapError, written]
  | some directory =>
    cases made : files.makeDirectories directory with
    | error fault => simp [Except.mapError, bind, Except.bind, made]
    | ok t =>
      cases written : t.write path (Text.toUtf8 c.toText) with
      | error fault => simp [Except.mapError, bind, Except.bind, made, written]
      | ok t' => simp [Except.mapError, bind, Except.bind, made, written]

theorem isWritable_iff (c : Config) (files : FileTree) (path : String) :
    files.IsWritable path ↔ ∃ saved, c.save files path = .ok saved := by
  constructor
  · rintro ⟨made, parent, names, takes⟩
    have written := (made.write_eq_ok_iff path (Text.toUtf8 c.toText) _).2 ⟨names, takes, rfl⟩
    exact ⟨_, (c.save_eq_ok_iff files path _).2 ⟨made, parent, written⟩⟩
  · rintro ⟨saved, done⟩
    obtain ⟨made, parent, written⟩ := (c.save_eq_ok_iff files path saved).1 done
    obtain ⟨names, takes, -⟩ := (made.write_eq_ok_iff path _ saved).1 written
    exact ⟨made, parent, names, takes⟩

theorem read_of_save (c : Config) {files saved : FileTree} {path : String}
    (done : c.save files path = .ok saved) :
    saved.read path = .ok (Text.toUtf8 (c.linesOf Field.all)) := by
  obtain ⟨made, -, written⟩ := (c.save_eq_ok_iff files path saved).1 done
  rw [linesOf_all]
  exact FileTree.read_of_write written

/-- A configuration is saved wherever a file can be put and is loaded from there as it was.
A file with only some of the saved lines, in any order, loads with the default values in the
fields that it leaves out. -/
theorem load_saved (c : Config) (files : FileTree) (path : String)
    (writable : files.IsWritable path) :
    ∃ saved, c.save files path = .ok saved ∧
      saved.read path = .ok (Text.toUtf8 (c.linesOf Field.all)) ∧ load saved path = c ∧
      ∀ fields : List Field, fields.Nodup → ∀ (others : FileTree) (place : String),
        others.read place = .ok (Text.toUtf8 (c.linesOf fields)) →
        load others place = c.only fields := by
  obtain ⟨saved, done⟩ := (c.isWritable_iff files path).1 writable
  have whole := c.read_of_save done
  refine ⟨saved, done, whole, ?_, ?_⟩
  · exact (c.load_of_read (by decide) whole).trans c.only_all
  · intro fields distinct others place holds
    exact c.load_of_read distinct holds

def quoted : Config :=
  ⟨"tab\there", .literal, "two\nlines \"\"\" and \'\'\'\x01", "C:\\it's"⟩

theorem load_saved_in_new_directory :
    FileTree.empty.IsWritable "nested/config.toml" ∧
    (∃ saved, quoted.save .empty "nested/config.toml" = .ok saved ∧
      load saved "nested/config.toml" = quoted) ∧
    load (FileTree.empty.put ["part.toml"] (.file (Text.toUtf8 (quoted.linesOf [.moduleRoot]))))
      "part.toml" = quoted.only [.moduleRoot] := by
  have nested : FileTree.place ⟨[(["nested"], .directory)]⟩ "nested/config.toml" =
      .ok (.inside ["nested", "config.toml"]) := rfl
  have part : FileTree.empty.place "part.toml" = .ok (.inside ["part.toml"]) := rfl
  have writable : FileTree.empty.IsWritable "nested/config.toml" :=
    ⟨⟨[(["nested"], .directory)]⟩, rfl, ["nested", "config.toml"], nested, by decide⟩
  obtain ⟨saved, done, -, same, parts⟩ := quoted.load_saved .empty "nested/config.toml" writable
  refine ⟨writable, ⟨saved, done, same⟩, parts [.moduleRoot] (by decide) _ "part.toml" ?_⟩
  exact FileTree.read_of_write
    ((FileTree.write_eq_ok_iff _ _ _ _).2 ⟨["part.toml"], ⟨part, by decide⟩, rfl⟩)

end Config

end DescriptorCheck
