set_option autoImplicit false

namespace DescriptorCheck.Text

def toUtf8 (s : String) : List UInt8 := s.toUTF8.data.toList

def ofUtf8? (bytes : List UInt8) : Option String := String.fromUTF8? ⟨bytes.toArray⟩

def byteLength (cs : List Char) : Nat := cs.foldr (fun c n => c.utf8Size + n) 0

theorem ofUtf8?_toUtf8 (s : String) : ofUtf8? (toUtf8 s) = some s := by
  have bytes : (⟨(toUtf8 s).toArray⟩ : ByteArray) = s.toUTF8 := by
    simp [toUtf8]
  unfold ofUtf8?
  rw [bytes]
  have valid : s.toUTF8.IsValidUTF8 := s.isValidUTF8
  simpa [String.fromUTF8?] using ⟨valid, rfl⟩

end DescriptorCheck.Text
