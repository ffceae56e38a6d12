/-!
# Texts as bytes

The UTF-8 form of a text, and the text of a byte string that is one.
-/

namespace HeapStore.Text

/-- The UTF-8 bytes of a text. -/
def utf8 (s : String) : List UInt8 :=
  s.toByteArray.data.toList

/-- The text whose UTF-8 form is `bytes`, if there is one. -/
def ofUtf8? (bytes : List UInt8) : Option String :=
  String.fromUTF8? bytes.toByteArray

theorem toByteArray_utf8 (s : String) : (utf8 s).toByteArray = s.toByteArray :=
  ByteArray.ext (by simp [utf8])

theorem length_utf8 (s : String) : (utf8 s).length = s.utf8ByteSize := by
  simp [utf8]

end HeapStore.Text
