/-!
# Bytes of a Text

The UTF-8 form of a text as a list of bytes. Formats defined on bytes
(hexadecimal, base64, digests, fixed-width timestamps) read this list;
positions in their messages count its elements.

## Main definitions

* `utf8`: The bytes of a text.
-/

namespace Schemata

namespace Text

/-- The UTF-8 bytes of a text, in order. -/
def utf8 (text : String) : List UInt8 :=
  text.toList.flatMap String.utf8EncodeChar

end Text

end Schemata
