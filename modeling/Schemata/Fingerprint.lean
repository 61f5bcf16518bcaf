import Schemata.Avro.Canonical
import Schemata.Bytes.Hex
import Schemata.Bytes.Sha256

/-!
# Fingerprints

The fingerprint of a schema is the digest of its canonical form, so schemas
that differ only in documentation, layout, aliases or defaults share it. A
schema without a canonical form has none.

## Main definitions

* `Fingerprint`: The hexadecimal digits of a digest, or any text to compare one with.
* `Fingerprint.of`: The fingerprint of a schema.
* `Fingerprint.verify`: A schema has a fingerprint.
-/

namespace Schemata

/-- What a schema is recognised by. -/
structure Fingerprint where
  text : String
  deriving DecidableEq, Repr

namespace Fingerprint

/-- The fingerprint of a canonical form. -/
def ofCanonical (form : String) : Fingerprint :=
  ⟨Hex.encode (Sha256.digest (Text.utf8 form))⟩

/-- The fingerprint of a schema. -/
def of (schema : Avro.Schema) : Except AvroFault Fingerprint :=
  return ofCanonical (← schema.canonicalForm)

/-- The schema has the fingerprint. -/
def verify (fingerprint : Fingerprint) (schema : Avro.Schema) : Except AvroFault Bool :=
  return fingerprint = (← of schema)

end Fingerprint

end Schemata
