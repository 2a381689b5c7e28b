import ApiSurface.Yaml.Basic

/-!
# Tokens

The marks and scalars that a document is written with, without the white space and the comments
between them. Blocks have marks at their start and at their end, which stand for changes of the
indentation.
-/

namespace ApiSurface.Yaml

/-- A token. -/
inductive Token where
  /-- The version that a document is written for. -/
  | version (major minor : Nat)
  /-- What a handle of tags is short for. -/
  | handle (name expansion : String)
  | documentStart
  | documentEnd
  | blockSequence
  | blockMapping
  | blockEnd
  | flowSequence
  | flowSequenceEnd
  | flowMapping
  | flowMappingEnd
  /-- The dash of an item. -/
  | dash
  | comma
  /-- The start of a key. -/
  | key
  /-- The colon in front of a value. -/
  | value
  | anchor (number : Nat)
  | reference (number : Nat)
  /-- A tag, whose handle is empty when the tag is not shortened. -/
  | tag (handle suffix : String)
  | scalar (style : ScalarStyle) (text : String)
deriving DecidableEq, Repr

end ApiSurface.Yaml
