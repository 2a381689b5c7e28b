/-!
# YAML values

The values that a YAML document holds: scalars, sequences and mappings. What the text of a scalar
means is left to the reader of the value, so a scalar keeps how it was written. A value may carry
an anchor, and a reference stands for the value that an anchor names.
-/

namespace ApiSurface

/-- How a scalar is written. -/
inductive Yaml.ScalarStyle where
  | plain
  | singleQuoted
  | doubleQuoted
  /-- A block of lines that keeps its line breaks. -/
  | literal
  /-- A block of lines whose line breaks are folded. -/
  | folded
deriving DecidableEq, Repr

/-- A value. -/
inductive Yaml where
  | scalar (style : Yaml.ScalarStyle) (tag : Option String) (text : String)
  | seq (items : List Yaml)
  /-- Pairs in written order; keys may repeat. -/
  | map (pairs : List (Yaml × Yaml))
  /-- A value that references can stand for. -/
  | anchored (number : Nat) (value : Yaml)
  | reference (number : Nat)
deriving Inhabited, Repr

namespace Yaml

/-- Nothing was written. -/
def absent : Yaml := scalar .plain none ""

mutual
/-- The values with anchors, by the number of the anchor, in the order in which they start. -/
def anchors : Yaml → List (Nat × Yaml)
  | scalar _ _ _ => []
  | seq items => anchorsOfItems items
  | map pairs => anchorsOfPairs pairs
  | anchored n v => (n, v) :: anchors v
  | reference _ => []

def anchorsOfItems : List Yaml → List (Nat × Yaml)
  | [] => []
  | v :: r => anchors v ++ anchorsOfItems r

def anchorsOfPairs : List (Yaml × Yaml) → List (Nat × Yaml)
  | [] => []
  | (k, v) :: r => anchors k ++ anchors v ++ anchorsOfPairs r
end

mutual
/-- The number of parts that a value is written with: a scalar or a reference is one, and a
collection has its start, its end and the parts of its members. -/
def size : Yaml → Nat
  | scalar _ _ _ => 1
  | seq items => sizeOfItems items + 2
  | map pairs => sizeOfPairs pairs + 2
  | anchored _ v => size v
  | reference _ => 1

def sizeOfItems : List Yaml → Nat
  | [] => 0
  | v :: r => size v + sizeOfItems r

def sizeOfPairs : List (Yaml × Yaml) → Nat
  | [] => 0
  | (k, v) :: r => size k + size v + sizeOfPairs r
end

end Yaml

end ApiSurface
