import ApiSurface.Types.Descriptor

/-!
# Unions

The canonical union of several descriptors. Unions and optionals among them are opened, repeated
members are dropped, and the absent value moves to one `optional` around the result.
-/

namespace ApiSurface.Descriptor

/-- What a union consists of once it is opened: members other than the absent value, and whether
the absent value was met. -/
structure Opened where
  members : List Descriptor
  hasNone : Bool

namespace Opened

/-- Nothing was met. -/
def empty : Opened := ⟨[], false⟩

/-- Add a member unless it is there. -/
def insert (o : Opened) (d : Descriptor) : Opened :=
  if d ∈ o.members then o else { o with members := o.members ++ [d] }

/-- The absent value was met. -/
def withNone (o : Opened) : Opened := { o with hasNone := true }

/-- Put the parts together again. -/
def close (o : Opened) : Descriptor :=
  match o.members with
  | [] => if o.hasNone then none else unknown
  | [d] => if o.hasNone then d.orNone else d
  | ds => if o.hasNone then (union ds).orNone else union ds

end Opened

mutual
/-- Open a descriptor into `o`. -/
def openInto (o : Opened) : Descriptor → Opened
  | union ms => openAllInto o ms
  | optional d => openInto o.withNone d
  | d => if d.isNone then o.withNone else o.insert d

/-- Open several descriptors into `o`, first to last. -/
def openAllInto (o : Opened) : List Descriptor → Opened
  | [] => o
  | d :: ds => openAllInto (openInto o d) ds
end

/-- The canonical union. -/
def unionOf (members : List Descriptor) : Descriptor := (openAllInto .empty members).close

end ApiSurface.Descriptor
