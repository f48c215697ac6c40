import Pkm.Lcs.Model.Walk
/-!
# The metadata of responses

A source answers a lookup with the path entries of one child and an enumeration with
those of every child, and tells in the same response of each key they lead to. A
response whose records do not match its entries is refused.
-/

namespace Pkm.Lcs

structure EnumChild where
  childName : Name
  pathEntries : List PathEntry

structure EnumChildrenPayload where
  children : List EnumChild
  metadata : List KeyMetadata

def validateRsiEnumChildrenMetadataCompleteness (payload : EnumChildrenPayload) :
    Except MetadataError Unit :=
  validateMetadataCompleteness (payload.children.flatMap (·.pathEntries)) payload.metadata

/-- The entries of a lookup, under the name that was asked for. -/
def LookupPayload.named (childName : Name) (payload : LookupPayload) : List NamedPathEntry :=
  payload.entries.map (⟨childName, ·⟩)

def EnumChildrenPayload.named (payload : EnumChildrenPayload) : List NamedPathEntry :=
  payload.children.flatMap fun child => child.pathEntries.map (⟨child.childName, ·⟩)

end Pkm.Lcs
