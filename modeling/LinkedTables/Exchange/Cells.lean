import LinkedTables.Cell.Value
import LinkedTables.Json.Decoding

/-! # Cells as documents

A kind is a document that is its tag.  A value is an object of one member, its kind's tag over
its content; a text stands under the tag `String`.  A number that a document cannot hold, which
is NaN or an infinity, is written as `null`, and `null` is not read back as a number. -/

namespace LinkedTables

namespace Kind

def toJson (kind : Kind) : Json :=
  .ofText kind.tag

def ofJson? (document : Json) : Option Kind :=
  document.asUnitVariant?.bind ofTag?

def contentToJson : (kind : Kind) → kind.Content → Json
  | .boolean, truth => .truth truth
  | .signed _, i => .ofInteger i.val
  | .unsigned _, n => .ofInteger n.val
  | .floating _, x => .ofReal x
  | .vector _ _, components => .array (components.toList.map Json.ofReal)

def contentOfJson? : (kind : Kind) → Json → Option kind.Content
  | .boolean, document => document.asTruth?
  | .signed _, document => document.asBounded? _ _
  | .unsigned _, document => document.asBelow? _
  | .floating p, document => document.asReal? p
  | .vector dimension p, document => document.asVector? dimension.count (Json.asReal? p)

end Kind

namespace Value

/-- The tag of a textual value. -/
def textTag : String := "String"

def toJson : Value → Json
  | .cell kind content => .ofMembers [(kind.tag, kind.contentToJson content)]
  | .text content => .ofMembers [(textTag, .ofText content)]

def ofJson? (document : Json) : Option Value :=
  match document.asVariant? with
  | some (tag, some content) =>
    if tag = textTag then content.asText?.map Value.text
    else match Kind.ofTag? tag with
      | some kind => (kind.contentOfJson? content).map (Value.cell kind)
      | none => none
  | _ => none

end Value

end LinkedTables
