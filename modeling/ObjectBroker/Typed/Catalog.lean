import ObjectBroker.Typed.Record

/-!
# `ObjectBroker.Typed.Catalog` — a catalogue of record types

Records and enumerations over every kind of field there is: plain and qualified names, wide text,
references, dynamic values, bounded sequences, arrays, and a tree whose nodes hold their children.
-/

namespace ObjectBroker.Catalog

/-- A point of the plane. -/
structure Point where
  x : Int32
  y : Int32

instance : Typed Point :=
  .ofLayout "Point" (.field "x" Int32 <| .field "y" Int32 .empty)
    (fun p => (p.x, p.y, ())) fun (x, y, _) => ⟨x, y⟩

/-- A point of the plane under a qualified name. -/
structure Position where
  x : Int32
  y : Int32

instance : Typed Position :=
  .ofLayout "Geometry::Position" (.field "x" Int32 <| .field "y" Int32 .empty)
    (fun p => (p.x, p.y, ())) fun (x, y, _) => ⟨x, y⟩

/-- A colour. -/
inductive Color where
  | red
  | green
  | blue
deriving DecidableEq

instance : Typed Color :=
  .ofEnumeration "Color" [("Red", .red), ("Green", .green), ("Blue", .blue)]

/-- A finish, under a qualified name; there is only one. -/
inductive Finish where
  | matte
deriving DecidableEq

instance : Typed Finish := .ofEnumeration "Paint::Finish" [("Matte", .matte)]

/-- A coloured text. -/
structure Caption where
  text : WideString
  color : Color

instance : Typed Caption :=
  .ofLayout "Label" (.field "text" WideString <| .field "color" Color .empty)
    (fun l => (l.text, l.color, ())) fun (text, color, _) => ⟨text, color⟩

/-- A record with a field of each kind of container. -/
structure Sample where
  id : UInt32
  name : String
  tags : BoundedSeq WideString 4
  blob : List UInt8
  origin : Vector Int16 2
  initial : WideChar

instance : Typed Sample :=
  .ofLayout "Sample"
    (.field "id" UInt32 <| .field "name" String <| .field "tags" (BoundedSeq WideString 4) <|
      .field "blob" (List UInt8) <| .field "origin" (Vector Int16 2) <|
      .field "initial" WideChar .empty)
    (fun s => (s.id, s.name, s.tags, s.blob, s.origin, s.initial, ()))
    fun (id, name, tags, blob, origin, initial, _) => ⟨id, name, tags, blob, origin, initial⟩

/-- A numbered object to be called back. -/
structure Registration where
  id : UInt32
  callback : ObjectRef

instance : Typed Registration :=
  .ofLayout "Registration" (.field "id" UInt32 <| .field "callback" ObjectRef .empty)
    (fun r => (r.id, r.callback, ())) fun (id, callback, _) => ⟨id, callback⟩

/-- A record with a value of any type, a sequence of records and a number. -/
structure Holder where
  extra : Dynamic
  points : List Point
  ratio : Binary64

instance : Typed Holder :=
  .ofLayout "Holder"
    (.field "extra" Dynamic <| .field "points" (List Point) <| .field "ratio" Binary64 .empty)
    (fun h => (h.extra, h.points, h.ratio, ())) fun (extra, points, ratio, _) =>
      ⟨extra, points, ratio⟩

/-! ## A tree -/

/-- A tree of numbers. -/
inductive Node where
  | mk (value : Int32) (children : List Node)

namespace Node

mutual
/-- The content of a tree. -/
def toPayload : Node → Payload
  | .mk value children => .struct [Typed.toPayload value, .sequence (toPayloads children)]
/-- The contents of a list of trees. -/
def toPayloads : List Node → List Payload
  | [] => []
  | n :: ns => n.toPayload :: toPayloads ns
end

mutual
/-- The tree with a given content. -/
def ofPayload : Payload → Except Fault Node
  | .struct [value, children] => do
    return .mk (← Typed.ofPayload value) (← ofSequence children)
  | other => do
    let _ ← other.fieldsOf "Node" 2
    other.mismatch "Node"
/-- The trees of a sequence payload. -/
def ofSequence : Payload → Except Fault (List Node)
  | .sequence elements => ofPayloads elements
  | other => other.mismatch "sequence"
/-- The trees with given contents. -/
def ofPayloads : List Payload → Except Fault (List Node)
  | [] => .ok []
  | p :: ps => do
    let n ← ofPayload p
    return n :: (← ofPayloads ps)
end

end Node

instance : Typed Node where
  desc := .struct "Node"
    [⟨"value", .scalar .long⟩, ⟨"children", .sequence (.recursive "Node") none⟩]
  toPayload := Node.toPayload
  ofPayload := Node.ofPayload

end ObjectBroker.Catalog
