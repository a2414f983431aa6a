/-!
# `ObjectBroker.Reference` — names of remote objects

An object reference pairs an interface with an opaque key. A reference received over a connection
is bound to that connection; one handed out locally is bound to none. The reference with an empty
interface and an empty key is nil: it designates no object.
-/

namespace ObjectBroker

/-- Identity of a duplex connection. -/
structure ConnectionId where
  value : UInt64
deriving DecidableEq

/-- Spelling of a connection identity in a report. -/
def ConnectionId.text (id : ConnectionId) : String :=
  s!"connection#{id.value.toNat}"

/-- Typed reference to a remote object, possibly bound to a connection. -/
structure ObjectRef where
  interface : String
  key : List UInt8
  connection : Option ConnectionId := none
deriving DecidableEq

namespace ObjectRef

/-- The reference that designates no object. -/
def nil : ObjectRef := ⟨"", [], none⟩

/-- Whether the reference designates no object, whatever it is bound to. -/
def isNil (r : ObjectRef) : Bool :=
  r.interface.isEmpty && r.key.isEmpty

/-- A copy bound to `id`. -/
def reboundTo (r : ObjectRef) (id : ConnectionId) : ObjectRef :=
  { r with connection := some id }

@[simp] theorem isNil_nil : nil.isNil = true := rfl

@[simp] theorem isNil_reboundTo (r : ObjectRef) (id : ConnectionId) :
    (r.reboundTo id).isNil = r.isNil := rfl

@[simp] theorem connection_reboundTo (r : ObjectRef) (id : ConnectionId) :
    (r.reboundTo id).connection = some id := rfl

end ObjectRef

end ObjectBroker
