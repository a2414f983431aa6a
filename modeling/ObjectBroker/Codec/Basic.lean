import ObjectBroker.Configuration
import ObjectBroker.Reference

/-!
# `ObjectBroker.Codec.Basic` — how one connection's values are written and read

A codec carries the encoding parameters, the nesting limit and the treatment of `typedef` names. A
codec that is bound to a connection binds every reference it reads to that connection.
-/

namespace ObjectBroker

/-- The parameters under which values are written and read. -/
structure Codec where
  settings : Settings := {}
  maxDepth : Nat := defaultMaxDepth
  aliases : AliasPolicy := .preserve
  binding : Option ConnectionId := none
deriving DecidableEq

namespace Codec

/-- The codec of a configuration, bound to no connection. -/
def ofConfiguration (c : Configuration) : Codec :=
  ⟨c.settings, c.maxDepth, c.aliases, none⟩

/-- The same codec, bound to a connection. -/
def boundTo (c : Codec) (id : ConnectionId) : Codec := { c with binding := some id }

@[simp] theorem settings_boundTo (c : Codec) (id : ConnectionId) :
    (c.boundTo id).settings = c.settings := rfl

@[simp] theorem maxDepth_boundTo (c : Codec) (id : ConnectionId) :
    (c.boundTo id).maxDepth = c.maxDepth := rfl

end Codec

end ObjectBroker
