import ObjectBroker.Fault

/-!
# `ObjectBroker.Configuration` — the options of a broker

A configuration fixes the encoding parameters of every connection, how deep a value may nest and
whether type names given by `typedef` survive on the wire. The only illegal choice is a nesting
limit of zero, under which no value at all could be written.
-/

namespace ObjectBroker

/-- What becomes of a `typedef` name when its type travels. -/
inductive AliasPolicy where
  /-- The name is written with the type. -/
  | preserve
  /-- The type is written as what the name stands for. -/
  | collapse
deriving DecidableEq

/-- Nesting limit of a codec for which none was chosen. -/
def defaultMaxDepth : Nat := 128

/-- The options of a broker and of the codecs it creates. -/
structure Configuration where
  settings : Settings := {}
  maxDepth : Nat := defaultMaxDepth
  aliases : AliasPolicy := .preserve
deriving DecidableEq

/-- Accepts every configuration that allows at least one nesting level. -/
def Configuration.build (c : Configuration) : Except Fault Configuration :=
  if c.maxDepth = 0 then .error (.preconditionNotMet .zeroDepth) else .ok c

end ObjectBroker
