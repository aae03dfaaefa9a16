/-!
# Sinks

A sink stores the bytes that are written to it, up to a limit.  A write stores
as many bytes as there is room for, which may cut a text inside a character; it
fails when bytes are left over.  Writing nothing never fails.
-/

namespace CoolTree

inductive Refusal where
  /-- The sink reports that it is full. -/
  | full
  /-- The sink accepts no byte and reports nothing. -/
  | stalled
deriving DecidableEq, Inhabited

def Refusal.message : Refusal → String
  | full => "sink is full"
  | stalled => "failed to write whole buffer"

structure Sink where
  stored : ByteArray
  /-- The number of bytes that may be stored in all, if it is limited. -/
  limit? : Option Nat
  refusal : Refusal

namespace Sink

def unlimited : Sink :=
  ⟨ByteArray.empty, none, .full⟩

/-- The number of bytes that can still be stored, if it is limited.  A limit
below what is stored already leaves no room. -/
def room? (sink : Sink) : Option Nat :=
  sink.limit?.map fun limit => limit - sink.stored.size

/-- The sink with another limit.  What is stored already stays. -/
def limitTo (limit? : Option Nat) (sink : Sink) : Sink :=
  { sink with limit? }

/-- Writes bytes as far as there is room for them. -/
def write (bytes : ByteArray) : EStateM Refusal Sink Unit := fun sink =>
  match sink.room? with
  | none => .ok () { sink with stored := sink.stored ++ bytes }
  | some room =>
      if bytes.size ≤ room then
        .ok () { sink with stored := sink.stored ++ bytes }
      else
        .error sink.refusal { sink with stored := sink.stored ++ bytes.extract 0 room }

def writeText (text : String) : EStateM Refusal Sink Unit :=
  write text.toUTF8

end Sink

end CoolTree
