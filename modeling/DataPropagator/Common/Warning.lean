import DataPropagator.Common.CString

/-!
# Warnings

`warning.c`: the record that travels through the tree and its constructor.  The
constructor may fail at each of its three allocations, and it undoes the ones before.
What it and its callers do to the heap is written down as a list of events, so that
properties of the heap are properties of that list.
-/

namespace DataPropagator

/-- `Warning`.  The type is any word a decoder may have cast to the enumeration, and
the value is the bit pattern of the `double`. -/
structure Warning where
  city : CString
  type : UInt32
  value : UInt64
  timestamp : UInt64
  destNode : CString
deriving DecidableEq, Repr

/-- The blocks of memory that decoding one `Warning` may allocate. -/
inductive Block where
  /-- The buffer of the decoder for the city. -/
  | city
  /-- The buffer of the decoder for the destination. -/
  | dest
  /-- The record. -/
  | warning
  /-- The city of the record. -/
  | warningCity
  /-- The destination of the record. -/
  | warningDest
deriving DecidableEq, Repr

/-- What is done to a block. -/
inductive HeapEvent where
  /-- It is allocated with a size. -/
  | malloc (block : Block) (size : Nat)
  /-- So many bytes are written from an offset on. -/
  | write (block : Block) (offset len : Nat)
  /-- It is freed. -/
  | free (block : Block)
deriving DecidableEq, Repr

/-- The size of a `Warning` in memory: two pointers, an enumeration padded to eight
bytes, a `double` and a time stamp. -/
def sizeofWarning : Nat := 40

/-- `warning_create` on the buffers of two strings.  `mem` says which allocations
succeed. -/
def warningCreate (mem : Block → Bool) (city : Bytes) (type : UInt32) (value timestamp : UInt64)
    (dest : Bytes) : Option Warning × List HeapEvent :=
  let city := strdup city
  let dest := strdup dest
  if !mem .warning then (none, [])
  else
    let log := [.malloc .warning sizeofWarning]
    if !mem .warningCity then (none, log ++ [.free .warning])
    else
      let log := log ++ [.malloc .warningCity (strlen city + 1),
        .write .warningCity 0 (strlen city + 1)]
      if !mem .warningDest then (none, log ++ [.free .warningCity, .free .warning])
      else
        let log := log ++ [.malloc .warningDest (strlen dest + 1),
          .write .warningDest 0 (strlen dest + 1)]
        (some { city, type, value, timestamp, destNode := dest }, log)

end DataPropagator
