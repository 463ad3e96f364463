import RegMap.Text.Numeral

set_option autoImplicit false

namespace RegMap.MemoryImage

open Text

structure Record where
  address : UInt16
  recordType : UInt8
  data : List UInt8
  deriving DecidableEq, Repr

structure MemWord where
  address : Nat
  value : UInt8
  deriving DecidableEq, Repr

def MemWord.wire (w : MemWord) : List Char :=
  '@' :: hexPair w.address ++ ' ' :: hexPair w.value.toNat

/-- Consecutive words from an address on; the address does not wrap. -/
def wordsFrom (address : Nat) : List UInt8 → List MemWord
  | [] => []
  | value :: rest => ⟨address, value⟩ :: wordsFrom (address + 1) rest

namespace Record

def words (r : Record) : List MemWord := wordsFrom r.address.toNat r.data

/-- A number of bytes, two digits each, and the text behind them. -/
def readBytes? : Nat → List Char → Option (List UInt8 × List Char)
  | 0, s => some ([], s)
  | n + 1, high :: low :: s => do
    let h ← digitValue? high
    let l ← digitValue? low
    let more ← readBytes? n s
    return (UInt8.ofNat (16 * h + l) :: more.1, more.2)
  | _ + 1, _ => none

/-- A record `:LLAAAATT` with `LL` bytes of data; what follows them is not looked at. -/
def read? : List Char → Option Record
  | ':' :: s => do
    match ← readBytes? 4 s with
    | ([length, high, low, recordType], behind) =>
      let data ← readBytes? length.toNat behind
      return ⟨UInt16.ofNat (256 * high.toNat + low.toNat), recordType, data.1⟩
    | _ => none
  | _ => none

end Record

end RegMap.MemoryImage
