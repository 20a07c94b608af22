import FlowAdmission.Text.Quoted

/-!
# Internet addresses and their text

An address of four bytes is written in dotted decimal. An address of eight groups is written in
hexadecimal with colons; the first of the longest runs of at least two zero groups shrinks to two
colons. Addresses that embed a four byte address keep its dotted form at the end.
-/
namespace FlowAdmission

inductive Address where
  | v4 (a b c d : UInt8)
  | v6 (groups : Vector UInt16 8)
  deriving DecidableEq

namespace Address

/-- Reads four bytes, or sixteen with the high byte of each group first. -/
def ofBytes? (bytes : List UInt8) : Option Address :=
  match bytes with
  | [a, b, c, d] => some (.v4 a b c d)
  | _ =>
    if h : bytes.length = 16 then
      some (.v6 (.ofFn fun i : Fin 8 =>
        bytes[2 * i.val].toUInt16 <<< 8 ||| bytes[2 * i.val + 1].toUInt16))
    else none

def dotted (a b c d : UInt8) : List Char :=
  (".".intercalate ([a, b, c, d].map fun byte => toString byte.toNat)).toList

/-- Groups in hexadecimal between colons. -/
def colonHex (groups : List UInt16) : List Char :=
  (":".intercalate (groups.map fun g => String.ofList (Text.hexDigits g.toNat))).toList

/-- Zero groups at the front. -/
def leadingZeros (groups : List UInt16) : Nat := (groups.takeWhile (· == 0)).length

/-- Start and length of the first longest run of zero groups. -/
def longestZeroRun (groups : List UInt16) : Nat × Nat :=
  (List.range groups.length).foldl
    (fun best start =>
      let length := leadingZeros (groups.drop start)
      if best.2 < length then (start, length) else best)
    (0, 0)

/-- The four bytes that end an address of the form `::ffff:a.b.c.d`. -/
def embedded? (groups : List UInt16) : Option (UInt8 × UInt8 × UInt8 × UInt8) :=
  match groups with
  | [0, 0, 0, 0, 0, 0xffff, high, low] =>
    some ((high >>> 8).toUInt8, high.toUInt8, (low >>> 8).toUInt8, low.toUInt8)
  | _ => none

def groupsText (groups : List UInt16) : List Char :=
  match embedded? groups with
  | some (a, b, c, d) => "::ffff:".toList ++ dotted a b c d
  | none =>
    let (start, length) := longestZeroRun groups
    if 1 < length then
      colonHex (groups.take start) ++ [':', ':'] ++ colonHex (groups.drop (start + length))
    else colonHex groups

def text : Address → List Char
  | .v4 a b c d => dotted a b c d
  | .v6 groups => groupsText groups.toList

end Address
end FlowAdmission
