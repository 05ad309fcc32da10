/-!
# Universally unique identifiers

128 bits, written as groups of hexadecimal digits.
-/

namespace LiveSettings

/-- An identifier of 128 bits. -/
structure Uuid where
  bits : Fin (Nat.pow 2 128)
  deriving DecidableEq, Repr

namespace Uuid

instance : Inhabited Uuid := ⟨⟨0⟩⟩

/-- The 32 hexadecimal digits. -/
def digits (u : Uuid) : List Char :=
  let ds := Nat.toDigits 16 u.bits.val
  List.replicate (32 - ds.length) '0' ++ ds

/-- Five groups in lower case. -/
def text (u : Uuid) : String :=
  let ds := u.digits
  let group (start size : Nat) : List Char := (ds.drop start).take size
  String.ofList
    (group 0 8 ++ '-' :: group 8 4 ++ '-' :: group 12 4 ++ '-' :: group 16 4 ++ '-' :: group 20 12)

def hexValue? (c : Char) : Option Nat :=
  if c.isDigit then some (c.toNat - '0'.toNat)
  else if 'a' ≤ c && c ≤ 'f' then some (c.toNat - 'a'.toNat + 10)
  else if 'A' ≤ c && c ≤ 'F' then some (c.toNat - 'A'.toNat + 10)
  else none

/-- The number that hexadecimal digits spell. -/
def hexNumber? (n : Nat) : List Char → Option Nat
  | [] => some n
  | c :: cs => (hexValue? c).bind fun d => hexNumber? (n * 16 + d) cs

/-- 32 hexadecimal digits. -/
def ofDigits? (cs : List Char) : Option Uuid :=
  if cs.length == 32 then
    (hexNumber? 0 cs).bind fun n => if h : n < Nat.pow 2 128 then some ⟨⟨n, h⟩⟩ else none
  else none

/-- Five groups of digits between hyphens. -/
def ofGroups? (cs : List Char) : Option Uuid :=
  let isHyphen (i : Nat) : Bool := cs[i]? == some '-'
  if cs.length == 36 && isHyphen 8 && isHyphen 13 && isHyphen 18 && isHyphen 23 then
    ofDigits? (cs.filter (· != '-'))
  else none

/-- Reads digits alone, or groups that may stand in braces or behind a prefix, which may be in capitals. -/
def ofText? (s : String) : Option Uuid :=
  let cs := s.toList
  match cs with
  | '\x7b' :: rest => if rest.getLast? == some '\x7d' then ofGroups? rest.dropLast else none
  | _ =>
    if (cs.take 9).map Char.toLower == "urn:uuid:".toList then ofGroups? (cs.drop 9)
    else if cs.length == 32 then ofDigits? cs
    else ofGroups? cs

end Uuid

end LiveSettings
