import Minisqlite.Store.Export

/-!
# The arguments of the command line

`parse_hex` and `hex` of `main.rs`, and `parse_id`.
-/

namespace Minisqlite.Cli

/-- `CliError`. -/
inductive CliError
  | usage (message : String)
  | notFound (message : String)
  | findings (count : Nat)
  | op (message : String)
deriving DecidableEq

/-- `parse_id`. -/
def parseId (raw what : String) : Except CliError Id :=
  (Id.fromHex raw).mapError fun _ => .usage s!"invalid {what}: {raw}"

/-- `char::to_digit(16)`. -/
def toDigit (c : Char) : Option UInt32 :=
  if '0' ≤ c ∧ c ≤ '9' then some (c.val - 48)
  else if 'a' ≤ c ∧ c ≤ 'f' then some (c.val - 97 + 10)
  else if 'A' ≤ c ∧ c ≤ 'F' then some (c.val - 65 + 10)
  else none

/-- `b as char`. -/
def byteChar (b : UInt8) : Char := Char.ofNat b.toNat

/-- `chunks(2)`: the last one may be a single byte. -/
def chunks : Bytes → List Bytes
  | first :: second :: rest => [first, second] :: chunks rest
  | [last] => [[last]]
  | [] => []

/-- The byte of a pair, when both of its digits are there. -/
def ofPair (pair : Bytes) : Option UInt8 :=
  match pair.head?.bind fun b => toDigit (byteChar b),
      pair[1]?.bind fun b => toDigit (byteChar b) with
  | some hi, some lo => some ((hi.toUInt8 <<< 4) ||| lo.toUInt8)
  | _, _ => none

/-- `parse_hex`. -/
def parseHex (raw what : String) : Except CliError Bytes :=
  (chunks (utf8 raw)).mapM fun pair =>
    (ofPair pair).elim (.error (.usage s!"invalid {what} hex: {raw}")) .ok

/-- `hex`, the same as that of `ops.rs`. -/
def hex (bytes : Bytes) : String := Minisqlite.hex bytes

end Minisqlite.Cli
