import ImportBlock.Text.Quoted

namespace ImportBlock.Text.Utf8

/-! Reading text from its UTF-8 form. A fault names the bytes that are at fault: the longest
start of a well-formed sequence, or the one byte that starts none. -/

inductive Reason
  | startByte
  | continuationByte
  | endOfData
deriving DecidableEq, Repr

structure Fault where
  /-- The first byte at fault. -/
  byte : UInt8
  offset : Nat
  /-- How many bytes are at fault, at least one. -/
  count : Nat
  reason : Reason
deriving DecidableEq, Repr

def Reason.message : Reason → String
  | .startByte => "invalid start byte"
  | .continuationByte => "invalid continuation byte"
  | .endOfData => "unexpected end of data"

def Fault.message (fault : Fault) : String :=
  let place :=
    if fault.count = 1 then
      "byte 0x" ++ String.ofList (hexDigits 2 fault.byte.toNat) ++ " in position " ++
        toString fault.offset
    else
      "bytes in position " ++ toString fault.offset ++ "-" ++
        toString (fault.offset + fault.count - 1)
  "'utf-8' codec can't decode " ++ place ++ ": " ++ fault.reason.message

/-- The continuation bytes that a start byte calls for: the range of the first of them, how many
follow that one, and the bits that the start byte gives to the code point. -/
def expected (start : Nat) : Option (Nat × Nat × Nat × Nat) :=
  if 0xC2 ≤ start && start ≤ 0xDF then some (0x80, 0xBF, 0, start - 0xC0)
  else if start == 0xE0 then some (0xA0, 0xBF, 1, 0)
  else if start == 0xED then some (0x80, 0x9F, 1, 0x0D)
  else if 0xE1 ≤ start && start ≤ 0xEF then some (0x80, 0xBF, 1, start - 0xE0)
  else if start == 0xF0 then some (0x90, 0xBF, 2, 0)
  else if start == 0xF4 then some (0x80, 0x8F, 2, 4)
  else if 0xF1 ≤ start && start ≤ 0xF3 then some (0x80, 0xBF, 2, start - 0xF0)
  else none

/-- Takes the bytes of one sequence after its start byte. The answer is the code point, or the
reason that the sequence breaks off and how many bytes of it were well formed. -/
def sequence (low high more code taken : Nat) : List UInt8 → Except (Reason × Nat) Nat
  | [] => .error (.endOfData, taken)
  | byte :: rest =>
      if low ≤ byte.toNat && byte.toNat ≤ high then
        match more with
        | 0 => .ok (code * 64 + (byte.toNat - 0x80))
        | more + 1 =>
            sequence 0x80 0xBF more (code * 64 + (byte.toNat - 0x80)) (taken + 1) rest
      else .error (.continuationByte, taken)

/-- Reads bytes, the first `skip` of which belong to a sequence already read. -/
def decodeFrom (offset skip : Nat) : List UInt8 → Except Fault (List Char)
  | [] => .ok []
  | byte :: rest =>
      match skip with
      | skip + 1 => decodeFrom (offset + 1) skip rest
      | 0 =>
          if byte < 0x80 then do
            return Char.ofNat byte.toNat :: (← decodeFrom (offset + 1) 0 rest)
          else
            match expected byte.toNat with
            | none => .error ⟨byte, offset, 1, .startByte⟩
            | some (low, high, more, code) =>
                match sequence low high more code 1 rest with
                | .error (reason, count) => .error ⟨byte, offset, count, reason⟩
                | .ok code => do
                    return Char.ofNat code :: (← decodeFrom (offset + 1) (more + 1) rest)

def decode (bytes : List UInt8) : Except Fault (List Char) := decodeFrom 0 0 bytes

def encode (text : List Char) : List UInt8 := (String.ofList text).toUTF8.toList

example : decode [0xC3, 0xA9] = .ok ['é'] := by cbv
example : decode [0x61, 0xE2, 0x82] = .error ⟨0xE2, 1, 2, .endOfData⟩ := by cbv
example : decode [0xE0, 0x80] = .error ⟨0xE0, 0, 1, .continuationByte⟩ := by cbv

end ImportBlock.Text.Utf8
