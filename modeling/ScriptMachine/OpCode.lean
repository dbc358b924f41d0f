/-! # Opcodes

The instruction set: 184 opcodes, each one a byte. The other 72 bytes are invalid.

* `OpCode.toByte`, `OpCode.ofByte?`: the byte of an opcode and back.
* `OpCode.name`: the mnemonic.
* `Instruction`: an opcode with the script offset it was fetched from.
-/

namespace ScriptMachine

/-- An opcode of the machine. -/
inductive OpCode where
  /-- Pushes an empty byte string. -/
  | push0
  /-- Pushes the next `index + 1` bytes of the script. -/
  | pushBytes (index : Fin 75)
  /-- Pushes data whose length is in the next byte. -/
  | pushData1
  /-- Pushes data whose length is in the next two bytes. -/
  | pushData2
  /-- Pushes data whose length is in the next four bytes. -/
  | pushData4
  /-- Pushes -1. -/
  | pushM1
  /-- Pushes the number `index + 1`. -/
  | push (index : Fin 16)
  /-- Does nothing. -/
  | nop
  /-- Jumps by a signed offset. -/
  | jmp
  /-- Jumps if the popped item is true. -/
  | jmpIf
  /-- Jumps if the popped item is false. -/
  | jmpIfNot
  /-- Calls a routine of the same script with the whole stack. -/
  | call
  /-- Returns from the current frame. -/
  | ret
  /-- Calls a script by its hash. -/
  | appCall
  /-- Asks the host for a service by name. -/
  | sysCall
  /-- Calls a script by its hash in place of the current frame. -/
  | tailCall
  /-- Copies the top of the alternative stack. -/
  | dupFromAltStack
  /-- Moves an item to the alternative stack. -/
  | toAltStack
  /-- Moves an item back from the alternative stack. -/
  | fromAltStack
  /-- Removes the item at a popped index. -/
  | xdrop
  /-- Swaps the top with the item at a popped index. -/
  | xswap
  /-- Copies the top below as many items as popped. -/
  | xtuck
  /-- Pushes the number of items. -/
  | depth
  /-- Removes the top item. -/
  | drop
  /-- Copies the top item. -/
  | dup
  /-- Removes the second item. -/
  | nip
  /-- Copies the second item. -/
  | over
  /-- Copies the item at a popped index. -/
  | pick
  /-- Moves the item at a popped index to the top. -/
  | roll
  /-- Moves the third item to the top. -/
  | rot
  /-- Swaps the two top items. -/
  | swap
  /-- Copies the top below the second item. -/
  | tuck
  /-- Concatenates two byte strings. -/
  | cat
  /-- Takes a section of a byte string. -/
  | substr
  /-- Takes leading bytes. -/
  | left
  /-- Takes trailing bytes. -/
  | right
  /-- Pushes the size of an item. -/
  | size
  /-- Bitwise complement. -/
  | invert
  /-- Bitwise conjunction. -/
  | and
  /-- Bitwise disjunction. -/
  | or
  /-- Bitwise exclusive disjunction. -/
  | xor
  /-- Compares two items. -/
  | equal
  /-- Adds one. -/
  | inc
  /-- Subtracts one. -/
  | dec
  /-- Pushes the sign. -/
  | sign
  /-- Negates. -/
  | negate
  /-- Takes the absolute value. -/
  | abs
  /-- Logical negation. -/
  | not
  /-- Whether a number is not zero. -/
  | nz
  /-- Sum. -/
  | add
  /-- Difference. -/
  | sub
  /-- Product. -/
  | mul
  /-- Truncated quotient. -/
  | div
  /-- Remainder. -/
  | mod
  /-- Shifts left. -/
  | shl
  /-- Shifts right. -/
  | shr
  /-- Logical conjunction. -/
  | boolAnd
  /-- Logical disjunction. -/
  | boolOr
  /-- Numeric equality. -/
  | numEqual
  /-- Numeric inequality. -/
  | numNotEqual
  /-- Less than. -/
  | lt
  /-- Greater than. -/
  | gt
  /-- At most. -/
  | lte
  /-- At least. -/
  | gte
  /-- The smaller number. -/
  | min
  /-- The larger number. -/
  | max
  /-- Whether a number lies in a half-open range. -/
  | within
  /-- SHA-1 digest. -/
  | sha1
  /-- SHA-256 digest. -/
  | sha256
  /-- RIPEMD-160 of SHA-256. -/
  | hash160
  /-- Double SHA-256. -/
  | hash256
  /-- Checks a signature of the host message. -/
  | checkSig
  /-- Checks a signature of a given message. -/
  | verify
  /-- Checks several signatures of the host message. -/
  | checkMultiSig
  /-- Pushes the number of elements. -/
  | arraySize
  /-- Builds an array from the stack. -/
  | pack
  /-- Spreads a list on the stack. -/
  | unpack
  /-- Reads an element. -/
  | pickItem
  /-- Writes an element. -/
  | setItem
  /-- Creates an array. -/
  | newArray
  /-- Creates a struct. -/
  | newStruct
  /-- Creates a map. -/
  | newMap
  /-- Appends to a list. -/
  | append
  /-- Reverses a list. -/
  | reverse
  /-- Removes an element. -/
  | remove
  /-- Whether an element exists. -/
  | hasKey
  /-- The keys of a map. -/
  | keys
  /-- The values of a container. -/
  | values
  /-- Calls a routine of the same script with its own stack. -/
  | callI
  /-- Calls a script by its hash with its own stack. -/
  | callE
  /-- Calls a script by a popped hash with its own stack. -/
  | callED
  /-- Tail form of `callE`. -/
  | callET
  /-- Tail form of `callED`. -/
  | callEDT
  /-- Faults. -/
  | throw
  /-- Faults if the popped item is false. -/
  | throwIfNot
  deriving DecidableEq, Repr

namespace OpCode

/-- The byte of an opcode. -/
def toByte : OpCode → UInt8
  | .push0 => 0x00
  | .pushBytes index => UInt8.ofNat (index.val + 1)
  | .pushData1 => 0x4C
  | .pushData2 => 0x4D
  | .pushData4 => 0x4E
  | .pushM1 => 0x4F
  | .push index => 0x51 + UInt8.ofNat index.val
  | .nop => 0x61
  | .jmp => 0x62
  | .jmpIf => 0x63
  | .jmpIfNot => 0x64
  | .call => 0x65
  | .ret => 0x66
  | .appCall => 0x67
  | .sysCall => 0x68
  | .tailCall => 0x69
  | .dupFromAltStack => 0x6A
  | .toAltStack => 0x6B
  | .fromAltStack => 0x6C
  | .xdrop => 0x6D
  | .xswap => 0x72
  | .xtuck => 0x73
  | .depth => 0x74
  | .drop => 0x75
  | .dup => 0x76
  | .nip => 0x77
  | .over => 0x78
  | .pick => 0x79
  | .roll => 0x7A
  | .rot => 0x7B
  | .swap => 0x7C
  | .tuck => 0x7D
  | .cat => 0x7E
  | .substr => 0x7F
  | .left => 0x80
  | .right => 0x81
  | .size => 0x82
  | .invert => 0x83
  | .and => 0x84
  | .or => 0x85
  | .xor => 0x86
  | .equal => 0x87
  | .inc => 0x8B
  | .dec => 0x8C
  | .sign => 0x8D
  | .negate => 0x8F
  | .abs => 0x90
  | .not => 0x91
  | .nz => 0x92
  | .add => 0x93
  | .sub => 0x94
  | .mul => 0x95
  | .div => 0x96
  | .mod => 0x97
  | .shl => 0x98
  | .shr => 0x99
  | .boolAnd => 0x9A
  | .boolOr => 0x9B
  | .numEqual => 0x9C
  | .numNotEqual => 0x9E
  | .lt => 0x9F
  | .gt => 0xA0
  | .lte => 0xA1
  | .gte => 0xA2
  | .min => 0xA3
  | .max => 0xA4
  | .within => 0xA5
  | .sha1 => 0xA7
  | .sha256 => 0xA8
  | .hash160 => 0xA9
  | .hash256 => 0xAA
  | .checkSig => 0xAC
  | .verify => 0xAD
  | .checkMultiSig => 0xAE
  | .arraySize => 0xC0
  | .pack => 0xC1
  | .unpack => 0xC2
  | .pickItem => 0xC3
  | .setItem => 0xC4
  | .newArray => 0xC5
  | .newStruct => 0xC6
  | .newMap => 0xC7
  | .append => 0xC8
  | .reverse => 0xC9
  | .remove => 0xCA
  | .hasKey => 0xCB
  | .keys => 0xCC
  | .values => 0xCD
  | .callI => 0xE0
  | .callE => 0xE1
  | .callED => 0xE2
  | .callET => 0xE3
  | .callEDT => 0xE4
  | .throw => 0xF0
  | .throwIfNot => 0xF1

/-- The opcode of a byte from `0x61` on. -/
def ofHighByte? : UInt8 → Option OpCode
  | 0x61 => some .nop
  | 0x62 => some .jmp
  | 0x63 => some .jmpIf
  | 0x64 => some .jmpIfNot
  | 0x65 => some .call
  | 0x66 => some .ret
  | 0x67 => some .appCall
  | 0x68 => some .sysCall
  | 0x69 => some .tailCall
  | 0x6A => some .dupFromAltStack
  | 0x6B => some .toAltStack
  | 0x6C => some .fromAltStack
  | 0x6D => some .xdrop
  | 0x72 => some .xswap
  | 0x73 => some .xtuck
  | 0x74 => some .depth
  | 0x75 => some .drop
  | 0x76 => some .dup
  | 0x77 => some .nip
  | 0x78 => some .over
  | 0x79 => some .pick
  | 0x7A => some .roll
  | 0x7B => some .rot
  | 0x7C => some .swap
  | 0x7D => some .tuck
  | 0x7E => some .cat
  | 0x7F => some .substr
  | 0x80 => some .left
  | 0x81 => some .right
  | 0x82 => some .size
  | 0x83 => some .invert
  | 0x84 => some .and
  | 0x85 => some .or
  | 0x86 => some .xor
  | 0x87 => some .equal
  | 0x8B => some .inc
  | 0x8C => some .dec
  | 0x8D => some .sign
  | 0x8F => some .negate
  | 0x90 => some .abs
  | 0x91 => some .not
  | 0x92 => some .nz
  | 0x93 => some .add
  | 0x94 => some .sub
  | 0x95 => some .mul
  | 0x96 => some .div
  | 0x97 => some .mod
  | 0x98 => some .shl
  | 0x99 => some .shr
  | 0x9A => some .boolAnd
  | 0x9B => some .boolOr
  | 0x9C => some .numEqual
  | 0x9E => some .numNotEqual
  | 0x9F => some .lt
  | 0xA0 => some .gt
  | 0xA1 => some .lte
  | 0xA2 => some .gte
  | 0xA3 => some .min
  | 0xA4 => some .max
  | 0xA5 => some .within
  | 0xA7 => some .sha1
  | 0xA8 => some .sha256
  | 0xA9 => some .hash160
  | 0xAA => some .hash256
  | 0xAC => some .checkSig
  | 0xAD => some .verify
  | 0xAE => some .checkMultiSig
  | 0xC0 => some .arraySize
  | 0xC1 => some .pack
  | 0xC2 => some .unpack
  | 0xC3 => some .pickItem
  | 0xC4 => some .setItem
  | 0xC5 => some .newArray
  | 0xC6 => some .newStruct
  | 0xC7 => some .newMap
  | 0xC8 => some .append
  | 0xC9 => some .reverse
  | 0xCA => some .remove
  | 0xCB => some .hasKey
  | 0xCC => some .keys
  | 0xCD => some .values
  | 0xE0 => some .callI
  | 0xE1 => some .callE
  | 0xE2 => some .callED
  | 0xE3 => some .callET
  | 0xE4 => some .callEDT
  | 0xF0 => some .throw
  | 0xF1 => some .throwIfNot
  | _ => none

/-- The opcode of a byte, if the byte is valid. -/
def ofByte? (byte : UInt8) : Option OpCode :=
  let n := byte.toNat
  if n == 0x00 then some .push0
  else if h : 1 ≤ n ∧ n ≤ 75 then some (.pushBytes ⟨n - 1, by omega⟩)
  else if n == 0x4C then some .pushData1
  else if n == 0x4D then some .pushData2
  else if n == 0x4E then some .pushData4
  else if n == 0x4F then some .pushM1
  else if h : 0x51 ≤ n ∧ n ≤ 0x60 then some (.push ⟨n - 0x51, by omega⟩)
  else ofHighByte? byte

/-- The mnemonic of an opcode. -/
def name : OpCode → String
  | .push0 => "PUSH0"
  | .pushBytes index => "PUSHBYTES" ++ toString (index.val + 1)
  | .pushData1 => "PUSHDATA1"
  | .pushData2 => "PUSHDATA2"
  | .pushData4 => "PUSHDATA4"
  | .pushM1 => "PUSHM1"
  | .push index => "PUSH" ++ toString (index.val + 1)
  | .nop => "NOP"
  | .jmp => "JMP"
  | .jmpIf => "JMPIF"
  | .jmpIfNot => "JMPIFNOT"
  | .call => "CALL"
  | .ret => "RET"
  | .appCall => "APPCALL"
  | .sysCall => "SYSCALL"
  | .tailCall => "TAILCALL"
  | .dupFromAltStack => "DUPFROMALTSTACK"
  | .toAltStack => "TOALTSTACK"
  | .fromAltStack => "FROMALTSTACK"
  | .xdrop => "XDROP"
  | .xswap => "XSWAP"
  | .xtuck => "XTUCK"
  | .depth => "DEPTH"
  | .drop => "DROP"
  | .dup => "DUP"
  | .nip => "NIP"
  | .over => "OVER"
  | .pick => "PICK"
  | .roll => "ROLL"
  | .rot => "ROT"
  | .swap => "SWAP"
  | .tuck => "TUCK"
  | .cat => "CAT"
  | .substr => "SUBSTR"
  | .left => "LEFT"
  | .right => "RIGHT"
  | .size => "SIZE"
  | .invert => "INVERT"
  | .and => "AND"
  | .or => "OR"
  | .xor => "XOR"
  | .equal => "EQUAL"
  | .inc => "INC"
  | .dec => "DEC"
  | .sign => "SIGN"
  | .negate => "NEGATE"
  | .abs => "ABS"
  | .not => "NOT"
  | .nz => "NZ"
  | .add => "ADD"
  | .sub => "SUB"
  | .mul => "MUL"
  | .div => "DIV"
  | .mod => "MOD"
  | .shl => "SHL"
  | .shr => "SHR"
  | .boolAnd => "BOOLAND"
  | .boolOr => "BOOLOR"
  | .numEqual => "NUMEQUAL"
  | .numNotEqual => "NUMNOTEQUAL"
  | .lt => "LT"
  | .gt => "GT"
  | .lte => "LTE"
  | .gte => "GTE"
  | .min => "MIN"
  | .max => "MAX"
  | .within => "WITHIN"
  | .sha1 => "SHA1"
  | .sha256 => "SHA256"
  | .hash160 => "HASH160"
  | .hash256 => "HASH256"
  | .checkSig => "CHECKSIG"
  | .verify => "VERIFY"
  | .checkMultiSig => "CHECKMULTISIG"
  | .arraySize => "ARRAYSIZE"
  | .pack => "PACK"
  | .unpack => "UNPACK"
  | .pickItem => "PICKITEM"
  | .setItem => "SETITEM"
  | .newArray => "NEWARRAY"
  | .newStruct => "NEWSTRUCT"
  | .newMap => "NEWMAP"
  | .append => "APPEND"
  | .reverse => "REVERSE"
  | .remove => "REMOVE"
  | .hasKey => "HASKEY"
  | .keys => "KEYS"
  | .values => "VALUES"
  | .callI => "CALL_I"
  | .callE => "CALL_E"
  | .callED => "CALL_ED"
  | .callET => "CALL_ET"
  | .callEDT => "CALL_EDT"
  | .throw => "THROW"
  | .throwIfNot => "THROWIFNOT"

/-- Whether the opcode only pushes a constant. -/
def isPush (op : OpCode) : Bool := op.toByte ≤ 0x60

/-- All opcodes, in the order of their bytes. -/
def all : List OpCode := (List.range 256).filterMap fun n => ofByte? (UInt8.ofNat n)

end OpCode

/-- An opcode together with the script offset it was fetched from. Jump offsets count from there. -/
structure Instruction where
  /-- The opcode. -/
  op : OpCode
  /-- The offset of the opcode in its script. -/
  position : Nat
  deriving DecidableEq, Repr

end ScriptMachine
