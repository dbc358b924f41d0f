import ScriptMachine.Bytes.Basic
import ScriptMachine.Integer.Decimal
import ScriptMachine.Item.Kind
import ScriptMachine.OpCode

/-! # Faults

Why an operation of the machine fails. A `Fault` is a cause with its data; `Fault.kind` groups causes,
and `Fault.message` is the text under which a fault is reported.
-/

namespace ScriptMachine

/-- The groups of faults. -/
inductive FaultKind where
  /-- The machine is in no state for the operation. -/
  | invalidOperation
  /-- A stack holds too few items. -/
  | stackUnderflow
  /-- The stacks hold too many items together. -/
  | stackOverflow
  /-- Too many frames. -/
  | invocationStackOverflow
  /-- A size is over its limit. -/
  | itemTooLarge
  /-- A byte is no opcode, or an opcode has no behaviour. -/
  | invalidOpcode
  /-- Division by zero. -/
  | divisionByZero
  /-- A jump leaves its script. -/
  | invalidJump
  /-- An item is of the wrong kind. -/
  | invalidType
  /-- An operand is out of range. -/
  | invalidParameter
  /-- An operand lies past the end of its script. -/
  | scriptTruncated
  /-- The host refused. -/
  | hostCallback
  /-- The script asked for a fault. -/
  | throw
  deriving DecidableEq, Repr

namespace FaultKind

/-- The name of a group of faults. -/
def name : FaultKind → String
  | invalidOperation => "InvalidOperation"
  | stackUnderflow => "StackUnderflow"
  | stackOverflow => "StackOverflow"
  | invocationStackOverflow => "InvocationStackOverflow"
  | itemTooLarge => "ItemTooLarge"
  | invalidOpcode => "InvalidOpcode"
  | divisionByZero => "DivisionByZero"
  | invalidJump => "InvalidJump"
  | invalidType => "InvalidType"
  | invalidParameter => "InvalidParameter"
  | scriptTruncated => "ScriptTruncated"
  | hostCallback => "HostCallback"
  | throw => "Throw"

/-- The words that open every message of a group. -/
def heading : FaultKind → String
  | invalidOperation => "Invalid operation: "
  | stackUnderflow => "Stack underflow: "
  | stackOverflow => "Stack size limit exceeded: "
  | invocationStackOverflow => "Invocation stack size limit exceeded: "
  | itemTooLarge => "Item size exceeds limit: "
  | invalidOpcode => "Encountered invalid opcode: "
  | divisionByZero => "Tried to divide by zero: "
  | invalidJump => "Invalid jump offset: "
  | invalidType => "Type mismatch for operation: "
  | invalidParameter => "Invalid parameter for operation: "
  | scriptTruncated => "Unexpected end of script: "
  | hostCallback => "Host callback failed: "
  | throw => "Script raised a fault: "

end FaultKind

/-- The cause of a fault. -/
inductive Fault where
  /-- No frame is loaded. -/
  | noCurrentFrame
  /-- The current frame has no caller. -/
  | noCallingFrame
  /-- A frame declares a negative return count other than -1. -/
  | badReturnCount (count : Int)
  /-- A frame returns with the wrong number of items. -/
  | returnCountMismatch (expected found : Nat)
  /-- A tail call declares another return count than its frame. -/
  | tailReturnCount (current requested : Int)
  /-- A stack holds fewer items than needed. -/
  | underflow (needed found : Nat)
  /-- The stacks hold more items than allowed. -/
  | tooManyItems (count limit : Nat)
  /-- The call stack is full. -/
  | tooManyFrames (limit : Nat)
  /-- A size is over its limit. -/
  | tooLarge (size limit : Nat)
  /-- The byte is no opcode. -/
  | unassignedByte (byte : UInt8) (position : Nat)
  /-- The opcode was given no behaviour. -/
  | unhandledOpcode (op : OpCode) (position : Nat)
  /-- The quotient by zero of a number. -/
  | quotientByZero (dividend : Integer)
  /-- The remainder by zero of a number. -/
  | remainderByZero (dividend : Integer)
  /-- The cursor was set past the end of its script. -/
  | targetOutside (target length : Nat)
  /-- A relative jump leaves its script. -/
  | offsetOutside (offset : Int) (position : Nat)
  /-- Items of the kind have no integer value. -/
  | noIntegerValue (kind : ItemKind)
  /-- Items of the kind have no byte view. -/
  | noByteView (kind : ItemKind)
  /-- Items of the kind are no keys. -/
  | notAKey (kind : ItemKind)
  /-- Items of the kind are no collections. -/
  | notACollection (kind : ItemKind)
  /-- Only maps have keys. -/
  | keysOfNonMap (kind : ItemKind)
  /-- Handles of the host cannot be written in a script. -/
  | handleInScript
  /-- Items that contain themselves cannot be written in a script. -/
  | cycleInScript
  /-- The integer has more than 32 bits. -/
  | notInt32
  /-- The integer has more than 64 bits. -/
  | countNotInt64
  /-- A count or index is negative. -/
  | negative (what : String) (value : Int)
  /-- An index is not below the length. -/
  | indexOutOfRange (index : Int) (length : Nat)
  /-- An insertion index is above the length. -/
  | insertOutOfRange (index length : Nat)
  /-- A removal index is not below the length. -/
  | removeOutOfRange (index length : Nat)
  /-- A section starts past the end. -/
  | substrBeyond (index length : Nat)
  /-- More trailing bytes are asked for than there are. -/
  | rightBeyond (count length : Nat)
  /-- The index of a tuck is not positive. -/
  | tuckIndex (index : Int)
  /-- A packed array would be too long. -/
  | packSize (size depth limit : Nat)
  /-- The map has no such key. -/
  | keyNotFound
  /-- A shift amount is out of range. -/
  | shiftOutside (amount least greatest : Int)
  /-- A list of public keys is empty. -/
  | noPublicKeys
  /-- The number of public keys is out of range. -/
  | publicKeyCount (count : Int) (depth : Nat)
  /-- The number of signatures is out of range. -/
  | signatureCount (count : Int) (keys : Nat)
  /-- The cache has no such script. -/
  | noCachedScript (index : Nat)
  /-- A popped script hash has the wrong length. -/
  | scriptHashLength (length : Nat)
  /-- The opcode is no jump. -/
  | notAJump (op : OpCode)
  /-- A service name is empty or too long. -/
  | serviceNameLength (length : Nat)
  /-- Fewer bytes are left in the script than needed. -/
  | truncated (needed offset : Nat)
  /-- No script loader is set. -/
  | noLoader
  /-- No service handler is set. -/
  | noInterop (name : String)
  /-- No message provider is set. -/
  | noMessage
  /-- The loader refused the script. -/
  | notLoaded (hash : Bytes)
  /-- The loader did not push exactly one frame. -/
  | loadedFrames (hash : Bytes) (count : Int)
  /-- The service handler refused. -/
  | serviceFailed (name : String)
  /-- The script asked for a fault. -/
  | thrown (op : OpCode) (position : Nat)
  deriving DecidableEq, Repr

namespace Fault

/-- The group of a fault. -/
def kind : Fault → FaultKind
  | noCurrentFrame | noCallingFrame | badReturnCount .. | returnCountMismatch ..
  | tailReturnCount .. => .invalidOperation
  | underflow .. => .stackUnderflow
  | tooManyItems .. => .stackOverflow
  | tooManyFrames .. => .invocationStackOverflow
  | tooLarge .. => .itemTooLarge
  | unassignedByte .. | unhandledOpcode .. => .invalidOpcode
  | quotientByZero .. | remainderByZero .. => .divisionByZero
  | targetOutside .. | offsetOutside .. => .invalidJump
  | noIntegerValue .. | noByteView .. | notAKey .. | notACollection .. | keysOfNonMap ..
  | handleInScript | cycleInScript => .invalidType
  | notInt32 | countNotInt64 | negative .. | indexOutOfRange .. | insertOutOfRange ..
  | removeOutOfRange .. | substrBeyond .. | rightBeyond .. | tuckIndex .. | packSize ..
  | keyNotFound | shiftOutside .. | noPublicKeys | publicKeyCount .. | signatureCount ..
  | noCachedScript .. | scriptHashLength .. | notAJump .. | serviceNameLength .. =>
    .invalidParameter
  | truncated .. => .scriptTruncated
  | noLoader | noInterop .. | noMessage | notLoaded .. | loadedFrames .. | serviceFailed .. =>
    .hostCallback
  | thrown .. => .throw

/-- A byte as `0x` and two digits. -/
def byteText (byte : UInt8) : String := "0x" ++ Bytes.toHex #[byte]

/-- The words of a fault after the heading of its group. -/
def detail : Fault → String
  | noCurrentFrame => "No current context"
  | noCallingFrame => "No calling context"
  | badReturnCount count => s!"invalid rvcount {count}"
  | returnCountMismatch expected found => s!"expected {expected} return values, found {found}"
  | tailReturnCount current requested =>
    s!"tail call changes return count from {current} to {requested}"
  | underflow needed found => s!"needed {needed} items, found {found}"
  | tooManyItems count limit => s!"{count} > {limit}"
  | tooManyFrames limit => s!"depth {limit} reached"
  | tooLarge size limit => s!"{size} exceeds {limit}"
  | unassignedByte byte position => byteText byte ++ s!" at {position}"
  | unhandledOpcode op position => op.name ++ s!" at {position}"
  | quotientByZero dividend => dividend.toDecimal ++ " / 0"
  | remainderByZero dividend => dividend.toDecimal ++ " % 0"
  | targetOutside target length => s!"target {target} outside script of length {length}"
  | offsetOutside offset position => s!"offset {offset} from {position} leaves the script"
  | noIntegerValue kind => kind.name ++ " has no integer value"
  | noByteView kind => kind.name ++ " has no byte representation"
  | notAKey kind => kind.name ++ " cannot be used as a key"
  | notACollection kind => kind.name ++ " is not a collection"
  | keysOfNonMap kind => "KEYS expects a map, got " ++ kind.name
  | handleInScript => "interop handles cannot be pushed from a script"
  | cycleInScript => "cyclic items cannot be pushed from a script"
  | notInt32 => "integer does not fit in 32 bits"
  | countNotInt64 => "count does not fit in 64 bits"
  | negative what value => s!"{what} must not be negative: {value}"
  | indexOutOfRange index length => s!"index {index} out of range for {length}"
  | insertOutOfRange index length => s!"insert index {index} out of range for {length}"
  | removeOutOfRange index length => s!"remove index {index} out of range for {length}"
  | substrBeyond index length => s!"SUBSTR index {index} beyond length {length}"
  | rightBeyond count length => s!"RIGHT count {count} beyond length {length}"
  | tuckIndex index => s!"XTUCK index must be positive: {index}"
  | packSize size depth limit => s!"PACK size {size} exceeds depth {depth} or limit {limit}"
  | keyNotFound => "key not found in map"
  | shiftOutside amount least greatest => s!"shift {amount} outside [{least}, {greatest}]"
  | noPublicKeys => "no public keys"
  | publicKeyCount count depth => s!"public key count {count} outside [1, {depth}]"
  | signatureCount count keys => s!"signature count {count} outside [1, {keys}]"
  | noCachedScript index => s!"no cached script {index}"
  | scriptHashLength length => s!"script hash must be 20 bytes, got {length}"
  | notAJump op => op.name ++ " is not a jump"
  | serviceNameLength length => s!"syscall name length {length} outside [1, 252]"
  | truncated needed offset => s!"need {needed} bytes at offset {offset}"
  | noLoader => "no script loader registered"
  | noInterop name => "no interop handler for " ++ name
  | noMessage => "no message provider registered"
  | notLoaded hash => "script " ++ hash.toHex ++ " could not be loaded"
  | loadedFrames hash count => "loader for " ++ hash.toHex ++ s!" pushed {count} contexts"
  | serviceFailed name => "syscall " ++ name ++ " failed"
  | thrown op position => op.name ++ s!" at {position}"

/-- The text of a fault. -/
def message (f : Fault) : String := f.kind.heading ++ f.detail

end Fault

end ScriptMachine
