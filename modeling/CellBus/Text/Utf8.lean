/-!
# Decoding UTF-8

The decoder reads one byte at a time.  `scalars` splits a byte string into
well-formed scalar values and maximal ill-formed parts: an ill-formed part is the
longest beginning of some well-formed sequence that cannot go on, or a single
byte that begins none.  Strict decoding refuses a text with an ill-formed part;
lossy decoding puts one replacement character in place of each.
-/

namespace CellBus.Text

/-- Where the decoder stands between two bytes. -/
inductive Utf8State where
  /-- Between two sequences. -/
  | between
  /-- Inside a sequence: `missing` more bytes are due, the next of which lies
  between `low` and `high`; `code` holds the bits read so far. -/
  | inside (missing : Nat) (low high : UInt8) (code : Nat)
  deriving DecidableEq, Repr

/-- The state after the first byte of a sequence of several, if `lead` is one.
The bounds on the second byte exclude overlong forms, surrogates and codes
beyond the last scalar value. -/
def Utf8State.ofLead? (lead : UInt8) : Option Utf8State :=
  let code := lead.toNat
  if 0xC2 ≤ code && code ≤ 0xDF then some (.inside 1 0x80 0xBF (code - 0xC0))
  else if code = 0xE0 then some (.inside 2 0xA0 0xBF 0)
  else if code = 0xED then some (.inside 2 0x80 0x9F 0xD)
  else if 0xE1 ≤ code && code ≤ 0xEF then some (.inside 2 0x80 0xBF (code - 0xE0))
  else if code = 0xF0 then some (.inside 3 0x90 0xBF 0)
  else if 0xF1 ≤ code && code ≤ 0xF3 then some (.inside 3 0x80 0xBF (code - 0xF0))
  else if code = 0xF4 then some (.inside 3 0x80 0x8F 4)
  else none

/-- What a byte at the start of a sequence completes, and the state after it. -/
def beginSequence (byte : UInt8) : List (Option Char) × Utf8State :=
  if byte < 0x80 then ([some (Char.ofNat byte.toNat)], .between)
  else match Utf8State.ofLead? byte with
    | some state => ([], state)
    | none => ([none], .between)

/-- What one more byte completes, and the state after it.  A byte that cannot
continue the sequence ends an ill-formed part and begins afresh. -/
def readByte (byte : UInt8) : Utf8State → List (Option Char) × Utf8State
  | .between => beginSequence byte
  | .inside missing low high code =>
    if low ≤ byte && byte ≤ high then
      let extended := code * 64 + byte.toNat % 64
      if missing ≤ 1 then ([some (Char.ofNat extended)], .between)
      else ([], .inside (missing - 1) 0x80 0xBF extended)
    else
      let (completed, state) := beginSequence byte
      (none :: completed, state)

/-- The parts of a byte string from a state on; `none` is an ill-formed part. -/
def scalarsFrom (state : Utf8State) : List UInt8 → List (Option Char)
  | [] => match state with
    | .between => []
    | .inside .. => [none]
  | byte :: rest =>
    let (completed, next) := readByte byte state
    completed ++ scalarsFrom next rest

/-- The scalar values of a byte string; `none` is an ill-formed part. -/
def scalars (bytes : List UInt8) : List (Option Char) := scalarsFrom .between bytes

/-- The text, if the bytes are well formed. -/
def decodeStrict (bytes : List UInt8) : Option String :=
  ((scalars bytes).mapM id).map String.ofList

/-- The text with a replacement character for each ill-formed part. -/
def decodeLossy (bytes : List UInt8) : String :=
  String.ofList ((scalars bytes).map (·.getD '\ufffd'))

/-- The bytes of a text. -/
def encode (text : String) : List UInt8 := text.toList.flatMap String.utf8EncodeChar

end CellBus.Text
