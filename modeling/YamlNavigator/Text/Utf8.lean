import YamlNavigator.Text.Quoted

/-!
Reading bytes as UTF-8, with the place and the reason of the first fault.

* `Utf8.Fault`: the first and the last byte of a faulty sequence, and what is wrong with it;
* `Utf8.Fault.message`: the wording of a fault;
* `Utf8.Step`, `Utf8.step`: one character, or one fault, at the head of a byte sequence;
* `Utf8.decode`: the text of a byte sequence;
* `Utf8.encodedSize`: the number of bytes that a text takes.
-/

namespace YamlNavigator.Text.Utf8

/-- What can be wrong with a byte sequence. -/
inductive Reason where
  /-- No character begins with this byte. -/
  | invalidStart
  /-- A byte inside a character does not continue it. -/
  | invalidContinuation
  /-- The bytes end inside a character. -/
  | unexpectedEnd
  deriving DecidableEq, Repr

/-- The wording of a reason. -/
def Reason.message : Reason → String
  | .invalidStart => "invalid start byte"
  | .invalidContinuation => "invalid continuation byte"
  | .unexpectedEnd => "unexpected end of data"

/-- A faulty sequence: the position of its first byte, that byte, the number of bytes, the reason.
-/
structure Fault where
  position : Nat
  byte : UInt8
  length : Nat
  reason : Reason
  deriving DecidableEq, Repr

/-- The wording of a fault: a single byte is shown, of several the positions. -/
def Fault.message (f : Fault) : String :=
  if f.length = 1 then
    s!"'utf-8' codec can't decode byte 0x{String.ofList (hexDigits 2 f.byte.toNat)} in position " ++
      s!"{f.position}: {f.reason.message}"
  else
    s!"'utf-8' codec can't decode bytes in position {f.position}-{f.position + f.length - 1}: " ++
      f.reason.message

/-- Does the byte continue a character? -/
def isContinuation (b : UInt8) : Bool :=
  0x80 ≤ b && b < 0xc0

/-- Can `b` be the second byte after the lead byte `lead`? The bounds exclude overlong forms,
surrogates and code points above `U+10FFFF`. -/
def isSecond (lead b : UInt8) : Bool :=
  isContinuation b &&
    (lead != 0xe0 || 0xa0 ≤ b) && (lead != 0xed || b < 0xa0) &&
    (lead != 0xf0 || 0x90 ≤ b) && (lead != 0xf4 || b < 0x90)

/-- The number of bytes that the lead byte announces; zero if no character begins with it. -/
def announced (lead : UInt8) : Nat :=
  if lead < 0x80 then 1
  else if lead < 0xc2 then 0
  else if lead < 0xe0 then 2
  else if lead < 0xf0 then 3
  else if lead < 0xf5 then 4
  else 0

/-- The outcome at the head of a byte sequence: a character and the bytes after it, or the length
and the reason of a fault. -/
inductive Step where
  | char (c : Char) (rest : List UInt8)
  | fault (length : Nat) (reason : Reason)

/-- The code point made of the payload of a lead byte and of continuation bytes. -/
def assemble (lead : Nat) (more : List UInt8) : Char :=
  Char.ofNat (more.foldl (fun n b => 64 * n + b.toNat % 64) lead)

/-- Reads the character or the fault at the head of a byte sequence. -/
def step (lead : UInt8) (rest : List UInt8) : Step :=
  match announced lead with
  | 0 => .fault 1 .invalidStart
  | 1 => .char (Char.ofNat lead.toNat) rest
  | 2 =>
      match rest with
      | [] => .fault 1 .unexpectedEnd
      | b :: rest =>
          if isContinuation b then .char (assemble (lead.toNat % 32) [b]) rest
          else .fault 1 .invalidContinuation
  | 3 =>
      match rest with
      | [] => .fault 1 .unexpectedEnd
      | [b] => if isSecond lead b then .fault 2 .unexpectedEnd else .fault 1 .invalidContinuation
      | b :: c :: rest =>
          if !isSecond lead b then .fault 1 .invalidContinuation
          else if !isContinuation c then .fault 2 .invalidContinuation
          else .char (assemble (lead.toNat % 16) [b, c]) rest
  | _ =>
      match rest with
      | [] => .fault 1 .unexpectedEnd
      | [b] => if isSecond lead b then .fault 2 .unexpectedEnd else .fault 1 .invalidContinuation
      | [b, c] =>
          if !isSecond lead b then .fault 1 .invalidContinuation
          else if !isContinuation c then .fault 2 .invalidContinuation
          else .fault 3 .unexpectedEnd
      | b :: c :: d :: rest =>
          if !isSecond lead b then .fault 1 .invalidContinuation
          else if !isContinuation c then .fault 2 .invalidContinuation
          else if !isContinuation d then .fault 3 .invalidContinuation
          else .char (assemble (lead.toNat % 8) [b, c, d]) rest

/-- A character leaves no more bytes than there were after its lead byte. -/
theorem step_length_le {lead : UInt8} {bytes rest : List UInt8} {c : Char}
    (h : step lead bytes = .char c rest) : rest.length ≤ bytes.length := by
  unfold step at h
  repeat' split at h
  all_goals simp_all <;> (try obtain ⟨_, rfl⟩ := h) <;> omega

/-- The text of a byte sequence whose first byte stands at `position`. -/
def decodeFrom (position : Nat) : List UInt8 → Except Fault (List Char)
  | [] => .ok []
  | lead :: bytes =>
      match h : step lead bytes with
      | .fault length reason => .error ⟨position, lead, length, reason⟩
      | .char c rest =>
          have := step_length_le h
          (decodeFrom (position + 1 + (bytes.length - rest.length)) rest).map (c :: ·)
  termination_by bytes => bytes.length

/-- The text of a byte sequence. -/
def decode (bytes : List UInt8) : Except Fault (List Char) :=
  decodeFrom 0 bytes

/-- The number of bytes that a text takes. -/
def encodedSize (s : List Char) : Nat :=
  s.foldl (fun n c => n + c.utf8Size) 0

end YamlNavigator.Text.Utf8
