import LeakTrace.Text.Basic

namespace LeakTrace.Text

def replacement : Char := '\uFFFD'

/-- Bytes that may follow the first byte of a character, and how many more come after them. -/
def following? (first : Nat) : Option (Nat × Nat × Nat) :=
  if first < 0xC2 then none
  else if first < 0xE0 then some (0x80, 0xBF, 0)
  else if first = 0xE0 then some (0xA0, 0xBF, 1)
  else if first = 0xED then some (0x80, 0x9F, 1)
  else if first < 0xF0 then some (0x80, 0xBF, 1)
  else if first = 0xF0 then some (0x90, 0xBF, 2)
  else if first < 0xF4 then some (0x80, 0xBF, 2)
  else if first = 0xF4 then some (0x80, 0x8F, 2)
  else none

def leadBits (first : Nat) : Nat :=
  if first < 0xE0 then first - 0xC0 else if first < 0xF0 then first - 0xE0 else first - 0xF0

/-- Reads bytes as UTF-8. Bytes that can start no character, and characters cut short, are each
read as one replacement character. `pending` holds the value so far and what must follow. -/
def lossy : (pending : Option (Nat × Nat × Nat × Nat)) → List Nat → List Char → List Char
  | pending, [], read => (if pending.isSome then replacement :: read else read).reverse
  | none, byte :: rest, read =>
    if byte < 0x80 then lossy none rest (Char.ofNat byte :: read)
    else match following? byte with
      | some (low, high, more) => lossy (some (leadBits byte, low, high, more)) rest read
      | none => lossy none rest (replacement :: read)
  | some (value, low, high, more), byte :: rest, read =>
    if low ≤ byte && byte ≤ high then
      let value := value * 64 + (byte - 0x80)
      match more with
      | 0 => lossy none rest (Char.ofNat value :: read)
      | more + 1 => lossy (some (value, 0x80, 0xBF, more)) rest read
    else if byte < 0x80 then lossy none rest (Char.ofNat byte :: replacement :: read)
    else match following? byte with
      | some (low, high, more) =>
        lossy (some (leadBits byte, low, high, more)) rest (replacement :: read)
      | none => lossy none rest (replacement :: replacement :: read)

end LeakTrace.Text
