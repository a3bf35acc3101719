/-!
# Integers of variable length

An integer is written as bytes of seven bits each, the lowest first, and every byte but
the last has its high bit set.  Signed integers are written in two's complement; the
sign is the second highest bit of the last byte.
-/

namespace Imperative.Wasm.VarInt

def unsigned (number : Nat) : List UInt8 :=
  if number < 128 then [UInt8.ofNat number]
  else UInt8.ofNat (number % 128 + 128) :: unsigned (number / 128)
termination_by number
decreasing_by omega

def signed (number : Int) : List UInt8 :=
  if -64 ≤ number ∧ number < 64 then [UInt8.ofNat (number % 128).toNat]
  else UInt8.ofNat ((number % 128).toNat + 128) :: signed (number / 128)
termination_by number.natAbs
decreasing_by omega

end Imperative.Wasm.VarInt
