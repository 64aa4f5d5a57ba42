/-!
Byte strings and the big-endian layout of numbers in them.
-/
namespace RpcClient

abbrev Bytes := List UInt8

namespace Bytes

/-- The lowest `width` bytes of `n`, most significant first. Higher bytes are dropped. -/
def bigEndian : (width : Nat) → (n : Nat) → Bytes
  | 0, _ => []
  | width + 1, n => UInt8.ofNat (n / Nat.pow 256 width) :: bigEndian width n

/-- The number whose digits to base 256 are `bytes`, most significant first. -/
def toNat (bytes : Bytes) : Nat :=
  bytes.foldl (fun high byte => high * 256 + byte.toNat) 0

/-- The number of `width` bytes that starts at `offset`. -/
def numberAt (bytes : Bytes) (offset width : Nat) : Nat :=
  toNat ((bytes.drop offset).take width)

/-- What follows the first `count` of `bytes`, if there are that many. -/
def dropExactly : (count : Nat) → Bytes → Option Bytes
  | 0, bytes => some bytes
  | _ + 1, [] => none
  | count + 1, _ :: bytes => dropExactly count bytes

theorem length_of_dropExactly {count : Nat} {bytes rest : Bytes}
    (h : dropExactly count bytes = some rest) : rest.length + count = bytes.length := by
  induction count generalizing bytes with
  | zero => simp_all [dropExactly]
  | succ count ih =>
    cases bytes with
    | nil => simp [dropExactly] at h
    | cons b bytes =>
      have := ih h
      simp only [List.length_cons]
      omega

@[simp]
theorem length_bigEndian (width n : Nat) : (bigEndian width n).length = width := by
  induction width with
  | zero => rfl
  | succ width ih => simp [bigEndian, ih]

end Bytes
end RpcClient
