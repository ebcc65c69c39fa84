import ContractCfg.Word

/-!
Keccak-256 with the Keccak padding (`0x01 … 0x80`, not the SHA-3 one), as used for
storage slots of mappings and dynamic arrays. The state is 25 lanes of 64 bits; lane `(x, y)`
sits at index `5 * y + x`, and bytes enter a lane least significant first.
-/

namespace ContractCfg.Hash.Keccak

/-- Round constants of the ι step. -/
def roundConstants : Array UInt64 := #[
  0x0000000000000001, 0x0000000000008082, 0x800000000000808A, 0x8000000080008000,
  0x000000000000808B, 0x0000000080000001, 0x8000000080008081, 0x8000000000008009,
  0x000000000000008A, 0x0000000000000088, 0x0000000080008009, 0x000000008000000A,
  0x000000008000808B, 0x800000000000008B, 0x8000000000008089, 0x8000000000008003,
  0x8000000000008002, 0x8000000000000080, 0x000000000000800A, 0x800000008000000A,
  0x8000000080008081, 0x8000000000008080, 0x0000000080000001, 0x8000000080008008]

/-- Rotation of lane `(x, y)` in the ρ step, at index `5 * y + x`. -/
def rotations : Array UInt64 := #[
  0, 1, 62, 28, 27,
  36, 44, 6, 55, 20,
  3, 10, 43, 25, 39,
  41, 45, 15, 21, 8,
  18, 2, 61, 56, 14]

/-- Bytes absorbed per permutation. -/
def rate : Nat := 136

/-- Left rotation of a lane. -/
def rotl (x n : UInt64) : UInt64 := (x <<< n) ||| (x >>> (64 - n))

/-- One round: θ, then ρ and π, then χ, then ι with constant `rc`. -/
def round (a : Array UInt64) (rc : UInt64) : Array UInt64 :=
  let parity := Array.ofFn fun (x : Fin 5) =>
    a[x.val]! ^^^ a[x.val + 5]! ^^^ a[x.val + 10]! ^^^ a[x.val + 15]! ^^^ a[x.val + 20]!
  let d := Array.ofFn fun (x : Fin 5) =>
    parity[(x.val + 4) % 5]! ^^^ rotl parity[(x.val + 1) % 5]! 1
  let a := Array.ofFn fun (i : Fin 25) => a[i.val]! ^^^ d[i.val % 5]!
  -- lane (x, y) moves to (y, 2x + 3y); so target (X, Y) reads x = 3 (Y - 3X), y = X
  let b := Array.ofFn fun (i : Fin 25) =>
    let tx := i.val % 5
    let ty := i.val / 5
    let src := 5 * tx + ((ty + 15 - 3 * tx) * 3) % 5
    rotl a[src]! rotations[src]!
  let a := Array.ofFn fun (i : Fin 25) =>
    let x := i.val % 5
    let row := i.val - x
    b[i.val]! ^^^ ((~~~ b[row + (x + 1) % 5]!) &&& b[row + (x + 2) % 5]!)
  a.set! 0 (a[0]! ^^^ rc)

/-- The Keccak-f[1600] permutation. -/
def permute (a : Array UInt64) : Array UInt64 :=
  roundConstants.foldl round a

/-- The lane made of the eight bytes of `bs` from `off`, least significant first. -/
def laneAt (bs : ByteArray) (off : Nat) : UInt64 :=
  (List.range 8).foldl (fun acc k => acc ||| ((bs.get! (off + k)).toUInt64 <<< (8 * k).toUInt64)) 0

/-- Pads to a whole number of blocks: `0x01`, zeros, and a final `0x80`. -/
def pad (input : ByteArray) : ByteArray :=
  let room := rate - input.size % rate
  if room = 1 then input.push 0x81
  else (input.push 0x01) ++ ByteArray.mk (Array.replicate (room - 2) 0) |>.push 0x80

/-- Absorbs the block of `bs` that starts at `off`. -/
def absorb (st : Array UInt64) (bs : ByteArray) (off : Nat) : Array UInt64 :=
  permute (Array.ofFn fun (i : Fin 25) =>
    if i.val < rate / 8 then st[i.val]! ^^^ laneAt bs (off + 8 * i.val) else st[i.val]!)

/-- The 32-byte Keccak-256 digest of `input`. -/
def digest (input : ByteArray) : ByteArray :=
  let padded := pad input
  let st := (List.range (padded.size / rate)).foldl
    (fun st j => absorb st padded (rate * j)) (Array.replicate 25 0)
  ByteArray.mk (Array.ofFn fun (i : Fin 32) =>
    (st[i.val / 8]! >>> (8 * (i.val % 8)).toUInt64).toUInt8)

/-- The digest of the 32-byte words of `values`, read as an unsigned big-endian number. -/
def ofWords (values : List Int) : Int :=
  Word.ofBytes (digest (values.foldl (fun acc v => acc ++ Word.bytes32 v) ByteArray.empty))

end ContractCfg.Hash.Keccak
