/-!
SHA-256 over a byte string, written as lowercase hexadecimal. It fingerprints the compact
JSON form of a persisted contract.
-/

namespace ContractCfg.Hash.Sha256

/-- The round constants: the first 32 bits of the fractional parts of the cube roots of the
first 64 primes. -/
def roundConstants : Array UInt32 := #[
  0x428a2f98, 0x71374491, 0xb5c0fbcf, 0xe9b5dba5, 0x3956c25b, 0x59f111f1, 0x923f82a4, 0xab1c5ed5,
  0xd807aa98, 0x12835b01, 0x243185be, 0x550c7dc3, 0x72be5d74, 0x80deb1fe, 0x9bdc06a7, 0xc19bf174,
  0xe49b69c1, 0xefbe4786, 0x0fc19dc6, 0x240ca1cc, 0x2de92c6f, 0x4a7484aa, 0x5cb0a9dc, 0x76f988da,
  0x983e5152, 0xa831c66d, 0xb00327c8, 0xbf597fc7, 0xc6e00bf3, 0xd5a79147, 0x06ca6351, 0x14292967,
  0x27b70a85, 0x2e1b2138, 0x4d2c6dfc, 0x53380d13, 0x650a7354, 0x766a0abb, 0x81c2c92e, 0x92722c85,
  0xa2bfe8a1, 0xa81a664b, 0xc24b8b70, 0xc76c51a3, 0xd192e819, 0xd6990624, 0xf40e3585, 0x106aa070,
  0x19a4c116, 0x1e376c08, 0x2748774c, 0x34b0bcb5, 0x391c0cb3, 0x4ed8aa4a, 0x5b9cca4f, 0x682e6ff3,
  0x748f82ee, 0x78a5636f, 0x84c87814, 0x8cc70208, 0x90befffa, 0xa4506ceb, 0xbef9a3f7, 0xc67178f2]

/-- The initial hash value. -/
def initial : Array UInt32 := #[
  0x6a09e667, 0xbb67ae85, 0x3c6ef372, 0xa54ff53a, 0x510e527f, 0x9b05688c, 0x1f83d9ab, 0x5be0cd19]

/-- Right rotation of a 32-bit word. -/
def rotr (x n : UInt32) : UInt32 := (x >>> n) ||| (x <<< (32 - n))

/-- The big-endian word of `bs` at byte offset `off`. -/
def wordAt (bs : ByteArray) (off : Nat) : UInt32 :=
  (List.range 4).foldl (fun acc k => (acc <<< 8) ||| (bs.get! (off + k)).toUInt32) 0

/-- The 64-word message schedule of the block at `off`. -/
def schedule (bs : ByteArray) (off : Nat) : Array UInt32 :=
  (List.range 48).foldl (fun w t =>
    let i := t + 16
    let x := w[i - 15]!
    let y := w[i - 2]!
    let s0 := rotr x 7 ^^^ rotr x 18 ^^^ (x >>> 3)
    let s1 := rotr y 17 ^^^ rotr y 19 ^^^ (y >>> 10)
    w.push (s1 + w[i - 7]! + s0 + w[i - 16]!))
    (Array.ofFn fun (t : Fin 16) => wordAt bs (off + 4 * t.val))

/-- One application of the compression function. -/
def compress (h : Array UInt32) (bs : ByteArray) (off : Nat) : Array UInt32 :=
  let w := schedule bs off
  let v := (List.range 64).foldl (fun (v : Array UInt32) t =>
    let a := v[0]!
    let e := v[4]!
    let s1 := rotr e 6 ^^^ rotr e 11 ^^^ rotr e 25
    let ch := (e &&& v[5]!) ^^^ ((~~~ e) &&& v[6]!)
    let t1 := v[7]! + s1 + ch + roundConstants[t]! + w[t]!
    let s0 := rotr a 2 ^^^ rotr a 13 ^^^ rotr a 22
    let maj := (a &&& v[1]!) ^^^ (a &&& v[2]!) ^^^ (v[1]! &&& v[2]!)
    #[t1 + s0 + maj, a, v[1]!, v[2]!, v[3]! + t1, e, v[5]!, v[6]!]) h
  Array.ofFn fun (i : Fin 8) => h[i.val]! + v[i.val]!

/-- Appends `0x80`, zeros, and the bit length as a 64-bit big-endian number. -/
def pad (input : ByteArray) : ByteArray :=
  let zeros := (119 - input.size % 64) % 64
  let bits := 8 * input.size
  (input.push 0x80) ++ ByteArray.mk (Array.replicate zeros 0) ++
    ByteArray.mk (Array.ofFn fun (i : Fin 8) => ((bits >>> (8 * (7 - i.val))) % 256).toUInt8)

/-- The two lowercase hexadecimal digits of a byte. -/
def hexByte (b : UInt8) : String :=
  let digit (n : Nat) : Char := if n < 10 then Char.ofNat (48 + n) else Char.ofNat (87 + n)
  String.ofList [digit (b.toNat / 16), digit (b.toNat % 16)]

/-- The SHA-256 digest of `input` in lowercase hexadecimal. -/
def hexDigest (input : ByteArray) : String :=
  let padded := pad input
  let h := (List.range (padded.size / 64)).foldl (fun h j => compress h padded (64 * j)) initial
  String.join (h.toList.map fun x =>
    String.join ((List.range 4).map fun k => hexByte (x >>> (8 * (3 - k)).toUInt32).toUInt8))

end ContractCfg.Hash.Sha256
