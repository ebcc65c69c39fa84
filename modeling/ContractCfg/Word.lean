/-!
Unbounded integers read as machine words. `truncate` and `signExtend` give the unsigned and
the two's complement reading of the low bits, and `and`, `or`, `xor`, `not` are the bitwise
operations on the infinite two's complement expansion, so a negative number behaves as a word
whose high bits are all set.
-/

namespace ContractCfg.Word

/-- The residue of `v` modulo `2 ^ bits`, the unsigned reading of its low `bits` bits. -/
def truncate (v : Int) (bits : Nat) : Int :=
  v % ((Nat.pow 2 bits : Nat) : Int)

/-- The two's complement reading of the low `bits` bits of `v`; zero bits read as zero. -/
def signExtend (v : Int) : Nat → Int
  | 0 => 0
  | b + 1 =>
    let low := truncate v (b + 1)
    if ((Nat.pow 2 b : Nat) : Int) ≤ low then low - ((Nat.pow 2 (b + 1) : Nat) : Int) else low

/-- Bitwise conjunction; `-(n+1)` is the complement of `n`. -/
def and : Int → Int → Int
  | .ofNat a, .ofNat b => .ofNat (a &&& b)
  | .ofNat a, .negSucc n => .ofNat (a ^^^ (a &&& n))
  | .negSucc m, .ofNat b => .ofNat (b ^^^ (b &&& m))
  | .negSucc m, .negSucc n => .negSucc (m ||| n)

/-- Bitwise disjunction. -/
def or : Int → Int → Int
  | .ofNat a, .ofNat b => .ofNat (a ||| b)
  | .ofNat a, .negSucc n => .negSucc (n ^^^ (n &&& a))
  | .negSucc m, .ofNat b => .negSucc (m ^^^ (m &&& b))
  | .negSucc m, .negSucc n => .negSucc (m &&& n)

/-- Bitwise exclusive or. -/
def xor : Int → Int → Int
  | .ofNat a, .ofNat b => .ofNat (a ^^^ b)
  | .ofNat a, .negSucc n => .negSucc (a ^^^ n)
  | .negSucc m, .ofNat b => .negSucc (m ^^^ b)
  | .negSucc m, .negSucc n => .ofNat (m ^^^ n)

/-- Bitwise complement, `-v - 1`. -/
def not (v : Int) : Int := -v - 1

/-- The 32-byte big-endian encoding of `v` modulo `2 ^ 256`. -/
def bytes32 (v : Int) : ByteArray :=
  let w := (truncate v 256).toNat
  ByteArray.mk (Array.ofFn fun (i : Fin 32) => ((w >>> (8 * (31 - i.val))) % 256).toUInt8)

/-- The unsigned big-endian reading of a byte string. -/
def ofBytes (bs : ByteArray) : Int :=
  (bs.toList.foldl (fun acc b => acc * 256 + b.toNat) 0 : Nat)

theorem modulus_pos (bits : Nat) : (0 : Int) < ((Nat.pow 2 bits : Nat) : Int) :=
  Int.natCast_pos.mpr (Nat.two_pow_pos bits)

theorem truncate_nonneg (v : Int) (bits : Nat) : 0 ≤ truncate v bits := by
  unfold truncate
  exact Int.emod_nonneg _ (Int.ne_of_gt (modulus_pos bits))

theorem truncate_lt (v : Int) (bits : Nat) : truncate v bits < ((Nat.pow 2 bits : Nat) : Int) := by
  unfold truncate
  exact Int.emod_lt_of_pos _ (modulus_pos bits)

end ContractCfg.Word
