import Mathlib.Logic.Equiv.Basic
import OsdCore.Format.Blocks
import OsdCore.Format.Bytes

/-!
# AES in blocks: `crypto.c`

The cipher of one block is a parameter.  A length is an `int`, and the loops count with a `u32`.

* `ecbLoop` : the loop that both functions have; `none` is a read behind the input.
* `ecbLoop_eq` : it treats the blocks of the input, the last one filled up, each once and in order.
* `aes128Ecb_roundTrip` : what has been encrypted and decrypted is the input, filled up.
-/

namespace OsdCore

/-- A block. -/
abbrev AesBlock := Vector UInt8 16

/-- `AES128_ECB_encrypt` and `AES128_ECB_decrypt`: the key, the block, and the block that comes out. -/
structure Aes128 where
  encrypt : Bytes → AesBlock → AesBlock
  decrypt : Bytes → AesBlock → AesBlock

def BYTE_LEN : ℕ := 16

/-- `inputItem`, cleared, after `n` bytes have been copied to it. -/
def inputItem (inputData : Bytes) (n : ℕ) : Option AesBlock :=
  if n ≤ inputData.length then some (firstBlock 0 16 (inputData.take n)) else none

/-- The loop, with the rest of the input and what is in the buffer. -/
def ecbLoop (cipher : AesBlock → AesBlock) (inputData : Bytes) (rmnLen : ℕ) (b : Bytes) : Option Bytes :=
  if _hfull : rmnLen > BYTE_LEN then
    (inputItem inputData BYTE_LEN).bind fun item =>
      ecbLoop cipher (inputData.drop BYTE_LEN) (rmnLen - BYTE_LEN) (b ++ (cipher item).toList)
  else if _hlast : rmnLen ≠ 0 then
    (inputItem inputData rmnLen).bind fun item =>
      ecbLoop cipher (inputData.drop rmnLen) (rmnLen - rmnLen) (b ++ (cipher item).toList)
  else some b
termination_by rmnLen
decreasing_by
  · unfold BYTE_LEN at _hfull ⊢
    omega
  · omega

/-- `rmnLen` : an `int` in a `u32`. -/
def rmnLenOf (inputLen : ℤ) : ℕ := (inputLen % 2 ^ 32).toNat

/-- `l_crypto_aes128_ecb_encrypt`. -/
def lCryptoAes128EcbEncrypt (aes : Aes128) (inputData : Bytes) (inputLen : ℤ) (key : Bytes) (_keyLen : ℤ) :
    Option Bytes :=
  ecbLoop (aes.encrypt key) inputData (rmnLenOf inputLen) []

/-- `l_crypto_aes128_ecb_decrypt`. -/
def lCryptoAes128EcbDecrypt (aes : Aes128) (inputData : Bytes) (inputLen : ℤ) (key : Bytes) (_keyLen : ℤ) :
    Option Bytes :=
  ecbLoop (aes.decrypt key) inputData (rmnLenOf inputLen) []

section

variable {cipher : AesBlock → AesBlock} {x : Bytes}

/-- A full block is copied. -/
theorem inputItem_full (h : x.length > BYTE_LEN) : inputItem x BYTE_LEN = some (firstBlock 0 16 x) := by
  rw [inputItem, if_pos (Nat.le_of_lt h), BYTE_LEN, firstBlock_take]

/-- The rest is copied. -/
theorem inputItem_last (x : Bytes) : inputItem x x.length = some (firstBlock 0 16 x) := by
  rw [inputItem, if_pos (Nat.le_refl _), List.take_length]

/-- **The loop treats the blocks of its input**, each once and in order. -/
theorem ecbLoop_eq (x b : Bytes) : ecbLoop cipher x x.length b =
    some (b ++ (blocks 0 16 x).flatMap fun block => (cipher block).toList) := by
  induction hlen : x.length using Nat.strong_induction_on generalizing x b with
  | _ len ih =>
    subst hlen
    rw [ecbLoop]
    by_cases hx : x = []
    · subst hx
      rw [dif_neg (by decide), dif_neg (by decide), blocks_nil (by decide), List.flatMap_nil, List.append_nil]
    · have hpos : 0 < x.length := List.length_pos_iff.2 hx
      rw [blocks_of_ne_nil (by decide) hx, List.flatMap_cons, ← List.append_assoc]
      by_cases hfull : x.length > BYTE_LEN
      · have hrest : x.length - BYTE_LEN = (x.drop BYTE_LEN).length := List.length_drop.symm
        rw [dif_pos hfull, inputItem_full hfull, Option.bind_some, hrest]
        exact ih _ (by rw [List.length_drop, BYTE_LEN]; omega) _ _ rfl
      · -- nothing is left, and the loop ends
        have hdrop : x.drop x.length = x.drop BYTE_LEN := by
          rw [List.drop_length, List.drop_of_length_le (by omega)]
        have hrest : x.length - x.length = (x.drop BYTE_LEN).length := by
          rw [List.drop_of_length_le (by omega), Nat.sub_self, List.length_nil]
        rw [dif_neg hfull, dif_pos (by omega), inputItem_last, Option.bind_some, hdrop, hrest]
        exact ih _ (by rw [← hrest]; omega) _ _ rfl

/-- The true length, as an `int`. -/
theorem rmnLenOf_length (h : x.length < 2 ^ 31) : rmnLenOf x.length = x.length := by
  unfold rmnLenOf
  omega

end

/-- **What has been encrypted and decrypted is the input, filled up** with zero bytes.  Both functions
end, and treat the blocks of their input, each once and in order.  The two lengths are `int`s. -/
theorem aes128Ecb_roundTrip (aes : Aes128) (x key : Bytes) (keyLen : ℤ)
    (hinv : ∀ block, aes.decrypt key (aes.encrypt key block) = block) (hlen : x.length ≤ 2 ^ 31 - 16) :
    ∃ y, lCryptoAes128EcbEncrypt aes x x.length key keyLen = some y ∧
      y = ((blocks 0 16 x).flatMap fun block => (aes.encrypt key block).toList) ∧
      lCryptoAes128EcbDecrypt aes y y.length key keyLen =
        some ((blocks 0 16 y).flatMap fun block => (aes.decrypt key block).toList) ∧
      lCryptoAes128EcbDecrypt aes y y.length key keyLen =
        some (x ++ List.replicate ((16 - x.length % 16) % 16) 0) := by
  have hcount : ((blocks 0 16 x).flatMap Vector.toList).length = 16 * (blocks 0 16 x).length :=
    length_flatMap_blocks _
  rw [flatMap_blocks (by decide), padded, List.length_append, List.length_replicate] at hcount
  obtain ⟨y, hy⟩ : ∃ y, y = (blocks 0 16 x).flatMap fun block => (aes.encrypt key block).toList := ⟨_, rfl⟩
  have hmap : y = ((blocks 0 16 x).map (aes.encrypt key)).flatMap Vector.toList := by
    rw [hy, List.flatMap_map]
  have hylen : y.length < 2 ^ 31 := by
    rw [hmap, length_flatMap_blocks, List.length_map]
    omega
  have hdecrypt : lCryptoAes128EcbDecrypt aes y y.length key keyLen =
      some ((blocks 0 16 y).flatMap fun block => (aes.decrypt key block).toList) := by
    rw [lCryptoAes128EcbDecrypt, rmnLenOf_length hylen, ecbLoop_eq, List.nil_append]
  refine ⟨y, ?_, hy, hdecrypt, ?_⟩
  · rw [lCryptoAes128EcbEncrypt, rmnLenOf_length (by omega), ecbLoop_eq, List.nil_append, hy]
  · have hblocks : (blocks 0 16 y).flatMap (fun block => (aes.decrypt key block).toList) =
        (blocks 0 16 x).flatMap Vector.toList := by
      rw [hmap, blocks_flatMap (by decide), List.flatMap_map]
      simp only [hinv]
    rw [hdecrypt, hblocks, flatMap_blocks (by decide), padded]

/-! ### An instance -/

/-- A cipher that swaps blocks, whatever the key is. -/
def swapAes (e : Equiv.Perm AesBlock) : Aes128 where
  encrypt _ := e
  decrypt _ := e.symm

/-- The two blocks of "Two One Nine Twoosd!", and what AES makes of them with the key
"Thats my Kung Fu". -/
def kungFuAes : Aes128 :=
  swapAes ((Equiv.swap (firstBlock 0 16 (ascii "Two One Nine Two"))
      #v[0x29, 0xC3, 0x50, 0x5F, 0x57, 0x14, 0x20, 0xF6, 0x40, 0x22, 0x99, 0xB3, 0x1A, 0x02, 0xD7,
        0x3A]).trans
    (Equiv.swap (firstBlock 0 16 (ascii "osd!"))
      #v[0x47, 0x8D, 0xF0, 0x51, 0x1E, 0x58, 0x0E, 0x58, 0x2A, 0x19, 0x91, 0xC1, 0xB2, 0x71, 0x78, 0x1E]))

/-- 20 bytes come back as 32. -/
theorem aes128Ecb_roundTrip_twenty : ∃ y,
    lCryptoAes128EcbEncrypt kungFuAes (ascii "Two One Nine Twoosd!") 20 (ascii "Thats my Kung Fu") 16 = some y ∧
      lCryptoAes128EcbDecrypt kungFuAes y y.length (ascii "Thats my Kung Fu") 16 =
        some (ascii "Two One Nine Twoosd!" ++ List.replicate 12 0) := by
  obtain ⟨y, hencrypt, -, -, hdecrypt⟩ := aes128Ecb_roundTrip kungFuAes (ascii "Two One Nine Twoosd!")
    (ascii "Thats my Kung Fu") 16 (fun block => Equiv.symm_apply_apply _ block) (by decide)
  exact ⟨y, hencrypt, hdecrypt⟩

end OsdCore
