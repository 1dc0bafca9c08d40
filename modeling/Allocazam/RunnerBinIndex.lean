import Allocazam.RunnerModel

/-!
# Header words, normalised sizes and bin indices

Run sizes are multiples of 16, so the two flag bits of a header word are free
and size rounding is exact.  On such sizes the bin index is monotone and
exact below the linear cutoff.
-/

namespace Allocazam

namespace Runner

@[simp] theorem runAlignment_eq : runAlignment = 16 := rfl
@[simp] theorem linearBinCount_eq : linearBinCount = 512 := rfl
@[simp] theorem binCount_eq : binCount = 536 := rfl
@[simp] theorem binWordBits_eq : binWordBits = 64 := rfl
@[simp] theorem binWordCount_eq : binWordCount = 9 := rfl
@[simp] theorem headerBytes_eq : headerBytes = 16 := rfl
@[simp] theorem minFreeRunSize_eq : minFreeRunSize = 48 := rfl
@[simp] theorem splitRemainderThreshold_eq :
    splitRemainderThreshold = 64 := rfl
@[simp] theorem epilogueSize_eq : epilogueSize = 16 := rfl
@[simp] theorem minChunkBytes_eq : minChunkBytes = 64 := rfl
@[simp] theorem flagIsFree_eq : flagIsFree = 1 := rfl
@[simp] theorem flagPrevIsFree_eq : flagPrevIsFree = 2 := rfl
@[simp] theorem nextLink_eq (h : Nat) : nextLink h = h + 16 := rfl
@[simp] theorem prevLink_eq (h : Nat) : prevLink h = h + 24 := rfl
@[simp] theorem ownerWord_eq (h : Nat) : ownerWord h = h + 8 := rfl
@[simp] theorem payloadFromHeader_eq (h : Nat) :
    payloadFromHeader h = h + 16 := rfl
@[simp] theorem headerFromPayload_eq (p : Nat) :
    headerFromPayload p = p - 16 := rfl

theorem pack_eq {bytes : Nat} (aligned : 4 ∣ bytes)
    (isFree prevIsFree : Bool) :
    pack bytes isFree prevIsFree =
      bytes + isFree.toNat + 2 * prevIsFree.toNat := by
  obtain ⟨quarter, rfl⟩ := aligned
  have low (bits : Nat) (bound : bits < 4) :
      4 * quarter ||| bits = 4 * quarter + bits :=
    (Nat.two_pow_add_eq_or_of_lt (i := 2) bound quarter).symm
  unfold pack
  cases isFree <;> cases prevIsFree <;>
    simp only [flagIsFree_eq, flagPrevIsFree_eq, Bool.toNat_false,
      Bool.toNat_true, Nat.or_assoc, if_true, if_false, Bool.false_eq_true]
  · simp
  · rw [low _ (by decide)]
    rfl
  · rw [low _ (by decide)]
    rfl
  · rw [low _ (by decide)]
    rfl

theorem sizeField_eq {word : Nat} (bounded : word < 2 ^ 64) :
    sizeField word = word / 4 * 4 :=
  and_wordNot_lowMask 2 bounded (by decide)

section Pack

variable {bytes : Nat} (aligned : 4 ∣ bytes) (bounded : bytes < 2 ^ 64)
  (isFree prevIsFree : Bool)

include aligned bounded

theorem sizeField_pack : sizeField (pack bytes isFree prevIsFree) = bytes := by
  have packed := pack_eq aligned isFree prevIsFree
  rw [sizeField_eq] <;>
    cases isFree <;> cases prevIsFree <;>
      simp only [Bool.toNat_false, Bool.toNat_true] at packed <;> omega

theorem pack_lt : pack bytes isFree prevIsFree < 2 ^ 64 := by
  have packed := pack_eq aligned isFree prevIsFree
  cases isFree <;> cases prevIsFree <;>
    simp only [Bool.toNat_false, Bool.toNat_true] at packed <;> omega

omit bounded in
theorem flag_isFree_pack :
    flag (pack bytes isFree prevIsFree) flagIsFree = isFree := by
  have packed := pack_eq aligned isFree prevIsFree
  unfold flag
  rw [flagIsFree_eq, Nat.and_one_is_mod]
  cases isFree <;> cases prevIsFree <;>
    simp only [Bool.toNat_false, Bool.toNat_true] at packed <;>
    simp <;> omega

omit bounded in
theorem flag_prevIsFree_pack :
    flag (pack bytes isFree prevIsFree) flagPrevIsFree = prevIsFree := by
  have packed := pack_eq aligned isFree prevIsFree
  unfold flag
  rw [flagPrevIsFree_eq, show (2 : Nat) = 2 ^ 1 from rfl, Nat.and_two_pow,
    Nat.testBit_eq_decide_div_mod_eq]
  cases isFree <;> cases prevIsFree <;>
    simp only [Bool.toNat_false, Bool.toNat_true] at packed <;>
    simp <;> omega

omit aligned bounded in
theorem pack_or_prevIsFree :
    pack bytes isFree false ||| flagPrevIsFree = pack bytes isFree true := by
  simp [pack]

theorem pack_and_not_prevIsFree :
    pack bytes isFree true &&& wordNot flagPrevIsFree =
      pack bytes isFree false := by
  apply Nat.eq_of_testBit_eq
  intro index
  have shifted : flagPrevIsFree = 1 <<< 1 := rfl
  rw [shifted, testBit_and_not_shift index (pack_lt aligned bounded _ _)
    (by decide), ← pack_or_prevIsFree, shifted, testBit_or_shift]
  by_cases same : 1 = index
  · subst same
    have clear := flag_prevIsFree_pack aligned isFree false
    unfold flag at clear
    rw [flagPrevIsFree_eq, show (2 : Nat) = 2 ^ 1 from rfl,
      Nat.and_two_pow] at clear
    cases bit : (pack bytes isFree false).testBit 1 <;> simp_all
  · simp [same]

end Pack

/-- Size normalisation is exact: it fails only when the run does not fit a
word. -/
theorem normalizedRunBytesForPayload_eq {payloadBytes : Nat}
    (bounded : payloadBytes < 2 ^ 64) :
    normalizedRunBytesForPayload payloadBytes =
      if 16 + (payloadBytes + 15) / 16 * 16 < 2 ^ 64 then
        some (max (16 + (payloadBytes + 15) / 16 * 16) 48)
      else none := by
  unfold normalizedRunBytesForPayload
  simp only [runAlignment_eq, minFreeRunSize_eq, Nat.add_one_sub_one,
    Option.bind_eq_bind]
  by_cases overflow : 2 ^ 64 ≤ payloadBytes + 15
  · rw [(checkedAdd_eq_none (by decide)).mpr overflow, if_neg (by omega)]
    rfl
  have first : checkedAdd payloadBytes 15 = some (payloadBytes + 15) :=
    (checkedAdd_eq_some (by decide)).mpr ⟨by omega, rfl⟩
  have masked : payloadBytes + 15 &&& wordNot 15 =
      (payloadBytes + 15) / 16 * 16 :=
    and_wordNot_lowMask 4 (by omega) (by decide)
  rw [first, Option.bind_some, masked]
  generalize rounded : (payloadBytes + 15) / 16 * 16 = payload
  by_cases headerOverflow : 2 ^ 64 ≤ 16 + payload
  · rw [(checkedAdd_eq_none (by omega)).mpr headerOverflow,
      if_neg (by omega)]
    rfl
  have second : checkedAdd 16 payload = some (16 + payload) :=
    (checkedAdd_eq_some (by omega)).mpr ⟨by omega, rfl⟩
  have third : checkedAdd (16 + payload) 15 = some (16 + payload + 15) :=
    (checkedAdd_eq_some (by decide)).mpr ⟨by omega, rfl⟩
  have maskedAgain : 16 + payload + 15 &&& wordNot 15 =
      (16 + payload + 15) / 16 * 16 :=
    and_wordNot_lowMask 4 (by omega) (by decide)
  have exact : (16 + payload + 15) / 16 * 16 = 16 + payload := by omega
  rw [second, Option.bind_some, third, Option.bind_some, maskedAgain, exact,
    if_pos (by omega)]
  rfl

/-- A normalised size is a legal run size with room for the payload. -/
theorem normalizedRunBytesForPayload_spec {payloadBytes needed : Nat}
    (bounded : payloadBytes < 2 ^ 64)
    (result : normalizedRunBytesForPayload payloadBytes = some needed) :
    16 ∣ needed ∧ 48 ≤ needed ∧ payloadBytes + 16 ≤ needed ∧
      needed < 2 ^ 64 := by
  rw [normalizedRunBytesForPayload_eq bounded] at result
  split at result
  · obtain rfl := Option.some.inj result
    omega
  · simp at result

theorem or_one_eq {size : Nat} (aligned : 16 ∣ size) :
    size ||| 1 = size + 1 := by
  obtain ⟨half, rfl⟩ : 2 ∣ size := Nat.dvd_trans (by decide) aligned
  exact (Nat.two_pow_add_eq_or_of_lt (i := 1) (by decide) half).symm

theorem alignUpPow2_or_one {size : Nat} (aligned : 16 ∣ size)
    (bounded : size < 2 ^ 64) :
    alignUpPow2 (size ||| 1) minBinBytes = size + 8 := by
  unfold alignUpPow2
  have mask : minBinBytes - 1 = 7 := rfl
  simp only [mask]
  rw [or_one_eq aligned, wrapAdd_eq (by omega)]
  have masked : size + 1 + 7 &&& wordNot 7 = (size + 1 + 7) / 8 * 8 :=
    and_wordNot_lowMask 3 (by omega) (by decide)
  rw [masked]
  omega

theorem binIndexFor_eq {size : Nat} (aligned : 16 ∣ size)
    (bounded : size < 2 ^ 64) :
    binIndexFor size =
      if size < 4096 then size / 8
      else min (512 + (bitWidth (size + 7) - 13)) 535 := by
  unfold binIndexFor
  have cutoff : linearBinCutoff = 4096 := rfl
  have width : bitWidth 4096 = 13 := by decide
  simp only [alignUpPow2_or_one aligned bounded, cutoff, width]
  by_cases small : size < 4096
  · rw [if_pos (by omega), if_pos small]
    have shifted : (size + 8) >>> minBinShift = (size + 8) / 8 :=
      Nat.shiftRight_eq_div_pow _ 3
    omega
  · rw [if_neg (by omega), if_neg small]
    simp

theorem binIndexFor_lt {size : Nat} (aligned : 16 ∣ size)
    (bounded : size < 2 ^ 64) : binIndexFor size < 536 := by
  rw [binIndexFor_eq aligned bounded]
  split <;> omega

theorem binIndexFor_mono {first second : Nat} (firstAligned : 16 ∣ first)
    (secondAligned : 16 ∣ second) (bounded : second < 2 ^ 64)
    (ordered : first ≤ second) : binIndexFor first ≤ binIndexFor second := by
  rw [binIndexFor_eq firstAligned (by omega),
    binIndexFor_eq secondAligned bounded]
  have widths : bitWidth (first + 7) ≤ bitWidth (second + 7) :=
    bitWidth_mono (by omega)
  split <;> split <;> omega

/-- A run in a later bin than the request is larger than the request. -/
theorem lt_of_binIndexFor_lt {first second : Nat} (firstAligned : 16 ∣ first)
    (secondAligned : 16 ∣ second) (firstBound : first < 2 ^ 64)
    (ordered : binIndexFor first < binIndexFor second) : first < second := by
  by_contra notLess
  have := binIndexFor_mono secondAligned firstAligned firstBound
    (by omega : second ≤ first)
  omega

theorem eq_of_binIndexFor_eq {first second : Nat} (firstAligned : 16 ∣ first)
    (secondAligned : 16 ∣ second) (firstBound : first < 2 ^ 64)
    (secondBound : second < 2 ^ 64)
    (same : binIndexFor first = binIndexFor second)
    (linear : binIndexFor first < 512) : first = second := by
  rw [binIndexFor_eq firstAligned firstBound,
    binIndexFor_eq secondAligned secondBound] at same
  rw [binIndexFor_eq firstAligned firstBound] at linear
  split at same <;> split at same <;> split at linear <;> omega

end Runner

end Allocazam
