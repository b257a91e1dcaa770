import Mathlib

/-!
# Cellos.Authority.Signature

The shape of an ECDSA P-256 signature (`is_strict_p256_der_signature` in `validation.rs`).

`IsDer` says what the DER encoding of two integers is: a `SEQUENCE` of two `INTEGER`s with the
shortest content octets.  The check accepts exactly the encodings of positive integers whose
content takes at most 33 bytes (`isStrict_iff`).  The 33rd byte is there for the sign of an integer
of 256 bits, and the check does not ask that it is zero: integers up to `2 ^ 263` pass.
-/

namespace Cellos.Authority.Signature

open List

/-- One turn of the loop: the offset after the integer. -/
def integerEnd (signature : List UInt8) (offset : Nat) : Option Nat :=
  if offset + 2 > signature.length ∨ signature.getD offset 0 ≠ 0x02 then none
  else
    let length := (signature.getD (offset + 1) 0).toNat
    let offset := offset + 2
    if length = 0 ∨ length > 33 ∨ offset + length > signature.length then none
    else
      let integer := (signature.drop offset).take length
      if integer.getD 0 0 &&& 0x80 ≠ 0 ∨
          (length > 1 ∧ integer.getD 0 0 = 0 ∧ integer.getD 1 0 &&& 0x80 = 0) ∨
          integer.all (· = 0) then none
      else some (offset + length)

def isStrictP256DerSignature (signature : List UInt8) : Bool :=
  if ¬(8 ≤ signature.length ∧ signature.length ≤ 72) ∨ signature.getD 0 0 ≠ 0x30 ∨
      (signature.getD 1 0).toNat ≠ signature.length - 2 then false
  else ((integerEnd signature 2).bind (integerEnd signature)) = some signature.length

/-! ## DER -/

/-- The number that bytes stand for, most significant first. -/
def value (bytes : List UInt8) : Nat := Nat.ofDigits 256 (bytes.reverse.map UInt8.toNat)

/-- Content octets of an integer that is not negative: the sign bit is clear. -/
structure Encodes (bytes : List UInt8) (n : Nat) : Prop where
  sign : ∃ first rest, bytes = first :: rest ∧ first.toNat < 128
  value : value bytes = n

/-- The content octets that DER asks for: there are no shorter ones. -/
def Minimal (bytes : List UInt8) (n : Nat) : Prop :=
  Encodes bytes n ∧ ∀ other, Encodes other n → bytes.length ≤ other.length

/-- A `SEQUENCE` of two `INTEGER`s, with lengths in the short form. -/
def IsDer (signature : List UInt8) (r s : Nat) : Prop :=
  ∃ a b, Minimal a r ∧ Minimal b s ∧ 4 + a.length + b.length < 128 ∧
    signature = 0x30 :: UInt8.ofNat (4 + a.length + b.length) ::
      0x02 :: UInt8.ofNat a.length :: (a ++ 0x02 :: UInt8.ofNat b.length :: b)

theorem value_cons (first : UInt8) (rest : List UInt8) :
    value (first :: rest) = value rest + 256 ^ rest.length * first.toNat := by
  simp [value, Nat.ofDigits_append]

theorem digits_lt (bytes : List UInt8) : ∀ x ∈ bytes.reverse.map UInt8.toNat, x < 256 := by
  simpa using fun x _ => UInt8.toNat_lt x

theorem value_lt (bytes : List UInt8) : value bytes < 256 ^ bytes.length := by
  simpa [value] using Nat.ofDigits_lt_base_pow_length (by norm_num) (digits_lt bytes)

theorem value_eq_zero (bytes : List UInt8) : value bytes = 0 ↔ ∀ x ∈ bytes, x = 0 := by
  induction bytes with
  | nil => simp [value]
  | cons first rest ih =>
    rw [value_cons, Nat.add_eq_zero_iff, ih, Nat.mul_eq_zero, forall_mem_cons]
    simp [← UInt8.toNat_inj, and_comm]

theorem and_sign_bit (x : UInt8) : x &&& 0x80 = 0 ↔ x.toNat < 128 := by
  have hbits : ∀ n : Fin 256, n.val &&& 128 = 0 ↔ n.val < 128 := by decide +kernel
  rw [← UInt8.toNat_inj]
  exact hbits ⟨x.toNat, x.toNat_lt⟩

/-- A first byte that the sign does not need is missing. -/
def Tight : List UInt8 → Prop
  | first :: second :: _ => first = 0 → 128 ≤ second.toNat
  | _ => True

variable (h : Encodes bytes n)

include h

theorem Encodes.length_pos : 0 < bytes.length := by
  obtain ⟨⟨first, rest, rfl, -⟩, -⟩ := h
  simp

/-- Two bounds say how long an encoding is: the sign bit is clear, and no byte is to spare. -/
theorem Encodes.lt : 2 * n < 256 ^ bytes.length := by
  obtain ⟨⟨first, rest, rfl, hfirst⟩, rfl⟩ := h
  have hrest := value_lt rest
  have hmul := Nat.mul_le_mul_left (256 ^ rest.length) (Nat.le_of_lt_succ hfirst)
  rw [value_cons, length_cons, Nat.pow_succ]
  omega

theorem Encodes.le (hpos : 0 < n) (htight : Tight bytes) : 256 ^ bytes.length ≤ 512 * n := by
  obtain ⟨⟨first, rest, rfl, -⟩, rfl⟩ := h
  cases rest with
  | nil => simpa using Nat.le_mul_of_pos_right 256 hpos |>.trans (by omega)
  | cons second rest =>
    simp only [value_cons, length_cons, Nat.pow_succ]
    by_cases hfirst : first = 0
    · have hmul := Nat.mul_le_mul_left (256 ^ rest.length) (htight hfirst)
      omega
    · have hone : 0 < first.toNat := Nat.pos_of_ne_zero fun h => hfirst (UInt8.toNat_inj.mp h)
      have hmul := Nat.mul_le_mul_left (256 ^ rest.length * 256) hone
      omega

theorem minimal_iff (hpos : 0 < n) : Minimal bytes n ↔ Tight bytes := by
  constructor
  · rintro ⟨-, hmin⟩
    obtain ⟨⟨first, rest, rfl, -⟩, rfl⟩ := h
    cases rest with
    | nil => trivial
    | cons second rest =>
      intro hzero
      by_contra hsecond
      have hshort := hmin (second :: rest)
        ⟨⟨second, rest, rfl, by omega⟩, by simp [value_cons, hzero]⟩
      simp at hshort
  · intro htight
    refine ⟨h, fun other hother => Nat.le_of_lt_succ ?_⟩
    have hle := h.le hpos htight
    have hlt := hother.lt
    apply (Nat.pow_lt_pow_iff_right (by norm_num : 1 < 256)).mp
    omega

omit h

/-- 33 bytes hold the integers below `2 ^ 263`. -/
theorem Minimal.length_le (h : Minimal bytes n) (hpos : 0 < n) :
    bytes.length ≤ 33 ↔ n < 2 ^ 263 := by
  have hlt := h.1.lt
  have hle := h.1.le hpos ((minimal_iff h.1 hpos).mp h)
  constructor
  · intro hlength
    have hpow := Nat.pow_le_pow_right (by norm_num : 0 < 256) hlength
    omega
  · intro hn
    apply Nat.le_of_lt_succ
    apply (Nat.pow_lt_pow_iff_right (by norm_num : 1 < 256)).mp
    omega

theorem Minimal.unique (ha : Minimal a n) (hb : Minimal b n) : a = b := by
  have hlength : a.length = b.length := Nat.le_antisymm (ha.2 b hb.1) (hb.2 a ha.1)
  have hdigits : a.reverse.map UInt8.toNat = b.reverse.map UInt8.toNat := by
    apply Nat.ofDigits_inj_of_len_eq (by norm_num : 1 < 256) (by simpa using hlength)
    · exact digits_lt a
    · exact digits_lt b
    · exact ha.1.value.trans hb.1.value.symm
  exact reverse_injective (map_injective_iff.mpr (fun _ _ => UInt8.toNat_inj.mp) hdigits)

theorem IsDer.unique (hx : IsDer x r s) (hy : IsDer y r s) : x = y := by
  obtain ⟨a, b, ha, hb, -, rfl⟩ := hx
  obtain ⟨a', b', ha', hb', -, rfl⟩ := hy
  rw [ha.unique ha', hb.unique hb']

theorem IsDer.inj (h : IsDer x r s) (h' : IsDer x r' s') : r = r' ∧ s = s' := by
  obtain ⟨a, b, ha, hb, hlt, rfl⟩ := h
  obtain ⟨a', b', ha', hb', hlt', heq⟩ := h'
  simp only [cons.injEq, true_and] at heq
  obtain ⟨-, hcount, hrest⟩ := heq
  have hlength : a.length = a'.length := by
    have hnat := congrArg UInt8.toNat hcount
    rw [UInt8.toNat_ofNat', UInt8.toNat_ofNat'] at hnat
    omega
  obtain ⟨rfl, htail⟩ := append_inj hrest hlength
  simp only [cons.injEq, true_and] at htail
  obtain ⟨-, rfl⟩ := htail
  exact ⟨ha.1.value.symm.trans ha'.1.value, hb.1.value.symm.trans hb'.1.value⟩

/-! ## the check -/

/-- A positive integer with content octets that fit. -/
def Fits (bytes : List UInt8) (n : Nat) : Prop := 0 < n ∧ n < 2 ^ 263 ∧ Minimal bytes n

theorem fits_iff (bytes : List UInt8) : (∃ n, Fits bytes n) ↔
    bytes ≠ [] ∧ bytes.length ≤ 33 ∧ bytes.getD 0 0 &&& 0x80 = 0 ∧
      ¬(bytes.length > 1 ∧ bytes.getD 0 0 = 0 ∧ bytes.getD 1 0 &&& 0x80 = 0) ∧
      ¬ bytes.all (· = 0) := by
  have htight : Tight bytes ↔
      ¬(bytes.length > 1 ∧ bytes.getD 0 0 = 0 ∧ bytes.getD 1 0 &&& 0x80 = 0) := by
    rcases bytes with _ | ⟨first, _ | ⟨second, rest⟩⟩ <;> simp [Tight, and_sign_bit]
  have hzero : bytes.all (· = 0) = true ↔ value bytes = 0 := by simp [value_eq_zero]
  rw [← htight, hzero, and_sign_bit]
  constructor
  · rintro ⟨n, hpos, hlt, hmin⟩
    obtain ⟨⟨first, rest, rfl, hfirst⟩, rfl⟩ := hmin.1
    exact ⟨by simp, (hmin.length_le hpos).mpr hlt, hfirst, (minimal_iff hmin.1 hpos).mp hmin,
      hpos.ne'⟩
  · rintro ⟨hne, hlength, hfirst, htight, hpos⟩
    obtain ⟨first, rest, rfl⟩ := exists_cons_of_ne_nil hne
    have hpos := Nat.pos_of_ne_zero hpos
    have hmin := (minimal_iff ⟨⟨first, rest, rfl, hfirst⟩, rfl⟩ hpos).mpr htight
    exact ⟨_, hpos, (hmin.length_le hpos).mp hlength, hmin⟩

/-- The loop finds an integer and the bytes after it. -/
theorem integerEnd_iff (pre tail : List UInt8) (next : Nat) :
    integerEnd (pre ++ tail) pre.length = some next ↔
      ∃ bytes post, (∃ n, Fits bytes n) ∧ next = pre.length + 2 + bytes.length ∧
        tail = 0x02 :: UInt8.ofNat bytes.length :: (bytes ++ post) := by
  constructor
  · intro h
    rcases tail with _ | ⟨tag, _ | ⟨length, rest⟩⟩
    · simp [integerEnd] at h
    · simp [integerEnd] at h
    have hdrop : (pre ++ tag :: length :: rest).drop (pre.length + 2) = rest := by
      simp [drop_append]
    simp only [integerEnd, hdrop, getD_eq_getElem?_getD] at h
    simp at h
    obtain ⟨rfl, ⟨hne, hle, hrest⟩, ⟨hsign, htight, hzero⟩, rfl⟩ := h
    have hlength : (rest.take length.toNat).length = length.toNat := by
      rw [length_take]
      omega
    refine ⟨rest.take length.toNat, rest.drop length.toNat, (fits_iff _).mpr ?_, ?_, ?_⟩
    · rw [← length_pos_iff, hlength]
      exact ⟨by omega, hle, by simpa using hsign, by simpa using htight, by simpa using hzero⟩
    · rw [hlength]
    · rw [hlength, UInt8.ofNat_toNat, take_append_drop]
  · rintro ⟨bytes, post, hfits, rfl, rfl⟩
    obtain ⟨hne, hle, hsign, htight, hzero⟩ := (fits_iff bytes).mp hfits
    have hdrop : (pre ++ 2 :: UInt8.ofNat bytes.length :: (bytes ++ post)).drop (pre.length + 2) =
        bytes ++ post := by
      simp [drop_append]
    have hlength : (UInt8.ofNat bytes.length).toNat = bytes.length := by
      rw [UInt8.toNat_ofNat', Nat.mod_eq_of_lt (by omega)]
    simp only [integerEnd, hdrop, getD_eq_getElem?_getD] at hsign htight ⊢
    simp [hlength]
    exact ⟨⟨hne, hle, by omega⟩, hsign, by simpa using htight, by simpa using hzero⟩

/-- **The check**: it accepts the encodings of two positive integers that fit in 33 bytes. -/
theorem isStrict_iff (signature : List UInt8) : isStrictP256DerSignature signature = true ↔
    ∃ r s, (0 < r ∧ r < 2 ^ 263) ∧ (0 < s ∧ s < 2 ^ 263) ∧ IsDer signature r s := by
  constructor
  · intro h
    rcases signature with _ | ⟨tag, _ | ⟨length, tail⟩⟩
    · simp [isStrictP256DerSignature] at h
    · simp [isStrictP256DerSignature] at h
    simp [isStrictP256DerSignature, Option.bind_eq_some_iff] at h
    obtain ⟨⟨-, rfl, hlength⟩, middle, hfirst, hsecond⟩ := h
    obtain ⟨a, post, ⟨r, hr, hr', ha⟩, rfl, rfl⟩ :=
      (integerEnd_iff [0x30, length] tail middle).mp hfirst
    have hle := (ha.length_le hr).mpr hr'
    obtain ⟨b, rest, ⟨s, hs, hs', hb⟩, hend, rfl⟩ := (integerEnd_iff
      (0x30 :: length :: 0x02 :: UInt8.ofNat a.length :: a) post _).mp
        (by simpa [Nat.add_comm, Nat.add_left_comm] using hsecond)
    have hle' := (hb.length_le hs).mpr hs'
    obtain rfl : rest = [] := by
      rw [← length_eq_zero_iff]
      simp at hend
      omega
    refine ⟨r, s, ⟨hr, hr'⟩, ⟨hs, hs'⟩, a, b, ha, hb, by omega, ?_⟩
    have hcount : length = UInt8.ofNat (4 + a.length + b.length) := by
      rw [← UInt8.ofNat_toNat (x := length), hlength]
      congr 1
      simp
      omega
    simp [hcount]
  · rintro ⟨r, s, ⟨hr, hr'⟩, ⟨hs, hs'⟩, a, b, ha, hb, -, rfl⟩
    have hle := (ha.length_le hr).mpr hr'
    have hle' := (hb.length_le hs).mpr hs'
    have hcount : (UInt8.ofNat (4 + a.length + b.length)).toNat = 4 + a.length + b.length := by
      rw [UInt8.toNat_ofNat', Nat.mod_eq_of_lt (by omega)]
    generalize UInt8.ofNat (4 + a.length + b.length) = count at hcount ⊢
    have hfirst := (integerEnd_iff [0x30, count] _ _).mpr
      ⟨a, 0x02 :: UInt8.ofNat b.length :: b, ⟨r, hr, hr', ha⟩, rfl, rfl⟩
    have hsecond := (integerEnd_iff (0x30 :: count :: 0x02 :: UInt8.ofNat a.length :: a) _ _).mpr
      ⟨b, [], ⟨s, hs, hs', hb⟩, rfl, rfl⟩
    have hapos : 0 < a.length := ha.1.length_pos
    have hbpos : 0 < b.length := hb.1.length_pos
    simp [isStrictP256DerSignature, Option.bind_eq_some_iff] at hfirst hsecond ⊢
    exact ⟨⟨⟨by omega, by omega⟩, by omega⟩, _, hfirst, by convert hsecond using 2 <;> omega⟩

/-- Two positive integers that fit in 33 bytes, one of them with more than 256 bits. -/
def Oversized (signature : List UInt8) : Prop :=
  ∃ r s, (0 < r ∧ r < 2 ^ 263) ∧ (0 < s ∧ s < 2 ^ 263) ∧ IsDer signature r s ∧
    (2 ^ 256 ≤ r ∨ 2 ^ 256 ≤ s)

/-- **Strict P-256 signatures**: unless an integer is oversized, the check accepts exactly the DER
encodings of two positive integers below `2 ^ 256`. -/
theorem strict_iff_der_of_not_oversized (signature : List UInt8) :
    (isStrictP256DerSignature signature = true ↔
      ∃ r s, (0 < r ∧ r < 2 ^ 256) ∧ (0 < s ∧ s < 2 ^ 256) ∧ IsDer signature r s ∧
        ∀ other, IsDer other r s → other = signature) ↔ ¬ Oversized signature := by
  rw [isStrict_iff]
  constructor
  · rintro hstrict ⟨r, s, hr, hs, hder, hbig⟩
    obtain ⟨r', s', hr', hs', hder', -⟩ := hstrict.mp ⟨r, s, hr, hs, hder⟩
    obtain ⟨rfl, rfl⟩ := hder.inj hder'
    omega
  · intro hsmall
    constructor
    · rintro ⟨r, s, hr, hs, hder⟩
      have hbound : ¬(2 ^ 256 ≤ r ∨ 2 ^ 256 ≤ s) := fun h => hsmall ⟨r, s, hr, hs, hder, h⟩
      exact ⟨r, s, by omega, by omega, hder, fun _ hother => hother.unique hder⟩
    · rintro ⟨r, s, hr, hs, hder, -⟩
      exact ⟨r, s, by omega, by omega, hder⟩

/-- The integers `2 ^ 256` and 1 pass. -/
theorem strict_accepts_oversized :
    ∃ signature, isStrictP256DerSignature signature = true ∧ IsDer signature (2 ^ 256) 1 := by
  refine ⟨[0x30, 0x26, 0x02, 0x21, 0x01] ++ replicate 32 0 ++ [0x02, 0x01, 0x01], by decide,
    0x01 :: replicate 32 0, [0x01], ?_, ?_, by decide, by decide⟩
  · have hencodes : Encodes (0x01 :: replicate 32 0) (2 ^ 256) :=
      ⟨⟨_, _, rfl, by decide⟩, by decide⟩
    exact (minimal_iff hencodes (by norm_num)).mpr (by simp [Tight, replicate])
  · exact (minimal_iff ⟨⟨_, _, rfl, by decide⟩, by decide⟩ (by norm_num)).mpr trivial

end Cellos.Authority.Signature
