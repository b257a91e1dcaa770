import Mathlib

/-!
# Cellos.Memory.UserWalk

The page-table walker behind every user copy (`task/user_copy/sv39_probe.rs`,
`sv39_leaf`) against the translation the hardware performs.  The walker reads the
raw entries of a tree with masks and shifts.  The architecture is stated apart
from it: what one entry means at its level (`sv39Entry`, `x86Entry`), and a walk
that carries the rights of the path (`translate`).
-/

namespace Cellos.UserCopy

open Nat

variable (mem : Nat → Nat) (va : Nat)

/-! ## The walker -/

/-- The riscv64 loop of `sv39_leaf` with `n` levels to go (`level = 3 - n`): the flag
bits of the leaf and the physical address. -/
def sv39Leaf : Nat → Nat → Option (Nat × Nat)
  | 0, _ => none
  | n + 1, tablePa =>
    let pte := mem (tablePa + (va >>> (12 + 9 * n) &&& 0x1FF) * 8)
    if pte &&& 1 = 0 then none
    else if pte &&& (2 ||| 4 ||| 8) ≠ 0 then
      some (pte &&& 0xFF, ((pte >>> 10 &&& (2 ^ 44 - 1)) <<< 12) ||| (va &&& (2 ^ (12 + 9 * n) - 1)))
    else sv39Leaf n ((pte >>> 10 &&& (2 ^ 44 - 1)) <<< 12)

/-- The x86_64 loop of `sv39_leaf` with `n` levels to go (`level = 4 - n`); the bits are
those of Sv39. -/
def x86Leaf : Nat → Nat → Option (Nat × Nat)
  | 0, _ => none
  | n + 1, tablePa =>
    let pte := mem (tablePa + (va >>> (12 + 9 * n) &&& 0x1FF) * 8)
    if pte &&& 1 = 0 then none
    else if n = 0 ∨ pte &&& (1 <<< 7) ≠ 0 then
      some (1 ||| 2 ||| (if pte &&& 2 ≠ 0 then 4 else 0) ||| (if pte &&& 4 ≠ 0 then 16 else 0),
        pte &&& 0x000FFFFFFFFFF000)
    else x86Leaf n (pte &&& 0x000FFFFFFFFFF000)

/-! ## The architectures -/

/-- A translation as a user access sees it. -/
structure Translation where
  pa : Nat
  user : Bool
  write : Bool
  deriving DecidableEq

/-- What a walker's answer says about user accesses.  The copies test `SV39_USER` together with
`SV39_READ`, which is left out here, or `SV39_WRITE`; `validate_kernel_range` tests one of the
latter two without `SV39_USER`. -/
def report (leaf : Nat × Nat) : Translation :=
  ⟨leaf.2, leaf.1 &&& 16 ≠ 0, leaf.1 &&& (16 ||| 4) = 16 ||| 4⟩

/-- What one entry means to the hardware. -/
inductive Entry where
  | absent
  | reserved
  | leaf (base : Nat) (user write : Bool)
  | table (base : Nat) (user write : Bool)

/-- An Sv39 entry `n` levels above the last. -/
def sv39Entry (n pte : Nat) : Entry :=
  let ppn := pte / 2 ^ 10 % 2 ^ 44
  if !pte.testBit 0 then .absent
  else if pte / 2 ^ 54 % 2 ^ 10 ≠ 0 then .reserved
  else if pte.testBit 1 || pte.testBit 3 then
    -- writable pages are readable, and a superpage is aligned to its size
    if pte.testBit 2 && !pte.testBit 1 || ppn % 2 ^ (9 * n) ≠ 0 then .reserved
    else .leaf (ppn * 2 ^ 12) (pte.testBit 4) (pte.testBit 2)
  else if pte.testBit 2 || pte.testBit 4 || pte.testBit 6 || pte.testBit 7 then .reserved
  else .table (ppn * 2 ^ 12) true true

/-- An x86_64 entry `n` levels above the last.  Bit 12 of a large leaf is its memory
type; the bits between it and the page's base are reserved. -/
def x86Entry (n pte : Nat) : Entry :=
  let user := pte.testBit 2
  let write := pte.testBit 1
  if !pte.testBit 0 then .absent
  else if n = 0 || pte.testBit 7 then
    if 3 ≤ n || pte / 2 ^ 13 % 2 ^ (9 * n - 1) ≠ 0 then .reserved
    else .leaf (pte / 2 ^ (12 + 9 * n) % 2 ^ (40 - 9 * n) * 2 ^ (12 + 9 * n)) user write
  else .table (pte / 2 ^ 12 % 2 ^ 40 * 2 ^ 12) user write

variable (decode : Nat → Nat → Entry)

/-- No entry reachable from a table of `n` levels is reserved. -/
def wellFormed : Nat → Nat → Bool
  | 0, _ => true
  | n + 1, table => (List.range 512).all fun i =>
    match decode n (mem (table + i * 8)) with
    | .absent | .leaf .. => true
    | .reserved => false
    | .table next _ _ => wellFormed n next

/-- The hardware's walk: every level's rights are needed, and the page's base is joined
with the rest of the address. -/
def translate : Bool → Bool → Nat → Nat → Option Translation
  | _, _, 0, _ => none
  | user, write, n + 1, table =>
    match decode n (mem (table + va / 2 ^ (12 + 9 * n) % 512 * 8)) with
    | .absent | .reserved => none
    | .leaf base u w => some ⟨base + va % 2 ^ (12 + 9 * n), user && u, user && u && write && w⟩
    | .table next u w => translate (user && u) (write && w) n next

/-! ## Fields of an entry -/

variable {decode}

theorem and_bit (x i : Nat) : x &&& 2 ^ i = if x.testBit i then 2 ^ i else 0 := by
  rw [and_two_pow]
  cases x.testBit i <;> simp

theorem index_eq (s : Nat) : va >>> s &&& 0x1FF = va / 2 ^ s % 512 := by
  rw [shiftRight_eq_div_pow]
  exact and_two_pow_sub_one_eq_mod _ 9

theorem ppn_eq (pte : Nat) :
    (pte >>> 10 &&& (2 ^ 44 - 1)) <<< 12 = pte / 2 ^ 10 % 2 ^ 44 * 2 ^ 12 := by
  rw [and_two_pow_sub_one_eq_mod, shiftRight_eq_div_pow, shiftLeft_eq]

theorem address_eq (pte : Nat) : pte &&& 0x000FFFFFFFFFF000 = pte / 2 ^ 12 % 2 ^ 40 * 2 ^ 12 := by
  have hmask : (0x000FFFFFFFFFF000 : Nat) = (2 ^ 40 - 1) <<< 12 := by decide
  rw [hmask, ← shiftRight_eq_div_pow, ← and_two_pow_sub_one_eq_mod, ← shiftLeft_eq]
  apply eq_of_testBit_eq
  intro i
  simp only [testBit_and, testBit_shiftLeft, testBit_shiftRight]
  rcases lt_or_ge i 12 with hi | hi
  · simp [not_le.mpr hi]
  · simp [hi]

theorem report_eq (bits pa : Nat) :
    report (bits, pa) = ⟨pa, bits.testBit 4, bits.testBit 4 && bits.testBit 2⟩ := by
  have huser : bits &&& 16 = _ := and_bit bits 4
  have hwrite : bits &&& 4 = _ := and_bit bits 2
  rw [report, and_or_distrib_left, huser, hwrite]
  cases bits.testBit 4 <;> cases bits.testBit 2 <;> rfl

theorem join_eq (h : ppn % 2 ^ (9 * n) = 0) :
    ppn * 2 ^ 12 ||| (va &&& (2 ^ (12 + 9 * n) - 1)) = ppn * 2 ^ 12 + va % 2 ^ (12 + 9 * n) := by
  obtain ⟨k, rfl⟩ := dvd_of_mod_eq_zero h
  have hbase : 2 ^ (9 * n) * k * 2 ^ 12 = 2 ^ (12 + 9 * n) * k := by
    rw [pow_add, mul_comm, mul_assoc]
  rw [hbase, and_two_pow_sub_one_eq_mod, two_pow_add_eq_or_of_lt (mod_lt _ (Nat.two_pow_pos _))]

/-! ## Sv39 -/

/-- What an entry that is not reserved is, in the bits the walker tests. -/
theorem sv39Entry_cases (n pte : Nat) :
    let ppn := pte / 2 ^ 10 % 2 ^ 44
    pte &&& 1 = 0 ∧ sv39Entry n pte = .absent ∨ sv39Entry n pte = .reserved ∨
    pte &&& 1 ≠ 0 ∧ pte &&& (2 ||| 4 ||| 8) ≠ 0 ∧ ppn % 2 ^ (9 * n) = 0 ∧
      sv39Entry n pte = .leaf (ppn * 2 ^ 12) (pte.testBit 4) (pte.testBit 2) ∨
    pte &&& 1 ≠ 0 ∧ pte &&& (2 ||| 4 ||| 8) = 0 ∧
      sv39Entry n pte = .table (ppn * 2 ^ 12) true true := by
  have hvalid : pte &&& 1 = _ := and_bit pte 0
  have hread : pte &&& 2 = _ := and_bit pte 1
  have hwrite : pte &&& 4 = _ := and_bit pte 2
  have hexec : pte &&& 8 = _ := and_bit pte 3
  rw [and_or_distrib_left, and_or_distrib_left, hvalid, hread, hwrite, hexec, sv39Entry]
  split_ifs <;> simp_all

theorem wellFormed_entry (h : wellFormed mem decode (n + 1) table) :
    decode n (mem (table + va % 512 * 8)) ≠ .reserved ∧
      ∀ {next u w}, decode n (mem (table + va % 512 * 8)) = .table next u w →
        wellFormed mem decode n next := by
  rw [wellFormed, List.all_eq_true] at h
  have hentry := h (va % 512) (List.mem_range.mpr (mod_lt _ (by decide)))
  constructor
  · intro hreserved
    simp [hreserved] at hentry
  · intro next u w htable
    simpa [htable] using hentry

theorem sv39Leaf_eq (h : wellFormed mem sv39Entry n table) :
    (sv39Leaf mem va n table).map report = translate mem va sv39Entry true true n table := by
  induction n generalizing table with
  | zero => rfl
  | succ n ih =>
    obtain ⟨hreserved, hnext⟩ := wellFormed_entry mem (va / 2 ^ (12 + 9 * n)) h
    simp only [sv39Leaf, translate, index_eq, ppn_eq]
    generalize mem (table + va / 2 ^ (12 + 9 * n) % 512 * 8) = pte at hreserved hnext
    rcases sv39Entry_cases n pte with ⟨hv, he⟩ | he | ⟨hv, hleaf, halign, he⟩ | ⟨hv, hleaf, he⟩
    · rw [if_pos hv, he]
      rfl
    · exact absurd he hreserved
    · rw [if_neg hv, if_pos hleaf, he, join_eq va halign, Option.map_some, report_eq]
      have hflags : Nat.testBit 0xFF 4 ∧ Nat.testBit 0xFF 2 := by decide
      simp [hflags]
    · rw [if_neg hv, if_neg (not_not_intro hleaf), he]
      exact ih (hnext he)

/-! ## x86_64 -/

/-- What an entry that is not reserved is, in the bits the walker tests. -/
theorem x86Entry_cases (n pte : Nat) :
    pte &&& 1 = 0 ∧ x86Entry n pte = .absent ∨ x86Entry n pte = .reserved ∨
    pte &&& 1 ≠ 0 ∧ (n = 0 ∨ pte &&& (1 <<< 7) ≠ 0) ∧ n < 3 ∧
      x86Entry n pte = .leaf (pte / 2 ^ (12 + 9 * n) % 2 ^ (40 - 9 * n) * 2 ^ (12 + 9 * n))
        (pte.testBit 2) (pte.testBit 1) ∨
    pte &&& 1 ≠ 0 ∧ ¬(n = 0 ∨ pte &&& (1 <<< 7) ≠ 0) ∧
      x86Entry n pte = .table (pte / 2 ^ 12 % 2 ^ 40 * 2 ^ 12) (pte.testBit 2) (pte.testBit 1) := by
  have hpresent : pte &&& 1 = _ := and_bit pte 0
  have hlarge : pte &&& (1 <<< 7) = _ := and_bit pte 7
  rw [hpresent, hlarge, x86Entry]
  split_ifs <;> simp_all

/-- The condition under which the x86_64 walk is right: at the leaf, the address offset
is what the entry holds below the page's base, and every table of the path has the
rights of the leaf. -/
def Plain : Bool → Bool → Nat → Nat → Prop
  | _, _, 0, _ => True
  | user, write, n + 1, table =>
    let pte := mem (table + va / 2 ^ (12 + 9 * n) % 512 * 8)
    match x86Entry n pte with
    | .absent | .reserved => True
    | .leaf _ u w => va % 2 ^ (12 + 9 * n) = pte / 2 ^ 12 % 2 ^ (9 * n) * 2 ^ 12 ∧
        (u → user) ∧ (u ∧ w → write)
    | .table next u w => Plain (user && u) (write && w) n next

theorem report_x86 (pte pa : Nat) :
    report (1 ||| 2 ||| (if pte &&& 2 ≠ 0 then 4 else 0) ||| (if pte &&& 4 ≠ 0 then 16 else 0), pa) =
      ⟨pa, pte.testBit 2, pte.testBit 2 && pte.testBit 1⟩ := by
  have hwrite : pte &&& 2 = _ := and_bit pte 1
  have huser : pte &&& 4 = _ := and_bit pte 2
  rw [report_eq, hwrite, huser]
  cases pte.testBit 2 <;> cases pte.testBit 1 <;> rfl

theorem base_eq (pte : Nat) (h : n < 3) : pte / 2 ^ 12 % 2 ^ 40 * 2 ^ 12 =
        pte / 2 ^ (12 + 9 * n) % 2 ^ (40 - 9 * n) * 2 ^ (12 + 9 * n) + va % 2 ^ (12 + 9 * n) ↔
      va % 2 ^ (12 + 9 * n) = pte / 2 ^ 12 % 2 ^ (9 * n) * 2 ^ 12 := by
  obtain rfl | rfl | rfl : n = 0 ∨ n = 1 ∨ n = 2 := by omega
  all_goals omega

theorem x86Leaf_eq_iff (user write : Bool) (h : wellFormed mem x86Entry n table) :
    (x86Leaf mem va n table).map report = translate mem va x86Entry user write n table ↔
      Plain mem va user write n table := by
  induction n generalizing user write table with
  | zero => simp [x86Leaf, translate, Plain]
  | succ n ih =>
    obtain ⟨hreserved, hnext⟩ := wellFormed_entry mem (va / 2 ^ (12 + 9 * n)) h
    simp only [x86Leaf, translate, Plain, index_eq, address_eq]
    generalize mem (table + va / 2 ^ (12 + 9 * n) % 512 * 8) = pte at hreserved hnext
    rcases x86Entry_cases n pte with ⟨hv, he⟩ | he | ⟨hv, hleaf, hn, he⟩ | ⟨hv, hleaf, he⟩
    · rw [if_pos hv, he]
      simp
    · exact absurd he hreserved
    · rw [if_neg hv, if_pos hleaf, he, Option.map_some, report_x86]
      simp only [Option.some.injEq, Translation.mk.injEq, base_eq va pte hn]
      cases pte.testBit 2 <;> cases pte.testBit 1 <;> cases user <;> cases write <;> simp
    · rw [if_neg hv, if_neg hleaf, he]
      exact ih _ _ (hnext he)

/-- **The user-copy walker and the hardware**: the Sv39 walk is the hardware's on every well
formed tree, the x86_64 walk exactly where `Plain` holds. -/
theorem walker_agrees_iff (root : Nat) : (wellFormed mem sv39Entry 3 root →
      (sv39Leaf mem va 3 root).map report = translate mem va sv39Entry true true 3 root) ∧
    (wellFormed mem x86Entry 4 root →
      ((x86Leaf mem va 4 root).map report = translate mem va x86Entry true true 4 root ↔
        Plain mem va true true 4 root)) :=
  ⟨sv39Leaf_eq mem va, x86Leaf_eq_iff mem va true true⟩

/-- A 2 MiB user page at `0x200000`, as the kernel writes such entries. -/
def sampleTables (address : Nat) : Nat :=
  if address = 0x1000 then 0x2007
  else if address = 0x2000 then 0x3007
  else if address = 0x3008 then 0x200087
  else 0

/-- The walk for the second 4 KiB of a large page answers with its first. -/
theorem large_page_offset_lost : wellFormed sampleTables x86Entry 4 0x1000 ∧
    (x86Leaf sampleTables 0x201000 4 0x1000).map report = some ⟨0x200000, true, true⟩ ∧
    translate sampleTables 0x201000 x86Entry true true 4 0x1000 = some ⟨0x201000, true, true⟩ := by
  decide +kernel

end Cellos.UserCopy
